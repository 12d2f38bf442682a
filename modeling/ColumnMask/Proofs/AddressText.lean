import Mathlib
import ColumnMask.Address
import ColumnMask.Proofs.MacText

/-!
# Texts of internet addresses

The text of an address is read back. For version 6 it does not matter which run of zero groups was
left out: the reader fills in as many groups as are missing at that place.

- `IpAddress.dotted?_dotted`: four numbers with points between them.
- `IpAddress.groups?_first`: groups with colons between them, up to a gap or to the end.
- `IpAddress.eightGroups?_full`, `IpAddress.eightGroups?_gap`, `IpAddress.eightGroups?_mapped`: the
  three forms of a version 6 address.
- `IpAddress.parse?_text`: the text of every address is read as the address.
-/

namespace ColumnMask

/-! ## Digits -/

namespace Text

theorem toList_toString_nat (n : Nat) : (toString n).toList = ofNat n := by
  rw [ofNat_eq_toDigits]
  exact Nat.toList_repr

theorem hexValue?_digitChar : ∀ n < 16, hexValue? (Nat.digitChar n) = some n := by
  decide

/-- Decimal digits are hexadecimal digits too. -/
theorem hexValue?_of_isDigit {c : Char} (h : isDigit c = true) : (hexValue? c).isSome := by
  have hrange : '0' ≤ c ∧ c ≤ '9' := isDigit_iff.mp h
  simp [hexValue?, hrange]

theorem hexValue?_of_mem_toDigits {n : Nat} {c : Char} (h : c ∈ Nat.toDigits 16 n) :
    (hexValue? c).isSome := by
  -- from the last digit backwards
  induction n using Nat.strongRecOn with
  | ind n ih =>
    rw [Nat.toDigits_eq_if (by decide)] at h
    split_ifs at h with hlt
    · rw [List.mem_singleton.mp h, hexValue?_digitChar n hlt]
      rfl
    · rcases List.mem_append.mp h with h | h
      · exact ih (n / 16) (by omega) h
      · rw [List.mem_singleton.mp h, hexValue?_digitChar _ (Nat.mod_lt _ (by decide))]
        rfl

theorem foldl_toDigits (n : Nat) :
    (Nat.toDigits 16 n).foldl (fun n c => 16 * n + (hexValue? c).getD 0) 0 = n := by
  induction n using Nat.strongRecOn with
  | ind n ih =>
    rw [Nat.toDigits_eq_if (by decide)]
    split_ifs with hlt
    · rw [List.foldl_cons, List.foldl_nil, hexValue?_digitChar n hlt]
      simp
    · rw [List.foldl_append, ih (n / 16) (by omega), List.foldl_cons, List.foldl_nil,
        hexValue?_digitChar _ (Nat.mod_lt _ (by decide)), Option.getD_some]
      exact Nat.div_add_mod n 16

end Text

namespace IpAddress

open Text

variable {n g room : Nat} {gs head tail : List Nat} {cs more rest : List Char}

/-! ## Dotted numbers -/

theorem octet?_ofNat (h : n < 256) (hrest : NoDigitHead rest) :
    octet? (Text.ofNat n ++ rest) = some (n, rest) := by
  have hlength : (Text.ofNat n).length ≤ 3 := length_ofNat_le (by decide) (by omega)
  have hzero : ¬ (1 < (Text.ofNat n).length ∧ (Text.ofNat n).head? = some '0') := by
    rintro ⟨hlong, hhead⟩
    have hn : n ≠ 0 := by
      rintro rfl
      exact absurd hlong (by decide)
    exact head?_ofNat hn hhead
  unfold octet?
  simp only [takeWhile_digits (digits_ofNat n) hrest, digitsValue_ofNat, List.drop_left]
  rw [if_neg]
  simp only [List.isEmpty_iff, not_or]
  exact ⟨ofNat_ne_nil n, by omega, by omega, hzero⟩

theorem toList_dotted (n : Nat) : (dotted n).toList =
    Text.ofNat (n / 16777216 % 256) ++ '.' :: (Text.ofNat (n / 65536 % 256) ++
      '.' :: (Text.ofNat (n / 256 % 256) ++ '.' :: Text.ofNat (n % 256))) := by
  rw [dotted, String.toList_intercalate]
  simp only [List.map_cons, List.map_nil, toList_toString_nat]
  simp [List.intercalate]

theorem noDigitHead_cons {c : Char} (h : isDigit c = false) (cs : List Char) :
    NoDigitHead (c :: cs) := by
  intro d hd
  obtain rfl : c = d := by simpa using hd
  exact h

/-- **Four numbers** with points between them are read. -/
theorem dotted?_dotted (h : n < 2 ^ 32) (hrest : NoDigitHead rest) :
    dotted? ((dotted n).toList ++ rest) = some (n, rest) := by
  have hpoint (cs : List Char) : NoDigitHead ('.' :: cs) := noDigitHead_cons (by decide) cs
  have hafter (cs : List Char) : after? '.' ('.' :: cs) = some cs := rfl
  have hlast : ((n / 16777216 % 256 * 256 + n / 65536 % 256) * 256 + n / 256 % 256) * 256 +
      n % 256 = n := by omega
  rw [toList_dotted]
  simp only [dotted?, List.append_assoc, List.cons_append,
    octet?_ofNat (Nat.mod_lt _ (by decide : 0 < 256)) (hpoint _), hafter, Option.bind_eq_bind,
    Option.bind_some, octet?_ofNat (Nat.mod_lt n (by decide : 0 < 256)) hrest, hlast]
  rfl

theorem drop_takeWhile {α : Type} (p : α → Bool) (l : List α) :
    l.drop (l.takeWhile p).length = l.dropWhile p := by
  conv_lhs =>
    arg 2
    rw [← List.takeWhile_append_dropWhile (p := p) (l := l)]
  exact List.drop_left

/-- There is no dotted number without a point after the first digits. -/
theorem dotted?_eq_none (h : (cs.dropWhile isDigit).head? ≠ some '.') : dotted? cs = none := by
  cases hoctet : octet? cs with
  | none => simp [dotted?, hoctet]
  | some first =>
    obtain ⟨a, after⟩ := first
    -- what is left starts with the first character that is no digit
    have hafter : after = cs.dropWhile isDigit := by
      unfold octet? at hoctet
      dsimp only at hoctet
      split_ifs at hoctet
      rw [← drop_takeWhile]
      exact (congrArg Prod.snd (Option.some.inj hoctet)).symm
    have hpoint : after? '.' after = none := by
      rw [hafter]
      cases hdrop : cs.dropWhile isDigit with
      | nil => rfl
      | cons c rest =>
        rw [hdrop] at h
        exact if_neg fun hc => h (by rw [hc]; rfl)
    simp [dotted?, hoctet, hpoint]

/-! ## Groups -/

theorem toList_groupText (g : Nat) : (groupText g).toList = Nat.toDigits 16 g := by
  rw [groupText, String.toList_ofList]

/-- A text that is empty or begins with a colon. -/
def Ends (cs : List Char) : Prop := ∀ c ∈ cs.head?, c = ':'

theorem ends_colon (cs : List Char) : Ends (':' :: cs) := by
  intro c hc
  exact (Option.some.inj hc).symm

theorem Ends.hexValue? (h : Ends more) : ∀ c ∈ more.head?, (Text.hexValue? c).isSome = false := by
  intro c hc
  rw [h c hc]
  decide

theorem group?_groupText (hg : g < 65536) (h : Ends more) :
    group? ((groupText g).toList ++ more) = some (g, more) := by
  have hlength : (Nat.toDigits 16 g).length ≤ 4 :=
    (Nat.length_toDigits_le_iff (by decide) (by decide)).mpr (by omega)
  have hne : Nat.toDigits 16 g ≠ [] := Nat.toDigits_ne_nil
  have htake := takeWhile_run (p := fun c => (Text.hexValue? c).isSome)
    (fun c hc => hexValue?_of_mem_toDigits (n := g) hc) h.hexValue?
  rw [toList_groupText]
  unfold group?
  simp only [htake, List.drop_left, foldl_toDigits]
  rw [if_neg]
  simp only [List.isEmpty_iff, not_or]
  exact ⟨hne, by omega⟩

/-- A group is not taken for a dotted number. -/
theorem dotted?_groupText (g : Nat) (h : Ends more) :
    dotted? ((groupText g).toList ++ more) = none := by
  refine dotted?_eq_none fun hpoint => ?_
  rw [toList_groupText, List.dropWhile_append] at hpoint
  split_ifs at hpoint with hempty
  · -- all its digits are decimal, and no point follows
    cases more with
    | nil => simp at hpoint
    | cons c more =>
      obtain rfl : c = ':' := h c rfl
      rw [List.dropWhile_cons_of_neg (by decide)] at hpoint
      cases hpoint
  · rw [List.head?_append_of_ne_nil _ (by simpa using hempty)] at hpoint
    have hmem : '.' ∈ Nat.toDigits 16 g :=
      (List.dropWhile_sublist _).mem (List.mem_of_mem_head? hpoint)
    exact absurd (hexValue?_of_mem_toDigits hmem) (by decide)

/-- No group begins with a colon, or where nothing is left. -/
theorem group?_eq_none (h : Ends cs) : group? cs = none := by
  have htake : cs.takeWhile (fun c => (Text.hexValue? c).isSome) = [] := by
    cases cs with
    | nil => rfl
    | cons c cs =>
      obtain rfl : c = ':' := h c rfl
      exact List.takeWhile_cons_of_neg (by decide)
  simp [group?, htake]

theorem dotted?_eq_none_of_ends (h : Ends cs) : dotted? cs = none := by
  refine dotted?_eq_none fun hpoint => ?_
  cases cs with
  | nil => simp at hpoint
  | cons c cs =>
    obtain rfl : c = ':' := h c rfl
    rw [List.dropWhile_cons_of_neg (by decide)] at hpoint
    cases hpoint

/-- A gap between groups, or the end of the text. -/
def Gap (rest : List Char) : Prop := rest = [] ∨ ∃ more, rest = ':' :: ':' :: more

theorem Gap.ends (h : Gap rest) : Ends rest := by
  rcases h with rfl | ⟨more, rfl⟩
  · simp [Ends]
  · exact ends_colon _

/-- No group is read where none is. -/
theorem groups?_gap (room : Nat) (first : Bool) (h : Gap rest) :
    groups? room first rest = ([], false, rest) := by
  -- neither a dotted address nor a group starts where a gap does
  have hnothing (body : List Char) (hbody : Ends body) :
      (if 1 ≤ room - 1 then dotted? body else none) = none ∧ group? body = none := by
    refine ⟨?_, group?_eq_none hbody⟩
    rw [dotted?_eq_none_of_ends hbody, ite_self]
  cases room with
  | zero => rfl
  | succ room =>
    cases first with
    | true =>
      obtain ⟨hdotted, hgroup⟩ := hnothing rest h.ends
      rw [Nat.add_sub_cancel] at hdotted
      simp [groups?, hdotted, hgroup]
    | false =>
      rcases h with rfl | ⟨more, rfl⟩
      · rfl
      · obtain ⟨hdotted, hgroup⟩ := hnothing (':' :: more) (ends_colon _)
        rw [Nat.add_sub_cancel] at hdotted
        simp [groups?, after?, hdotted, hgroup]

/-- The colon in front of a group that is not the first. -/
def colon (first : Bool) : List Char := if first then [] else [':']

/-- One group, and then the others. -/
theorem groups?_cons (room : Nat) (first : Bool) (hg : g < 65536) (h : Ends more) :
    groups? (room + 1) first (colon first ++ ((groupText g).toList ++ more)) =
      (g :: (groups? room false more).1, (groups? room false more).2) := by
  have hdotted : (if 1 ≤ room then dotted? ((groupText g).toList ++ more) else none) = none := by
    rw [dotted?_groupText g h, ite_self]
  cases first with
  | true => simp [groups?, colon, hdotted, group?_groupText hg h]
  | false => simp [groups?, colon, after?, hdotted, group?_groupText hg h]

/-- The groups after the first one, with their colons. -/
def colonGroups (gs : List Nat) : List Char :=
  gs.flatMap fun g => ':' :: (groupText g).toList

theorem colonGroups_cons (g : Nat) (gs : List Nat) :
    colonGroups (g :: gs) = ':' :: ((groupText g).toList ++ colonGroups gs) := rfl

theorem ends_colonGroups_append (gs : List Nat) (h : Ends rest) :
    Ends (colonGroups gs ++ rest) := by
  cases gs with
  | nil => exact h
  | cons g gs => exact ends_colon _

theorem groups?_colonGroups (hroom : gs.length ≤ room) (hgs : ∀ g ∈ gs, g < 65536)
    (h : Gap rest) : groups? room false (colonGroups gs ++ rest) = (gs, false, rest) := by
  -- on the groups, each of which takes one place
  induction gs generalizing room with
  | nil => exact groups?_gap room false h
  | cons g gs ih =>
    obtain ⟨room, rfl⟩ : ∃ k, room = k + 1 := ⟨room - 1, by simp at hroom; omega⟩
    have hrest := ih (by simpa using hroom) fun g hg => hgs g (by simp [hg])
    have hstep := groups?_cons room false (hgs g (by simp)) (ends_colonGroups_append gs h.ends)
    rw [hrest] at hstep
    rw [colonGroups_cons, List.cons_append, List.append_assoc]
    exact hstep

theorem toList_groupsText_cons (g : Nat) (gs : List Nat) :
    (groupsText (g :: gs)).toList = (groupText g).toList ++ colonGroups gs := by
  induction gs generalizing g with
  | nil => simp [groupsText, colonGroups]
  | cons g' gs ih =>
    have hnext := ih g'
    rw [groupsText, String.toList_intercalate] at hnext ⊢
    rw [List.map_cons, List.map_cons, List.intercalate_cons_of_ne_nil (by simp), hnext,
      colonGroups_cons, List.append_assoc]
    rfl

/-- **Groups** with colons between them are read up to a gap. -/
theorem groups?_first (hroom : gs.length ≤ room) (hgs : ∀ g ∈ gs, g < 65536) (h : Gap rest) :
    groups? room true ((groupsText gs).toList ++ rest) = (gs, false, rest) := by
  cases gs with
  | nil =>
    have hnil : (groupsText []).toList = [] := rfl
    rw [hnil, List.nil_append]
    exact groups?_gap room true h
  | cons g gs =>
    obtain ⟨room, rfl⟩ : ∃ k, room = k + 1 := ⟨room - 1, by simp at hroom; omega⟩
    have hstep := groups?_cons room true (hgs g (by simp)) (ends_colonGroups_append gs h.ends)
    rw [groups?_colonGroups (by simpa using hroom) (fun g hg => hgs g (by simp [hg])) h] at hstep
    rw [toList_groupsText_cons, List.append_assoc]
    exact hstep

/-! ## Eight groups -/

/-- All eight groups are written. -/
theorem eightGroups?_full (hlength : gs.length = 8) (hgs : ∀ g ∈ gs, g < 65536) :
    eightGroups? (groupsText gs).toList = some (gs, []) := by
  have hread := groups?_first hlength.le hgs (.inl rfl : Gap [])
  rw [List.append_nil] at hread
  simp [eightGroups?, hread, hlength]

/-- Zero groups are filled into the gap. -/
theorem eightGroups?_gap (hlength : head.length + tail.length ≤ 7) (hhead : ∀ g ∈ head, g < 65536)
    (htail : ∀ g ∈ tail, g < 65536) :
    eightGroups? ((groupsText head).toList ++ ':' :: ':' :: (groupsText tail).toList) =
      some (head ++ List.replicate (8 - head.length - tail.length) 0 ++ tail, []) := by
  have hfront := groups?_first (by omega : head.length ≤ 8) hhead
    (.inr ⟨(groupsText tail).toList, rfl⟩ : Gap (':' :: ':' :: (groupsText tail).toList))
  have hback := groups?_first (by omega : tail.length ≤ 7 - head.length) htail
    (.inl rfl : Gap [])
  rw [List.append_nil] at hback
  have hne : head.length ≠ 8 := by omega
  simp [eightGroups?, hfront, hback, hne, after?]

/-- The last two groups are written as dotted numbers. -/
theorem eightGroups?_mapped (h : n < 2 ^ 32) :
    eightGroups? (':' :: ':' :: ((groupText 0xffff).toList ++ ':' :: (dotted n).toList)) =
      some (List.replicate 5 0 ++ [0xffff, n / 65536, n % 65536], []) := by
  have hdotted := dotted?_dotted h (by simp [NoDigitHead] : NoDigitHead [])
  rw [List.append_nil] at hdotted
  have hend : groups? 6 false (':' :: (dotted n).toList) =
      ([n / 65536, n % 65536], true, []) := by
    simp [groups?, after?, hdotted]
  have hback := groups?_cons 6 true (by decide : 0xffff < 65536) (ends_colon (dotted n).toList)
  rw [hend] at hback
  have hfront := groups?_gap 8 true
    (.inr ⟨(groupText 0xffff).toList ++ ':' :: (dotted n).toList, rfl⟩ : Gap _)
  have hbegin : groups? 7 true ((groupText 0xffff).toList ++ ':' :: (dotted n).toList) =
      ([0xffff, n / 65536, n % 65536], true, []) := hback
  simp [eightGroups?, hfront, hbegin, after?, List.replicate]

/-! ## Groups of an address -/

theorem length_groups (n : Nat) : (groups n).length = 8 := by
  simp [groups]

theorem lt_of_mem_groups (h : g ∈ groups n) : g < 65536 := by
  obtain ⟨i, -, rfl⟩ := List.mem_map.mp h
  exact Nat.mod_lt _ (by decide)

/-- The groups make up the number again. -/
theorem foldl_groups (h : n < 2 ^ 128) : (groups n).foldl (fun n g => 65536 * n + g) 0 = n := by
  simp [groups, List.range_succ]
  omega

/-- A run of zero groups is what may be left out. -/
theorem eq_take_zeros_drop (gs : List Nat) (i : Nat) :
    gs = gs.take i ++ List.replicate (zeroRun gs i) 0 ++ gs.drop (i + zeroRun gs i) := by
  have hzeros : (gs.drop i).takeWhile (· == 0) = List.replicate (zeroRun gs i) 0 := by
    refine List.eq_replicate_iff.mpr ⟨rfl, fun g hg => ?_⟩
    simpa using List.mem_takeWhile_imp hg
  have hdrop : gs.drop (i + zeroRun gs i) = (gs.drop i).dropWhile (· == 0) := by
    have hafter := drop_takeWhile (· == 0) (gs.drop i)
    rwa [← zeroRun, List.drop_drop] at hafter
  rw [hdrop, ← hzeros, List.append_assoc, List.takeWhile_append_dropWhile,
    List.take_append_drop]

/-- **Eight groups** are read, whichever run of zeros is left out. -/
theorem eightGroups?_compressedText (hlength : gs.length = 8) (hgs : ∀ g ∈ gs, g < 65536) :
    eightGroups? (compressedText gs).toList = some (gs, []) := by
  unfold compressedText
  dsimp only
  generalize longestRun gs = start
  split_ifs with hshort
  · exact eightGroups?_full hlength hgs
  · -- the zeros that `::` leaves out lie between the groups in front of it and those after it
    have hparts := eq_take_zeros_drop gs start
    have hsum := congrArg List.length hparts
    simp only [List.length_append, List.length_replicate, hlength] at hsum
    have hfront : ∀ g ∈ gs.take start, g < 65536 := fun g hg => hgs g (List.mem_of_mem_take hg)
    have hback : ∀ g ∈ gs.drop (start + zeroRun gs start), g < 65536 :=
      fun g hg => hgs g (List.mem_of_mem_drop hg)
    have hread := eightGroups?_gap (by omega) hfront hback
    rw [show 8 - (gs.take start).length - (gs.drop (start + zeroRun gs start)).length =
      zeroRun gs start by omega, ← hparts] at hread
    rw [String.toList_append, String.toList_append, List.append_assoc]
    exact hread

/-! ## Reading back -/

/-- The text of an address of version 6 begins with a group or a gap. -/
theorem dotted?_compressedText (gs : List Nat) : dotted? (compressedText gs).toList = none := by
  -- a first group ends in a colon, or in what follows the groups
  have hgroups (gs : List Nat) (more : List Char) (hmore : Ends more) :
      dotted? ((groupsText gs).toList ++ more) = none := by
    cases gs with
    | nil => exact dotted?_eq_none_of_ends hmore
    | cons g gs =>
      rw [toList_groupsText_cons, List.append_assoc]
      exact dotted?_groupText g (ends_colonGroups_append gs hmore)
  unfold compressedText
  dsimp only
  split_ifs
  · have hread := hgroups gs [] (by simp [Ends])
    rwa [List.append_nil] at hread
  · rw [String.toList_append, String.toList_append, List.append_assoc]
    exact hgroups _ _ (ends_colon _)

theorem ofNat_value (a : IpAddress) : ofNat a.family a.value = a := by
  obtain ⟨family, value, hvalue⟩ := a
  simp only [ofNat, IpAddress.mk.injEq, true_and]
  exact Nat.mod_eq_of_lt hvalue

/-- The text with a dotted end. -/
theorem toList_mapped (n : Nat) : ("::ffff:" ++ dotted n).toList =
    ':' :: ':' :: ((groupText 0xffff).toList ++ ':' :: (dotted n).toList) := by
  rw [String.toList_append]
  rfl

theorem foldl_mapped (n : Nat) : (List.replicate 5 0 ++ [0xffff, n / 65536, n % 65536]).foldl
    (fun n g => 65536 * n + g) 0 = 0xffff * 4294967296 + n := by
  simp [List.replicate]
  omega

/-- **The text of an address** is read back. -/
theorem parse?_text (a : IpAddress) : parse? a.text = some a := by
  obtain ⟨family, value, hvalue⟩ := a
  have hsame : ofNat family value = ⟨family, value, hvalue⟩ := ofNat_value ⟨family, value, hvalue⟩
  unfold text
  cases family with
  | v4 =>
    have hdotted := dotted?_dotted hvalue (by simp [NoDigitHead] : NoDigitHead [])
    rw [List.append_nil] at hdotted
    simp [parse?, hdotted, hsame]
  | v6 =>
    have hlt : value < 2 ^ 128 := hvalue
    dsimp only
    split_ifs with hmapped
    · -- an address of the other family is read back from its dotted end
      have hlow : value % 4294967296 < 2 ^ 32 := Nat.mod_lt _ (by decide)
      have hsum : 0xffff * 4294967296 + value % 4294967296 = value := by omega
      rw [parse?, toList_mapped, dotted?_eq_none_of_ends (ends_colon _), eightGroups?_mapped hlow]
      dsimp only
      rw [foldl_mapped, hsum, hsame]
    · -- all other addresses are groups only, and no point follows the first one
      rw [parse?, dotted?_compressedText,
        eightGroups?_compressedText (length_groups value) fun g => lt_of_mem_groups]
      dsimp only
      rw [foldl_groups hlt, hsame]

/-! ## The characters of a text -/

/-- The characters that addresses are written with. -/
def Written (c : Char) : Prop := (Text.hexValue? c).isSome ∨ c = '.' ∨ c = ':'

theorem written_of_mem_groupsText {c : Char} (h : c ∈ (groupsText gs).toList) : Written c := by
  rw [groupsText, String.toList_intercalate] at h
  rcases mem_intercalate h with rfl | ⟨part, hpart, hc⟩
  · exact .inr (.inr rfl)
  · simp only [List.map_map, List.mem_map, Function.comp_apply] at hpart
    obtain ⟨g, -, rfl⟩ := hpart
    rw [toList_groupText] at hc
    exact .inl (hexValue?_of_mem_toDigits hc)

theorem written_of_mem_dotted {c : Char} (h : c ∈ (dotted n).toList) : Written c := by
  rw [dotted, String.toList_intercalate] at h
  rcases mem_intercalate h with rfl | ⟨part, hpart, hc⟩
  · exact .inr (.inl rfl)
  · simp only [List.map_map, List.mem_map, Function.comp_apply, toList_toString_nat] at hpart
    obtain ⟨x, -, rfl⟩ := hpart
    exact .inl (hexValue?_of_isDigit (digits_ofNat _ c hc))

theorem written_of_mem_text (a : IpAddress) {c : Char} (h : c ∈ a.text.toList) : Written c := by
  obtain ⟨family, value, hvalue⟩ := a
  unfold text at h
  cases family with
  | v4 => exact written_of_mem_dotted h
  | v6 =>
    dsimp only at h
    split_ifs at h
    · rw [toList_mapped] at h
      simp only [List.mem_cons, List.mem_append, toList_groupText] at h
      -- two colons, a group and a colon stand in front of the dotted form
      rcases h with hc | hc | hc | hc | hc
      · exact .inr (.inr hc)
      · exact .inr (.inr hc)
      · exact .inl (hexValue?_of_mem_toDigits hc)
      · exact .inr (.inr hc)
      · exact written_of_mem_dotted hc
    · unfold compressedText at h
      dsimp only at h
      split_ifs at h
      · exact written_of_mem_groupsText h
      · rw [String.toList_append, String.toList_append] at h
        rcases List.mem_append.mp h with hc | hc
        · rcases List.mem_append.mp hc with hc | hc
          · exact written_of_mem_groupsText hc
          · exact .inr (.inr (by simpa using hc))
        · exact written_of_mem_groupsText hc

/-- There are no blanks in a text, and no slash. -/
theorem Written.unblanked {c : Char} (h : Written c) : isBlank c = false ∧ c ≠ '/' := by
  rcases h with hdigit | rfl | rfl
  · refine ⟨isBlank_of_hexValue? hdigit, ?_⟩
    rintro rfl
    exact absurd hdigit (by decide)
  · decide
  · decide

end IpAddress

end ColumnMask
