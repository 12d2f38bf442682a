import Mathlib
import ColumnMask.Address
import ColumnMask.Proofs.Text

/-!
# Texts of hardware addresses

Which texts are read as an address.
-/

namespace ColumnMask

/-!
## Reading hardware addresses

An address is read from six pairs of digits of either case, with colons or dashes between them, and
so its text is read back.

- `Text.splitAll_intercalate`: parts are found again between their separators.
- `MacAddress.Spelled`: the ways to write an address.
- `MacAddress.parse?_spelled`: they are read. `MacAddress.spelled_text`: the usual text is among
  them.
-/

namespace Text

/-! ### Parts -/

variable {sep : Char} {part : List Char} {parts : List (List Char)}

theorem splitAll_of_not_mem (h : sep ∉ part) : splitAll sep part = [part] := by
  induction part with
  | nil => rfl
  | cons c part ih =>
    rw [List.mem_cons, not_or] at h
    obtain ⟨hc, hpart⟩ := h
    rw [splitAll, if_neg (Ne.symm hc), ih hpart]

theorem splitAll_append (h : sep ∉ part) (rest : List Char) :
    splitAll sep (part ++ sep :: rest) = part :: splitAll sep rest := by
  induction part with
  | nil => rw [List.nil_append, splitAll, if_pos rfl]
  | cons c part ih =>
    rw [List.mem_cons, not_or] at h
    obtain ⟨hc, hpart⟩ := h
    rw [List.cons_append, splitAll, if_neg (Ne.symm hc), ih hpart]

/-- **Parts** without the separator are found again between the separators. -/
theorem splitAll_intercalate (h : ∀ part ∈ parts, sep ∉ part) (hne : parts ≠ []) :
    splitAll sep ([sep].intercalate parts) = parts := by
  induction parts with
  | nil => contradiction
  | cons part parts ih =>
    have hpart : sep ∉ part := h part (by simp)
    by_cases hlast : parts = []
    · subst hlast
      rw [List.intercalate_singleton, splitAll_of_not_mem hpart]
    · rw [List.intercalate_cons_of_ne_nil hlast, List.append_assoc, List.singleton_append,
        splitAll_append hpart, ih (fun p hp => h p (by simp [hp])) hlast]

theorem mem_intercalate {c : Char} (h : c ∈ [sep].intercalate parts) :
    c = sep ∨ ∃ part ∈ parts, c ∈ part := by
  -- on the parts; behind every part but the last there is a separator
  induction parts with
  | nil => simp at h
  | cons part parts ih =>
    by_cases hlast : parts = []
    · subst hlast
      rw [List.intercalate_singleton] at h
      exact .inr ⟨part, by simp, h⟩
    · rw [List.intercalate_cons_of_ne_nil hlast, List.mem_append, List.mem_append,
        List.mem_singleton] at h
      rcases h with (h | h) | h
      · exact .inr ⟨part, by simp, h⟩
      · exact .inl h
      · rcases ih h with h | ⟨p, hp, h⟩
        · exact .inl h
        · exact .inr ⟨p, by simp [hp], h⟩

/-! ### Hexadecimal digits -/

theorem hexValue?_hexDigit : ∀ n < 16, hexValue? (hexDigit n) = some n := by
  decide

/-- A digit has the same value in either case. -/
theorem hexValue?_toLower (c : Char) : hexValue? c.toLower = hexValue? c := by
  by_cases h : 'A' ≤ c ∧ c ≤ 'Z'
  · have hrange : 65 ≤ c.toNat ∧ c.toNat ≤ 90 := h
    obtain ⟨hlow, hhigh⟩ := hrange
    rw [← Char.ofNat_toNat c]
    generalize c.toNat = n at hlow hhigh
    interval_cases n <;> rfl
  · have hsame : c.toLower = c := dif_neg h
    rw [hsame]

/-- The digit with a value, whatever its case. -/
theorem hexValue?_of_toLower {c : Char} {n : Nat} (hn : n < 16) (h : c.toLower = hexDigit n) :
    hexValue? c = some n := by
  rw [← hexValue?_toLower, h, hexValue?_hexDigit n hn]

/-- Digits lie in three ranges. -/
theorem range_of_hexValue? {c : Char} (h : (hexValue? c).isSome) :
    (48 ≤ c.toNat ∧ c.toNat ≤ 57) ∨ (97 ≤ c.toNat ∧ c.toNat ≤ 102) ∨
      (65 ≤ c.toNat ∧ c.toNat ≤ 70) := by
  unfold hexValue? at h
  split_ifs at h with hdigit hlower hupper
  · exact .inl hdigit
  · exact .inr (.inl hlower)
  · exact .inr (.inr hupper)
  · contradiction

theorem isBlank_of_hexValue? {c : Char} (h : (hexValue? c).isSome) : isBlank c = false := by
  have hrange := range_of_hexValue? h
  simp only [isBlank, Bool.or_eq_false_iff, Bool.and_eq_false_iff, beq_eq_false_iff_ne,
    decide_eq_false_iff_not]
  omega

end Text

open Text

namespace MacAddress

/-- The two digits of an octet. -/
def octetText (b : UInt8) : List Char := [hexDigit (b.toNat / 16), hexDigit (b.toNat % 16)]

/-- The ways to write an address: six pairs of digits of either case, and colons or dashes. -/
def Spelled (a : MacAddress) (cs : List Char) : Prop :=
  ∃ sep, (sep = ':' ∨ sep = '-') ∧ ∃ parts : List (List Char),
    cs = [sep].intercalate parts ∧
      parts.map (·.map Char.toLower) = a.octets.toList.map octetText

variable {a : MacAddress} {b : UInt8} {part cs : List Char}

/-- A pair of digits of either case. -/
theorem exists_digits (h : part.map Char.toLower = octetText b) :
    ∃ high low, part = [high, low] ∧ hexValue? high = some (b.toNat / 16) ∧
      hexValue? low = some (b.toNat % 16) := by
  have hlength := congrArg List.length h
  rw [List.length_map] at hlength
  obtain ⟨high, low, rfl⟩ := List.length_eq_two.mp hlength
  obtain ⟨hhigh, hlow, -⟩ : high.toLower = hexDigit (b.toNat / 16) ∧
      low.toLower = hexDigit (b.toNat % 16) ∧ True := by simpa [octetText] using h
  have hlt := b.toNat_lt
  exact ⟨high, low, rfl, hexValue?_of_toLower (by omega) hhigh,
    hexValue?_of_toLower (by omega) hlow⟩

/-- A pair of digits is read as its octet. -/
theorem octet?_digits (h : part.map Char.toLower = octetText b) : octet? part = some b := by
  obtain ⟨high, low, rfl, hhigh, hlow⟩ := exists_digits h
  have hplus : high ≠ '+' := by
    rintro rfl
    contradiction
  have hvalue : UInt8.ofNat (16 * (b.toNat / 16) + b.toNat % 16) = b := by
    rw [Nat.div_add_mod, UInt8.ofNat_toNat]
  simp only [octet?, if_neg hplus, hhigh, hlow, Option.bind_eq_bind, Option.bind_some, hvalue]
  rfl

/-- What stands between the separators has a value as a digit. -/
theorem hexValue?_isSome {c : Char} (h : part.map Char.toLower = octetText b) (hc : c ∈ part) :
    (hexValue? c).isSome := by
  obtain ⟨high, low, rfl, hhigh, hlow⟩ := exists_digits h
  rcases List.mem_pair.mp hc with rfl | rfl
  · rw [hhigh]
    rfl
  · rw [hlow]
    rfl

theorem hexValue?_of_mem {parts : List (List Char)} {bs : List UInt8} {c : Char}
    (h : parts.map (·.map Char.toLower) = bs.map octetText) (hpart : part ∈ parts)
    (hc : c ∈ part) : (hexValue? c).isSome := by
  have hmap : part.map Char.toLower ∈ bs.map octetText := by
    rw [← h]
    exact List.mem_map_of_mem hpart
  obtain ⟨b, -, hb⟩ := List.mem_map.mp hmap
  exact hexValue?_isSome hb.symm hc

theorem mapM_octet? {parts : List (List Char)} {bs : List UInt8}
    (h : parts.map (·.map Char.toLower) = bs.map octetText) : parts.mapM octet? = some bs := by
  induction parts generalizing bs with
  | nil =>
    rw [List.map_nil, eq_comm, List.map_eq_nil_iff] at h
    subst h
    rfl
  | cons part parts ih =>
    cases bs with
    | nil => simp at h
    | cons b bs =>
      obtain ⟨hpart, hparts⟩ := List.cons.inj h
      simp [octet?_digits hpart, ih hparts]

/-- An address has six octets. -/
theorem exists_octets (a : MacAddress) :
    ∃ b₀ b₁ b₂ b₃ b₄ b₅, a = ⟨#v[b₀, b₁, b₂, b₃, b₄, b₅]⟩ := by
  obtain ⟨⟨⟨octets⟩, hlength⟩⟩ := a
  match octets, hlength with
  | [b₀, b₁, b₂, b₃, b₄, b₅], _ => exact ⟨b₀, b₁, b₂, b₃, b₄, b₅, rfl⟩

/-- A list is mapped by a partial function member by member. -/
theorem mapM_eq_some_iff {α β : Type} {f : α → Option β} {xs : List α} {ys : List β} :
    xs.mapM f = some ys ↔ List.Forall₂ (fun x y => f x = some y) xs ys := by
  induction xs generalizing ys with
  | nil => simp [eq_comm]
  | cons x xs ih =>
    rw [List.mapM_cons]
    cases ys with
    | nil => simp [Option.bind_eq_some_iff]
    | cons y ys => simp [Option.bind_eq_some_iff, ← ih]

/-- Parts that are octets, with one separator between them, are read one by one. -/
theorem parse?_intercalate {sep : Char} (hsep : sep = ':' ∨ sep = '-') {parts : List (List Char)}
    (hparts : ∀ part ∈ parts, ':' ∉ part ∧ '-' ∉ part)
    (hread : parts.mapM octet? = some a.octets.toList) :
    parse? (String.ofList ([sep].intercalate parts)) = some a := by
  have hlength : parts.length = 6 := by
    simpa using (mapM_eq_some_iff.mp hread).length_eq
  have hchosen : (if ([sep].intercalate parts).contains '-' then '-' else ':') = sep := by
    rcases hsep with rfl | rfl
    · refine if_neg fun hmem => ?_
      rcases mem_intercalate (List.contains_iff_mem.mp hmem) with h | ⟨part, hpart, h⟩
      · contradiction
      · exact (hparts part hpart).2 h
    · obtain ⟨first, second, rest, rfl⟩ : ∃ first second rest, parts = first :: second :: rest := by
        match parts, hlength with
        | first :: second :: rest, _ => exact ⟨first, second, rest, rfl⟩
      simp [List.intercalate_cons_cons]
  have hsplit : splitAll sep ([sep].intercalate parts) = parts := by
    refine splitAll_intercalate (fun part hpart => ?_) (List.ne_nil_of_length_eq_add_one hlength)
    rcases hsep with rfl | rfl
    · exact (hparts part hpart).1
    · exact (hparts part hpart).2
  obtain ⟨b₀, b₁, b₂, b₃, b₄, b₅, rfl⟩ := a.exists_octets
  unfold parse?
  rw [String.toList_ofList]
  dsimp only
  rw [hchosen, hsplit, hread]
  rfl

/-- **Every way to write an address** is read as the address. -/
theorem parse?_spelled (h : a.Spelled cs) : parse? (String.ofList cs) = some a := by
  obtain ⟨sep, hsep, parts, rfl, hparts⟩ := h
  -- neither separator is a digit
  have hnot {c : Char} (hc : hexValue? c = none) : ∀ part ∈ parts, c ∉ part := by
    intro part hpart hmem
    have hsome := hexValue?_of_mem hparts hpart hmem
    rw [hc] at hsome
    contradiction
  exact parse?_intercalate hsep (fun part hpart => ⟨hnot rfl part hpart, hnot rfl part hpart⟩)
    (mapM_octet? hparts)

theorem toLower_hexDigit : ∀ n < 16, (hexDigit n).toLower = hexDigit n := by
  decide

/-- The usual text is written with colons and small letters. -/
theorem spelled_text (a : MacAddress) : a.Spelled a.text.toList := by
  refine ⟨':', .inl rfl, a.octets.toList.map octetText, ?_, ?_⟩
  · rw [text, String.toList_intercalate, List.map_map]
    refine congrArg _ (List.map_congr_left fun b _ => ?_)
    simp [Bytes.toHex, octetText]
  · rw [List.map_map]
    refine List.map_congr_left fun b _ => ?_
    have hlt := b.toNat_lt
    simp [octetText, toLower_hexDigit (b.toNat / 16) (by omega),
      toLower_hexDigit (b.toNat % 16) (by omega)]

/-- There are no blanks in an address. -/
theorem Spelled.unblanked (h : a.Spelled cs) : Unblanked cs := by
  obtain ⟨sep, hsep, parts, rfl, hparts⟩ := h
  intro c hc
  rcases mem_intercalate hc with rfl | ⟨part, hpart, hmem⟩
  · rcases hsep with rfl | rfl <;> decide
  · exact isBlank_of_hexValue? (hexValue?_of_mem hparts hpart hmem)

end MacAddress

/-!
## Which texts are hardware addresses

Reading accepts six groups of two digits with one separator, and besides that groups in which a plus
sign stands in front of a single digit. So the texts that it reads are the ways to write an address
and those that have a plus sign.

- `Text.intercalate_splitAll`: the parts of a text make it up again.
- `MacAddress.Group`, `MacAddress.Grouped`: what is accepted of a group, and of a text.
- `MacAddress.octet?_eq_some_iff`, `MacAddress.parse?_eq_some_iff`: this is what is read.
- `MacAddress.spelled_iff`: without a plus sign a text is one of the ways to write the address.
- `MacAddress.parse_grouped_exact`: which texts are read, and as what.
-/

namespace Text

/-! ### Parts -/

variable {sep : Char} {part cs : List Char} {parts : List (List Char)}

theorem mem_intercalate_of_mem {c : Char} (hpart : part ∈ parts) (hc : c ∈ part) :
    c ∈ [sep].intercalate parts := by
  induction parts with
  | nil => simp at hpart
  | cons first parts ih =>
    by_cases hlast : parts = []
    · subst hlast
      rw [List.mem_singleton.mp hpart] at hc
      rwa [List.intercalate_singleton]
    · rw [List.intercalate_cons_of_ne_nil hlast]
      rcases List.mem_cons.mp hpart with rfl | hrest
      · simp [hc]
      · simp [ih hrest]

theorem splitAll_ne_nil (sep : Char) (cs : List Char) : splitAll sep cs ≠ [] := by
  induction cs with
  | nil => simp [splitAll]
  | cons c cs ih =>
    by_cases hc : c = sep
    · simp [splitAll, hc]
    · obtain ⟨part, parts, hparts⟩ := List.exists_cons_of_ne_nil ih
      simp [splitAll, hc, hparts]

/-- **The parts** of a text make it up again. -/
theorem intercalate_splitAll (sep : Char) (cs : List Char) :
    [sep].intercalate (splitAll sep cs) = cs := by
  induction cs with
  | nil => rfl
  | cons c cs ih =>
    by_cases hc : c = sep
    · rw [splitAll, if_pos hc, List.intercalate_cons_of_ne_nil (splitAll_ne_nil sep cs), ih, hc]
      rfl
    · obtain ⟨part, parts, hparts⟩ := List.exists_cons_of_ne_nil (splitAll_ne_nil sep cs)
      rw [hparts] at ih
      simp only [splitAll, if_neg hc, hparts]
      -- the character goes to the first part, whether another one follows or not
      cases parts with
      | nil =>
        rw [List.intercalate_singleton] at ih ⊢
        rw [ih]
      | cons next rest =>
        rw [List.intercalate_cons_of_ne_nil (List.cons_ne_nil next rest)] at ih ⊢
        rw [List.append_assoc, List.cons_append, ← List.append_assoc, ih]

/-! ### Hexadecimal digits -/

/-- The characters that have a value as a digit, told by their small letters. -/
theorem toLower_of_hexValue? {c : Char} {n : Nat} (h : hexValue? c = some n) :
    n < 16 ∧ c.toLower = hexDigit n := by
  have hrange : (48 ≤ c.toNat ∧ c.toNat ≤ 57) ∨ (97 ≤ c.toNat ∧ c.toNat ≤ 102) ∨
      (65 ≤ c.toNat ∧ c.toNat ≤ 70) := range_of_hexValue? (Option.isSome_of_mem h)
  rw [← Char.ofNat_toNat c] at h ⊢
  generalize c.toNat = k at h hrange ⊢
  rcases hrange with ⟨hlow, hhigh⟩ | ⟨hlow, hhigh⟩ | ⟨hlow, hhigh⟩ <;> interval_cases k <;>
    cases h <;> decide

end Text

namespace MacAddress

variable {a : MacAddress} {b : UInt8} {part cs : List Char}

/-! ### Groups -/

/-- What is read as an octet: two digits, or a plus sign and a digit. -/
inductive Group : List Char → UInt8 → Prop where
  | digits {high low : Char} {h l : Nat} (hhigh : hexValue? high = some h)
    (hlow : hexValue? low = some l) : Group [high, low] (UInt8.ofNat (16 * h + l))
  | plus {low : Char} {l : Nat} (hlow : hexValue? low = some l) :
    Group ['+', low] (UInt8.ofNat l)

theorem octet?_eq_some_iff : octet? part = some b ↔ Group part b := by
  constructor
  · -- two characters, of which the first may be a plus sign
    intro h
    match part, h with
    | [high, low], h =>
      by_cases hplus : high = '+'
      · subst hplus
        obtain ⟨l, hlow, rfl⟩ : ∃ l, hexValue? low = some l ∧ UInt8.ofNat l = b := by
          simpa [octet?, Option.bind_eq_some_iff] using h
        exact .plus hlow
      · obtain ⟨v, hhigh, l, hlow, rfl⟩ : ∃ v, hexValue? high = some v ∧
            ∃ l, hexValue? low = some l ∧ UInt8.ofNat (16 * v + l) = b := by
          simpa only [octet?, if_neg hplus, Option.bind_eq_bind, Option.bind_eq_some_iff,
            Option.pure_def, Option.some.injEq] using h
        exact .digits hhigh hlow
  · -- a group is read back as the byte that it stands for
    rintro (⟨hhigh, hlow⟩ | hlow)
    · rename_i high low h l
      have hplus : high ≠ '+' := by
        rintro rfl
        contradiction
      simp [octet?, hplus, hhigh, hlow]
    · simp [octet?, hlow]

/-- Every character of a group is a digit or the plus sign. -/
theorem Group.mem {c : Char} (h : Group part b) (hc : c ∈ part) :
    c = '+' ∨ (hexValue? c).isSome := by
  cases h with
  | digits hhigh hlow =>
    rcases List.mem_pair.mp hc with rfl | rfl
    · exact .inr (Option.isSome_of_mem hhigh)
    · exact .inr (Option.isSome_of_mem hlow)
  | plus hlow =>
    rcases List.mem_pair.mp hc with rfl | rfl
    · exact .inl rfl
    · exact .inr (Option.isSome_of_mem hlow)

/-- A group without a plus sign is the two digits of its octet, in either case. -/
theorem Group.toLower (h : Group part b) (hplus : '+' ∉ part) :
    part.map Char.toLower = octetText b := by
  cases h with
  | digits hhigh hlow =>
    rename_i high low h l
    obtain ⟨hh, hhigh⟩ := toLower_of_hexValue? hhigh
    obtain ⟨hl, hlow⟩ := toLower_of_hexValue? hlow
    have hvalue : (UInt8.ofNat (16 * h + l)).toNat = 16 * h + l := by
      rw [UInt8.toNat_ofNat']
      omega
    rw [octetText, hvalue, show (16 * h + l) / 16 = h by omega, show (16 * h + l) % 16 = l by omega,
      List.map_cons, List.map_singleton, hhigh, hlow]
  | plus hlow => simp at hplus

/-! ### Texts -/

/-- Six groups with one separator between them. -/
def Grouped (a : MacAddress) (cs : List Char) : Prop :=
  ∃ sep, (sep = ':' ∨ sep = '-') ∧ ∃ groups : List (List Char),
    cs = [sep].intercalate groups ∧ List.Forall₂ Group groups a.octets.toList

theorem forall₂_group_iff {groups : List (List Char)} {bs : List UInt8} :
    groups.mapM octet? = some bs ↔ List.Forall₂ Group groups bs := by
  simp only [mapM_eq_some_iff, octet?_eq_some_iff]

theorem exists_group {groups : List (List Char)} {bs : List UInt8}
    (h : List.Forall₂ Group groups bs) (hpart : part ∈ groups) : ∃ b, Group part b := by
  have hall : List.Forall₂ (fun group b => (∃ b, Group group b) ∧ Group group b) groups bs :=
    h.imp fun group b hgroup => ⟨⟨b, hgroup⟩, hgroup⟩
  exact (List.forall₂_and_left groups bs).mp hall |>.1 part hpart

/-- **What is read** are texts of six groups. -/
theorem parse?_eq_some_iff : parse? (String.ofList cs) = some a ↔ a.Grouped cs := by
  constructor
  · intro h
    unfold parse? at h
    rw [String.toList_ofList] at h
    dsimp only at h
    generalize hsep : (if cs.contains '-' then '-' else ':') = sep at h
    refine ⟨sep, ?_, splitAll sep cs, (intercalate_splitAll sep cs).symm, ?_⟩
    · -- a dash anywhere makes it the separator
      rw [← hsep]
      by_cases hdash : cs.contains '-' = true
      · exact .inr (if_pos hdash)
      · exact .inl (if_neg hdash)
    · rw [← forall₂_group_iff]
      split at h
      case h_1 hread =>
        cases h
        exact hread
      case h_2 => contradiction
  · rintro ⟨sep, hsep, groups, rfl, hgroups⟩
    -- the separators are in no group, so that the text splits where it was put together
    refine parse?_intercalate hsep (fun group hgroup => ?_) (forall₂_group_iff.mpr hgroups)
    obtain ⟨b, hb⟩ := exists_group hgroups hgroup
    have hnot {c : Char} (hc : ¬ (c = '+' ∨ (hexValue? c).isSome)) : c ∉ group :=
      fun hmem => hc (hb.mem hmem)
    exact ⟨hnot (by decide), hnot (by decide)⟩

/-- There is no plus sign in a way to write an address. -/
theorem Spelled.plus_notMem (h : a.Spelled cs) : '+' ∉ cs := by
  obtain ⟨sep, hsep, parts, rfl, hparts⟩ := h
  intro hplus
  rcases mem_intercalate hplus with rfl | ⟨part, hpart, hmem⟩
  · simp at hsep
  · have hsome := hexValue?_of_mem hparts hpart hmem
    contradiction

/-- **Without a plus sign** the texts that are read are the ways to write an address. -/
theorem spelled_iff : a.Spelled cs ↔ a.Grouped cs ∧ '+' ∉ cs := by
  constructor
  · intro h
    exact ⟨parse?_eq_some_iff.mp (parse?_spelled h), h.plus_notMem⟩
  · rintro ⟨⟨sep, hsep, groups, rfl, hgroups⟩, hplus⟩
    have hdigits : List.Forall₂ (fun group b => '+' ∉ group ∧ Group group b) groups
        a.octets.toList :=
      (List.forall₂_and_left groups _).mpr
        ⟨fun group hgroup hmem => hplus (mem_intercalate_of_mem hgroup hmem), hgroups⟩
    refine ⟨sep, hsep, groups, rfl, ?_⟩
    rw [← List.forall₂_eq_eq_eq, List.forall₂_map_left_iff, List.forall₂_map_right_iff]
    exact hdigits.imp fun group b h => h.2.toLower h.1

/-! ### Errors -/

theorem parse_eq_ok {s : String} : parse s = .ok a ↔ a.Grouped s.toList := by
  rw [← parse?_eq_some_iff, String.ofList_toList, parse]
  split <;> simp [*]

theorem parse_eq_error {s : String} {e : DecodeError} :
    parse s = .error e ↔ e = .invalidMac s ∧ ∀ a : MacAddress, ¬ a.Grouped s.toList := by
  simp only [← parse_eq_ok, parse]
  split
  case h_1 a _ => simp
  case h_2 => simp [eq_comm]

/-- **Reading an address**: a text is read if it consists of six groups with one separator, each of
them two digits or a plus sign and a digit, and gives their values in order; every other text is an
error that shows it. The texts without a plus sign among them are the ways to write the address, in
which each group is two digits. -/
theorem parse_grouped_exact (s : String) :
    (∀ a, parse s = .ok a ↔ a.Grouped s.toList) ∧
    (∀ e, parse s = .error e ↔ e = .invalidMac s ∧ ∀ a : MacAddress, ¬ a.Grouped s.toList) ∧
    ∀ a : MacAddress, a.Spelled s.toList ↔ parse s = .ok a ∧ '+' ∉ s.toList := by
  refine ⟨fun a => parse_eq_ok, fun e => parse_eq_error, fun a => ?_⟩
  rw [parse_eq_ok]
  exact spelled_iff

/-- A plus sign in place of a digit is read, although this is no way to write an address. -/
theorem parse_accepts_plus :
    parse "+a:bb:cc:dd:ee:ff" = .ok ⟨#v[0x0a, 0xbb, 0xcc, 0xdd, 0xee, 0xff]⟩ ∧
      ∀ a : MacAddress, ¬ a.Spelled "+a:bb:cc:dd:ee:ff".toList := by
  refine ⟨by decide +kernel, fun a h => h.plus_notMem (by decide)⟩

end MacAddress

end ColumnMask
