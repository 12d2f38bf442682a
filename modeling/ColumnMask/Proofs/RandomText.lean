import Mathlib
import ColumnMask.Proofs.Bytes
import ColumnMask.Proofs.Config
import ColumnMask.Proofs.IntegerWindow
import ColumnMask.Transformer.Random

/-!
# Random texts character by character

The characters of a random text are drawn one after the other: a position moves through the bytes
after the first four, and starts over with the next round when no whole unit is left. Meanwhile the
room of the text doubles as often as it takes, unless one allocation cannot have as much.

- `RandomText.drawChars`: the steps, each of them checked. `RandomText.drawChars_eq` says that none
  goes wrong and that they give the characters that `RandomText.charAt` gives.
- `RandomText.HasRoom`: whether characters get their room. By `RandomText.isSome_roomFor?` this
  decides whether there is a text.
- `RandomText.checkedRead`: the reading of a text with every access to the block and every operation
  on words checked; by `RandomText.checkedRead_eq` no check fails.
- `RandomText.length_chars`, `RandomText.mem_alphabet_of_mem_chars`: the length of a text and its
  characters.
-/

namespace ColumnMask

namespace RandomText

variable (r : RandomText)

/-! ## Units -/

theorem unitLength_pos : 0 < r.unitLength := by
  unfold unitLength
  split_ifs
  · decide
  · decide

theorem unitLength_le : r.unitLength ≤ 2 := by
  unfold unitLength
  split_ifs
  · decide
  · decide

/-- A block always holds a digest of the shortest length. -/
theorem required_mem : 28 ≤ r.required ∧ r.required ≤ 64 := by
  unfold required
  cases HashFunction.forSize? (min HashFunction.maxSize (r.maxLength * r.unitLength + 4)) with
  | none => exact ⟨by decide, by decide⟩
  | some f => cases f <;> exact ⟨by decide, by decide⟩

/-- The number of units after the first four bytes. -/
def unitCount (block : Bytes) : Nat := (block.length - 4) / r.unitLength

theorem two_le_unitCount {block : Bytes} (h : block.length = r.required) :
    2 ≤ r.unitCount block := by
  have hrequired := r.required_mem.1
  have hunit := r.unitLength_le
  exact (Nat.le_div_iff_mul_le r.unitLength_pos).mpr (by omega)

/-! ## Drawing -/

/-- Draws the character that the unit at a position chooses in a round. -/
def drawChar (rest : Bytes) (position round : Nat) : Option Char := do
  let bytes ← Checked.slice rest position (position + r.unitLength)
  let sum ← Checked.unsigned 64 (Bytes.toNatLE bytes + round)
  let index ← Checked.rem sum r.alphabet.length
  r.alphabet[index.toNat]?

/-- Draws characters from a position on. Where no whole unit is left, the position goes back to the
beginning and the number of the round goes up. -/
def drawChars (rest : Bytes) : (count position round : Nat) → Option (List Char)
  | 0, _, _ => some []
  | count + 1, position, round => do
    let wraps := decide (rest.length < position + r.unitLength)
    let position := if wraps then 0 else position
    let round := if wraps then round + 1 else round
    let c ← r.drawChar rest position round
    let later ← drawChars rest count (position + r.unitLength) round
    return c :: later

variable {r} {block : Bytes}

theorem unit_lt (r : RandomText) (block : Bytes) (j : Nat) : r.unit block j < 65536 := by
  have hunit := r.unitLength_le
  have hlt := Bytes.toNatLE_lt ((block.drop (4 + j * r.unitLength)).take r.unitLength)
  rw [List.length_take] at hlt
  exact lt_of_lt_of_le hlt (Nat.pow_le_pow_right (by decide) (by omega : _ ≤ 2))

/-- A whole unit has its place in the block. -/
theorem unit_end_le {j : Nat} (hj : j < r.unitCount block) :
    j * r.unitLength + r.unitLength ≤ (block.drop 4).length := by
  rw [List.length_drop, ← Nat.succ_mul]
  exact (Nat.le_div_iff_mul_le r.unitLength_pos).mp hj

/-- The position wraps around after the last whole unit. -/
theorem wraps_iff {j : Nat} (hj : j ≤ r.unitCount block) :
    (block.drop 4).length < j * r.unitLength + r.unitLength ↔ j = r.unitCount block := by
  rw [List.length_drop, ← Nat.succ_mul, ← Nat.div_lt_iff_lt_mul r.unitLength_pos]
  show r.unitCount block < j + 1 ↔ _
  omega

/-- The place of unit `j` in a round chooses the character. -/
theorem charAt_place {j round : Nat} (hj : j < r.unitCount block) :
    r.charAt block (r.unitCount block) (round * r.unitCount block + j) =
      r.alphabet.get ⟨(r.unit block j + round) % r.alphabet.length,
        Nat.mod_lt _ r.alphabet_pos⟩ := by
  have hplace : (round * r.unitCount block + j) % r.unitCount block = j := by
    rw [Nat.add_comm, Nat.add_mul_mod_self_right, Nat.mod_eq_of_lt hj]
  have hround : (round * r.unitCount block + j) / r.unitCount block = round := by
    rw [Nat.add_comm, Nat.add_mul_div_right _ _ (by omega), Nat.div_eq_of_lt hj, Nat.zero_add]
  simp only [charAt, hplace, hround]

/-- One character is drawn from a whole unit without failure. -/
theorem drawChar_eq {j round : Nat} (hj : j < r.unitCount block) (hround : round < 2 ^ 63) :
    r.drawChar (block.drop 4) (j * r.unitLength) round =
      some (r.charAt block (r.unitCount block) (round * r.unitCount block + j)) := by
  have hunit := r.unit_lt block j
  have hbytes : Bytes.toNatLE (((block.drop 4).drop (j * r.unitLength)).take
      (j * r.unitLength + r.unitLength - j * r.unitLength)) = r.unit block j := by
    rw [List.drop_drop, Nat.add_sub_cancel_left, unit]
  have hindex := Nat.mod_lt (r.unit block j + round) r.alphabet_pos
  have halphabet : (r.alphabet.length : Int) ≠ 0 := by exact_mod_cast r.alphabet_pos.ne'
  simp only [drawChar, Option.bind_eq_bind]
  rw [Checked.slice_eq ⟨by omega, unit_end_le hj⟩, Option.bind_some, hbytes,
    Checked.unsigned_eq ⟨by omega, by omega⟩, Option.bind_some, Checked.rem_eq _ halphabet,
    Option.bind_some, ← Nat.cast_add, ← Int.natCast_emod, Int.toNat_natCast,
    List.getElem?_eq_getElem hindex, charAt_place hj]
  rfl

/-- Drawing from unit `j` of a round on gives the characters from that place on. -/
theorem drawChars_eq (hblock : block.length = r.required) (count : Nat) {j round : Nat}
    (hj : j ≤ r.unitCount block) (hlast : round * r.unitCount block + j + count < 2 ^ 64) :
    r.drawChars (block.drop 4) count (j * r.unitLength) round =
      some ((List.range count).map fun n =>
        r.charAt block (r.unitCount block) (round * r.unitCount block + j + n)) := by
  have hcount := r.two_le_unitCount hblock
  -- on the characters that are left; the next one is at unit `j`, or at the front of the next round
  induction count generalizing j round with
  | zero => rfl
  | succ count ih =>
    -- with two units in each round the number of the round stays far below the bound
    have hround : round * 2 ≤ round * r.unitCount block := Nat.mul_le_mul_left round hcount
    have hchars (i : Nat) : ((List.range (count + 1)).map fun n =>
        r.charAt block (r.unitCount block) (i + n)) =
        r.charAt block (r.unitCount block) i ::
          (List.range count).map fun n => r.charAt block (r.unitCount block) (i + 1 + n) := by
      rw [List.range_succ_eq_map, List.map_cons, List.map_map]
      simp only [Function.comp_def, Nat.add_zero, Nat.succ_eq_add_one, Nat.add_assoc,
        Nat.add_comm 1]
    rw [drawChars, hchars]
    by_cases hwraps : j = r.unitCount block
    · -- the first unit of the next round
      have hplace : (round + 1) * r.unitCount block + 0 = round * r.unitCount block + j := by
        rw [hwraps, Nat.succ_mul, Nat.add_zero]
      have hfirst := drawChar_eq (by omega : 0 < r.unitCount block) (by omega : round + 1 < 2 ^ 63)
      have hlater := ih (by omega : 0 + 1 ≤ r.unitCount block)
        (by omega : (round + 1) * r.unitCount block + (0 + 1) + count < 2 ^ 64)
      rw [Nat.zero_mul, hplace] at hfirst
      rw [← Nat.add_assoc, hplace, Nat.succ_mul, Nat.zero_mul] at hlater
      simp only [decide_eq_true ((wraps_iff hj).mpr hwraps), if_true, hfirst, hlater]
      rfl
    · -- the next unit of the same round
      have hfirst := drawChar_eq (by omega : j < r.unitCount block) (by omega : round < 2 ^ 63)
      have hlater := ih (by omega : j + 1 ≤ r.unitCount block)
        (by omega : round * r.unitCount block + (j + 1) + count < 2 ^ 64)
      rw [Nat.succ_mul] at hlater
      simp only [decide_eq_false (mt (wraps_iff hj).mp hwraps), Bool.false_eq_true, if_false,
        hfirst, hlater]
      rfl

/-! ## Room -/

/-- The bytes that characters take. -/
def byteLength (cs : List Char) : Nat := (cs.map Char.utf8Size).sum

/-- Whether characters fit into a byte for each of them, doubled some number of times, that one
allocation can have. -/
def HasRoom (cs : List Char) : Prop :=
  ∃ k, byteLength cs ≤ cs.length * 2 ^ k ∧ cs.length * 2 ^ k ≤ Bytes.maxRoom

theorem byteLength_cons (c : Char) (cs : List Char) :
    byteLength (c :: cs) = c.utf8Size + byteLength cs := by
  rw [byteLength, List.map_cons, List.sum_cons, byteLength]

theorem byteLength_le {width : Nat} {cs : List Char} (h : ∀ c ∈ cs, c.utf8Size ≤ width) :
    byteLength cs ≤ cs.length * width := by
  have hsum := List.sum_le_card_nsmul (cs.map Char.utf8Size) width (by simpa using h)
  rwa [List.length_map, smul_eq_mul] at hsum

theorem HasRoom.length_le {cs : List Char} (h : HasRoom cs) : cs.length ≤ Bytes.maxRoom := by
  obtain ⟨k, -, hle⟩ := h
  exact (Nat.le_mul_of_pos_right _ (Nat.two_pow_pos k)).trans hle

/-- Texts of characters that take up to so many bytes have room if their greatest length does. -/
theorem hasRoom_of_utf8Size_le {k most : Nat} {cs : List Char} (h : ∀ c ∈ cs, c.utf8Size ≤ 2 ^ k)
    (hlength : cs.length ≤ most) (hmost : most * 2 ^ k ≤ Bytes.maxRoom) : HasRoom cs :=
  ⟨k, byteLength_le h, (Nat.mul_le_mul_right _ hlength).trans hmost⟩

/-- From four bytes on, room always grows by doubling. -/
theorem isSome_roomFor?_of_four_le {room used : Nat} (hused : used ≤ room) (hfour : 4 ≤ room)
    (hroom : room ≤ Bytes.maxRoom) (cs : List Char) :
    (roomFor? room used cs).isSome ↔
      ∃ k, used + byteLength cs ≤ room * 2 ^ k ∧ room * 2 ^ k ≤ Bytes.maxRoom := by
  -- on the characters that are left; the room that is reached covers those before them
  induction cs generalizing room used with
  | nil =>
    refine iff_of_true rfl ⟨0, ?_, ?_⟩
    · simpa [byteLength] using hused
    · simpa using hroom
  | cons c rest ih =>
    have hsize := c.utf8Size_le_four
    rw [roomFor?, byteLength_cons, ← Nat.add_assoc]
    by_cases hfits : used + c.utf8Size ≤ room
    · simp only [if_pos hfits, if_pos hroom]
      exact ih hfits hfour hroom
    · -- without the first doubling there is no room
      have hgrown : max 8 (max (2 * room) (used + c.utf8Size)) = 2 * room := by omega
      have hzero : ¬ (used + c.utf8Size + byteLength rest ≤ room * 2 ^ 0 ∧
          room * 2 ^ 0 ≤ Bytes.maxRoom) := by omega
      have hsucc (k : Nat) : room * 2 ^ (k + 1) = 2 * room * 2 ^ k := by
        rw [Nat.pow_succ', ← Nat.mul_assoc, Nat.mul_comm room]
      simp only [if_neg hfits, hgrown]
      rw [← Nat.or_exists_add_one, or_iff_right hzero]
      simp only [hsucc]
      by_cases hdouble : 2 * room ≤ Bytes.maxRoom
      · rw [if_pos hdouble]
        exact ih (by omega) (by omega) hdouble
      · rw [if_neg hdouble]
        refine iff_of_false (by simp) ?_
        rintro ⟨k, -, hle⟩
        have hpow := Nat.le_mul_of_pos_right (2 * room) (Nat.two_pow_pos k)
        omega

/-- Sixteen bytes always have room. -/
theorem isSome_roomFor?_of_le_sixteen {room used : Nat} {cs : List Char} (hroom : room ≤ 32)
    (hshort : used + byteLength cs ≤ 16) : (roomFor? room used cs).isSome := by
  induction cs generalizing room used with
  | nil => rfl
  | cons c rest ih =>
    rw [byteLength_cons, ← Nat.add_assoc] at hshort
    have hgrown : (if used + c.utf8Size ≤ room then room
        else max 8 (max (2 * room) (used + c.utf8Size))) ≤ 32 := by
      split
      · exact hroom
      · omega
    rw [roomFor?, if_pos (hgrown.trans (by decide))]
    exact ih hgrown hshort

/-- Room is found exactly for the characters that have it. -/
theorem isSome_roomFor? {cs : List Char} (hlength : cs.length ≤ Bytes.maxRoom) :
    (roomFor? cs.length 0 cs).isSome ↔ HasRoom cs := by
  rcases Nat.lt_or_ge cs.length 4 with hfew | hfour
  · -- three characters take twelve bytes at most
    have hwidth := byteLength_le fun c (_ : c ∈ cs) => c.utf8Size_le_four
    refine iff_of_true (isSome_roomFor?_of_le_sixteen (by omega) (by omega)) ?_
    exact hasRoom_of_utf8Size_le (k := 2) (fun c _ => c.utf8Size_le_four) hfew.le (by decide)
  · rw [isSome_roomFor?_of_four_le (Nat.zero_le _) hfour hlength, Nat.zero_add]
    rfl

/-! ## Texts -/

theorem lengthOf_mem (r : RandomText) (block : Bytes) :
    r.minLength ≤ r.lengthOf block ∧ r.lengthOf block ≤ r.maxLength := by
  have hle := r.min_le_max
  have hmod := Nat.mod_lt (Bytes.readUInt32 (block.take 4)).toNat
    (by omega : 0 < r.maxLength - r.minLength + 1)
  unfold lengthOf
  omega

/-- The length of a text is the one that the block chooses. -/
@[simp] theorem length_chars (r : RandomText) (block : Bytes) :
    (r.chars block).length = r.lengthOf block := by
  rw [chars, List.length_map, List.length_range]

/-- All characters of a text are from the alphabet. -/
theorem mem_alphabet_of_mem_chars {c : Char} (h : c ∈ r.chars block) : c ∈ r.alphabet := by
  obtain ⟨i, -, rfl⟩ := List.mem_map.mp h
  exact List.get_mem ..

/-- There is a text if the number of lengths is a word and the characters have room. -/
theorem read_of_hasRoom (hspan : r.maxLength - r.minLength < 2 ^ 64 - 1)
    (hroom : HasRoom (r.chars block)) : r.read block = some (String.ofList (r.chars block)) := by
  have hlength := hroom.length_le
  rw [length_chars] at hlength
  obtain ⟨room, hsome⟩ := Option.isSome_iff_exists.mp ((isSome_roomFor? hroom.length_le).mpr hroom)
  rw [length_chars] at hsome
  have hcount : r.maxLength - r.minLength + 1 < 2 ^ 64 := by omega
  rw [read, if_pos ⟨hcount, hlength⟩, hsome, Option.map_some]

theorem read_of_not_hasRoom (hroom : ¬ HasRoom (r.chars block)) : r.read block = none := by
  rw [read]
  split_ifs with h
  · have hnone := mt (isSome_roomFor? (by rw [length_chars]; exact h.2)).mp hroom
    rw [length_chars, Bool.not_eq_true, Option.isSome_eq_false_iff, Option.isNone_iff_eq_none]
      at hnone
    rw [hnone, Option.map_none]
  · rfl

/-- A call gives the text, if there is one, and panics otherwise. -/
theorem outcome_eq (r : RandomText) (input block : Bytes) :
    (Request.randomText (r := r) input).outcome block =
      (r.read block).elim (.error .panic) fun s => .ok (.text s) := by
  show (r.plan input).read block = _
  cases h : r.read block with
  | none => simp only [plan, h, Option.elim_none]
  | some s => simp only [plan, h, Option.elim_some]

theorem gives_text (hspan : r.maxLength - r.minLength < 2 ^ 64 - 1)
    (hroom : HasRoom (r.chars block)) (input : Bytes) (hblock : block.length = r.required) :
    (Request.randomText (r := r) input).Gives block
      (.ok (.text (String.ofList (r.chars block)))) := by
  rw [Request.gives_iff _ hblock, outcome_eq, read_of_hasRoom hspan hroom, Option.elim_some]

theorem gives_panic (hroom : ¬ HasRoom (r.chars block)) (input : Bytes)
    (hblock : block.length = r.required) :
    (Request.randomText (r := r) input).Gives block (.error .panic) := by
  rw [Request.gives_iff _ hblock, outcome_eq, read_of_not_hasRoom hroom, Option.elim_none]

/-- The text for a block, with every access to it and every operation on words checked. The panics
of a text are what comes out then. -/
def checkedRead (r : RandomText) (block : Bytes) : Option (Option String) := do
  let head ← Checked.slice block 0 4
  let word ← Checked.word 4 head
  let rest ← Checked.slice block 4 block.length
  let distance ← Checked.unsigned 64 (r.maxLength - r.minLength)
  match Checked.unsigned 64 (distance + 1) with
  | none => return none
  | some span =>
    let extra ← Checked.rem (Bytes.readUInt32 word).toNat span
    let length ← Checked.unsigned 64 (r.minLength + extra)
    if Bytes.maxRoom < length then return none
    else
      let chars ← r.drawChars rest length.toNat 0 0
      return (roomFor? length.toNat 0 chars).map fun _ => String.ofList chars

/-- No check fails on a block of the needed length. -/
theorem checkedRead_eq (hblock : block.length = r.required) :
    r.checkedRead block = some (r.read block) := by
  have hle := r.min_le_max
  have hmax : r.maxLength < 2 ^ 64 := r.maxLength_lt
  have hrequired := r.required_mem.1
  have hlength := lengthOf_mem r block
  have hextra : (r.minLength : Int) + (Bytes.readUInt32 (block.take 4)).toNat %
      ((r.maxLength : Int) - r.minLength + 1) = r.lengthOf block := by
    rw [← Nat.cast_sub hle, ← Nat.cast_succ, ← Int.natCast_emod, ← Nat.cast_add]
    rfl
  have hrest : (block.drop 4).take (block.length - 4) = block.drop 4 :=
    List.take_of_length_le (by simp)
  simp only [checkedRead, Option.bind_eq_bind]
  rw [Checked.bind_slice_word (by rfl) (by omega), Checked.slice_eq ⟨by omega, by omega⟩,
    Option.bind_some, hrest, Checked.unsigned_eq ⟨by omega, by omega⟩, Option.bind_some,
    List.drop_zero, read]
  -- with a word for the number of lengths the steps are those of `drawChars`
  by_cases hspan : r.maxLength - r.minLength + 1 < 2 ^ 64
  · have hchars := drawChars_eq hblock (r.lengthOf block) (Nat.zero_le _)
      (by omega : 0 * r.unitCount block + 0 + r.lengthOf block < 2 ^ 64)
    simp only [Nat.zero_mul, Nat.zero_add] at hchars
    rw [Checked.unsigned_eq ⟨by omega, by omega⟩]
    dsimp only
    rw [Checked.rem_eq _ (by omega), Option.bind_some, hextra,
      Checked.unsigned_eq ⟨by omega, by omega⟩, Option.bind_some, Int.toNat_natCast, hchars]
    by_cases hlong : Bytes.maxRoom < r.lengthOf block
    · rw [if_pos (by exact_mod_cast hlong), if_neg fun h => absurd h.2 (by omega)]
      rfl
    · rw [if_neg (by exact_mod_cast hlong), if_pos ⟨hspan, by omega⟩]
      rfl
  · -- the number of lengths is no word
    have hnone : Checked.unsigned 64 ((r.maxLength : Int) - r.minLength + 1) = none :=
      if_neg (by omega)
    rw [hnone, if_neg fun h => hspan h.1]
    rfl

/-! ## Texts in closed form -/

variable {j : Nat}

/-- For an alphabet of up to 256 characters a unit is a byte. -/
theorem unit_eq_byte (hwidth : r.unitLength = 1) (hj : j < r.unitCount block) :
    r.unit block j = (block.getD (4 + j) 0).toNat := by
  have hend := unit_end_le hj
  rw [hwidth, List.length_drop] at hend
  have hplace : 4 + j < block.length := by omega
  rw [unit, hwidth, Nat.mul_one, List.drop_eq_getElem_cons hplace,
    List.getD_eq_getElem _ _ hplace, List.take_succ_cons, List.take_zero]
  simp

/-- For a larger alphabet a unit is two bytes, the low one first. -/
theorem unit_eq_word (hwidth : r.unitLength = 2) (hj : j < r.unitCount block) :
    r.unit block j =
      (block.getD (4 + 2 * j) 0).toNat + 256 * (block.getD (4 + 2 * j + 1) 0).toNat := by
  have hend := unit_end_le hj
  rw [hwidth, List.length_drop] at hend
  have hplace : 4 + 2 * j + 1 < block.length := by omega
  rw [unit, hwidth, Nat.mul_comm j, List.drop_eq_getElem_cons (Nat.lt_of_succ_lt hplace),
    List.drop_eq_getElem_cons hplace, List.getD_eq_getElem _ _ (Nat.lt_of_succ_lt hplace),
    List.getD_eq_getElem _ _ hplace, List.take_succ_cons, List.take_succ_cons, List.take_zero]
  simp

/-- The character at each place of a text. -/
theorem getElem?_chars {i : Nat} (hi : i < r.lengthOf block) :
    (r.chars block)[i]? =
      r.alphabet[(r.unit block (i % r.unitCount block) + i / r.unitCount block) %
        r.alphabet.length]? := by
  show ((List.range _).map (r.charAt block (r.unitCount block)))[i]? = _
  rw [List.getElem?_map, List.getElem?_range hi, Option.map_some, charAt,
    List.getElem?_eq_getElem (Nat.mod_lt _ r.alphabet_pos), List.get_eq_getElem]

/-- **Texts in closed form.** Whatever the alphabet and the bounds of the length are, a block of the
needed bytes chooses the length by its first four bytes. Then unit `i % units` chooses the character
with number `i`, moved on in the alphabet by one for each time that all units have been used up. The
text of these characters is drawn step by step with no access out of range and no number too large
for its word, if they have room, as they have up to a length that leaves room for the widest
character of the alphabet; without room a call panics. -/
theorem text_of_block {alphabet : String} {minLength maxLength : UInt64} {r : RandomText}
    (hmake : make? alphabet minLength maxLength = .ok r)
    (hspan : maxLength.toNat - minLength.toNat < 2 ^ 64 - 1) (input : Bytes) {block : Bytes}
    (hblock : block.length = r.required) :
    let letters := alphabet.toList
    let wide := 256 < letters.length
    let units := (block.length - 4) / if wide then 2 else 1
    let unit (j : Nat) :=
      if wide then (block.getD (4 + 2 * j) 0).toNat + 256 * (block.getD (4 + 2 * j + 1) 0).toNat
      else (block.getD (4 + j) 0).toNat
    let length := minLength.toNat + (Bytes.readUInt32 (block.take 4)).toNat %
      (maxLength.toNat - minLength.toNat + 1)
    let call : Request (.randomText r) := .randomText input
    0 < units ∧ ∃ cs : List Char, cs.length = length ∧
      (∀ i < length, cs[i]? = letters[(unit (i % units) + i / units) % letters.length]?) ∧
      (HasRoom cs → call.Gives block (.ok (.text (String.ofList cs))) ∧
        r.checkedRead block = some (some (String.ofList cs))) ∧
      (¬ HasRoom cs → call.Gives block (.error .panic) ∧ r.checkedRead block = some none) ∧
      (∀ k, (∀ c ∈ letters, c.utf8Size ≤ 2 ^ k) → length * 2 ^ k ≤ Bytes.maxRoom → HasRoom cs) ∧
      (Bytes.maxRoom < length → ¬ HasRoom cs) := by
  obtain ⟨halphabet, hmin, hmax⟩ := make?_eq_ok hmake
  rw [← hmin, ← hmax] at hspan
  rw [← halphabet, ← hmin, ← hmax]
  intro letters wide units unit length call
  have hunits : 2 ≤ units := r.two_le_unitCount hblock
  -- a unit is read in one byte or in two
  have hunit {j : Nat} (hj : j < units) : r.unit block j = unit j := by
    show r.unit block j = if wide then _ else _
    split_ifs with hwide
    · exact unit_eq_word (if_pos hwide) hj
    · exact unit_eq_byte (if_neg hwide) hj
  have hlength : (r.chars block).length = length := length_chars r block
  refine ⟨by omega, r.chars block, hlength, ?_, ?_, ?_, ?_, ?_⟩
  · intro i hi
    rw [getElem?_chars hi, ← hunit (Nat.mod_lt i (by omega))]
    rfl
  · -- with room for its characters the text is given, and no check fails
    intro hroom
    exact ⟨gives_text hspan hroom input hblock,
      by rw [checkedRead_eq hblock, read_of_hasRoom hspan hroom]⟩
  · -- without it the call panics, and again no check fails
    intro hroom
    exact ⟨gives_panic hroom input hblock,
      by rw [checkedRead_eq hblock, read_of_not_hasRoom hroom]⟩
  · intro k hwidth
    exact hasRoom_of_utf8Size_le (fun c hc => hwidth c (mem_alphabet_of_mem_chars hc)) hlength.le
  · intro hlong hroom
    exact absurd (hlength ▸ hroom.length_le) (Nat.not_le.mpr hlong)

/-- The 71st character of a text over 300 letters: thirty units of two bytes have been used up
twice, so unit ten counts two more. -/
theorem text_of_block_thirdRound :
    let alphabet := String.ofList ((List.range 300).map fun n => Char.ofNat (0x4e00 + n))
    let block : Bytes := [100, 0, 0, 0] ++ (List.range 60).map UInt8.ofNat
    ∃ (r : RandomText) (cs : List Char), make? alphabet 0 100 = .ok r ∧
      block.length = r.required ∧ cs.length = 100 ∧
      (Request.randomText (r := r) []).Gives block (.ok (.text (String.ofList cs))) ∧
      cs[70]? = some (Char.ofNat (0x4e00 + (10 * 2 + 256 * (10 * 2 + 1) + 2) % 300)) := by
  intro alphabet block
  have hletters : alphabet.toList = (List.range 300).map fun n => Char.ofNat (0x4e00 + n) :=
    String.toList_ofList
  have hpos : 0 < alphabet.toList.length := by simp [hletters]
  have hmake : make? alphabet 0 100 =
      .ok ⟨alphabet.toList, 0, 100, hpos, by decide, by decide⟩ := by
    rw [make?, dif_pos hpos, dif_pos (by decide)]
    rfl
  have hcount : alphabet.toList.length = 300 := by simp [hletters]
  have hwidth : (⟨alphabet.toList, 0, 100, hpos, by decide, by decide⟩ : RandomText).unitLength =
      2 := if_pos (by rw [hcount]; decide)
  have hblock : block.length =
      (⟨alphabet.toList, 0, 100, hpos, by decide, by decide⟩ : RandomText).required := by
    rw [required, hwidth]
    rfl
  obtain ⟨-, cs, hlength, hchars, htext, -, hroom, -⟩ := text_of_block hmake (by decide) [] hblock
  have hhundred : cs.length = 100 := hlength
  -- four bytes for each of a hundred characters are far below the bound
  have hshort : cs.length * 2 ^ 2 ≤ Bytes.maxRoom := by
    rw [hhundred]
    decide
  rw [hlength] at hshort
  have hgives := (htext (hroom 2 (fun c _ => c.utf8Size_le_four) hshort)).1
  refine ⟨_, cs, hmake, hblock, hhundred, hgives, ?_⟩
  rw [hchars 70 (by decide), hcount, if_pos (by decide), hletters]
  decide

/-- Texts of one letter, all of the shortest length that never has room. -/
def endless : RandomText where
  alphabet := ['a']
  minLength := 9223372036854775808
  maxLength := 9223372036854775808
  alphabet_pos := by decide
  min_le_max := le_refl _
  maxLength_lt := by decide

theorem not_hasRoom_endless (block : Bytes) : ¬ HasRoom (endless.chars block) := by
  intro hroom
  have hlength := hroom.length_le
  rw [length_chars] at hlength
  exact absurd ((endless.lengthOf_mem block).1.trans hlength) (by decide)

/-- There is one length only, but a call panics. -/
theorem text_of_endless_panics :
    make? "a" 9223372036854775808 9223372036854775808 = .ok endless ∧
      endless.maxLength - endless.minLength < 2 ^ 64 - 1 ∧
      (List.replicate 64 (0 : UInt8)).length = endless.required ∧
      (Request.randomText (r := endless) []).Gives (List.replicate 64 0) (.error .panic) :=
  ⟨rfl, by decide, by decide, gives_panic (not_hasRoom_endless _) [] (by decide)⟩

end RandomText

end ColumnMask
