import Mathlib
import ColumnMask.Proofs.NearestFloat
import ColumnMask.Yaml.Document

/-!
# Numbers without quotes

A decimal in quotes is a text, and a text is read as the decimal that it spells. Without quotes the
form of the text decides: an integer of a word stays what it is, a longer one has no meaning, and
what has a point or an exponent becomes a float.

- `Decimal.Spelling.Padded`, `Decimal.Spelling.Wide`: the forms of integers that are no words.
- `Yaml.document?_quoted`: in quotes.
- `Yaml.document?_padded`, `Yaml.document?_word`, `Yaml.document?_wide`, `Yaml.document?_float`:
  without them.
-/

namespace ColumnMask

open Text

namespace Decimal.Spelling

variable (s : Spelling)

/-- The characters that decimals are written with. -/
def isLetter (c : Char) : Bool := isDigit c || ['+', '-', '.', 'e', 'E'].contains c

theorem isLetter_of_sign (sign : Sign) : ∀ c ∈ sign.chars, isLetter c = true := by
  cases sign <;> simp [Sign.chars, isLetter]

theorem isLetter_of_isDigit {c : Char} (h : isDigit c = true) : isLetter c = true := by
  rw [isLetter, h, Bool.true_or]

theorem isLetter_of_mem : ∀ c ∈ s.chars, isLetter c = true := by
  intro c hc
  simp only [chars, base, List.mem_append] at hc
  -- the sign, the digits, the fraction and the exponent
  rcases hc with ((hsign | hwhole) | hfraction) | hexponent
  · exact isLetter_of_sign s.sign c hsign
  · exact isLetter_of_isDigit (s.whole_digits c hwhole)
  · have hdigits := s.fraction_digits
    cases hf : s.fraction with
    | none => simp [hf] at hfraction
    | some ds =>
      rw [hf] at hfraction hdigits
      rcases List.mem_cons.mp hfraction with rfl | hmem
      · decide
      · exact isLetter_of_isDigit (hdigits c hmem)
  · cases he : s.exponent with
    | none => simp [he] at hexponent
    | some e =>
      rw [he, exponentText_some, Exponent.chars, List.mem_cons, List.mem_append] at hexponent
      rcases hexponent with rfl | hsign | hdigit
      · rcases e.mark_eq with hm | hm <;> rw [hm] <;> decide
      · exact isLetter_of_sign e.sign c hsign
      · exact isLetter_of_isDigit (e.digits_digits c hdigit)

/-- A word with another letter is no number. -/
theorem ofList_chars_ne {word : String} (h : word.toList.all isLetter = false) :
    String.ofList s.chars ≠ word := by
  rintro rfl
  rw [String.toList_ofList, List.all_eq_true.mpr s.isLetter_of_mem] at h
  contradiction

theorem contains_eq_false {words : List String}
    (h : ∀ word ∈ words, word.toList.all isLetter = false) :
    words.contains (String.ofList s.chars) = false := by
  rw [List.contains_eq_mem, decide_eq_false]
  exact fun hmem => s.ofList_chars_ne (h _ hmem) rfl

/-- There is neither a point nor an exponent. -/
def IsInteger : Prop := s.fraction = none ∧ s.exponent = none

/-- An integer with zeros in front. -/
def Padded : Prop := s.IsInteger ∧ s.whole.head? = some '0' ∧ 1 < s.whole.length

/-- An integer of 128 bits that is not one of 64 bits. -/
def Wide : Prop :=
  s.IsInteger ∧ ¬ s.Padded ∧
    ¬ Word s.decimal.coefficient ∧
    -Int.pow 2 127 ≤ s.decimal.coefficient ∧ s.decimal.coefficient < Int.pow 2 128

variable {s}

theorem IsInteger.coefficient_eq (h : s.IsInteger) :
    s.decimal.coefficient = s.sign.apply (digitsValue s.whole) := by
  rw [decimal, digits, h.1, Option.getD_none, List.append_nil]

theorem IsInteger.magnitude_eq (h : s.IsInteger) : s.magnitude = s.whole := by
  rw [magnitude, h.1, h.2]
  simp

/-- Where there is more than an integer there is a mark of it. -/
theorem exists_mark (h : ¬ s.IsInteger) : ∃ c ∈ s.magnitude, c = '.' ∨ c = 'e' ∨ c = 'E' := by
  unfold magnitude
  cases hf : s.fraction with
  | some ds => exact ⟨'.', by simp, .inl rfl⟩
  | none =>
    cases he : s.exponent with
    | some e => exact ⟨e.mark, by simp [Exponent.chars], .inr e.mark_eq⟩
    | none => exact absurd ⟨hf, he⟩ h

end Decimal.Spelling

namespace Yaml

open Decimal (Spelling)

variable (s : Spelling)

/-! ## Words -/

theorem isNullWord_spelling : isNullWord (String.ofList s.chars) = false :=
  s.contains_eq_false (by decide)

theorem bool?_spelling : bool? (String.ofList s.chars) = none := by
  rw [bool?, s.contains_eq_false (by decide), s.contains_eq_false (by decide)]
  rfl

theorem isEmpty_spelling : (String.ofList s.chars).isEmpty = false := by
  obtain ⟨c, rest, hcons, -⟩ := s.exists_magnitude_cons
  rw [s.chars_eq, hcons]
  simp

/-- What is no word is an integer, or a float, or a text. -/
theorem ofPlain_spelling : Meaning.ofPlain (String.ofList s.chars) =
    match integer? s.chars with
    | some n => .integer n
    | none =>
      match float? (String.ofList s.chars) with
      | some x => if hasLeadingZero s.chars then .text (String.ofList s.chars) else .float x
      | none => .text (String.ofList s.chars) := by
  rw [Meaning.ofPlain, isEmpty_spelling, isNullWord_spelling, bool?_spelling, String.toList_ofList]
  rfl

/-- Only the float that is written counts. -/
theorem float?_spelling : float? (String.ofList s.chars) =
    match Binary64.parse? (String.ofList s.chars) with
    | some x => if x.isFinite then some x else none
    | none => none := by
  unfold float?
  split
  all_goals first | rfl | rename_i heq; exact absurd heq (s.ofList_chars_ne (by decide))

/-! ## Integers -/

/-- The number after one more digit. -/
def nextDigit (n : Nat) (c : Char) : Option Nat := do
  let d ← hexValue? c
  if d < 10 then some (10 * n + d) else none

theorem digits?_ten (cs : List Char) :
    digits? 10 cs = if cs.isEmpty then none else cs.foldlM nextDigit 0 := rfl

theorem nextDigit_eq {c : Char} (h : isDigit c = true) (n : Nat) :
    nextDigit n c = some (10 * n + (c.toNat - 48)) := by
  have hrange := isDigit_iff.mp h
  have hvalue : hexValue? c = some (c.toNat - 48) := if_pos ⟨hrange.1, hrange.2⟩
  rw [nextDigit, hvalue]
  exact if_pos (by omega)

theorem foldlM_nextDigit {cs : List Char} (h : Digits cs) (n : Nat) :
    cs.foldlM nextDigit n = some (cs.foldl (fun n c => 10 * n + (c.toNat - 48)) n) := by
  induction cs generalizing n with
  | nil => rfl
  | cons c rest ih =>
    obtain ⟨hc, hrest⟩ := digits_cons.mp h
    rw [List.foldlM_cons, nextDigit_eq hc, List.foldl_cons]
    exact ih hrest _

theorem foldlM_nextDigit_eq_none {cs : List Char} {c : Char} (hc : c ∈ cs)
    (h : ∀ n, nextDigit n c = none) (n : Nat) : cs.foldlM nextDigit n = none := by
  induction cs generalizing n with
  | nil => cases hc
  | cons a rest ih =>
    rw [List.foldlM_cons]
    rcases List.mem_cons.mp hc with rfl | hrest
    · rw [h n]
      rfl
    · cases nextDigit n a with
      | none => rfl
      | some m => exact ih hrest m

/-- Digits are read as their number in base ten. -/
theorem digits?_eq {cs : List Char} (h : Digits cs) (hne : cs ≠ []) :
    digits? 10 cs = some (digitsValue cs) := by
  rw [digits?_ten, if_neg (by simpa using hne), foldlM_nextDigit h]
  rfl

/-- The letters of another base than ten do not occur in decimals. -/
theorem natural?_eq_digits? {cs : List Char} (h : ∀ c ∈ cs, Spelling.isLetter c = true) :
    natural? cs = digits? 10 cs := by
  unfold natural?
  split
  case h_1 => exact absurd (h 'x' (by simp)) (by decide)
  case h_2 => exact absurd (h 'o' (by simp)) (by decide)
  case h_3 => exact absurd (h 'b' (by simp)) (by decide)
  case h_4 => rfl

/-- A point and an exponent are no digits. -/
theorem digits?_eq_none {cs : List Char} {c : Char} (hc : c ∈ cs)
    (hmark : c = '.' ∨ c = 'e' ∨ c = 'E') : digits? 10 cs = none := by
  have hnext (n : Nat) : nextDigit n c = none := by
    rcases hmark with rfl | rfl | rfl <;> rfl
  rw [digits?_ten, foldlM_nextDigit_eq_none hc hnext, ite_self]

theorem withoutSign_spelling : withoutSign s.chars = s.magnitude := by
  obtain ⟨c, rest, hcons, hc⟩ := s.exists_magnitude_cons
  have hplain : c ≠ '-' ∧ c ≠ '+' := by
    rcases hc with hdigit | rfl
    · exact ⟨ne_of_isDigit hdigit (by decide), ne_of_isDigit hdigit (by decide)⟩
    · decide
  rw [s.chars_eq]
  cases s.sign with
  | plus => rfl
  | minus => rfl
  -- what starts with a digit or a point has no sign to take away
  | none =>
    rw [hcons, Sign.chars, List.nil_append, withoutSign]
    · exact fun rest h => hplain.2 (List.cons.inj h).1
    · exact fun rest h => hplain.1 (List.cons.inj h).1

/-- A number is read with its sign if it has no zeros in front and at most 128 bits. -/
theorem integer?_spelling (h : hasLeadingZero s.chars = false) :
    integer? s.chars = (natural? s.magnitude).bind fun n =>
      if s.sign = .minus then if n ≤ Nat.pow 2 127 then some ⟨true, n⟩ else none
      else if n < Nat.pow 2 128 then some ⟨false, n⟩ else none := by
  unfold integer?
  rw [if_neg (by simp [h]), withoutSign_spelling]
  have hchars := s.chars_eq
  cases hsign : s.sign with
  | minus =>
    rw [hsign] at hchars
    rw [hchars]
    rfl
  | plus =>
    rw [hsign] at hchars
    rw [hchars]
    rfl
  -- without a minus sign in front the number is read as it stands
  | none =>
    obtain ⟨c, rest, hcons, hc⟩ := s.exists_magnitude_cons
    have hminus : c ≠ '-' := by
      rcases hc with hdigit | rfl
      · exact ne_of_isDigit hdigit (by decide)
      · decide
    rw [hsign, hcons, Sign.chars, List.nil_append] at hchars
    split
    case h_1 heq => exact absurd (List.cons.inj (hchars.symm.trans heq)).1 hminus
    case h_2 => rfl

/-- Zeros in front do not count before a point or an exponent. -/
theorem hasLeadingZero_spelling : hasLeadingZero s.chars = true ↔ s.Padded := by
  unfold hasLeadingZero
  rw [withoutSign_spelling]
  split
  case h_1 rest heq =>
    simp only [Bool.and_eq_true, Bool.not_eq_true', List.isEmpty_eq_false_iff]
    constructor
    · rintro ⟨hne, hall⟩
      -- digits only, so there is no point and no mark of an exponent
      have hinteger : s.IsInteger := by
        by_contra hnot
        obtain ⟨c, hc, hmark⟩ := Spelling.exists_mark hnot
        have hdigit : isDigit c = true := by
          rw [heq] at hc
          rcases List.mem_cons.mp hc with rfl | hrest
          · decide
          · exact List.all_eq_true.mp hall c hrest
        rcases hmark with rfl | rfl | rfl <;> contradiction
      rw [hinteger.magnitude_eq] at heq
      refine ⟨hinteger, by rw [heq]; rfl, ?_⟩
      rw [heq, List.length_cons]
      have hlength := List.length_pos_iff.mpr hne
      omega
    · rintro ⟨hinteger, -, hlength⟩
      have hdigits := s.whole_digits
      rw [← hinteger.magnitude_eq, heq] at hlength hdigits
      exact ⟨by rintro rfl; simp at hlength, List.all_eq_true.mpr (digits_cons.mp hdigits).2⟩
  case h_2 hnot =>
    -- what does not start with a zero is not padded
    refine ⟨fun h => absurd h (by decide), fun ⟨hinteger, hhead, _⟩ => ?_⟩
    rw [← hinteger.magnitude_eq] at hhead
    obtain ⟨rest, hrest⟩ := List.head?_eq_some_iff.mp hhead
    exact absurd hrest (hnot rest)

theorem integer?_eq_none (h : ¬ s.IsInteger) : integer? s.chars = none := by
  have hzero : hasLeadingZero s.chars = false := by
    rw [Bool.eq_false_iff, Ne, hasLeadingZero_spelling]
    exact fun hpadded => h hpadded.1
  obtain ⟨c, hc, hmark⟩ := Spelling.exists_mark h
  have hletters : ∀ c ∈ s.magnitude, Spelling.isLetter c = true := fun c hc =>
    s.isLetter_of_mem c (by rw [s.chars_eq]; exact List.mem_append_right _ hc)
  rw [integer?_spelling s hzero, natural?_eq_digits? hletters, digits?_eq_none hc hmark]
  rfl

theorem apply_mem_iff {least most : Nat} (sign : Sign) (n : Nat) (hpos : 0 < most) :
    -(least : Int) ≤ sign.apply n ∧ sign.apply n < most ↔
      if sign = .minus then n ≤ least else n < most := by
  cases sign with
  | minus =>
    simp only [Sign.apply, if_pos]
    omega
  | plus =>
    show -(least : Int) ≤ (n : Int) ∧ (n : Int) < most ↔ n < most
    omega
  | none =>
    show -(least : Int) ≤ (n : Int) ∧ (n : Int) < most ↔ n < most
    omega

/-- An integer of at most 128 bits is read as what it is. -/
theorem integer?_of_isInteger (hinteger : s.IsInteger) (hpadded : ¬ s.Padded) :
    integer? s.chars =
      if -Int.pow 2 127 ≤ s.decimal.coefficient ∧ s.decimal.coefficient < Int.pow 2 128 then
        some ⟨decide (s.sign = .minus), digitsValue s.whole⟩
      else none := by
  have hzero : hasLeadingZero s.chars = false := by
    rwa [Bool.eq_false_iff, Ne, hasLeadingZero_spelling]
  have hne : s.whole ≠ [] := by simpa [hinteger.1] using s.digits_ne_nil
  have hletters : ∀ c ∈ s.whole, Spelling.isLetter c = true := fun c hc =>
    Spelling.isLetter_of_isDigit (s.whole_digits c hc)
  rw [integer?_spelling s hzero, hinteger.magnitude_eq, natural?_eq_digits? hletters,
    digits?_eq s.whole_digits hne, Option.bind_some, hinteger.coefficient_eq]
  have hleast : Int.pow 2 127 = (Nat.pow 2 127 : Nat) := rfl
  have hmost : Int.pow 2 128 = (Nat.pow 2 128 : Nat) := rfl
  rw [hleast, hmost]
  simp only [apply_mem_iff _ _ (by decide : 0 < Nat.pow 2 128)]
  -- a minus sign decides which of the two bounds counts
  by_cases hsign : s.sign = .minus
  · simp only [hsign, if_pos, decide_true]
  · simp only [hsign, if_neg, decide_false, not_false_eq_true]

/-! ## Floats -/

theorem isFinite_of_ofFloat? {x : Float} {d : Decimal} (h : Decimal.ofFloat? x = some d) :
    x.isFinite = true := by
  unfold Decimal.ofFloat? Binary64.ofFloat at h
  unfold Float.isFinite Float.Model.isFinite
  generalize x.toModel.unpack = u at h ⊢
  cases u with
  | notANumber => cases h
  | infinity sign => cases h
  | zero sign => rfl
  | finite sign m e hm => rfl

/-- A minus sign on zero makes no difference to the number that is read. -/
theorem exists_parse?_spelling : ∃ x, Binary64.parse? (String.ofList s.chars) = some x ∧
    Decimal.ofFloat? x = Decimal.ofFloat? (Binary64.nearest s.decimal) := by
  -- minus zero is read as a float of its own, which stands for the same decimal
  by_cases hzero : s.sign = .minus ∧ s.decimal.coefficient = 0
  · obtain ⟨hsign, hcoefficient⟩ := hzero
    have hdigits : digitsValue s.digits = 0 := by
      have happly : s.sign.apply (digitsValue s.digits) = 0 := hcoefficient
      rw [hsign] at happly
      exact_mod_cast neg_eq_zero.mp happly
    have hmagnitude := Binary64.magnitude?_magnitude s
    rw [hdigits] at hmagnitude
    refine ⟨-Binary64.ofDecimal 0 (-s.decimal.scale), ?_, ?_⟩
    · rw [Binary64.parse?, String.toList_ofList, s.chars_eq, hsign]
      show (Binary64.magnitude? s.magnitude).map (fun x => -x) = _
      rw [hmagnitude]
      rfl
    · rw [Binary64.nearest, hcoefficient, if_neg (by decide), Int.natAbs_zero,
        Binary64.ofDecimal_zero]
      rfl
  · exact ⟨_, Binary64.parse?_spelling s (.refl _) fun hsign hcoefficient =>
      hzero ⟨hsign, hcoefficient⟩, rfl⟩

/-! ## Documents -/

/-- In quotes a number is a text. -/
theorem document?_quoted :
    (Node.scalar none false (String.ofList s.chars)).document? =
      some (.text (String.ofList s.chars)) := rfl

theorem document?_plain :
    (Node.scalar none true (String.ofList s.chars)).document? =
      (Meaning.ofPlain (String.ofList s.chars)).document? := rfl

variable {s}

/-- An integer with zeros in front is a text without quotes as well. -/
theorem document?_padded (h : s.Padded) :
    (Node.scalar none true (String.ofList s.chars)).document? =
      some (.text (String.ofList s.chars)) := by
  have hzero := (hasLeadingZero_spelling s).mpr h
  have hinteger : integer? s.chars = none := by
    unfold integer?
    rw [if_pos hzero]
  rw [document?_plain, ofPlain_spelling, hinteger]
  dsimp only
  cases float? (String.ofList s.chars) with
  | none => rfl
  | some x =>
    dsimp only
    rw [if_pos hzero]
    rfl

/-- An integer of 128 bits has a meaning only if it is one of 64 bits. -/
theorem document?_integer (hinteger : s.IsInteger) (hpadded : ¬ s.Padded)
    (hrange : -Int.pow 2 127 ≤ s.decimal.coefficient ∧ s.decimal.coefficient < Int.pow 2 128) :
    ∃ n : Numeral, n.toInt = s.decimal.coefficient ∧
      (Node.scalar none true (String.ofList s.chars)).document? =
        if Word s.decimal.coefficient then some (.integer n) else none := by
  have hvalue : Numeral.toInt ⟨decide (s.sign = .minus), digitsValue s.whole⟩ =
      s.decimal.coefficient := by
    rw [hinteger.coefficient_eq]
    cases s.sign <;> rfl
  refine ⟨_, hvalue, ?_⟩
  rw [document?_plain, ofPlain_spelling, integer?_of_isInteger s hinteger hpadded, if_pos hrange,
    ← hvalue]
  rfl

/-- An integer of 64 bits is what it is. -/
theorem document?_word (hinteger : s.IsInteger) (hpadded : ¬ s.Padded)
    (hword : Word s.decimal.coefficient) :
    ∃ n : Numeral, n.toInt = s.decimal.coefficient ∧
      (Node.scalar none true (String.ofList s.chars)).document? = some (.integer n) := by
  have hleast : (2 : Int) ^ 63 ≤ Int.pow 2 127 := by decide
  have hmost : (2 : Int) ^ 64 ≤ Int.pow 2 128 := by decide
  obtain ⟨n, hvalue, hdocument⟩ := document?_integer hinteger hpadded ⟨by omega, by omega⟩
  exact ⟨n, hvalue, hdocument.trans (if_pos hword)⟩

/-- A longer one has no meaning. -/
theorem document?_wide (h : s.Wide) :
    (Node.scalar none true (String.ofList s.chars)).document? = none := by
  obtain ⟨hinteger, hpadded, hword, hrange⟩ := h
  obtain ⟨n, -, hdocument⟩ := document?_integer hinteger hpadded hrange
  exact hdocument.trans (if_neg hword)

/-- **Anything else** within the range of floats becomes the nearest one. -/
theorem document?_float (hlargest : |s.decimal.toRat| ≤ Decimal.largestFloat)
    (hinteger : s.IsInteger → ¬ s.Padded ∧ ¬ (-Int.pow 2 127 ≤ s.decimal.coefficient ∧
      s.decimal.coefficient < Int.pow 2 128)) :
    ∃ x, Decimal.ofFloat? x = Decimal.ofFloat? (Binary64.nearest s.decimal) ∧
      (Node.scalar none true (String.ofList s.chars)).document? = some (.float x) := by
  obtain ⟨x, hparse, hvalue⟩ := exists_parse?_spelling s
  obtain ⟨f, hf, -⟩ := Decimal.exists_ofFloat?_nearest hlargest
  have hfinite : x.isFinite = true := isFinite_of_ofFloat? (hvalue.trans hf)
  refine ⟨x, hvalue, ?_⟩
  -- a whole number that is not padded is out of range here, so it is read as a float
  have hnone : integer? s.chars = none := by
    by_cases h : s.IsInteger
    · rw [integer?_of_isInteger s h (hinteger h).1, if_neg (hinteger h).2]
    · exact integer?_eq_none s h
  have hzero : ¬ hasLeadingZero s.chars = true := fun h =>
    have hpadded := (hasLeadingZero_spelling s).mp h
    (hinteger hpadded.1).1 hpadded
  rw [document?_plain, ofPlain_spelling, hnone, float?_spelling, hparse]
  dsimp only
  rw [if_pos hfinite]
  dsimp only
  rw [if_neg hzero]
  rfl

end Yaml

end ColumnMask
