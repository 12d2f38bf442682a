import Mathlib
import ColumnMask.Proofs.DecimalText

/-!
# Texts of decimals

Both texts of a decimal are read back, and the one without an exponent is the same for the same
number.
-/

namespace ColumnMask

/-!
## Writing decimals

Every number has one normal form, so decimals that stand for the same number have the same canonical
text. Both texts of a decimal are read back as the number it stands for, with zeros, signs and
exponents wherever the scale puts them.

- `Decimal.normalize_eq_iff`, `Decimal.plainText_eq_of_same`: one normal form for a number.
- `Decimal.parse?_plainText`, `Decimal.parse?_displayText`: the texts are read back.
-/

namespace Decimal

open Text

variable {a b d : Decimal}

/-! ### The same number -/

theorem same_iff_toRat : a.Same b ↔ a.toRat = b.toRat := by
  show a.unitsAt (max a.scale b.scale) = b.unitsAt (max a.scale b.scale) ↔ _
  rw [← Int.cast_inj (α := ℚ), unitsAt_eq (le_max_left _ _), unitsAt_eq (le_max_right _ _)]
  exact mul_left_inj' (ten_zpow_pos _).ne'

theorem Same.refl (d : Decimal) : d.Same d := rfl

theorem Same.symm (h : a.Same b) : b.Same a := same_iff_toRat.mpr (same_iff_toRat.mp h).symm

theorem Same.trans {c : Decimal} (hab : a.Same b) (hbc : b.Same c) : a.Same c :=
  same_iff_toRat.mpr ((same_iff_toRat.mp hab).trans (same_iff_toRat.mp hbc))

theorem Same.coefficient_eq_zero (h : a.Same b) : a.coefficient = 0 ↔ b.coefficient = 0 := by
  have hzero (d : Decimal) : d.toRat = 0 ↔ d.coefficient = 0 := by
    simp [toRat, zpow_ne_zero]
  rw [← hzero, ← hzero, same_iff_toRat.mp h]

/-- Of two coefficients for one number, the one at the finer scale has more zeros. -/
theorem Same.coefficient_eq (h : a.Same b) (hscale : a.scale ≤ b.scale) :
    b.coefficient = a.coefficient * 10 ^ (b.scale - a.scale).toNat := by
  have hunits : a.unitsAt (max a.scale b.scale) = b.unitsAt (max a.scale b.scale) := h
  rw [max_eq_right hscale, unitsAt_self] at hunits
  exact hunits.symm

/-! ### The normal form -/

/-- There are no zeros at the end of the coefficient, and zero has scale zero. -/
def Normal (d : Decimal) : Prop := d = ⟨0, 0⟩ ∨ d.coefficient % 10 ≠ 0

theorem Normal.eq_zero (h : d.Normal) (hzero : d.coefficient = 0) : d = ⟨0, 0⟩ :=
  h.resolve_right (by simp [hzero])

/-- A normal form is not written at a finer scale than another decimal for its number. -/
theorem Normal.scale_le (hb : b.Normal) (h : a.Same b) (ha : a.Normal) : b.scale ≤ a.scale := by
  by_contra hlt
  have hcoefficient := h.coefficient_eq (by omega)
  obtain ⟨k, hk⟩ : ∃ k, (b.scale - a.scale).toNat = k + 1 :=
    ⟨(b.scale - a.scale).toNat - 1, by omega⟩
  rw [hk, pow_succ, ← mul_assoc] at hcoefficient
  -- a finer scale adds a zero to the end of the coefficient, so both coefficients are zero
  have hb0 : b = ⟨0, 0⟩ := hb.resolve_right (by simp [hcoefficient])
  have ha0 : a = ⟨0, 0⟩ := by
    refine ha.eq_zero ?_
    rw [hb0] at hcoefficient
    simpa using hcoefficient
  rw [ha0, hb0] at hlt
  exact hlt (Int.le_refl _)

/-- A number has one normal form. -/
theorem Normal.eq_of_same (ha : a.Normal) (hb : b.Normal) (h : a.Same b) : a = b := by
  have hscale : a.scale = b.scale := le_antisymm (ha.scale_le h.symm hb) (hb.scale_le h ha)
  have hcoefficient := h.coefficient_eq hscale.le
  rw [hscale, Int.sub_self] at hcoefficient
  cases a
  cases b
  simp_all

theorem toRat_stripZeros (fuel : Nat) (d : Decimal) : (stripZeros fuel d).toRat = d.toRat := by
  induction fuel generalizing d with
  | zero => rfl
  | succ fuel ih =>
    rw [stripZeros]
    split
    case isTrue h =>
      rw [ih, ← Nat.cast_one, ← toRat_mul_pow, pow_one,
        Int.ediv_mul_cancel (Int.dvd_of_emod_eq_zero h)]
    case isFalse => rfl

theorem stripZeros_scale_le (fuel : Nat) (d : Decimal) : (stripZeros fuel d).scale ≤ d.scale := by
  induction fuel generalizing d with
  | zero => exact le_refl _
  | succ fuel ih =>
    rw [stripZeros]
    split
    case isTrue => exact (ih _).trans (by simp)
    case isFalse => exact le_refl _

/-- Each zero takes a digit, so no zero is left when there were not more digits than fuel. -/
theorem stripZeros_coefficient {fuel : Nat} (hne : d.coefficient ≠ 0)
    (hlt : d.coefficient.natAbs < 10 ^ (fuel + 1)) : (stripZeros fuel d).coefficient % 10 ≠ 0 := by
  -- on the fuel: a digit less is left after each step
  induction fuel generalizing d with
  | zero =>
    rw [stripZeros]
    omega
  | succ fuel ih =>
    rw [stripZeros]
    split
    case isTrue h =>
      refine ih ?_ ?_
      · dsimp only
        omega
      · rw [pow_succ] at hlt
        dsimp only
        omega
    case isFalse h => exact h

theorem normal_normalize (d : Decimal) : d.normalize.Normal := by
  unfold normalize
  split
  case isTrue => exact .inl rfl
  case isFalse h =>
    refine .inr (stripZeros_coefficient h ?_)
    exact Nat.lt_log2_self.trans_le (Nat.pow_le_pow_left (by decide) _)

theorem same_normalize (d : Decimal) : d.normalize.Same d := by
  rw [same_iff_toRat, normalize]
  split
  case isTrue h => simp [toRat, h]
  case isFalse => exact toRat_stripZeros _ d

theorem normalize_scale_le (d : Decimal) : d.normalize.scale ≤ max d.scale 0 := by
  unfold normalize
  split
  case isTrue => exact le_max_right _ _
  case isFalse => exact (stripZeros_scale_le _ d).trans (le_max_left _ _)

/-- **Decimals have the same normal form** just if they stand for the same number. -/
theorem normalize_eq_iff : a.normalize = b.normalize ↔ a.Same b := by
  constructor
  · intro h
    have hb := same_normalize b
    rw [← h] at hb
    exact (same_normalize a).symm.trans hb
  · intro h
    refine (normal_normalize a).eq_of_same (normal_normalize b) ?_
    exact (same_normalize a).trans (h.trans (same_normalize b).symm)

/-- The canonical text depends on the number only. -/
theorem plainText_eq_of_same (h : a.Same b) : a.plainText = b.plainText := by
  rw [plainText, plainText, normalize_eq_iff.mpr h]

/-! ### Reading what is written -/

theorem withSign_eq (d : Decimal) (digits : List Char) :
    d.withSign digits = String.ofList ((Sign.ofInt d.coefficient).chars ++ digits) := by
  unfold withSign Sign.ofInt
  split <;> rfl

/-- All digits of a number spell it without an exponent. -/
theorem exists_spelling_withSign (d : Decimal) :
    ∃ s : Spelling, s.exponent = none ∧ s.decimal.scale = max d.scale 0 ∧ s.decimal.Same d ∧
      d.withSign d.fullDigits = String.ofList s.chars := by
  obtain ⟨s, -, hnone, hchars, hscale, hnumber⟩ :=
    exists_spelling_fullDigits (Sign.ofInt d.coefficient) d
  refine ⟨s, hnone, hscale, same_iff_toRat.mpr ?_, ?_⟩
  · rw [hnumber, Sign.apply_ofInt]
  · rw [withSign_eq, hchars]

/-- The canonical text spells the number without an exponent. -/
theorem exists_spelling_plainText (d : Decimal) :
    ∃ s : Spelling, s.exponent = none ∧ s.decimal.scale ≤ max d.scale 0 ∧ s.decimal.Same d ∧
      d.plainText = String.ofList s.chars := by
  obtain ⟨s, hnone, hscale, hsame, htext⟩ := exists_spelling_withSign d.normalize
  have hle := d.normalize_scale_le
  exact ⟨s, hnone, by omega, hsame.trans (same_normalize d), htext⟩

/-- **The canonical text** is read back as the same number. -/
theorem parse?_plainText (h : d.WordScale) :
    ∃ d', parse? d.plainText = some d' ∧ d'.Same d := by
  obtain ⟨s, hnone, hscale, hsame, htext⟩ := exists_spelling_plainText d
  have hnonneg := Spelling.scale_nonneg hnone
  have hrange : s.InRange := Spelling.inRange_of_none hnone (by omega)
  exact ⟨s.decimal, by rw [htext, parse?_spelling s hrange], hsame⟩

/-- An exponent of a decimal as it is written. -/
def writtenExponent (mark : Char) (hmark : mark = 'e' ∨ mark = 'E') (sign : Sign) (n : Nat) :
    Exponent where
  mark := mark
  sign := sign
  digits := ofNat n
  mark_eq := hmark
  digits_digits := digits_ofNat n
  digits_ne_nil := ofNat_ne_nil n

@[simp] theorem value_writtenExponent {mark : Char} (hmark : mark = 'e' ∨ mark = 'E') (sign : Sign)
    (n : Nat) : (writtenExponent mark hmark sign n).value = sign.apply n := by
  simp [Exponent.value, writtenExponent]

/-- A spelling with the digits and the scale of a decimal is read as the decimal. -/
theorem parse?_of_spelling {s : Spelling} {digits : List Char} (hd : d.WordScale)
    (hsign : s.sign = Sign.ofInt d.coefficient) (hdigits : s.digits = ofNat d.coefficient.natAbs)
    (hscale : s.decimal.scale = d.scale)
    (hexponent : -Int.pow 2 127 ≤ s.exponentValue ∧ s.exponentValue < Int.pow 2 127)
    (hchars : s.chars = (Sign.ofInt d.coefficient).chars ++ digits) :
    parse? (d.withSign digits) = some d := by
  have hdecimal : s.decimal = d := by
    have hcoefficient : s.decimal.coefficient = d.coefficient := by
      simp only [Spelling.decimal, hsign, hdigits, digitsValue_ofNat, Sign.apply_ofInt]
    cases d
    cases hs : s.decimal
    simp_all
  rw [withSign_eq, ← hchars, parse?_spelling s ⟨hexponent, hdecimal ▸ hd⟩, hdecimal]

/-- With a negative exponent the point, if there is one, stands after the first digit. -/
theorem parse?_scientific {first : Char} {rest : List Char} (hd : d.WordScale)
    (hdigits : ofNat d.coefficient.natAbs = first :: rest) (hzeros : (rest.length : Int) < d.scale)
    (fraction : Option (List Char)) (hrest : fraction.getD [] = rest) :
    parse? (d.withSign (first :: Spelling.fractionText fraction ++
      'E' :: '-' :: ofNat (d.scale - rest.length).toNat)) = some d := by
  have hall : Digits (first :: rest) := hdigits ▸ digits_ofNat _
  have hword : (2 : Int) ^ 63 < Int.pow 2 127 := by decide
  -- one digit in front of the point, and the places beyond the others in the exponent
  let s : Spelling := {
    sign := Sign.ofInt d.coefficient
    whole := [first]
    fraction := fraction
    exponent := some (writtenExponent 'E' (.inr rfl) .minus (d.scale - rest.length).toNat)
    whole_digits := by simpa using (digits_cons.mp hall).1
    fraction_digits := by simpa [hrest] using (digits_cons.mp hall).2
    digits_ne_nil := by simp }
  have hexponent : s.exponentValue = rest.length - d.scale := by
    simp only [s, Spelling.exponentValue, Option.map_some, Option.getD_some,
      value_writtenExponent, Sign.apply]
    omega
  refine parse?_of_spelling (s := s) hd rfl ?_ ?_ ?_ ?_
  · simp [s, Spelling.digits, hrest, hdigits]
  · simp only [Spelling.decimal, hexponent, s, hrest]
    omega
  · unfold WordScale at hd
    omega
  · simp [s, Spelling.chars, Spelling.base, Exponent.chars, writtenExponent, Sign.chars]

/-- A positive exponent follows the digits. -/
theorem parse?_scaledUp (hd : d.WordScale) (hscale : d.scale < 0) :
    parse? (d.withSign (ofNat d.coefficient.natAbs ++ 'e' :: '+' :: ofNat (-d.scale).toNat)) =
      some d := by
  have hword : (2 : Int) ^ 63 < Int.pow 2 127 := by decide
  -- all digits, and the zeros after them in the exponent
  let s : Spelling := {
    sign := Sign.ofInt d.coefficient
    whole := ofNat d.coefficient.natAbs
    fraction := none
    exponent := some (writtenExponent 'e' (.inl rfl) .plus (-d.scale).toNat)
    whole_digits := digits_ofNat _
    fraction_digits := digits_nil
    digits_ne_nil := by simpa using ofNat_ne_nil _ }
  have hexponent : s.exponentValue = -d.scale := by
    simp only [s, Spelling.exponentValue, Option.map_some, Option.getD_some,
      value_writtenExponent, Sign.apply]
    omega
  refine parse?_of_spelling (s := s) hd rfl ?_ ?_ ?_ ?_
  · simp [s, Spelling.digits]
  · simp only [Spelling.decimal, hexponent, s]
    simp
  · unfold WordScale at hd
    omega
  · simp [s, Spelling.chars, Spelling.base, Exponent.chars, writtenExponent, Sign.chars]

/-- **The text that shows the scale** is read back as the same number. -/
theorem parse?_displayText (hd : d.WordScale) :
    ∃ d', parse? d.displayText = some d' ∧ d'.Same d := by
  obtain ⟨first, rest, hdigits⟩ := List.exists_cons_of_ne_nil (ofNat_ne_nil d.coefficient.natAbs)
  unfold displayText
  simp only [hdigits, List.length_cons, Nat.cast_add, Nat.cast_one]
  split_ifs with hzero hsmall hlarge
  · -- zero is a single digit
    refine ⟨⟨0, 0⟩, by decide, same_iff_toRat.mpr ?_⟩
    simp [toRat, hzero]
  · -- far below one, with a negative exponent
    refine ⟨d, ?_, Same.refl d⟩
    rw [show d.scale - (rest.length + 1) + 1 = d.scale - rest.length by omega]
    cases rest with
    | nil => exact parse?_scientific hd hdigits (by rw [List.length_nil]; omega) none rfl
    | cons second rest =>
      exact parse?_scientific hd hdigits (by omega) (some (second :: rest)) rfl
  · -- too large to write its zeros out
    refine ⟨d, ?_, Same.refl d⟩
    rw [← hdigits]
    exact parse?_scaledUp hd (by omega)
  · -- all digits and places are written out
    obtain ⟨s, hnone, hscale, hsame, htext⟩ := exists_spelling_withSign d
    have hword := hd.2
    have hrange : s.InRange := Spelling.inRange_of_none hnone (by omega)
    exact ⟨s.decimal, by rw [htext, parse?_spelling s hrange], hsame⟩

end Decimal

/-!
## Canonical texts of decimals

The canonical text of a number is written from its normal form, which has no zeros at the end of the
coefficient. So there are none after the point, and the text tells the number from all others.

- `Decimal.mem_plainText`, `Decimal.getLast?_plainText`: the characters of a canonical text, and the
  last one of a fraction.
- `Decimal.Spelling.decimal_eq_of_chars`: a spelling without an exponent is known from its text.
- `Decimal.plainText_eq_iff`: numbers have the same canonical text just if they are the same.
- `Decimal.plainText_canonical`: all this, and the text is read back.
-/

namespace Decimal

open Text

variable {a b d : Decimal}

/-! ### Digits and the point -/

section

variable {ds : List Char} {places : Nat} {c : Char}

theorem mem_withPoint (h : c ∈ withPoint ds places) : c ∈ ds ∨ c = '0' ∨ c = '.' := by
  unfold withPoint at h
  -- no point, a point between the digits, or zeros and a point before them
  split_ifs at h with hzero hlt
  · exact .inl h
  · rcases List.mem_append.mp h with hfront | hback
    · exact .inl (List.mem_of_mem_take hfront)
    · rcases List.mem_cons.mp hback with rfl | hback
      · exact .inr (.inr rfl)
      · exact .inl (List.mem_of_mem_drop hback)
  · rcases List.mem_cons.mp h with rfl | h
    · exact .inr (.inl rfl)
    · rcases List.mem_cons.mp h with rfl | h
      · exact .inr (.inr rfl)
      · rcases List.mem_append.mp h with hzero | hdigit
        · exact .inr (.inl (List.eq_of_mem_replicate hzero))
        · exact .inl hdigit

/-- The digits end as they did, wherever the point comes. -/
theorem getLast?_withPoint (hne : ds ≠ []) (places : Nat) :
    (withPoint ds places).getLast? = ds.getLast? := by
  unfold withPoint
  split_ifs with hzero hlt
  · rfl
  · have hpos : 0 < ds.length := List.length_pos_of_ne_nil hne
    have hdrop : ds.drop (ds.length - places) ≠ [] := by
      rw [ne_eq, List.drop_eq_nil_iff]
      omega
    rw [List.getLast?_append_of_ne_nil _ (by simp), List.getLast?_cons_of_ne_nil hdrop,
      List.getLast?_drop, if_neg (by omega)]
  · rw [List.cons_append, List.cons_append, List.getLast?_cons_of_ne_nil (by simp),
      List.getLast?_cons_of_ne_nil (by simp [hne]), List.getLast?_append_of_ne_nil _ hne]

end

theorem mem_fullDigits {c : Char} (h : c ∈ d.fullDigits) : isDigit c = true ∨ c = '.' := by
  have hdigits := digits_ofNat d.coefficient.natAbs
  obtain ⟨coefficient, scale⟩ := d
  cases scale with
  | ofNat places =>
    rcases mem_withPoint h with hdigit | rfl | rfl
    · exact .inl (hdigits c hdigit)
    · exact .inl (by decide)
    · exact .inr rfl
  | negSucc n =>
    rcases List.mem_append.mp h with hdigit | hzero
    · exact .inl (hdigits c hdigit)
    · exact .inl (digits_replicate_zero (n + 1) c hzero)

/-- Where there is a point, the scale is positive. -/
theorem scale_pos_of_point (h : '.' ∈ d.fullDigits) : 0 < d.scale := by
  have hdigits := digits_ofNat d.coefficient.natAbs
  obtain ⟨coefficient, scale⟩ := d
  cases scale with
  | ofNat places =>
    have hplaces : places ≠ 0 := by
      rintro rfl
      exact absurd (hdigits '.' h) (by decide)
    show (0 : Int) < places
    omega
  -- below scale zero there are digits and zeros only
  | negSucc n =>
    have hall : Digits (ofNat coefficient.natAbs ++ List.replicate (n + 1) '0') :=
      hdigits.append (digits_replicate_zero (n + 1))
    exact absurd (hall '.' h) (by decide)

/-- The fraction of a normal form does not end in a zero. -/
theorem Normal.getLast?_fullDigits (hd : d.Normal) (h : '.' ∈ d.fullDigits) :
    ∃ c, d.fullDigits.getLast? = some c ∧ isDigit c = true ∧ c ≠ '0' := by
  have hscale := scale_pos_of_point h
  -- a point is written above scale zero only, and there the coefficient does not end in a zero
  have hrest : d.coefficient % 10 ≠ 0 := by
    refine hd.resolve_left ?_
    rintro rfl
    contradiction
  have hne := ofNat_ne_nil d.coefficient.natAbs
  have hvalue : digitsValue (ofNat d.coefficient.natAbs) % 10 ≠ 0 := by
    rw [digitsValue_ofNat]
    omega
  obtain ⟨c, hlast⟩ := Option.isSome_iff_exists.mp (List.getLast?_isSome.mpr hne)
  refine ⟨c, ?_, ?_, ?_⟩
  · obtain ⟨coefficient, scale⟩ := d
    cases scale with
    | ofNat places =>
      show (withPoint (ofNat coefficient.natAbs) places).getLast? = some c
      rw [getLast?_withPoint hne, hlast]
    | negSucc n => contradiction
  · exact digits_ofNat _ c (List.mem_of_getLast? hlast)
  · rintro rfl
    exact getLast?_ne_zero hvalue hlast

/-! ### Texts of numbers -/

/-- A spelling without an exponent is known from its text. -/
theorem Spelling.decimal_eq_of_chars {s s' : Spelling} (h : s.exponent = none)
    (h' : s'.exponent = none) (hchars : s.chars = s'.chars) : s.decimal = s'.decimal := by
  have hbase : s.base = s'.base := by
    simpa [Spelling.chars, h, h'] using hchars
  have hread := s.mantissa?_base
  rw [hbase, s'.mantissa?_base] at hread
  obtain ⟨hcoefficient, hplaces⟩ := Prod.mk.inj (Option.some_inj.mp hread)
  rw [Spelling.decimal, Spelling.decimal, hcoefficient, hplaces, Spelling.exponentValue,
    Spelling.exponentValue, h, h']

theorem plainText_eq (d : Decimal) :
    d.plainText =
      String.ofList ((Sign.ofInt d.normalize.coefficient).chars ++ d.normalize.fullDigits) :=
  withSign_eq _ _

/-- **Canonical texts** are the same just if the numbers are. -/
theorem plainText_eq_iff : a.plainText = b.plainText ↔ a.toRat = b.toRat := by
  constructor
  · intro h
    obtain ⟨s, hs, -, hsame, htext⟩ := exists_spelling_plainText a
    obtain ⟨s', hs', -, hsame', htext'⟩ := exists_spelling_plainText b
    have hchars : s.chars = s'.chars := String.ofList_inj.mp (by rw [← htext, ← htext', h])
    rw [← same_iff_toRat.mp hsame, ← same_iff_toRat.mp hsame',
      Spelling.decimal_eq_of_chars hs hs' hchars]
  · intro h
    exact plainText_eq_of_same (same_iff_toRat.mpr h)

theorem mem_plainText {c : Char} (h : c ∈ d.plainText.toList) :
    isDigit c = true ∨ c = '.' ∨ c = '-' := by
  rw [plainText_eq, String.toList_ofList] at h
  rcases List.mem_append.mp h with hsign | hdigit
  · unfold Sign.ofInt at hsign
    split_ifs at hsign
    · exact .inr (.inr (List.mem_singleton.mp hsign))
    · contradiction
  · exact (mem_fullDigits hdigit).imp_right .inl

theorem getLast?_plainText (h : '.' ∈ d.plainText.toList) :
    ∃ c, d.plainText.toList.getLast? = some c ∧ isDigit c = true ∧ c ≠ '0' := by
  rw [plainText_eq, String.toList_ofList] at h ⊢
  have hpoint : '.' ∈ d.normalize.fullDigits := by
    refine (List.mem_append.mp h).resolve_left fun hsign => ?_
    exact ne_of_mem_sign hsign (by decide) rfl
  have hne : d.normalize.fullDigits ≠ [] := List.ne_nil_of_mem hpoint
  rw [List.getLast?_append_of_ne_nil _ hne]
  exact (normal_normalize d).getLast?_fullDigits hpoint

/-- **The canonical text** of a number does not depend on how the number is held, and tells it from
all others. It has neither an exponent nor a plus sign, and a fraction ends in a digit other than
zero. It is read back as the number if the scale of this fits its word. -/
theorem plainText_canonical (a : Decimal) :
    (∀ b : Decimal, a.plainText = b.plainText ↔ a.toRat = b.toRat) ∧
    ('e' ∉ a.plainText.toList ∧ 'E' ∉ a.plainText.toList ∧ '+' ∉ a.plainText.toList) ∧
    ('.' ∈ a.plainText.toList →
      ∃ c, a.plainText.toList.getLast? = some c ∧ isDigit c = true ∧ c ≠ '0') ∧
    (a.WordScale → ∃ d, parse? a.plainText = some d ∧ d.toRat = a.toRat) := by
  have hother {c : Char} (hc : isDigit c = false ∧ c ≠ '.' ∧ c ≠ '-') :
      c ∉ a.plainText.toList := by
    intro hmem
    rcases mem_plainText hmem with hdigit | hpoint | hminus
    · rw [hc.1] at hdigit
      contradiction
    · exact hc.2.1 hpoint
    · exact hc.2.2 hminus
  refine ⟨fun b => plainText_eq_iff, ?_, getLast?_plainText, fun ha => ?_⟩
  · exact ⟨hother (by decide), hother (by decide), hother (by decide)⟩
  · obtain ⟨d, hparse, hsame⟩ := parse?_plainText ha
    exact ⟨d, hparse, same_iff_toRat.mp hsame⟩

/-- A negative number that is held with two zeros at the end. -/
theorem plainText_canonical_padded :
    let a : Decimal := ⟨-12500, 4⟩
    a.plainText = "-1.25" ∧ '.' ∈ a.plainText.toList ∧ a.WordScale ∧
      (∃ c, a.plainText.toList.getLast? = some c ∧ isDigit c = true ∧ c ≠ '0') ∧
      ∃ d, parse? a.plainText = some d ∧ d.toRat = a.toRat := by
  intro a
  have htext : a.plainText = "-1.25" := by decide +kernel
  have hpoint : '.' ∈ a.plainText.toList := by
    rw [htext]
    decide
  have hscale : a.WordScale := ⟨by decide, by decide⟩
  obtain ⟨-, -, hfraction, hread⟩ := plainText_canonical a
  exact ⟨htext, hpoint, hscale, hfraction hpoint, hread hscale⟩

end Decimal

end ColumnMask
