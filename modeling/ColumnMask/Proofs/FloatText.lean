import Mathlib
import ColumnMask.Binary64
import ColumnMask.Proofs.DecimalPrint
import ColumnMask.Proofs.Rounding

/-!
# Floats read from texts

A text that spells a decimal number is read as the float nearest to the number, whichever digits and
exponent it is written with.

- `Binary64.nearest`: the float for a decimal number; it is the same for the same number.
- `Binary64.parse?_spelling`: what the texts of decimal numbers are read as.
-/

namespace ColumnMask

open Text

/-! ## Numbers -/

namespace Text

theorem length_ofNat {n : Nat} (h : n ≠ 0) : (ofNat n).length = Nat.log 10 n + 1 := by
  refine le_antisymm
    (length_ofNat_le (Nat.succ_pos _) (Nat.lt_pow_succ_log_self (by decide) n)) ?_
  have hlt := digitsValue_lt (digits_ofNat n)
  rw [digitsValue_ofNat] at hlt
  exact Nat.log_lt_of_lt_pow h hlt

/-- Zeros at the end make a number longer. -/
theorem length_ofNat_mul_pow {n : Nat} (h : n ≠ 0) (k : Nat) :
    (ofNat (n * 10 ^ k)).length = (ofNat n).length + k := by
  induction k with
  | zero => rw [pow_zero, mul_one, add_zero]
  | succ k ih =>
    have hne : n * 10 ^ k ≠ 0 := mul_ne_zero h (by positivity)
    rw [length_ofNat hne] at ih
    rw [pow_succ, ← mul_assoc, length_ofNat (mul_ne_zero hne (by decide)),
      Nat.log_mul_base (by decide) hne, ih, add_assoc]

end Text

namespace Binary64

/-- What is between the bounds of floats is rounded. -/
theorem isRounded_ofDecimal {n : Nat} {e : Int} (hn : n ≠ 0)
    (hlead : -400 ≤ (ofNat n).length + e ∧ (ofNat n).length + e ≤ 400) :
    IsRounded (ofDecimal n e) (n * 10 ^ e.toNat) (10 ^ (-e).toNat) := by
  have hpos := Nat.pos_of_ne_zero hn
  have hlength := length_ofNat hn
  have hlog : Nat.log 10 n ≤ Nat.log 2 n := Nat.log_anti_left (by decide) (by decide)
  unfold ofDecimal
  dsimp only
  rw [if_neg (by omega), if_neg (by omega)]
  -- a negative exponent divides by a power of ten, and any other one multiplies with it
  by_cases hneg : e < 0
  · rw [decide_eq_true hneg, show e.toNat = 0 by omega, show (-e).toNat = e.natAbs by omega,
      pow_zero, mul_one]
    exact isRounded_ofScientific_div hpos (by omega) (by omega)
  · rw [decide_eq_false hneg, show (-e).toNat = 0 by omega, show e.toNat = e.natAbs by omega,
      pow_zero]
    exact isRounded_ofScientific_mul hpos (by omega)

/-- **Zeros at the end** of the digits do not count where the exponent makes up for them. -/
theorem ofDecimal_mul_pow (n k : Nat) (e : Int) :
    ofDecimal (n * 10 ^ k) (e - k) = ofDecimal n e := by
  by_cases hn : n = 0
  · subst hn
    simp [ofDecimal]
  · have hne : n * 10 ^ k ≠ 0 := mul_ne_zero hn (by positivity)
    have hlength := length_ofNat_mul_pow hn k
    by_cases hlead : -400 ≤ (ofNat n).length + e ∧ (ofNat n).length + e ≤ 400
    · -- within the bounds both sides round one quotient
      have hrounded := isRounded_ofDecimal hn hlead
      have hrounded' := isRounded_ofDecimal (n := n * 10 ^ k) (e := e - k) hne (by omega)
      refine hrounded'.eq (by positivity) (by positivity) ?_ hrounded
      have hexponents : k + (e - k).toNat + (-e).toNat = e.toNat + (-(e - k)).toNat := by omega
      rw [mul_assoc n, mul_assoc n, mul_assoc n, ← pow_add, ← pow_add, hexponents, pow_add]
    · -- beyond the bounds of floats both sides are zero, or both are infinite
      unfold ofDecimal
      dsimp only
      rw [hlength]
      by_cases hsmall : (ofNat n).length + e < -400
      · rw [if_pos (.inr (by omega)), if_pos (.inr hsmall)]
      · rw [if_neg (by omega), if_pos (by omega), if_neg (by omega), if_pos (by omega)]

/-- The float nearest to a decimal number. -/
def nearest (d : Decimal) : Float :=
  if d.coefficient < 0 then -ofDecimal d.coefficient.natAbs (-d.scale)
  else ofDecimal d.coefficient.natAbs (-d.scale)

/-- **The same number** has the same nearest float. -/
theorem nearest_eq_of_same {a b : Decimal} (h : a.Same b) : nearest a = nearest b := by
  wlog hscale : a.scale ≤ b.scale generalizing a b
  · exact (this h.symm (by omega)).symm
  have hcoefficient := h.coefficient_eq hscale
  obtain ⟨k, hk⟩ : ∃ k : Nat, b.scale = a.scale + k := ⟨(b.scale - a.scale).toNat, by omega⟩
  rw [show (b.scale - a.scale).toNat = k by omega] at hcoefficient
  -- the sign stays, since the coefficients differ by a positive factor
  have hneg : b.coefficient < 0 ↔ a.coefficient < 0 := by
    have hpower : (0 : Int) < 10 ^ k := by positivity
    rw [hcoefficient]
    exact ⟨fun h => by nlinarith, fun h => mul_neg_of_neg_of_pos h hpower⟩
  have hvalue : ofDecimal b.coefficient.natAbs (-b.scale) =
      ofDecimal a.coefficient.natAbs (-a.scale) := by
    rw [hcoefficient, Int.natAbs_mul, Int.natAbs_pow, hk, neg_add]
    exact ofDecimal_mul_pow _ k _
  unfold nearest
  simp only [hneg, hvalue]

/-- A whole number is its own nearest float as far as floats are whole numbers at all. -/
theorem nearest_ofInt (v : Int64) : nearest (.ofInt v.toInt) = Float.ofInt v.toInt := by
  have hlow := v.le_toInt
  have hhigh := v.toInt_lt
  -- an integer of at most twenty digits is neither too small nor too large to be read
  have hzero {n : Nat} (h : n < 10 ^ 20) : ofDecimal n (-0) = Float.ofNat n := by
    have hlength := length_ofNat_le (by decide : 0 < 20) h
    unfold ofDecimal
    dsimp only
    split_ifs with hnothing hlarge
    · rcases hnothing with rfl | hsmall
      · rfl
      · omega
    · omega
    · rfl
  show (if v.toInt < 0 then -ofDecimal v.toInt.natAbs (-0) else ofDecimal v.toInt.natAbs (-0)) = _
  rw [hzero (by omega)]
  cases v.toInt with
  | ofNat n => exact if_neg (Int.not_lt.mpr (Int.natCast_nonneg n))
  | negSucc n => exact if_pos (Int.negSucc_lt_zero n)

end Binary64

/-! ## Spellings without their sign -/

namespace Decimal.Spelling

/-- A spelling without its sign. -/
def magnitude (s : Spelling) : List Char :=
  s.whole ++ (fractionText s.fraction ++ exponentText s.exponent)

theorem chars_eq (s : Spelling) : s.chars = s.sign.chars ++ s.magnitude := by
  simp [chars, base, magnitude]

/-- An exponent begins with its mark. -/
theorem exponentText_head (e : Option Exponent) :
    NoDigitHead (exponentText e) ∧ (exponentText e).head? ≠ some '.' := by
  cases e with
  | none => simp [NoDigitHead]
  | some e =>
    rcases e.mark_eq with hm | hm <;> simp [NoDigitHead, Exponent.chars, hm] <;> decide

/-- Without its sign a spelling begins with a digit or the point. -/
theorem exists_magnitude_cons (s : Spelling) :
    ∃ c rest, s.magnitude = c :: rest ∧ (isDigit c = true ∨ c = '.') := by
  have hne := s.digits_ne_nil
  unfold magnitude
  cases hwhole : s.whole with
  | cons c rest => exact ⟨c, _, rfl, .inl (s.whole_digits c (by simp [hwhole]))⟩
  | nil =>
    cases hfraction : s.fraction with
    | none => simp [hwhole, hfraction] at hne
    | some ds => exact ⟨'.', _, rfl, .inr rfl⟩

end Decimal.Spelling

namespace Binary64

open Decimal (Spelling Exponent)
open Decimal.Spelling (exponentText exponentText_head fractionText_none fractionText_some)

/-! ## Reading -/

variable {digits : List Char}

theorem signedDigits?_signed (sign : Sign) (h : Digits digits) (hne : digits ≠ []) :
    signedDigits? (sign.chars ++ digits) = some (sign.apply (digitsValue digits)) := by
  have hnumber : (if digits.isEmpty ∨ ¬ digits.all isDigit then none
      else some (digitsValue digits)) = some (digitsValue digits) := by
    have hall : digits.all isDigit = true := List.all_eq_true.mpr h
    simp [hall, hne]
  cases sign with
  | plus =>
    show signedDigits? ('+' :: digits) = _
    simp only [signedDigits?, hnumber]
    rfl
  | minus =>
    show signedDigits? ('-' :: digits) = _
    simp only [signedDigits?, hnumber]
    rfl
  -- what starts with a digit is taken to have no sign
  | none =>
    obtain ⟨c, rest, rfl⟩ := List.exists_cons_of_ne_nil hne
    obtain ⟨hminus, hplus⟩ := head_ne_sign h
    show signedDigits? (c :: rest) = _
    unfold signedDigits?
    split
    case h_1 heq => exact absurd (List.cons.inj heq).1 hplus
    case h_2 heq => exact absurd (List.cons.inj heq).1 hminus
    case h_3 =>
      simp only [hnumber]
      rfl

theorem exponent?_exponentText (e : Option Exponent) :
    exponent? (exponentText e) = some ((e.map Exponent.value).getD 0) := by
  cases e with
  | none => rfl
  | some e =>
    show exponent? (e.mark :: (e.sign.chars ++ e.digits)) = _
    rw [exponent?, if_pos e.mark_eq, signedDigits?_signed e.sign e.digits_digits e.digits_ne_nil]
    rfl

/-- Digits with a point and an exponent are read as the float of their number. -/
theorem unsigned?_magnitude (s : Spelling) :
    unsigned? s.magnitude =
      some (ofDecimal (digitsValue s.digits) (-s.decimal.scale)) := by
  obtain ⟨hend, hpoint⟩ := exponentText_head s.exponent
  have hne := s.digits_ne_nil
  have hdigits := s.fraction_digits
  have hexponent := exponent?_exponentText s.exponent
  have hscale : -s.decimal.scale = s.exponentValue - (s.fraction.getD []).length := neg_sub _ _
  rw [hscale]
  unfold unsigned? Spelling.magnitude Spelling.digits
  cases hfraction : s.fraction with
  -- without a fraction the end of the digits is that of the number
  | none =>
    simp only [hfraction, Option.getD_none, List.append_nil] at hne
    rw [fractionText_none, List.nil_append, takeWhile_digits s.whole_digits hend,
      dropWhile_digits s.whole_digits hend]
    generalize exponentText s.exponent = ending at hpoint hexponent
    cases ending with
    | nil =>
      simp [hne, hexponent]
      rfl
    | cons c rest =>
      have hc : c ≠ '.' := fun h => hpoint (congrArg some h)
      simp [hc, hne, hexponent]
      rfl
  -- with one, the digits end at the point and then again after the fraction
  | some ds =>
    rw [hfraction, Option.getD_some] at hdigits hne
    have hdot : NoDigitHead ('.' :: (ds ++ exponentText s.exponent)) := by
      simp [NoDigitHead]
      decide
    rw [fractionText_some, List.cons_append, takeWhile_digits s.whole_digits hdot,
      dropWhile_digits s.whole_digits hdot]
    simp only [takeWhile_digits hdigits hend, dropWhile_digits hdigits hend, hexponent]
    rw [if_neg (by simpa using hne)]
    rfl

/-- Digits and the point have no other case. -/
theorem lowercase_head {c : Char} (h : isDigit c = true ∨ c = '.') (rest : List Char) :
    (lowercase (String.ofList (c :: rest))).toList.head? = some c := by
  have hkelvin : c ≠ '\u212a' := by
    rcases h with hdigit | rfl
    · exact ne_of_isDigit hdigit (by decide)
    · decide
  have hlower : c.toLower = c := by
    rcases h with hdigit | rfl
    · have hrange := isDigit_iff.mp hdigit
      exact dif_neg fun hupper => by
        have h65 : 65 ≤ c.toNat := hupper.1
        omega
    · rfl
  simp [lowercase, hkelvin, hlower]

theorem magnitude?_magnitude (s : Spelling) :
    magnitude? s.magnitude = some (ofDecimal (digitsValue s.digits) (-s.decimal.scale)) := by
  have hunsigned := unsigned?_magnitude s
  obtain ⟨c, rest, hcons, hc⟩ := s.exists_magnitude_cons
  rw [hcons] at hunsigned ⊢
  have hhead := lowercase_head hc rest
  -- none of the words starts with a digit or a point
  have hletter : c ≠ 'i' ∧ c ≠ 'n' := by
    rcases hc with hdigit | rfl
    · exact ⟨ne_of_isDigit hdigit (by decide), ne_of_isDigit hdigit (by decide)⟩
    · decide
  unfold magnitude?
  -- none of the three words begins with a digit or the point
  split
  case h_1 heq => exact absurd (Option.some.inj (hhead.symm.trans (by rw [heq]; rfl))) hletter.1
  case h_2 heq => exact absurd (Option.some.inj (hhead.symm.trans (by rw [heq]; rfl))) hletter.1
  case h_3 heq => exact absurd (Option.some.inj (hhead.symm.trans (by rw [heq]; rfl))) hletter.2
  case h_4 => exact hunsigned

/-- A float with a sign in front. -/
def withSign (sign : Sign) (x : Float) : Float := if sign = .minus then -x else x

theorem parse?_chars (s : Spelling) :
    parse? (String.ofList s.chars) =
      some (withSign s.sign (ofDecimal (digitsValue s.digits) (-s.decimal.scale))) := by
  have hread := magnitude?_magnitude s
  obtain ⟨c, rest, hcons, hc⟩ := s.exists_magnitude_cons
  rw [hcons] at hread
  rw [s.chars_eq, hcons, parse?, String.toList_ofList]
  cases s.sign with
  | plus => exact hread
  | minus =>
    show (magnitude? (c :: rest)).map (fun x => -x) = _
    rw [hread]
    rfl
  -- without a sign the first character is a digit or the point
  | none =>
    have hplain : c ≠ '-' ∧ c ≠ '+' := by
      rcases hc with hdigit | rfl
      · exact ⟨ne_of_isDigit hdigit (by decide), ne_of_isDigit hdigit (by decide)⟩
      · decide
    rw [Sign.chars, List.nil_append]
    split
    case h_1 heq => exact absurd (List.cons.inj heq).1 hplain.1
    case h_2 heq => exact absurd (List.cons.inj heq).1 hplain.2
    case h_3 => exact hread

theorem coefficient_natAbs (s : Spelling) :
    s.decimal.coefficient.natAbs = digitsValue s.digits := by
  show (s.sign.apply (digitsValue s.digits)).natAbs = _
  cases s.sign <;> simp [Sign.apply]

/-- **A spelling** is read as the float nearest to its number; a minus sign would stay on zero. -/
theorem parse?_spelling (s : Spelling) {d : Decimal} (hsame : d.Same s.decimal)
    (hsign : s.sign = .minus → d.coefficient ≠ 0) :
    parse? (String.ofList s.chars) = some (nearest d) := by
  have hneg : s.decimal.coefficient < 0 ↔ s.sign = .minus := by
    have hcoefficient : s.decimal.coefficient = s.sign.apply (digitsValue s.digits) := rfl
    have hnumber := coefficient_natAbs s
    constructor
    · intro hlt
      rw [hcoefficient] at hlt
      cases hsigned : s.sign <;> simp [hsigned, Sign.apply] at hlt ⊢ <;> omega
    · intro hminus
      -- a minus sign on zero would give the float with a sign, which is not the nearest one
      have hne : s.decimal.coefficient ≠ 0 := fun hzero =>
        hsign hminus ((Decimal.Same.coefficient_eq_zero hsame).mpr hzero)
      rw [hcoefficient, hminus, Sign.apply] at hne ⊢
      omega
  rw [parse?_chars, nearest_eq_of_same hsame, nearest, withSign, coefficient_natAbs]
  simp only [hneg]

end Binary64

end ColumnMask
