import Mathlib
import ColumnMask.Proofs.Rounding

/-!
# What a rounding gives

A rounding gives the float that is nearest to the fraction. The two differ by a 2 ^ 53rd of the
fraction at most, or by half of the least float where the fraction is that small.

- `Binary64.roundedMantissa_residue`: the residual bits round to the nearest whole number.
- `Binary64.ofParts`: the number with a sign, a mantissa and an exponent.
- `Binary64.StandsFor.exists_round_eq`: how far a rounding is off.
- `Binary64.RoundsTo`: the numbers to which a float is the nearest one;
  `Binary64.StandsFor.round_eq_of_roundsTo`: they are rounded to it.
-/

namespace ColumnMask

namespace Binary64

open Float.Model Float.Model.UnpackedFloat

variable {num den m : Nat} {e : Int} {acc : Accuracy} {v : ℚ}

/-! ## The nearest whole number -/

theorem roundedMantissa_below (q : Nat) (sticky : Bool) :
    (⟨q, false, sticky⟩ : ExtendedMantissa).roundedMantissa = q := by
  cases sticky with
  | false => rfl
  | true => rfl

/-- On half the way the even neighbour is taken. -/
theorem roundedMantissa_half (q : Nat) :
    (⟨q, true, false⟩ : ExtendedMantissa).roundedMantissa = q + q % 2 := rfl

theorem roundedMantissa_above (q : Nat) :
    (⟨q, true, true⟩ : ExtendedMantissa).roundedMantissa = q + 1 := rfl

/-- A fraction is rounded down if at most half is left of it, and up if at least half is. -/
theorem roundedMantissa_residue (num : Nat) (hden : 0 < den) :
    (residue num den).roundedMantissa = num / den ∧ 2 * (num % den) ≤ den ∨
      (residue num den).roundedMantissa = num / den + 1 ∧ den ≤ 2 * (num % den) := by
  have hsticky := two_mul_mod_eq_zero_iff num hden
  unfold residue
  -- from a half on it is rounded up, if not a tie at an even number
  by_cases hround : den ≤ 2 * (num % den)
  · rw [decide_eq_true hround]
    by_cases hexact : 2 * num % den = 0
    · have hhalf : 2 * (num % den) = den := by
        have := hsticky.mp hexact
        omega
      rw [decide_eq_false (not_not.mpr hexact), roundedMantissa_half]
      omega
    · rw [decide_eq_true hexact, roundedMantissa_above]
      exact .inr ⟨rfl, hround⟩
  · rw [decide_eq_false hround, roundedMantissa_below]
    exact .inl ⟨rfl, by omega⟩

theorem abs_roundedMantissa_residue_sub_le (num : Nat) (hden : 0 < den) :
    |((residue num den).roundedMantissa : ℚ) - num / den| ≤ 1 / 2 := by
  have hpos : (0 : ℚ) < den := by exact_mod_cast hden
  have hdiv : (num : ℚ) = den * (num / den : Nat) + (num % den : Nat) := by
    exact_mod_cast (Nat.div_add_mod num den).symm
  have hquotient : (num : ℚ) / den = (num / den : Nat) + (num % den : Nat) / den := by
    rw [div_eq_iff hpos.ne', add_mul, div_mul_cancel₀ _ hpos.ne']
    linarith
  have hrem : ((num % den : Nat) : ℚ) / den < 1 := by
    rw [div_lt_one hpos]
    exact_mod_cast Nat.mod_lt num hden
  have hnonneg : 0 ≤ ((num % den : Nat) : ℚ) / den := by positivity
  rcases roundedMantissa_residue num hden with ⟨hrounded, hhalf⟩ | ⟨hrounded, hhalf⟩
  · -- rounded down, with a half at most taken off
    have hle : ((num % den : Nat) : ℚ) / den ≤ 1 / 2 := by
      rw [div_le_div_iff₀ hpos (by norm_num)]
      have : (2 * (num % den) : Nat) ≤ (den : ℚ) := by exact_mod_cast hhalf
      push_cast at this
      linarith
    rw [hrounded, hquotient, abs_le]
    constructor <;> linarith
  · -- rounded up, with a half at most added
    have hge : 1 / 2 ≤ ((num % den : Nat) : ℚ) / den := by
      rw [div_le_div_iff₀ (by norm_num) hpos]
      have : (den : ℚ) ≤ (2 * (num % den) : Nat) := by exact_mod_cast hhalf
      push_cast at this
      linarith
    rw [hrounded, hquotient, abs_le]
    push_cast
    constructor <;> linarith

/-- Cutting at an exponent brings a fraction to that exponent. -/
theorem cut_fraction (num : Nat) (hden : 0 < den) (e : Int) :
    ((num * 2 ^ (-e).toNat : Nat) : ℚ) / (den * 2 ^ e.toNat : Nat) = num / den / 2 ^ e := by
  have hpos : (0 : ℚ) < den := by exact_mod_cast hden
  have hpower : (0 : ℚ) < 2 ^ e := by positivity
  push_cast
  rw [← two_zpow e]
  field_simp

/-- What is cut and rounded is off by half of the last place at most. -/
theorem abs_roundedMantissa_cut_sub_le (num : Nat) (hden : 0 < den) (e : Int) :
    |((cut num den e).roundedMantissa : ℚ) * 2 ^ e - num / den| ≤ 2 ^ e / 2 := by
  have hpower : (0 : ℚ) < 2 ^ e := by positivity
  have hnear := abs_roundedMantissa_residue_sub_le (num * 2 ^ (-e).toNat)
    (Nat.mul_pos hden (Nat.two_pow_pos e.toNat))
  rw [cut_fraction num hden e] at hnear
  calc |((cut num den e).roundedMantissa : ℚ) * 2 ^ e - num / den|
      = |((cut num den e).roundedMantissa : ℚ) - num / den / 2 ^ e| * 2 ^ e := by
        rw [← abs_of_pos hpower, ← abs_mul, abs_of_pos hpower, sub_mul,
          div_mul_cancel₀ _ hpower.ne']
    _ ≤ 1 / 2 * 2 ^ e := mul_le_mul_of_nonneg_right hnear hpower.le
    _ = 2 ^ e / 2 := by ring

/-- Cutting does not exceed the fraction. -/
theorem mantissa_cut_mul_le (num : Nat) (hden : 0 < den) (e : Int) :
    ((cut num den e).mantissa : ℚ) * 2 ^ e ≤ num / den := by
  have hpower : (0 : ℚ) < 2 ^ e := by positivity
  rw [← le_div_iff₀ hpower, ← cut_fraction num hden e]
  exact Nat.cast_div_le

/-! ## What is rounded in the end -/

/-- At the exponent of the result the mantissa has full width, unless the exponent is the least. -/
theorem StandsFor.mantissa_cut (hden : 0 < den) (h : StandsFor num den m e acc) :
    (cut num den (target m e)).mantissa < 2 ^ 53 ∧
      (2 ^ 52 ≤ (cut num den (target m e)).mantissa ∨ target m e = -1074) := by
  have hfine := h.fine
  -- the cut at the target takes `k` bits off the mantissa
  obtain ⟨k, hk⟩ : ∃ k : Nat, target m e = e + k := ⟨(target m e - e).toNat, by omega⟩
  have hlog := Nat.log_div_base_pow 2 m k
  have hmantissa : (cut num den (target m e)).mantissa = m / 2 ^ k := by
    rw [hk, ← cut_shiftRight num hden, ← h.cut_eq, mantissa_shiftRight,
      mantissa_ofMantissaAndAccuracy]
  rw [hmantissa]
  rw [target_eq] at hk
  constructor
  · exact Nat.lt_pow_of_log_lt (by decide) (by omega)
  · -- the width is full, if the exponent is not the least one
    rcases Nat.eq_zero_or_pos (m / 2 ^ k) with hzero | hpos
    · right
      rw [hzero, Nat.log_zero_right] at hlog
      rw [target_eq]
      omega
    · by_cases hleast : target m e = -1074
      · exact .inr hleast
      · left
        rw [target_eq] at hleast
        exact Nat.pow_le_of_le_log hpos.ne' (by omega)

theorem roundedMantissa_cut (num : Nat) (hden : 0 < den) (e : Int) :
    (cut num den e).mantissa ≤ (cut num den e).roundedMantissa ∧
      (cut num den e).roundedMantissa ≤ (cut num den e).mantissa + 1 := by
  have hcases := roundedMantissa_residue (num * 2 ^ (-e).toNat)
    (Nat.mul_pos hden (Nat.two_pow_pos e.toNat))
  show num * 2 ^ (-e).toNat / (den * 2 ^ e.toNat) ≤ (cut num den e).roundedMantissa ∧
    (cut num den e).roundedMantissa ≤ num * 2 ^ (-e).toNat / (den * 2 ^ e.toNat) + 1
  unfold cut
  omega

/-- The number with a sign, a mantissa and an exponent. -/
def ofParts (sign : Sign) (m : Nat) (e : Int) : UnpackedFloat :=
  if h : m = 0 then .zero sign else .finite sign m e (Nat.pos_of_ne_zero h)

@[simp] theorem ofParts_zero (sign : Sign) (e : Int) : ofParts sign 0 e = .zero sign := rfl

theorem ofParts_of_pos (sign : Sign) (hm : 0 < m) (e : Int) :
    ofParts sign m e = .finite sign m e hm := dif_neg hm.ne'

/-- A mantissa that was rounded up to one bit more than full width is shifted once. -/
theorem shiftToTargetExponent_carry (he : -1074 ≤ e) :
    shiftToTargetExponent .binary64 (2 ^ 53) e .exact = (⟨2 ^ 52, false, false⟩, e + 1) := by
  have htarget : target (2 ^ 53) e = e + 1 := by
    rw [target_eq, Nat.log_pow (by decide)]
    omega
  show (ExtendedMantissa.ofMantissaAndAccuracy (2 ^ 53) .exact >>> (target (2 ^ 53) e - e).toNat,
    e + (target (2 ^ 53) e - e).toNat) = _
  rw [htarget, add_sub_cancel_left]
  rfl

/-- A number of full width is not rounded again. -/
theorem finish_eq {em : ExtendedMantissa} (hm : em.roundedMantissa = m) (hlt : m < 2 ^ 53)
    (he : -1074 ≤ e) (sign : Sign) : finish sign em e = ofParts sign m e := by
  unfold finish
  rw [hm, shiftToTargetExponent_exact hlt he]
  rfl

/-- Nor is a number that was rounded to full width. -/
theorem exists_finish_eq {em : ExtendedMantissa} {t : Int} (ht : -1074 ≤ t)
    (hle : em.roundedMantissa ≤ 2 ^ 53) (hfull : 2 ^ 52 ≤ em.roundedMantissa ∨ t = -1074)
    (sign : Sign) :
    ∃ m e, finish sign em t = ofParts sign m e ∧ Canonical m e ∧
      (m : ℚ) * 2 ^ e = em.roundedMantissa * 2 ^ t := by
  unfold finish
  rcases hle.lt_or_eq with hlt | hcarry
  · exact ⟨em.roundedMantissa, t, finish_eq rfl hlt ht sign, ⟨hlt, ht, hfull⟩, rfl⟩
  · rw [hcarry, shiftToTargetExponent_carry ht]
    refine ⟨2 ^ 52, t + 1, rfl, ⟨by decide, by omega, .inl le_rfl⟩, ?_⟩
    rw [zpow_add_one₀ (by norm_num)]
    push_cast
    ring

/-- How far a rounding may be off: half of the least float, or a part of what is rounded. -/
def tolerance (v : ℚ) : ℚ := max (2 ^ (-1075 : Int)) (v / 2 ^ 53)

/-- **The error of a rounding**. -/
theorem StandsFor.exists_round_eq (hden : 0 < den) (h : StandsFor num den m e acc) (sign : Sign) :
    ∃ m' e', roundWithAccuracy .binary64 sign m e acc = ofParts sign m' e' ∧ Canonical m' e' ∧
      |(m' : ℚ) * 2 ^ e' - num / den| ≤ tolerance (num / den) := by
  obtain ⟨hwidth, hfull⟩ := h.mantissa_cut hden
  obtain ⟨hlow, hhigh⟩ := roundedMantissa_cut num hden (target m e)
  have hcut := mantissa_cut_mul_le num hden (target m e)
  have herror := abs_roundedMantissa_cut_sub_le num hden (target m e)
  have hleast : -1074 ≤ target m e := by rw [target_eq]; omega
  obtain ⟨m', e', heq, hcanonical, hvalue⟩ := exists_finish_eq hleast (by omega)
    (hfull.imp_left fun h => h.trans hlow) sign
  refine ⟨m', e', (h.round_eq hden sign).trans heq, hcanonical, ?_⟩
  rw [hvalue]
  refine herror.trans ?_
  rcases hfull with hfull | hfull
  · -- half of the last place is a small part of a number of full width
    refine le_max_of_le_right ?_
    have hpower : (0 : ℚ) < 2 ^ target m e := by positivity
    have hcast : (2 : ℚ) ^ 52 ≤ (cut num den (target m e)).mantissa := by exact_mod_cast hfull
    rw [le_div_iff₀ (by positivity)]
    calc (2 : ℚ) ^ target m e / 2 * 2 ^ 53 = (2 : ℚ) ^ 52 * 2 ^ target m e := by ring
      _ ≤ ((cut num den (target m e)).mantissa : ℚ) * 2 ^ target m e :=
        mul_le_mul_of_nonneg_right hcast hpower.le
      _ ≤ (num : ℚ) / den := hcut
  · -- at the least exponent half of the last place is the least tolerance
    refine le_max_of_le_left ?_
    rw [hfull, show (-1074 : Int) = -1075 + 1 by norm_num, zpow_add_one₀ (by norm_num),
      mul_div_assoc, div_self (by norm_num), mul_one]

/-! ## The nearest float -/

/-- The distance to the numbers below `m * 2 ^ e` that are still rounded to it, in quarters of the
last place. Below a power of two the next float is only half as far away. -/
def quartersBelow (m : Nat) (e : Int) : Nat := if m = 2 ^ 52 ∧ -1074 < e then 1 else 2

/-- The numbers to which `m * 2 ^ e` is the nearest float. Half of the way to the next float belongs
to the even one of the two. -/
structure RoundsTo (m : Nat) (e : Int) (v : ℚ) : Prop where
  low : (m - quartersBelow m e / 4) * 2 ^ e ≤ v
  high : v ≤ (m + 1 / 2) * 2 ^ e
  inner : m % 2 = 1 → (m - 1 / 2) * 2 ^ e < v ∧ v < (m + 1 / 2) * 2 ^ e

/-- A fraction is rounded to a whole number that is no more than a half away, and even if it is as
much as a half away. -/
theorem roundedMantissa_residue_eq (hden : 0 < den) (hlow : 2 * m * den ≤ 2 * num + den)
    (hhigh : 2 * num ≤ (2 * m + 1) * den)
    (hodd : m % 2 = 1 → 2 * m * den < 2 * num + den ∧ 2 * num < (2 * m + 1) * den) :
    (residue num den).roundedMantissa = m := by
  have hdiv := Nat.div_add_mod num den
  have hmod := Nat.mod_lt num hden
  have hsticky := two_mul_mod_eq_zero_iff num hden
  unfold residue
  generalize num / den = q at hdiv ⊢
  generalize num % den = r at hdiv hmod hsticky ⊢
  generalize 2 * num % den = below at hsticky ⊢
  subst hdiv
  -- the whole number is the whole part of the fraction or the next one
  have hcases : m = q ∨ m = q + 1 := by
    have hle : m < q + 2 := by
      by_contra hlt
      have := Nat.mul_le_mul_left den (not_lt.mp hlt)
      nlinarith
    have hge : q < m + 1 := by
      by_contra hlt
      have := Nat.mul_le_mul_left den (not_lt.mp hlt)
      nlinarith
    omega
  rcases hcases with rfl | rfl
  · -- the whole part itself, at which a tie stays if it is even
    have hr : 2 * r ≤ den := by nlinarith
    have hrodd : m % 2 = 1 → 2 * r < den := fun h => by nlinarith [(hodd h).2]
    by_cases hhalf : den ≤ 2 * r
    · have heven : m % 2 = 0 := by omega
      rw [decide_eq_true hhalf, decide_eq_false (by omega), roundedMantissa_half, heven]
      rfl
    · rw [decide_eq_false hhalf, roundedMantissa_below]
  · -- the next number, to which a tie goes if it is even
    have hr : den ≤ 2 * r := by nlinarith
    have hrodd : (q + 1) % 2 = 1 → den < 2 * r := fun h => by nlinarith [(hodd h).1]
    rw [decide_eq_true hr]
    by_cases hhalf : 2 * r = den
    · rw [decide_eq_false (by omega), roundedMantissa_half]
      omega
    · rw [decide_eq_true (by omega), roundedMantissa_above]

/-- The same of a fraction that is cut at an exponent. -/
theorem roundedMantissa_cut_eq (hden : 0 < den) (hlow : (m - 1 / 2) * 2 ^ e ≤ (num : ℚ) / den)
    (hhigh : (num : ℚ) / den ≤ (m + 1 / 2) * 2 ^ e)
    (hodd : m % 2 = 1 → (m - 1 / 2) * 2 ^ e < (num : ℚ) / den ∧
      (num : ℚ) / den < (m + 1 / 2) * 2 ^ e) :
    (cut num den e).roundedMantissa = m := by
  have hpower : (0 : ℚ) < 2 ^ e := by positivity
  have hcut := cut_fraction num hden e
  unfold cut
  have hden' : 0 < den * 2 ^ e.toNat := by positivity
  -- both sides over the divisor of the cut, so that they are integers
  generalize num * 2 ^ (-e).toNat = num' at hcut ⊢
  generalize den * 2 ^ e.toNat = den' at hcut hden' ⊢
  have hpos : (0 : ℚ) < den' := by exact_mod_cast hden'
  rw [eq_div_iff hpower.ne'] at hcut
  rw [← hcut] at hlow hhigh hodd
  simp only [mul_le_mul_iff_of_pos_right hpower, mul_lt_mul_iff_of_pos_right hpower,
    le_div_iff₀ hpos, div_le_iff₀ hpos, lt_div_iff₀ hpos, div_lt_iff₀ hpos] at hlow hhigh hodd
  refine roundedMantissa_residue_eq hden' ?_ ?_ fun h => ⟨?_, ?_⟩
  · have : (2 * m * den' : ℚ) ≤ 2 * num' + den' := by linarith
    exact_mod_cast this
  · have : (2 * num' : ℚ) ≤ (2 * m + 1) * den' := by linarith
    exact_mod_cast this
  · have : (2 * m * den' : ℚ) < 2 * num' + den' := by linarith [(hodd h).1]
    exact_mod_cast this
  · have : (2 * num' : ℚ) < (2 * m + 1) * den' := by linarith [(hodd h).2]
    exact_mod_cast this

/-- What is cut off is less than one in the last place. -/
theorem lt_mantissa_cut_mul (num : Nat) (hden : 0 < den) (e : Int) :
    (num : ℚ) / den < ((cut num den e).mantissa + 1) * 2 ^ e := by
  have hpower : (0 : ℚ) < 2 ^ e := by positivity
  have hden' : 0 < den * 2 ^ e.toNat := by positivity
  rw [← div_lt_iff₀ hpower, ← cut_fraction num hden e, div_lt_iff₀ (by exact_mod_cast hden')]
  have hlt : num * 2 ^ (-e).toNat < ((cut num den e).mantissa + 1) * (den * 2 ^ e.toNat) := by
    rw [mul_comm _ (den * 2 ^ e.toNat)]
    exact Nat.lt_mul_div_succ _ hden'
  exact_mod_cast hlt

theorem quartersBelow_le (m : Nat) (e : Int) : quartersBelow m e ≤ 2 := by
  unfold quartersBelow
  split <;> decide

namespace RoundsTo

theorem le (h : RoundsTo m e v) (hm : 0 < m) : 2 ^ (e - 1) ≤ v := by
  have hle : (quartersBelow m e : ℚ) ≤ 2 := by exact_mod_cast quartersBelow_le m e
  have hone : (1 : ℚ) ≤ m := by exact_mod_cast hm
  refine le_trans ?_ h.low
  rw [zpow_sub_one₀ (by norm_num), mul_comm]
  exact mul_le_mul_of_nonneg_right (by linarith) (by positivity)

theorem half (h : RoundsTo m e v) : (m - 1 / 2) * 2 ^ e ≤ v := by
  have hle : (quartersBelow m e : ℚ) ≤ 2 := by exact_mod_cast quartersBelow_le m e
  refine le_trans ?_ h.low
  exact mul_le_mul_of_nonneg_right (by linarith) (by positivity)

theorem lt (h : RoundsTo m e v) (hm : m < 2 ^ 53) : v < 2 ^ 53 * 2 ^ e := by
  have hle : (m : ℚ) + 1 ≤ 2 ^ 53 := by exact_mod_cast hm
  refine h.high.trans_lt ?_
  exact mul_lt_mul_of_pos_right (by linarith) (by positivity)

end RoundsTo

/-- A float is the nearest one to itself. -/
theorem roundsTo_self (m : Nat) (e : Int) : RoundsTo m e (m * 2 ^ e) := by
  have hpower : (0 : ℚ) < 2 ^ e := by positivity
  refine ⟨?_, ?_, fun _ => ⟨?_, ?_⟩⟩
  · exact mul_le_mul_of_nonneg_right (sub_le_self _ (by positivity)) hpower.le
  · exact mul_le_mul_of_nonneg_right (by linarith) hpower.le
  · exact mul_lt_mul_of_pos_right (by linarith) hpower
  · exact mul_lt_mul_of_pos_right (by linarith) hpower

theorem two_mul_zpow_le {e t : Int} (h : e < t) : (2 : ℚ) * 2 ^ e ≤ 2 ^ t := by
  rw [mul_comm, ← zpow_add_one₀ (by norm_num)]
  exact zpow_le_zpow_right₀ (by norm_num) (by omega)

/-- **Rounding finds the nearest float.** -/
theorem StandsFor.round_eq_of_roundsTo {m' : Nat} {e' : Int} (hden : 0 < den)
    (h : StandsFor num den m' e' acc) (hcanonical : Canonical m e) (hv : RoundsTo m e (num / den))
    (sign : Sign) :
    roundWithAccuracy .binary64 sign m' e' acc = ofParts sign m e := by
  obtain ⟨hlt, hle, hfull⟩ := hcanonical
  obtain ⟨hwidth, hwide⟩ := h.mantissa_cut hden
  have hleast : -1074 ≤ target m' e' := by rw [target_eq]; omega
  have hcut := mantissa_cut_mul_le num hden (target m' e')
  have hcut' := lt_mantissa_cut_mul num hden (target m' e')
  rw [h.round_eq hden sign]
  generalize target m' e' = t at *
  have hbelow : (num : ℚ) / den < 2 ^ 53 * 2 ^ t := by
    have hmantissa : ((cut num den t).mantissa : ℚ) + 1 ≤ 2 ^ 53 := by exact_mod_cast hwidth
    exact hcut'.trans_le (mul_le_mul_of_nonneg_right hmantissa (by positivity))
  have habove (ht : -1074 < t) : (2 : ℚ) ^ 52 * 2 ^ t ≤ num / den := by
    have hmantissa : (2 : ℚ) ^ 52 ≤ (cut num den t).mantissa := by
      exact_mod_cast hwide.resolve_right (by omega)
    exact (mul_le_mul_of_nonneg_right hmantissa (by positivity)).trans hcut
  have hupper := hv.lt hlt
  have hplace : (0 : ℚ) < 2 ^ e := by positivity
  -- it is never cut above the last place of the float
  have hte : t ≤ e := by
    by_contra hgt
    have hnext := two_mul_zpow_le (not_le.mp hgt)
    have := habove (by omega)
    linarith
  by_cases hsame : t = e
  · subst hsame
    exact finish_eq (roundedMantissa_cut_eq hden hv.half hv.high hv.inner) hlt hle sign
  · -- just below a power of two it is cut one place lower, and carried over
    have hnext := two_mul_zpow_le (lt_of_le_of_ne hte hsame)
    have hsmall : (num : ℚ) / den < 2 ^ 52 * 2 ^ e := by linarith
    have hm : m = 2 ^ 52 := by
      by_contra hne
      have hge : 2 ^ 52 + 1 ≤ m := by omega
      have hcast : (2 : ℚ) ^ 52 + 1 ≤ m := by exact_mod_cast hge
      have hhalf := hv.half
      have := mul_le_mul_of_nonneg_right (by linarith : (2 : ℚ) ^ 52 ≤ m - 1 / 2) hplace.le
      linarith
    subst hm
    have hlow := hv.low
    rw [quartersBelow, if_pos ⟨rfl, by omega⟩] at hlow
    obtain rfl : t = e - 1 := by
      by_contra hne
      have hfar := two_mul_zpow_le (by omega : t < e - 1)
      have hnear := two_mul_zpow_le (by omega : e - 1 < e)
      push_cast at hlow
      linarith
    have hhalf : (2 : ℚ) ^ e = 2 * 2 ^ (e - 1) := by
      rw [mul_comm, ← zpow_add_one₀ (by norm_num), sub_add_cancel]
    have hrounded : (cut num den (e - 1)).roundedMantissa = 2 ^ 53 := by
      have hpositive : (0 : ℚ) < 2 ^ (e - 1) := by positivity
      refine roundedMantissa_cut_eq hden ?_ ?_ (fun h => absurd h (by decide))
      · rw [hhalf] at hlow
        push_cast at hlow ⊢
        linarith
      · push_cast
        linarith
    unfold finish
    rw [hrounded, shiftToTargetExponent_carry hleast, sub_add_cancel]
    rfl

end Binary64

end ColumnMask
