import Mathlib
import ColumnMask.Decimal

/-!
# The number that a decimal stands for

`Decimal.toRat` is the number; order and arithmetic of decimals are those of the numbers, whatever
the scales are.

- `Decimal.lt_iff_toRat`, `Decimal.le_iff_toRat`: the order.
- `Decimal.toRat_add`, `Decimal.toRat_sub`, `Decimal.toRat_mod`: the operations.
- `Decimal.Counts`: a number that is a whole number of steps at a precision. Such numbers are not
  changed by rounding to the precision and lose nothing when they are cut off there.
-/

namespace ColumnMask

namespace Decimal

/-! ## The number -/

/-- The number that a decimal stands for. -/
def toRat (d : Decimal) : ℚ := d.coefficient * (10 : ℚ) ^ (-d.scale)

theorem toRat_mk (coefficient scale : Int) :
    toRat ⟨coefficient, scale⟩ = coefficient * (10 : ℚ) ^ (-scale) := rfl

theorem ten_zpow_pos (n : Int) : (0 : ℚ) < 10 ^ n := zpow_pos (by norm_num) n

theorem ten_zpow_neg_mul (n : Int) : (10 : ℚ) ^ (-n) * 10 ^ n = 1 := by
  rw [← zpow_add₀ (by norm_num), neg_add_cancel, zpow_zero]

theorem cast_ten_pow {n : Int} (h : 0 ≤ n) : ((Int.pow 10 n.toNat : Int) : ℚ) = 10 ^ n := by
  show (((10 : Int) ^ n.toNat : Int) : ℚ) = 10 ^ n
  rw [Int.cast_pow, ← zpow_natCast, Int.toNat_of_nonneg h, Int.cast_ofNat]

/-- At a scale that is fine enough the coefficient is the number, counted in steps of the scale. -/
theorem unitsAt_eq {d : Decimal} {scale : Int} (h : d.scale ≤ scale) :
    (d.unitsAt scale : ℚ) = d.toRat * 10 ^ scale := by
  rw [unitsAt, Int.cast_mul, cast_ten_pow (by omega), toRat, mul_assoc, ← zpow_add₀ (by norm_num)]
  congr 2
  omega

/-- The number again, from its coefficient at a finer scale. -/
theorem unitsAt_mul {d : Decimal} {scale : Int} (h : d.scale ≤ scale) :
    (d.unitsAt scale : ℚ) * 10 ^ (-scale) = d.toRat := by
  rw [unitsAt_eq h, mul_assoc, ← zpow_add₀ (by norm_num), add_neg_cancel, zpow_zero, mul_one]

/-- Zeros at the end of a coefficient are taken back by the scale. -/
theorem toRat_mul_pow (coefficient scale : Int) (k : Nat) :
    toRat ⟨coefficient * 10 ^ k, scale⟩ = toRat ⟨coefficient, scale - k⟩ := by
  simp only [toRat, Int.cast_mul, Int.cast_pow, Int.cast_ofNat, neg_sub]
  rw [mul_assoc, ← zpow_natCast, ← zpow_add₀ (by norm_num)]
  rfl

/-! ## Order -/

variable {a b d : Decimal}

theorem lt_iff_toRat : a < b ↔ a.toRat < b.toRat := by
  show a.unitsAt (max a.scale b.scale) < b.unitsAt (max a.scale b.scale) ↔ _
  rw [← Int.cast_lt (R := ℚ), unitsAt_eq (le_max_left _ _), unitsAt_eq (le_max_right _ _)]
  exact mul_lt_mul_iff_left₀ (ten_zpow_pos _)

theorem le_iff_toRat : a ≤ b ↔ a.toRat ≤ b.toRat := by
  show a.unitsAt (max a.scale b.scale) ≤ b.unitsAt (max a.scale b.scale) ↔ _
  rw [← Int.cast_le (R := ℚ), unitsAt_eq (le_max_left _ _), unitsAt_eq (le_max_right _ _)]
  exact mul_le_mul_iff_left₀ (ten_zpow_pos _)

theorem not_lt_iff_le : ¬ a < b ↔ b ≤ a := by
  rw [lt_iff_toRat, le_iff_toRat, not_lt]

protected theorem le_trans (hab : a ≤ b) (hbd : b ≤ d) : a ≤ d := by
  rw [le_iff_toRat] at *
  exact hab.trans hbd

/-! ## Arithmetic -/

@[simp] theorem toRat_ofInt (n : Int) : (ofInt n).toRat = n := by
  simp [ofInt, toRat]

theorem toRat_step (precision : Nat) : (step precision).toRat = 10 ^ (-(precision : Int)) := by
  simp [step, toRat]

theorem toRat_add (a b : Decimal) : (a + b).toRat = a.toRat + b.toRat := by
  show toRat ⟨a.unitsAt (max a.scale b.scale) + b.unitsAt (max a.scale b.scale), _⟩ = _
  rw [toRat_mk, Int.cast_add, add_mul, unitsAt_mul (le_max_left _ _),
    unitsAt_mul (le_max_right _ _)]

theorem toRat_sub (a b : Decimal) : (a - b).toRat = a.toRat - b.toRat := by
  show toRat ⟨a.unitsAt (max a.scale b.scale) - b.unitsAt (max a.scale b.scale), _⟩ = _
  rw [toRat_mk, Int.cast_sub, sub_mul, unitsAt_mul (le_max_left _ _),
    unitsAt_mul (le_max_right _ _)]

/-- Scaling both numbers does not change how often one fits into the other. -/
theorem floor_mul_div_mul (m : Int) {n : Int} (hn : 0 < n) {c : ℚ} (hc : 0 < c) :
    ⌊m * c / (n * c)⌋ = m / n := by
  obtain ⟨k, rfl⟩ := Int.eq_ofNat_of_zero_le hn.le
  rw [mul_div_mul_right _ _ hc.ne', Int.cast_natCast, Rat.floor_intCast_div_natCast]

/-- What is left when the second number is taken off as often as it fits. -/
theorem toRat_mod (a : Decimal) (hb : 0 < b.toRat) :
    (a % b).toRat = a.toRat - b.toRat * ⌊a.toRat / b.toRat⌋ := by
  show toRat ⟨a.unitsAt (max a.scale b.scale) % b.unitsAt (max a.scale b.scale), _⟩ = _
  -- both numbers in units of the finer scale
  have ha := unitsAt_mul (le_max_left a.scale b.scale)
  have hb' := unitsAt_mul (le_max_right a.scale b.scale)
  have hten := ten_zpow_pos (-max a.scale b.scale)
  generalize a.unitsAt (max a.scale b.scale) = m at *
  generalize b.unitsAt (max a.scale b.scale) = n at *
  have hn : 0 < n := by
    rw [← hb'] at hb
    exact_mod_cast pos_of_mul_pos_left hb hten.le
  have hquotient : ⌊a.toRat / b.toRat⌋ = m / n := by
    rw [← ha, ← hb', floor_mul_div_mul m hn hten]
  rw [toRat_mk, hquotient, Int.emod_def, Int.cast_sub, Int.cast_mul, sub_mul, ha, ← hb']
  ring

/-- A remainder lies between zero and the divisor. -/
theorem toRat_mod_mem (a : Decimal) (hb : 0 < b.toRat) :
    0 ≤ (a % b).toRat ∧ (a % b).toRat < b.toRat := by
  have hfloor := Int.floor_le (a.toRat / b.toRat)
  have hlt := Int.lt_floor_add_one (a.toRat / b.toRat)
  rw [le_div_iff₀ hb] at hfloor
  rw [div_lt_iff₀ hb] at hlt
  rw [toRat_mod a hb]
  constructor <;> linarith

/-- What lies there already is its own remainder. -/
theorem toRat_mod_of_lt (ha : 0 ≤ a.toRat) (hlt : a.toRat < b.toRat) :
    (a % b).toRat = a.toRat := by
  have hb : 0 < b.toRat := lt_of_le_of_lt ha hlt
  have hquotient : ⌊a.toRat / b.toRat⌋ = 0 :=
    Int.floor_eq_zero_iff.mpr ⟨div_nonneg ha hb.le, (div_lt_one hb).mpr hlt⟩
  rw [toRat_mod a hb, hquotient, Int.cast_zero, mul_zero, sub_zero]

theorem toRat_abs (d : Decimal) : d.abs.toRat = |d.toRat| := by
  rw [abs, toRat_mk, toRat, abs_mul, abs_of_pos (ten_zpow_pos _)]
  simp

/-! ## Whole numbers of steps -/

/-- The number is so many steps at a precision. -/
def Counts (d : Decimal) (precision : Nat) (n : Int) : Prop :=
  d.toRat * 10 ^ precision = n

variable {precision : Nat} {m n : Int}

theorem counts_iff : d.Counts precision n ↔ d.toRat = n * (10 : ℚ) ^ (-(precision : Int)) := by
  have hpow : (10 : ℚ) ^ precision ≠ 0 := by positivity
  rw [Counts, zpow_neg, zpow_natCast, ← div_eq_mul_inv, eq_div_iff hpow]

theorem counts_mk (n : Int) (precision : Nat) : Counts ⟨n, precision⟩ precision n :=
  counts_iff.mpr (toRat_mk n precision)

theorem Counts.lt_iff (ha : a.Counts precision m) (hb : b.Counts precision n) : a < b ↔ m < n := by
  rw [lt_iff_toRat, counts_iff.mp ha, counts_iff.mp hb, mul_lt_mul_iff_left₀ (ten_zpow_pos _),
    Int.cast_lt]

/-- The numbers of steps are ordered as the numbers are. -/
theorem le_iff_of_steps {x y : ℚ} (hx : x * 10 ^ precision = m) (hy : y * 10 ^ precision = n) :
    x ≤ y ↔ m ≤ n := by
  have hpow : (0 : ℚ) < 10 ^ precision := by positivity
  rw [← Int.cast_le (R := ℚ), ← hx, ← hy]
  exact (mul_le_mul_iff_left₀ hpow).symm

theorem Counts.add (ha : a.Counts precision m) (hb : b.Counts precision n) :
    (a + b).Counts precision (m + n) := by
  rw [Counts, toRat_add, add_mul, ha, hb, Int.cast_add]

theorem Counts.sub (ha : a.Counts precision m) (hb : b.Counts precision n) :
    (a - b).Counts precision (m - n) := by
  rw [Counts, toRat_sub, sub_mul, ha, hb, Int.cast_sub]

theorem Counts.mod (ha : a.Counts precision m) (hb : b.Counts precision n) (hn : 0 < n) :
    (a % b).Counts precision (m % n) := by
  have hpos : 0 < b.toRat := by
    rw [counts_iff.mp hb]
    exact mul_pos (by exact_mod_cast hn) (ten_zpow_pos _)
  have hquotient : ⌊a.toRat / b.toRat⌋ = m / n := by
    rw [counts_iff.mp ha, counts_iff.mp hb, floor_mul_div_mul m hn (ten_zpow_pos _)]
  rw [Counts, toRat_mod a hpos, hquotient, Int.emod_def, sub_mul, ha, mul_right_comm, hb,
    Int.cast_sub, Int.cast_mul]

theorem Counts.abs (h : d.Counts precision n) : d.abs.Counts precision n.natAbs := by
  rw [Counts, toRat_abs, ← abs_of_pos (by positivity : (0 : ℚ) < 10 ^ precision), ← abs_mul, h]
  simp

/-- A coefficient with more digits than the number needs ends in zeros. -/
theorem Counts.coefficient_eq (h : d.Counts precision n) (hscale : (precision : Int) < d.scale) :
    d.coefficient = n * 10 ^ (d.scale - precision).toNat := by
  have hpow : (10 : ℚ) ^ (d.scale - precision).toNat =
      10 ^ (-(precision : Int)) * 10 ^ d.scale := by
    rw [← zpow_natCast, Int.toNat_of_nonneg (by omega), ← zpow_add₀ (by norm_num)]
    congr 1
    omega
  have hcast : (d.coefficient : ℚ) = n * 10 ^ (d.scale - precision).toNat := by
    rw [hpow, ← mul_assoc, ← counts_iff.mp h, toRat, mul_assoc, ten_zpow_neg_mul, mul_one]
  exact_mod_cast hcast

/-- Nothing is cut off a number that needs no more digits. -/
theorem Counts.truncatedUnits (h : d.Counts precision n) : d.truncatedUnits precision = n := by
  unfold Decimal.truncatedUnits
  by_cases hscale : d.scale ≤ precision
  · have hunits : (d.unitsAt precision : ℚ) = n := by
      rw [unitsAt_eq hscale, zpow_natCast]
      exact h
    rw [if_pos hscale]
    exact_mod_cast hunits
  · rw [if_neg hscale, h.coefficient_eq (by omega)]
    exact Int.mul_tdiv_cancel n (by positivity)

/-- A decimal without a fraction is a whole number of ones. -/
theorem exists_counts_of_isWhole (h : d.isWhole = true) : ∃ n, d.Counts 0 n := by
  simp only [isWhole, Bool.or_eq_true, decide_eq_true_eq, beq_iff_eq] at h
  by_cases hscale : d.scale ≤ 0
  · refine ⟨d.unitsAt 0, ?_⟩
    rw [Counts, unitsAt_eq hscale, pow_zero, zpow_zero]
  · obtain ⟨n, hn⟩ := Int.dvd_of_emod_eq_zero (h.resolve_left hscale)
    refine ⟨n, ?_⟩
    rw [Counts, toRat, hn, Int.cast_mul, cast_ten_pow (by omega), pow_zero, mul_one, mul_right_comm,
      mul_comm (_ ^ _), ten_zpow_neg_mul, one_mul]

/-- A multiple of the divisor is divided without rounding. -/
theorem roundQuotient_mul (n : Int) {k : Nat} (hk : 0 < k) : roundQuotient (n * k) k = n := by
  have hquotient : (2 * (n.natAbs * k) + k) / (2 * k) = n.natAbs := by
    rw [show 2 * (n.natAbs * k) + k = k + 2 * k * n.natAbs by ring,
      Nat.add_mul_div_left _ _ (by omega), Nat.div_eq_of_lt (by omega), Nat.zero_add]
  rw [roundQuotient, Int.sign_mul, Int.sign_natCast_of_ne_zero hk.ne', mul_one, Int.natAbs_mul,
    Int.natAbs_natCast, hquotient]
  exact Int.sign_mul_natAbs n

/-- Rounding does not change a number that needs no more digits. -/
theorem Counts.roundTo (h : d.Counts precision n) : (d.roundTo precision).Counts precision n := by
  unfold Decimal.roundTo
  by_cases hscale : d.scale ≤ precision
  · rw [if_pos hscale]
    exact h
  · have hround : roundQuotient (n * 10 ^ (d.scale - precision).toNat)
        (Nat.pow 10 (d.scale - precision).toNat) = n := by
      have hpos : 0 < 10 ^ (d.scale - precision).toNat := Nat.pow_pos (by decide)
      have h10 := roundQuotient_mul n hpos
      rwa [Nat.cast_pow] at h10
    rw [if_neg hscale, h.coefficient_eq (by omega), hround]
    exact counts_mk n precision

end Decimal

end ColumnMask
