import Mathlib
import ColumnMask.Proofs.FloatText
import ColumnMask.Proofs.Magnitude

/-!
# Decimals as floats

A decimal that is taken for a float and back comes out as the number that the nearest float is, all
digits of it. That is the decimal itself exactly if it has few enough bits.

- `Decimal.FitsFloat`: a number of few enough bits.
- `Binary64.ofDecimal_unpack_of_roundsTo`: a number becomes the float that is the nearest to it;
  `Binary64.ofDecimal_unpack`: a number of few enough bits is not rounded.
- `Decimal.exists_ofFloat?_of_finite`: the exact value of a finite float.
- `Decimal.exists_ofFloat?_nearest`: there and back, for every number within the range of floats.
-/

namespace ColumnMask

/-! ## Rounding -/

namespace Binary64

open Float.Model Float.Model.UnpackedFloat

variable {m n : Nat} {e k : Int} {x : Float}

/-- A number of digits with an exponent lies between two powers of ten. -/
theorem pow_lead_le_lt (hn : n ≠ 0) (k : Int) :
    (10 : ℚ) ^ ((Text.ofNat n).length + k - 1) ≤ n * 10 ^ k ∧
      (n : ℚ) * 10 ^ k < 10 ^ ((Text.ofNat n).length + k) := by
  have hpower : (0 : ℚ) < 10 ^ k := by positivity
  have hlow : ((10 ^ Nat.log 10 n : Nat) : ℚ) ≤ n := by
    exact_mod_cast Nat.pow_log_le_self 10 hn
  have hhigh : (n : ℚ) < (10 ^ (Nat.log 10 n + 1) : Nat) := by
    exact_mod_cast Nat.lt_pow_succ_log_self (by decide) n
  rw [Text.length_ofNat hn]
  constructor
  · rw [show ((Nat.log 10 n + 1 : Nat) : Int) + k - 1 = (Nat.log 10 n : Int) + k by omega,
      zpow_add₀ (by norm_num), zpow_natCast]
    exact mul_le_mul_of_nonneg_right (by exact_mod_cast hlow) hpower.le
  · rw [zpow_add₀ (by norm_num), zpow_natCast]
    exact mul_lt_mul_of_pos_right (by exact_mod_cast hhigh) hpower

theorem ten_zpow_mul (k : Int) : (10 : ℚ) ^ k * 10 ^ (-k).toNat = 10 ^ k.toNat := by
  have hparts : k + ((-k).toNat : Int) = (k.toNat : Int) := by omega
  rw [← zpow_natCast, ← zpow_natCast, ← zpow_add₀ (by norm_num), hparts]

/-- The powers of ten from which on it is clear that a number is beyond the bounds of floats. -/
theorem two_pow_lt_ten_pow : (2 : ℚ) ^ (1075 : Int) < 10 ^ (400 : Int) := by
  calc (2 : ℚ) ^ (1075 : Int) = (2 ^ 43) ^ 25 := by rw [← pow_mul]; rfl
    _ < (10 ^ 16) ^ 25 := pow_lt_pow_left₀ (by norm_num) (by norm_num) (by decide)
    _ = 10 ^ (400 : Int) := by rw [← pow_mul]; rfl

theorem lt_of_lead_lt (hn : n ≠ 0) (h : (Text.ofNat n).length + k < -400) :
    (n : ℚ) * 10 ^ k < 2 ^ (-1075 : Int) := by
  calc (n : ℚ) * 10 ^ k < 10 ^ ((Text.ofNat n).length + k) := (pow_lead_le_lt hn k).2
    _ ≤ 10 ^ (-400 : Int) := zpow_le_zpow_right₀ (by norm_num) h.le
    _ ≤ 2 ^ (-1075 : Int) := by
      rw [zpow_neg, zpow_neg]
      exact inv_anti₀ (by positivity) two_pow_lt_ten_pow.le

theorem lt_of_lt_lead (hn : n ≠ 0) (h : 400 < (Text.ofNat n).length + k) :
    2 ^ (1024 : Int) < (n : ℚ) * 10 ^ k := by
  calc (2 : ℚ) ^ (1024 : Int) ≤ 2 ^ (1075 : Int) := zpow_le_zpow_right₀ (by norm_num) (by norm_num)
    _ < 10 ^ (400 : Int) := two_pow_lt_ten_pow
    _ ≤ 10 ^ ((Text.ofNat n).length + k - 1) := zpow_le_zpow_right₀ (by norm_num) (by omega)
    _ ≤ n * 10 ^ k := (pow_lead_le_lt hn k).1

theorem cast_fraction (n : Nat) (k : Int) :
    ((n * 10 ^ k.toNat : Nat) : ℚ) / (10 ^ (-k).toNat : Nat) = n * 10 ^ k := by
  have hpower : ((10 ^ (-k).toNat : Nat) : ℚ) ≠ 0 := by positivity
  rw [div_eq_iff hpower]
  push_cast
  rw [mul_assoc, ten_zpow_mul]

@[simp] theorem ofDecimal_zero (k : Int) : ofDecimal 0 k = 0 := by simp [ofDecimal]

/-- **Any number** becomes a float that is close, or an infinity. -/
theorem ofDecimal_unpack_cases (n : Nat) (k : Int) :
    (∃ m e, (ofDecimal n k).toModel.unpack = ofParts .positive m e ∧ Canonical m e ∧ e ≤ 971 ∧
        |(m : ℚ) * 2 ^ e - n * 10 ^ k| ≤ tolerance (n * 10 ^ k)) ∨
      (ofDecimal n k).toModel.unpack = .infinity .positive ∧
        2 ^ (1024 : Int) ≤ (n : ℚ) * 10 ^ k + tolerance (n * 10 ^ k) := by
  by_cases hsmall : n = 0 ∨ (Text.ofNat n).length + k < -400
  · -- nothing is left of a number that is so small
    have hle : (n : ℚ) * 10 ^ k ≤ 2 ^ (-1075 : Int) := by
      rcases eq_or_ne n 0 with rfl | hn
      · rw [Nat.cast_zero, zero_mul]
        positivity
      · exact (lt_of_lead_lt hn (hsmall.resolve_left hn)).le
    refine .inl ⟨0, -1074, ?_, ⟨by decide, le_rfl, .inr rfl⟩, by decide, ?_⟩
    · rw [ofDecimal]
      exact (congrArg (fun x : Float => x.toModel.unpack) (if_pos hsmall)).trans rfl
    · rw [Nat.cast_zero, zero_mul, zero_sub, abs_neg, abs_of_nonneg (by positivity)]
      exact le_max_of_le_left hle
  obtain ⟨hn, hlow⟩ := not_or.mp hsmall
  -- beyond all floats the infinity is as close as it has to be
  by_cases hlarge : 400 < (Text.ofNat n).length + k
  · refine .inr ⟨?_, ?_⟩
    · rw [ofDecimal]
      exact (congrArg (fun x : Float => x.toModel.unpack)
        ((if_neg hsmall).trans (if_pos hlarge))).trans rfl
    · have htolerance : 0 ≤ tolerance ((n : ℚ) * 10 ^ k) := le_max_of_le_left (by positivity)
      exact (lt_of_lt_lead hn hlarge).le.trans (le_add_of_nonneg_right htolerance)
  · -- in between the number is rounded as a fraction
    obtain ⟨m, e, acc, hstands, hx⟩ := isRounded_ofDecimal (e := k) hn ⟨by omega, by omega⟩
    have hcases := hstands.unpack_cases (by positivity) .positive
    rw [cast_fraction] at hcases
    rw [hx]
    exact hcases

/-- **The nearest float** is what a number becomes. -/
theorem ofDecimal_unpack_of_roundsTo (h : Canonical m e) (he : e ≤ 971) (hm : 0 < m)
    (hv : RoundsTo m e (n * 10 ^ k)) : (ofDecimal n k).toModel.unpack = ofParts .positive m e := by
  -- what rounds to a number that is not zero is neither too small nor too large to be read
  have hlow : (2 : ℚ) ^ (-1075 : Int) ≤ n * 10 ^ k := by
    have hle := h.le
    exact (zpow_le_zpow_right₀ (by norm_num) (by omega)).trans (hv.le hm)
  have hhigh : (n : ℚ) * 10 ^ k ≤ 2 ^ (1024 : Int) := by
    calc (n : ℚ) * 10 ^ k ≤ 2 ^ 53 * 2 ^ e := (hv.lt h.lt).le
      _ ≤ 2 ^ 53 * 2 ^ (971 : Int) :=
        mul_le_mul_of_nonneg_left (zpow_le_zpow_right₀ (by norm_num) he) (by positivity)
      _ = 2 ^ (1024 : Int) := by
        rw [← zpow_natCast, ← zpow_add₀ (by norm_num)]
        norm_num
  have hn : n ≠ 0 := by
    rintro rfl
    have hpos : (0 : ℚ) < 2 ^ (-1075 : Int) := by positivity
    rw [Nat.cast_zero, zero_mul] at hlow
    exact hlow.not_gt hpos
  obtain ⟨m', e', acc, hstands, hx⟩ := isRounded_ofDecimal (e := k) hn
    ⟨not_lt.mp fun hlt => (lt_of_lead_lt hn hlt).not_ge hlow,
      not_lt.mp fun hlt => (lt_of_lt_lead hn hlt).not_ge hhigh⟩
  rw [← cast_fraction] at hv
  rw [hx, hstands.round_eq_of_roundsTo (by positivity) h hv]
  exact unpack_pack_ofParts h he .positive

/-- **A number of few enough bits** is not rounded. -/
theorem ofDecimal_unpack (h : Canonical m e) (he : e ≤ 971)
    (hvalue : (n : ℚ) * 10 ^ k = m * 2 ^ e) :
    (ofDecimal n k).toModel.unpack = ofParts .positive m e := by
  rcases Nat.eq_zero_or_pos m with rfl | hm
  · obtain rfl : n = 0 := by
      rw [Nat.cast_zero, zero_mul] at hvalue
      exact_mod_cast (mul_eq_zero.mp hvalue).resolve_right (by positivity)
    rw [ofDecimal_zero]
    rfl
  · exact ofDecimal_unpack_of_roundsTo h he hm (hvalue ▸ roundsTo_self m e)

/-- A number of at most full width is one of full width, or has the least exponent. -/
theorem exists_canonical (hlt : m < 2 ^ 53) (hle : -1074 ≤ e) (he : e ≤ 971) :
    ∃ m' e', Canonical m' e' ∧ e' ≤ 971 ∧ (m' : ℚ) * 2 ^ e' = m * 2 ^ e := by
  rcases Nat.eq_zero_or_pos m with rfl | hm
  · exact ⟨0, -1074, ⟨by decide, le_rfl, .inr rfl⟩, by decide, by simp⟩
  have hlog : Nat.log 2 m ≤ 52 := Nat.lt_succ_iff.mp (Nat.log_lt_of_lt_pow hm.ne' hlt)
  -- as many zeros as there is room for, and as the exponent allows
  obtain ⟨j, hj⟩ : ∃ j : Nat, j = min (52 - Nat.log 2 m) (e + 1074).toNat := ⟨_, rfl⟩
  have hwidth : Nat.log 2 (m <<< j) = Nat.log 2 m + j := log_shiftLeft hm j
  have hpos : 0 < m <<< j := by
    rw [Nat.shiftLeft_eq]
    positivity
  refine ⟨m <<< j, e - j, ⟨?_, by omega, ?_⟩, by omega, shiftLeft_mul_zpow m j e⟩
  · exact Nat.lt_pow_of_log_lt (by decide) (by omega)
  · by_cases hfull : j = 52 - Nat.log 2 m
    · exact .inl (Nat.pow_le_of_le_log hpos.ne' (by omega))
    · exact .inr (by omega)

/-! ## Signs -/

/-- The factor that a sign is. -/
def factor : Float.Model.UnpackedFloat.Sign → ℚ
  | .negative => -1
  | .positive => 1

@[simp] theorem abs_factor (sign : Float.Model.UnpackedFloat.Sign) : |factor sign| = 1 := by
  cases sign <;> simp [factor]

theorem unpack_neg (hx : x.toModel.unpack = ofParts .positive m e) (h : Canonical m e)
    (he : e ≤ 971) : (-x).toModel.unpack = ofParts .negative m e := by
  show (Float.Model.pack x.toModel.unpack.neg).unpack = _
  rw [hx, ← unpack_pack_ofParts h he .negative]
  congr 2
  unfold ofParts
  split <;> rfl

end Binary64

/-! ## There and back -/

namespace Decimal

open Binary64

variable {m : Nat} {e : Int} {x : Float} {d : Decimal}

/-- Factors of two are taken off together with powers of two. -/
theorem stripTwos_mul (k m : Nat) : (stripTwos k m).2 * 2 ^ k = m * 2 ^ (stripTwos k m).1 := by
  induction k generalizing m with
  | zero => rfl
  | succ k ih =>
    by_cases heven : m % 2 = 0
    · rw [stripTwos, if_pos heven, pow_succ, ← mul_assoc, ih, mul_right_comm]
      congr 1
      omega
    · rw [stripTwos, if_neg heven]

theorem toRat_fifths (sign : Int) (m k : Nat) :
    toRat ⟨sign * (m * Nat.pow 5 k : Nat), k⟩ = sign * m / 2 ^ k := by
  show ((sign * ((m * 5 ^ k : Nat) : Int) : Int) : ℚ) * 10 ^ (-(k : Int)) = _
  rw [zpow_neg, zpow_natCast, show (10 : ℚ) = 5 * 2 by norm_num, mul_pow]
  push_cast
  field_simp

theorem exists_ofFloat?_of_finite {negative : Bool}
    (hx : Binary64.ofFloat x = .finite negative m e) :
    ∃ f, ofFloat? x = some f ∧ f.toRat = (if negative then -1 else 1) * (m * 2 ^ e) := by
  have hsign : (((if negative then -1 else 1 : Int)) : ℚ) = if negative then -1 else 1 := by
    split <;> simp
  unfold ofFloat?
  rw [hx]
  -- a whole number, or one with as many places as it has halves
  cases e with
  | ofNat n =>
    refine ⟨_, rfl, ?_⟩
    rw [toRat_mk, Int.cast_mul, hsign]
    simp [zpow_natCast]
  | negSucc n =>
    -- as many fives as there are halves left
    obtain ⟨k, m', hparts, hvalue⟩ : ∃ k m',
        (if isSubnormal m then (n + 1, m) else stripTwos (n + 1) m) = (k, m') ∧
          m' * 2 ^ (n + 1) = m * 2 ^ k := by
      split
      · exact ⟨n + 1, m, rfl, rfl⟩
      · exact ⟨_, _, rfl, stripTwos_mul (n + 1) m⟩
    refine ⟨⟨(if negative then -1 else 1) * (m' * Nat.pow 5 k : Nat), k⟩, ?_, ?_⟩
    · dsimp only
      rw [hparts]
    · have hcast : (m' : ℚ) * 2 ^ (n + 1) = m * 2 ^ k := by exact_mod_cast hvalue
      have hquotient : (m' : ℚ) / 2 ^ k = m / 2 ^ (n + 1) := by
        rw [div_eq_div_iff (by positivity) (by positivity), hcast]
      rw [toRat_fifths, hsign, mul_div_assoc, hquotient, zpow_negSucc, div_eq_mul_inv]

/-- **The exact value** of a finite float. -/
theorem exists_ofFloat?_eq {sign : Float.Model.UnpackedFloat.Sign}
    (hx : x.toModel.unpack = ofParts sign m e) :
    ∃ f, ofFloat? x = some f ∧ f.toRat = factor sign * (m * 2 ^ e) := by
  rcases Nat.eq_zero_or_pos m with rfl | hm
  · have hfinite : Binary64.ofFloat x = .finite (sign == .negative) 0 0 := by
      rw [Binary64.ofFloat, hx, ofParts_zero]
    simpa using exists_ofFloat?_of_finite hfinite
  · have hfinite : Binary64.ofFloat x = .finite (sign == .negative) m e := by
      rw [Binary64.ofFloat, hx, ofParts_of_pos sign hm]
    cases sign with
    | negative => exact exists_ofFloat?_of_finite hfinite
    | positive => exact exists_ofFloat?_of_finite hfinite

/-- The sign that the nearest float has. -/
def floatSign (d : Decimal) : Float.Model.UnpackedFloat.Sign :=
  if d.coefficient < 0 then .negative else .positive

theorem toRat_eq_factor (d : Decimal) :
    d.toRat = factor d.floatSign * (d.coefficient.natAbs * (10 : ℚ) ^ (-d.scale)) := by
  rw [toRat, floatSign, ← mul_assoc]
  congr 1
  by_cases hneg : d.coefficient < 0
  · rw [if_pos hneg, factor, Nat.cast_natAbs, abs_of_neg hneg, Int.cast_neg, neg_one_mul, neg_neg]
  · rw [if_neg hneg, factor, Nat.cast_natAbs, abs_of_nonneg (not_lt.mp hneg), one_mul]

theorem abs_toRat (d : Decimal) : |d.toRat| = d.coefficient.natAbs * (10 : ℚ) ^ (-d.scale) := by
  rw [toRat_eq_factor, abs_mul, abs_factor, one_mul, abs_of_nonneg (by positivity)]

theorem nearest_unpack
    (hx : (ofDecimal d.coefficient.natAbs (-d.scale)).toModel.unpack = ofParts .positive m e)
    (h : Canonical m e) (he : e ≤ 971) :
    (nearest d).toModel.unpack = ofParts d.floatSign m e := by
  unfold nearest floatSign
  split
  · exact unpack_neg hx h he
  · exact hx

/-- A number of at most 53 bits, within the range of exponents. -/
def FitsFloat (d : Decimal) : Prop :=
  ∃ (m : Nat) (e : Int), m < 2 ^ 53 ∧ -1074 ≤ e ∧ e ≤ 971 ∧ |d.toRat| = m * 2 ^ e

/-- The largest number that is no larger than all floats. -/
def largestFloat : ℚ := (2 ^ 53 - 1) * 2 ^ (971 : Int)

/-- **To the nearest float and back**: a number within the range of floats becomes one that is close
to it, and stays the same exactly if it has few enough bits. -/
theorem exists_ofFloat?_nearest (h : |d.toRat| ≤ largestFloat) :
    ∃ f, ofFloat? (nearest d) = some f ∧ |f.toRat - d.toRat| ≤ tolerance |d.toRat| ∧
      (f.Same d ↔ d.FitsFloat) := by
  have habs := d.abs_toRat
  rcases ofDecimal_unpack_cases d.coefficient.natAbs (-d.scale) with
    ⟨m, e, hx, hcanonical, he, herror⟩ | ⟨hx, hlarge⟩
  · obtain ⟨f, hf, hvalue⟩ := exists_ofFloat?_eq (nearest_unpack hx hcanonical he)
    -- both have the same sign, so it is enough to compare the magnitudes
    have hdistance : |f.toRat - d.toRat| = |(m * 2 ^ e : ℚ) - (|d.toRat|)| := by
      rw [hvalue, d.abs_toRat, d.toRat_eq_factor, ← mul_sub, abs_mul, abs_factor, one_mul]
    rw [← habs] at herror
    refine ⟨f, hf, hdistance ▸ herror, ?_⟩
    rw [same_iff_toRat, ← sub_eq_zero, ← abs_eq_zero, hdistance, abs_eq_zero, sub_eq_zero]
    constructor
    · intro hsame
      exact ⟨m, e, hcanonical.lt, hcanonical.le, he, hsame.symm⟩
    · rintro ⟨m₁, e₁, hlt, hle, he₁, hfits⟩
      obtain ⟨m₂, e₂, hcanonical₂, he₂, hvalue₂⟩ := exists_canonical hlt hle he₁
      rw [← hvalue₂] at hfits
      have hexact := ofDecimal_unpack hcanonical₂ he₂ (habs.symm.trans hfits)
      rw [hfits, ← magnitude_of_unpack hx, magnitude_of_unpack hexact]
  · -- what is in range is never rounded to an infinity
    have hfinite : (ofDecimal d.coefficient.natAbs (-d.scale)).isFinite = true := by
      rw [← habs] at hlarge
      exact Approximates.isFinite (.inr ⟨isInf_of_unpack hx, hlarge⟩) h
    obtain ⟨sign, m, e, hparts, -⟩ := exists_unpack_eq hfinite
    rw [hx] at hparts
    unfold ofParts at hparts
    split at hparts <;> cases hparts

end Decimal

end ColumnMask
