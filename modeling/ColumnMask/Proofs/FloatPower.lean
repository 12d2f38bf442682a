import Mathlib
import ColumnMask.Proofs.Magnitude

/-!
# Powers of ten in floats

Repeated squaring takes the powers of ten from products, each with a rounding of its own. A power is
off by not more than its number of roundings allows, so those that floats can hold at all are
finite, and the others are infinite. Scaling down goes by the reciprocal, which is zero from the
first infinite power on.

- `Binary64.NearPower`: a float is a power of ten after a number of roundings.
- `Binary64.NearPower.mul`, `Binary64.nearPower_powerLoop`: one product, and the loop.
- `Binary64.nearPower_power`, `Binary64.power_isFinite`, `Binary64.power_isInf`: powers of ten, and
  which of them are finite.
- `Binary64.TooCoarse`: the digit counts that scale everything to zero;
  `Binary64.digitFactor_cases`: for the others the factor is not zero.
-/

namespace ColumnMask

namespace Binary64

open Float.Model Float.Model.UnpackedFloat

variable {x y : Float}

/-! ## Infinities -/

/-- Neither zero nor what is no number. -/
def NonZero (x : Float) : Prop := x.isInf = true ∨ x.isFinite = true ∧ magnitude x ≠ 0

theorem isInf_pack_infinity (sign : Sign) :
    (Float.ofModel (.pack (.infinity sign))).isInf = true := by
  cases sign with
  | negative => rfl
  | positive => rfl

/-- An infinity stays one unless it is multiplied by zero. -/
theorem isInf_mul_left (hx : x.isInf = true) (hy : NonZero y) : (x * y).isInf = true := by
  obtain ⟨s₁, hunpack₁⟩ := exists_unpack_infinity hx
  show (Float.ofModel (.pack (.mul .binary64 x.toModel.unpack y.toModel.unpack))).isInf = true
  rw [hunpack₁]
  rcases hy with hinfinite | ⟨hfinite, hne⟩
  · obtain ⟨s₂, hunpack₂⟩ := exists_unpack_infinity hinfinite
    rw [hunpack₂]
    exact isInf_pack_infinity (s₁ * s₂)
  · obtain ⟨s₂, m, e, hm, hunpack₂⟩ := exists_unpack_finite hfinite hne
    rw [hunpack₂]
    exact isInf_pack_infinity (s₁ * s₂)

theorem isInf_mul_right (hx : NonZero x) (hy : y.isInf = true) : (x * y).isInf = true := by
  obtain ⟨s₂, hunpack₂⟩ := exists_unpack_infinity hy
  show (Float.ofModel (.pack (.mul .binary64 x.toModel.unpack y.toModel.unpack))).isInf = true
  rw [hunpack₂]
  rcases hx with hinfinite | ⟨hfinite, hne⟩
  · obtain ⟨s₁, hunpack₁⟩ := exists_unpack_infinity hinfinite
    rw [hunpack₁]
    exact isInf_pack_infinity (s₁ * s₂)
  · obtain ⟨s₁, m, e, hm, hunpack₁⟩ := exists_unpack_finite hfinite hne
    rw [hunpack₁]
    exact isInf_pack_infinity (s₁ * s₂)

/-! ## Powers after roundings -/

/-- A power of ten that has been rounded down by as much as possible every time. -/
def lowest (n k : Nat) : ℚ := 10 ^ n * (1 - 1 / 2 ^ 53) ^ k

/-- A power of ten that has been rounded up by as much as possible every time. -/
def highest (n k : Nat) : ℚ := 10 ^ n * (1 + 1 / 2 ^ 53) ^ k

variable {n n₁ n₂ k k₁ k₂ : Nat}

theorem lowest_mul (n₁ n₂ k₁ k₂ : Nat) :
    lowest n₁ k₁ * lowest n₂ k₂ * (1 - 1 / 2 ^ 53) = lowest (n₁ + n₂) (k₁ + k₂ + 1) := by
  unfold lowest
  ring

theorem highest_mul (n₁ n₂ k₁ k₂ : Nat) :
    highest n₁ k₁ * highest n₂ k₂ * (1 + 1 / 2 ^ 53) = highest (n₁ + n₂) (k₁ + k₂ + 1) := by
  unfold highest
  ring

theorem lowest_pos (n k : Nat) : 0 < lowest n k :=
  mul_pos (by positivity) (pow_pos (by norm_num) k)

/-- A digit outweighs a rounding. -/
theorem one_le_lowest (h : k ≤ n) : 1 ≤ lowest n k := by
  obtain ⟨d, rfl⟩ := Nat.exists_eq_add_of_le h
  unfold lowest
  rw [pow_add, mul_right_comm, ← mul_pow]
  exact one_le_mul_of_one_le_of_one_le (one_le_pow₀ (by norm_num)) (one_le_pow₀ (by norm_num))

theorem one_le_highest (n k : Nat) : 1 ≤ highest n k :=
  one_le_mul_of_one_le_of_one_le (one_le_pow₀ (by norm_num)) (one_le_pow₀ (by norm_num))

/-- The float is a power of ten after a number of roundings. It may be infinite if the power could
have been rounded to more than the largest float. -/
def NearPower (n k : Nat) (x : Float) : Prop :=
  x.isFinite = true ∧ lowest n k ≤ magnitude x ∧ magnitude x ≤ highest n k ∨
    x.isInf = true ∧ 2 ^ (1024 : Int) ≤ highest n k

theorem NearPower.nonZero (h : NearPower n k x) : NonZero x := by
  rcases h with ⟨hfinite, hlow, -⟩ | ⟨hinfinite, -⟩
  · exact .inr ⟨hfinite, ((lowest_pos n k).trans_le hlow).ne'⟩
  · exact .inl hinfinite

/-- From one on the tolerance of a rounding is a part of what is rounded. -/
theorem tolerance_of_one_le {v : ℚ} (h : 1 ≤ v) : tolerance v = v / 2 ^ 53 := by
  refine max_eq_right ?_
  rw [le_div_iff₀ (by positivity), ← zpow_natCast, ← zpow_add₀ (by norm_num)]
  exact (zpow_le_one_of_nonpos₀ (by norm_num) (by norm_num)).trans h

/-- **One product** adds the exponents, and a rounding. -/
theorem NearPower.mul (hx : NearPower n₁ k₁ x) (hy : NearPower n₂ k₂ y) (hk₁ : k₁ ≤ n₁)
    (hk₂ : k₂ ≤ n₂) : NearPower (n₁ + n₂) (k₁ + k₂ + 1) (x * y) := by
  have hbound₁ := one_le_highest n₁ k₁
  have hbound₂ := one_le_highest n₂ k₂
  -- the bounds of the product leave room for one more rounding
  have hlarge : highest n₁ k₁ * highest n₂ k₂ ≤ highest (n₁ + n₂) (k₁ + k₂ + 1) := by
    rw [← highest_mul]
    exact le_mul_of_one_le_right (by positivity) (by norm_num)
  rcases hx with ⟨hfinite₁, hlow₁, hhigh₁⟩ | ⟨hinfinite₁, hhigh₁⟩
  · rcases hy with ⟨hfinite₂, hlow₂, hhigh₂⟩ | ⟨hinfinite₂, hhigh₂⟩
    · -- two finite factors: their product is rounded once
      have hone₁ := (one_le_lowest hk₁).trans hlow₁
      have hone₂ := (one_le_lowest hk₂).trans hlow₂
      have hlow : lowest n₁ k₁ * lowest n₂ k₂ ≤ magnitude x * magnitude y :=
        mul_le_mul hlow₁ hlow₂ (lowest_pos n₂ k₂).le (by positivity)
      have hhigh : magnitude x * magnitude y ≤ highest n₁ k₁ * highest n₂ k₂ :=
        mul_le_mul hhigh₁ hhigh₂ (by positivity) (by positivity)
      have happrox := approximates_mul hfinite₁ hfinite₂
      unfold Approximates at happrox
      rw [tolerance_of_one_le (one_le_mul_of_one_le_of_one_le hone₁ hone₂)] at happrox
      unfold NearPower
      rw [← lowest_mul, ← highest_mul]
      generalize magnitude x * magnitude y = v at *
      rcases happrox with ⟨hfinite, hclose⟩ | ⟨hinfinite, hbeyond⟩
      · obtain ⟨hbelow, habove⟩ := abs_le.mp hclose
        refine .inl ⟨hfinite, ?_, ?_⟩
        · linarith
        · linarith
      · refine .inr ⟨hinfinite, ?_⟩
        linarith
    · -- an infinite factor makes the product infinite, and what it stands for is beyond the bound
      have hnonzero : NonZero x := NearPower.nonZero (.inl ⟨hfinite₁, hlow₁, hhigh₁⟩)
      refine .inr ⟨isInf_mul_right hnonzero hinfinite₂, ?_⟩
      exact hhigh₂.trans ((le_mul_of_one_le_left (by positivity) hbound₁).trans hlarge)
  · refine .inr ⟨isInf_mul_left hinfinite₁ hy.nonZero, ?_⟩
    exact hhigh₁.trans ((le_mul_of_one_le_right (by positivity) hbound₂).trans hlarge)

/-- **Repeated squaring** takes a power with as many roundings as the exponent has units, at most.
The base is a power that has been squared from ten, which takes a rounding less. -/
theorem nearPower_powerLoop {fuel i b : Nat} {acc base : Float} (hfuel : n < fuel)
    (hacc : NearPower i i acc) (hbase : NearPower b (b - 1) base) (hb : 0 < b) :
    NearPower (i + b * n) (i + b * n) (powerLoop fuel acc base n) := by
  induction fuel generalizing n i b acc base with
  | zero => omega
  | succ fuel ih =>
    unfold powerLoop
    -- the last bit of the exponent
    have hstep : NearPower (i + b * (n % 2)) (i + b * (n % 2))
        (if n % 2 = 1 then acc * base else acc) := by
      rcases Nat.mod_two_eq_zero_or_one n with heven | hodd
      · rw [heven, if_neg (by decide), mul_zero, add_zero]
        exact hacc
      · rw [hodd, if_pos rfl, mul_one]
        have hproduct := hacc.mul hbase le_rfl (Nat.sub_le b 1)
        rwa [show i + (b - 1) + 1 = i + b by omega] at hproduct
    dsimp only
    by_cases hlast : n / 2 = 0
    · have hbit : n % 2 = n := by omega
      rw [if_pos hlast]
      rw [hbit] at hstep ⊢
      exact hstep
    · rw [if_neg hlast]
      -- the other bits, with the squared base
      have hsquare := hbase.mul hbase (Nat.sub_le b 1) (Nat.sub_le b 1)
      rw [show b - 1 + (b - 1) + 1 = b + b - 1 by omega] at hsquare
      have hrest := ih (n := n / 2) (by omega) hstep hsquare (by omega)
      have hsplit : i + b * (n % 2) + (b + b) * (n / 2) = i + b * n := by
        conv_rhs => rw [← Nat.div_add_mod n 2]
        ring
      rwa [hsplit] at hrest

theorem nearPower_zero : NearPower 0 0 1 := by
  refine .inl ⟨isFinite_of_unpack unpack_one, ?_, ?_⟩
  · rw [magnitude_one, lowest, pow_zero, pow_zero, one_mul]
  · rw [magnitude_one]
    exact one_le_highest 0 0

theorem unpack_ten : (10 : Float).toModel.unpack = ofParts .positive (5 * 2 ^ 50) (-49) := rfl

theorem nearPower_one : NearPower 1 0 10 := by
  have hvalue : magnitude 10 = 10 := by
    rw [magnitude_of_unpack unpack_ten]
    norm_num
  refine .inl ⟨isFinite_of_unpack unpack_ten, ?_, ?_⟩
  · rw [hvalue, lowest, pow_zero, pow_one, mul_one]
  · rw [hvalue, highest, pow_zero, pow_one, mul_one]

theorem power_natCast (base : Float) (n : Nat) : power base n = powerLoop (n + 1) 1 base n := by
  unfold power
  dsimp only
  rw [if_neg (not_lt.mpr (Int.natCast_nonneg n)), Int.natAbs_natCast]

/-- A negative power is the reciprocal of the positive one. -/
theorem power_neg (base : Float) (hn : 0 < n) : power base (-n) = 1 / power base n := by
  rw [power_natCast]
  unfold power
  dsimp only
  rw [if_pos (by omega), Int.natAbs_neg, Int.natAbs_natCast]

/-- **A power of ten** has no more roundings than digits. -/
theorem nearPower_power (n : Nat) : NearPower n n (power 10 n) := by
  have hloop := nearPower_powerLoop (Nat.lt_succ_self n) nearPower_zero nearPower_one Nat.one_pos
  rwa [Nat.zero_add, Nat.one_mul, ← power_natCast] at hloop

/-! ## Which powers are finite -/

theorem highest_lt (h : n ≤ 308) : highest n n < 2 ^ (1024 : Int) := by
  have hquarter : (10 * (1 + 1 / 2 ^ 53)) ^ 77 < (2 : ℚ) ^ 256 := by norm_num
  calc highest n n = (10 * (1 + 1 / 2 ^ 53)) ^ n := (mul_pow _ _ n).symm
    _ ≤ (10 * (1 + 1 / 2 ^ 53)) ^ (77 * 4) := pow_le_pow_right₀ (by norm_num) h
    _ = ((10 * (1 + 1 / 2 ^ 53)) ^ 77) ^ 4 := pow_mul _ 77 4
    _ < ((2 : ℚ) ^ 256) ^ 4 := pow_lt_pow_left₀ hquarter (by positivity) (by decide)
    _ = 2 ^ (1024 : Int) := by rw [← pow_mul, ← zpow_natCast]; norm_num

theorem lt_lowest (h : 309 ≤ n) : (2 : ℚ) ^ (1024 : Int) < lowest n n := by
  have hthird : ((2 : ℚ) ^ 171) ^ 2 ≤ (10 * (1 - 1 / 2 ^ 53)) ^ 103 := by norm_num
  calc (2 : ℚ) ^ (1024 : Int) < 2 ^ ((171 * 6 : Nat) : Int) :=
        zpow_lt_zpow_right₀ (by norm_num) (by norm_num)
    _ = (((2 : ℚ) ^ 171) ^ 2) ^ 3 := by rw [zpow_natCast, ← pow_mul, ← pow_mul]
    _ ≤ ((10 * (1 - 1 / 2 ^ 53)) ^ 103) ^ 3 := pow_le_pow_left₀ (by positivity) hthird 3
    _ = (10 * (1 - 1 / 2 ^ 53)) ^ (103 * 3) := (pow_mul _ 103 3).symm
    _ ≤ (10 * (1 - 1 / 2 ^ 53)) ^ n := pow_le_pow_right₀ (by norm_num) h
    _ = lowest n n := mul_pow _ _ n

/-- Powers of up to 308 are finite. -/
theorem power_isFinite (h : n ≤ 308) : (power 10 n).isFinite = true := by
  rcases nearPower_power n with ⟨hfinite, -, -⟩ | ⟨-, hlarge⟩
  · exact hfinite
  · exact absurd hlarge (not_le.mpr (highest_lt h))

/-- Larger powers are infinite. -/
theorem power_isInf (h : 309 ≤ n) : (power 10 n).isInf = true := by
  rcases nearPower_power n with ⟨-, hlow, -⟩ | ⟨hinfinite, -⟩
  · exact absurd ((lt_lowest h).trans_le hlow) (not_lt.mpr (magnitude_lt (power 10 n)).le)
  · exact hinfinite

theorem one_le_magnitude_power (h : n ≤ 308) : 1 ≤ magnitude (power 10 n) := by
  rcases nearPower_power n with ⟨-, hlow, -⟩ | ⟨-, hlarge⟩
  · exact (one_le_lowest le_rfl).trans hlow
  · exact absurd hlarge (not_le.mpr (highest_lt h))

/-! ## Reciprocals -/

/-- A reciprocal is not lost in the tolerance of its rounding. -/
theorem tolerance_inv_lt {v : ℚ} (hpos : 0 < v) (hlt : v < 2 ^ (1024 : Int)) :
    tolerance (1 / v) < 1 / v := by
  refine max_lt ?_ (div_lt_self (by positivity) (by norm_num))
  rw [lt_div_iff₀ hpos]
  calc (2 : ℚ) ^ (-1075 : Int) * v < 2 ^ (-1075 : Int) * 2 ^ (1024 : Int) :=
        mul_lt_mul_of_pos_left hlt (by positivity)
    _ ≤ 1 := by
        rw [← zpow_add₀ (by norm_num)]
        exact zpow_le_one_of_nonpos₀ (by norm_num) (by norm_num)

/-- The reciprocal of a finite power is not zero. -/
theorem nonZero_inv (hfinite : x.isFinite = true) (hone : 1 ≤ magnitude x) : NonZero (1 / x) := by
  have hpos : 0 < magnitude x := by linarith
  have happrox := approximates_div (isFinite_of_unpack unpack_one) hfinite hpos.ne'
  rw [magnitude_one] at happrox
  rcases happrox with ⟨hinv, hclose⟩ | ⟨hinv, -⟩
  · have htolerance := tolerance_inv_lt hpos (magnitude_lt x)
    have hbelow := (abs_le.mp hclose).1
    exact .inr ⟨hinv, by linarith⟩
  · exact .inl hinv

/-- The reciprocal of an infinite power is zero. -/
theorem unpack_inv_of_isInf (h : x.isInf = true) : ∃ sign, (1 / x).toModel.unpack = .zero sign := by
  obtain ⟨sign, hunpack⟩ := exists_unpack_infinity h
  refine ⟨.positive / sign, ?_⟩
  show (Float.Model.pack (.div .binary64 (1 : Float).toModel.unpack x.toModel.unpack)).unpack = _
  rw [hunpack]
  cases sign with
  | negative => rfl
  | positive => rfl

/-! ## Digits -/

/-- The digit counts that scale every number to zero. As signed words they are below zero by more
than the exponents of powers of ten that floats hold. -/
def TooCoarse (digits : UInt32) : Prop :=
  2147483648 ≤ digits.toNat ∧ digits.toNat ≤ 4294966987

instance : DecidablePred TooCoarse :=
  fun digits => inferInstanceAs
    (Decidable (2147483648 ≤ digits.toNat ∧ digits.toNat ≤ 4294966987))

theorem toInt_toInt32 (digits : UInt32) : digits.toInt32.toInt =
    if digits.toNat < 2147483648 then (digits.toNat : Int) else digits.toNat - 4294967296 := by
  show digits.toBitVec.toInt = _
  rw [BitVec.toInt_eq_toNat_cond]
  show (if 2 * digits.toNat < 2 ^ 32 then (digits.toNat : Int)
    else digits.toNat - (2 ^ 32 : Nat)) = _
  split_ifs <;> omega

/-- Counts below 2 ^ 31 scale up. -/
theorem digitFactor_of_lt {digits : UInt32} (h : digits.toNat < 2147483648) :
    digitFactor digits = power 10 digits.toNat := by
  rw [digitFactor, toInt_toInt32, if_pos h]

/-- Other counts scale down. -/
theorem digitFactor_of_ge {digits : UInt32} (h : 2147483648 ≤ digits.toNat) :
    digitFactor digits = 1 / power 10 (4294967296 - digits.toNat : Nat) := by
  have hlt : digits.toNat < 4294967296 := digits.toNat_lt
  have hneg : (digits.toNat : Int) - 4294967296 = -(4294967296 - digits.toNat : Nat) := by omega
  rw [digitFactor, toInt_toInt32, if_neg (not_lt.mpr h), hneg, power_neg 10 (by omega)]

/-- **The factor that scales** is zero exactly if the digit count is too coarse. -/
theorem digitFactor_cases (digits : UInt32) :
    (TooCoarse digits ∧ ∃ sign, (digitFactor digits).toModel.unpack = .zero sign) ∨
      (¬ TooCoarse digits ∧ NonZero (digitFactor digits)) := by
  have hlt : digits.toNat < 4294967296 := digits.toNat_lt
  -- from two to the thirty-first power on the number of digits wraps around to a negative one
  by_cases hup : digits.toNat < 2147483648
  · right
    rw [digitFactor_of_lt hup]
    exact ⟨fun hcoarse => absurd hup (not_lt.mpr hcoarse.1), (nearPower_power _).nonZero⟩
  · rw [digitFactor_of_ge (not_lt.mp hup)]
    by_cases hcoarse : TooCoarse digits
    · have hle := hcoarse.2
      exact .inl ⟨hcoarse, unpack_inv_of_isInf (power_isInf (by omega))⟩
    · have hsmall : 4294967296 - digits.toNat ≤ 308 := by
        unfold TooCoarse at hcoarse
        omega
      exact .inr ⟨hcoarse, nonZero_inv (power_isFinite hsmall) (one_le_magnitude_power hsmall)⟩

end Binary64

end ColumnMask
