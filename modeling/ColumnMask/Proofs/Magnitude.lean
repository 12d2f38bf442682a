import Mathlib
import ColumnMask.Proofs.RoundingError

/-!
# Magnitudes of floats

A finite float is a number with a sign. What an operation on such floats gives is the exact result,
rounded. It is infinite only if the exact result is beyond the largest float.

- `Binary64.magnitude`: the number that a finite float is, without its sign.
- `Binary64.Approximates`: a float is a magnitude, rounded.
- `Binary64.StandsFor.approximates`: what a rounding gives.
- `Binary64.approximates_sub`, `Binary64.approximates_mul`, `Binary64.approximates_div`: what
  operations give.
-/

namespace ColumnMask

namespace Binary64

open Float.Model Float.Model.UnpackedFloat

variable {num den m : Nat} {e : Int} {acc : Accuracy}

/-! ## Magnitudes -/

/-- The number that a finite float is, without its sign. -/
def magnitude (x : Float) : ℚ :=
  match x.toModel.unpack with
  | .finite _ m e _ => m * 2 ^ e
  | _ => 0

variable {x y : Float} {v : ℚ} {sign : Sign}

/-- What is unpacked from a finite float. -/
theorem exists_unpack_eq (h : x.isFinite = true) :
    ∃ sign m e, x.toModel.unpack = ofParts sign m e ∧ Canonical m e ∧ e ≤ 971 ∧
      magnitude x = m * 2 ^ e := by
  unfold Float.isFinite Float.Model.isFinite at h
  unfold magnitude
  -- zero is given the least exponent; the other finite numbers have their own parts
  cases hunpack : x.toModel.unpack with
  | notANumber =>
    rw [hunpack] at h
    contradiction
  | infinity sign =>
    rw [hunpack] at h
    contradiction
  | zero sign => exact ⟨sign, 0, -1074, rfl, ⟨by decide, le_rfl, .inr rfl⟩, by decide, by simp⟩
  | finite sign m e hm =>
    obtain ⟨hcanonical, he⟩ := canonical_of_unpack hunpack
    exact ⟨sign, m, e, (ofParts_of_pos sign hm e).symm, hcanonical, he, rfl⟩

theorem isFinite_of_unpack (h : x.toModel.unpack = ofParts sign m e) : x.isFinite = true := by
  unfold Float.isFinite Float.Model.isFinite
  rw [h]
  unfold ofParts
  split <;> rfl

theorem magnitude_of_unpack (h : x.toModel.unpack = ofParts sign m e) :
    magnitude x = m * 2 ^ e := by
  unfold magnitude
  rw [h]
  rcases Nat.eq_zero_or_pos m with rfl | hm
  · rw [ofParts_zero, Nat.cast_zero, zero_mul]
  · rw [ofParts_of_pos sign hm]

theorem isInf_of_unpack (h : x.toModel.unpack = .infinity sign) : x.isInf = true := by
  unfold Float.isInf Float.Model.isInf
  rw [h]
  rfl

theorem exists_unpack_infinity (h : x.isInf = true) :
    ∃ sign, x.toModel.unpack = .infinity sign := by
  change x.toModel.unpack.isInf = true at h
  generalize x.toModel.unpack = u at h ⊢
  cases u with
  | infinity sign => exact ⟨sign, rfl⟩
  | notANumber => contradiction
  | zero sign => contradiction
  | finite sign m e hm => contradiction

/-- What is unpacked from a finite float that is not zero. -/
theorem exists_unpack_finite (h : x.isFinite = true) (hne : magnitude x ≠ 0) :
    ∃ sign m e hm, x.toModel.unpack = .finite sign m e hm := by
  obtain ⟨sign, m, e, hunpack, -, -, hvalue⟩ := exists_unpack_eq h
  have hm : 0 < m := by
    refine Nat.pos_of_ne_zero ?_
    rintro rfl
    simp [hvalue] at hne
  exact ⟨sign, m, e, hm, hunpack.trans (ofParts_of_pos sign hm e)⟩

theorem magnitude_nonneg (x : Float) : 0 ≤ magnitude x := by
  unfold magnitude
  split
  · positivity
  · exact le_rfl

/-- The largest number that a finite float is. -/
theorem magnitude_le (x : Float) : magnitude x ≤ (2 ^ 53 - 1) * 2 ^ (971 : Int) := by
  unfold magnitude
  split
  · rename_i sign m e hm hunpack
    obtain ⟨⟨hlt, -, -⟩, he⟩ := canonical_of_unpack hunpack
    have hmantissa : (m : ℚ) ≤ 2 ^ 53 - 1 := by
      have : ((m + 1 : Nat) : ℚ) ≤ (2 ^ 53 : Nat) := by exact_mod_cast hlt
      push_cast at this
      linarith
    exact mul_le_mul hmantissa (zpow_le_zpow_right₀ (by norm_num) he) (by positivity)
      (by norm_num)
  · positivity

theorem magnitude_lt (x : Float) : magnitude x < 2 ^ (1024 : Int) := by
  have hpower : (0 : ℚ) < 2 ^ (971 : Int) := by positivity
  calc magnitude x ≤ (2 ^ 53 - 1) * 2 ^ (971 : Int) := magnitude_le x
    _ < 2 ^ 53 * 2 ^ (971 : Int) := mul_lt_mul_of_pos_right (by norm_num) hpower
    _ = 2 ^ (1024 : Int) := by
        rw [← zpow_natCast, ← zpow_add₀ (by norm_num)]
        norm_num

/-! ## Roundings as floats -/

/-- The float is the magnitude rounded: it is close, or the magnitude is too large for a float. -/
def Approximates (x : Float) (v : ℚ) : Prop :=
  x.isFinite = true ∧ |magnitude x - v| ≤ tolerance v ∨
    x.isInf = true ∧ 2 ^ (1024 : Int) ≤ v + tolerance v

/-- A canonical number, packed: it is kept, or it is too large for a float. -/
theorem unpack_pack_ofParts (h : Canonical m e) (he : e ≤ 971) (sign : Sign) :
    (Float.Model.pack (ofParts sign m e)).unpack = ofParts sign m e := by
  rcases Nat.eq_zero_or_pos m with rfl | hm
  · rw [ofParts_zero]
    cases sign with
    | negative => rfl
    | positive => rfl
  · rw [ofParts_of_pos sign hm, unpack_pack hm h he]

/-- **What a rounding gives**: a float that is close to the fraction, or an infinity. -/
theorem StandsFor.unpack_cases (hden : 0 < den) (h : StandsFor num den m e acc) (sign : Sign) :
    (∃ m' e', (Float.Model.pack (roundWithAccuracy .binary64 sign m e acc)).unpack =
        ofParts sign m' e' ∧ Canonical m' e' ∧ e' ≤ 971 ∧
        |(m' : ℚ) * 2 ^ e' - num / den| ≤ tolerance (num / den)) ∨
      (Float.Model.pack (roundWithAccuracy .binary64 sign m e acc)).unpack = .infinity sign ∧
        2 ^ (1024 : Int) ≤ num / den + tolerance (num / den) := by
  obtain ⟨m', e', heq, hcanonical, herror⟩ := h.exists_round_eq hden sign
  rw [heq]
  -- an exponent that is too large means an infinity
  rcases le_or_gt e' 971 with hle | hlarge
  · exact .inl ⟨m', e', unpack_pack_ofParts hcanonical hle sign, hcanonical, hle, herror⟩
  · have hwidth : 2 ^ 52 ≤ m' := hcanonical.full.resolve_right (by omega)
    have hcast : (2 : ℚ) ^ 52 ≤ m' := by exact_mod_cast hwidth
    have hclose := (abs_le.mp herror).2
    refine .inr ⟨by rw [ofParts_of_pos sign (by omega), unpack_pack_of_lt _ hlarge], ?_⟩
    -- a full mantissa at that exponent is beyond all finite numbers
    calc (2 : ℚ) ^ (1024 : Int) = 2 ^ 52 * 2 ^ (972 : Int) := by
          rw [← zpow_natCast, ← zpow_add₀ (by norm_num)]
          norm_num
      _ ≤ m' * 2 ^ e' := mul_le_mul hcast (zpow_le_zpow_right₀ (by norm_num) hlarge)
          (by positivity) (by positivity)
      _ ≤ num / den + tolerance (num / den) := by linarith

/-- What a rounding gives approximates the fraction. -/
theorem StandsFor.approximates (hden : 0 < den) (h : StandsFor num den m e acc) (sign : Sign) :
    Approximates (.ofModel (.pack (roundWithAccuracy .binary64 sign m e acc))) (num / den) := by
  rcases h.unpack_cases hden sign with ⟨m', e', hunpack, -, -, herror⟩ | ⟨hunpack, hlarge⟩
  · rw [← magnitude_of_unpack hunpack] at herror
    exact .inl ⟨isFinite_of_unpack hunpack, herror⟩
  · exact .inr ⟨isInf_of_unpack hunpack, hlarge⟩

/-- An exact number is approximated if no bits of it are missing. -/
theorem approximates_exact (hfine : e ≤ target m e) (sign : Sign) :
    Approximates (.ofModel (.pack (roundWithAccuracy .binary64 sign m e .exact))) (m * 2 ^ e) := by
  have hstands : StandsFor (m * 2 ^ e.toNat) (2 ^ (-e).toNat) m e .exact := by
    refine standsFor_of_fine (by positivity) ?_ hfine
    push_cast
    rw [mul_assoc, mul_comm (2 ^ (-e).toNat), two_zpow]
  have hvalue : ((m * 2 ^ e.toNat : Nat) : ℚ) / (2 ^ (-e).toNat : Nat) = m * 2 ^ e := by
    push_cast
    rw [← two_zpow e, ← mul_assoc, mul_div_cancel_right₀ _ (by positivity)]
  rw [← hvalue]
  exact hstands.approximates (by positivity) sign

/-- A magnitude that is not larger than all floats is approximated by a finite one. -/
theorem Approximates.isFinite (h : Approximates x v) (hle : v ≤ (2 ^ 53 - 1) * 2 ^ (971 : Int)) :
    x.isFinite = true := by
  rcases h with ⟨hfinite, -⟩ | ⟨-, hlarge⟩
  · exact hfinite
  · -- the largest finite number and its tolerance do not reach the first power that is out of range
    exfalso
    have hpower : (0 : ℚ) < 2 ^ (971 : Int) := by positivity
    have hleast : (2 : ℚ) ^ (-1075 : Int) < 2 ^ (971 : Int) :=
      zpow_lt_zpow_right₀ (by norm_num) (by norm_num)
    have htop : (2 : ℚ) ^ (1024 : Int) = 2 ^ 53 * 2 ^ (971 : Int) := by
      rw [← zpow_natCast, ← zpow_add₀ (by norm_num)]
      norm_num
    rw [htop, tolerance] at hlarge
    generalize (2 : ℚ) ^ (971 : Int) = place at *
    have htolerance : max (2 ^ (-1075 : Int)) (v / 2 ^ 53) < place := by
      refine max_lt hleast ?_
      rw [div_lt_iff₀ (by positivity)]
      linarith only [hle, hpower]
    linarith only [hle, hlarge, htolerance]

/-- A canonical number approximates itself. -/
theorem approximates_self (h : Canonical m e) (he : e ≤ 971) (sign : Sign) :
    Approximates (.ofModel (.pack (ofParts sign m e))) (m * 2 ^ e) := by
  generalize hx : Float.ofModel (.pack (ofParts sign m e)) = x
  have hunpack : x.toModel.unpack = ofParts sign m e := hx ▸ unpack_pack_ofParts h he sign
  refine .inl ⟨isFinite_of_unpack hunpack, ?_⟩
  rw [magnitude_of_unpack hunpack, sub_self, abs_zero, tolerance]
  exact le_max_of_le_left (by positivity)

theorem approximates_zero (sign : Sign) : Approximates (.ofModel (.pack (.zero sign))) 0 := by
  have hcanonical : Canonical 0 (-1074) := ⟨by decide, le_rfl, .inr rfl⟩
  have hself := approximates_self hcanonical (by decide) sign
  rwa [ofParts_zero, Nat.cast_zero, zero_mul] at hself

/-- The parts of a float approximate it with either sign. -/
theorem approximates_of_unpack (h : x.toModel.unpack = ofParts sign m e) (sign' : Sign) :
    Approximates (.ofModel (.pack (ofParts sign' m e))) (m * 2 ^ e) := by
  rcases Nat.eq_zero_or_pos m with rfl | hm
  · rw [ofParts_zero, Nat.cast_zero, zero_mul]
    exact approximates_zero sign'
  · obtain ⟨hcanonical, he⟩ := canonical_of_unpack (h.trans (ofParts_of_pos sign hm e))
    exact approximates_self hcanonical he sign'

/-! ## Differences -/

theorem log_shiftLeft (hm : 0 < m) (k : Nat) : Nat.log 2 (m <<< k) = Nat.log 2 m + k := by
  induction k with
  | zero => rfl
  | succ k ih =>
    have hpos : m <<< k ≠ 0 := by rw [Nat.shiftLeft_eq]; positivity
    rw [Nat.shiftLeft_succ, Nat.mul_comm, Nat.log_mul_base (by decide) hpos, ih, Nat.add_assoc]

theorem shiftLeft_mul_zpow (m k : Nat) (e : Int) :
    ((m <<< k : Nat) : ℚ) * 2 ^ (e - k) = m * 2 ^ e := by
  rw [Nat.shiftLeft_eq, zpow_sub₀ (by norm_num), zpow_natCast]
  push_cast
  field_simp

theorem approximates_round (hm : 0 < m) (e : Int) (sign : Sign) :
    Approximates (.ofModel (.pack (UnpackedFloat.round .binary64 sign m e))) (m * 2 ^ e) := by
  obtain ⟨k, hk⟩ : ∃ k : Nat, (e - target m e).toNat = k := ⟨_, rfl⟩
  have hround : UnpackedFloat.round .binary64 sign m e =
      roundWithAccuracy .binary64 sign (m <<< k) (e - k) .exact := by
    rw [← hk]
    rfl
  have hfine : e - k ≤ target (m <<< k) (e - k) := by
    rw [target_eq] at hk ⊢
    rw [log_shiftLeft hm]
    omega
  rw [hround, ← shiftLeft_mul_zpow m k e]
  exact approximates_exact hfine sign

/-- What a sum or a difference is before it is rounded. -/
theorem approximates_normalize (n e : Int) (sign : Sign) :
    Approximates (.ofModel (.pack (UnpackedFloat.normalize .binary64 n e sign)))
      (n.natAbs * 2 ^ e) := by
  unfold UnpackedFloat.normalize
  rcases hcompare : compare n 0 with - | - | -
  · have hlt := Int.compare_eq_lt.mp hcompare
    rw [show n.natAbs = (-n).toNat by omega]
    exact approximates_round (by omega) e .negative
  · obtain rfl := Int.compare_eq_eq.mp hcompare
    rw [Int.natAbs_zero, Nat.cast_zero, zero_mul]
    exact approximates_zero sign
  · have hgt := Int.compare_eq_gt.mp hcompare
    rw [show n.natAbs = n.toNat by omega]
    exact approximates_round (by omega) e .positive

theorem sub_ofParts_zero (m : Nat) (e e' : Int) :
    UnpackedFloat.sub .binary64 (ofParts .positive m e) (ofParts .positive 0 e') =
      ofParts .positive m e := by
  unfold ofParts
  split <;> rfl

theorem zero_sub_ofParts (hm : 0 < m) (e e' : Int) :
    UnpackedFloat.sub .binary64 (ofParts .positive 0 e') (ofParts .positive m e) =
      ofParts .negative m e := by
  rw [ofParts_of_pos _ hm, ofParts_of_pos _ hm]
  rfl

/-- **A difference of floats that are not negative** approximates the difference of the numbers. -/
theorem approximates_sub {m₁ m₂ : Nat} {e₁ e₂ : Int}
    (hx : x.toModel.unpack = ofParts .positive m₁ e₁)
    (hy : y.toModel.unpack = ofParts .positive m₂ e₂) :
    Approximates (x - y) |magnitude x - magnitude y| := by
  have hsub : x - y = .ofModel (.pack (.sub .binary64 (ofParts .positive m₁ e₁)
      (ofParts .positive m₂ e₂))) := by
    rw [← hx, ← hy]
    rfl
  rw [hsub, magnitude_of_unpack hx, magnitude_of_unpack hy]
  -- with zero on one side nothing is rounded
  rcases Nat.eq_zero_or_pos m₂ with rfl | hpos₂
  · rw [sub_ofParts_zero, Nat.cast_zero, zero_mul, sub_zero, abs_of_nonneg (by positivity)]
    exact approximates_of_unpack hx .positive
  · rcases Nat.eq_zero_or_pos m₁ with rfl | hpos₁
    · rw [zero_sub_ofParts hpos₂, Nat.cast_zero, zero_mul, zero_sub, abs_neg,
        abs_of_nonneg (by positivity)]
      exact approximates_of_unpack hy .negative
    · -- otherwise both mantissas are shifted to the smaller exponent and subtracted
      obtain ⟨k₁, hk₁⟩ : ∃ k : Nat, (e₁ - min e₁ e₂).toNat = k := ⟨_, rfl⟩
      obtain ⟨k₂, hk₂⟩ : ∃ k : Nat, (e₂ - min e₁ e₂).toNat = k := ⟨_, rfl⟩
      have hnormalize : UnpackedFloat.sub .binary64 (.finite .positive m₁ e₁ hpos₁)
          (.finite .positive m₂ e₂ hpos₂) =
            UnpackedFloat.normalize .binary64 ((m₁ <<< k₁ : Nat) - (m₂ <<< k₂ : Nat))
              (min e₁ e₂) .positive := by
        rw [← hk₁, ← hk₂]
        rfl
      have hvalue : |(m₁ : ℚ) * 2 ^ e₁ - m₂ * 2 ^ e₂| =
          (((m₁ <<< k₁ : Nat) - (m₂ <<< k₂ : Nat) : Int).natAbs : ℚ) * 2 ^ min e₁ e₂ := by
        rw [← shiftLeft_mul_zpow m₁ k₁ e₁, ← shiftLeft_mul_zpow m₂ k₂ e₂,
          show e₁ - k₁ = min e₁ e₂ by omega, show e₂ - k₂ = min e₁ e₂ by omega, ← sub_mul,
          abs_mul, abs_of_pos (a := (2 : ℚ) ^ min e₁ e₂) (by positivity), Nat.cast_natAbs]
        push_cast
        rfl
      rw [ofParts_of_pos _ hpos₁, ofParts_of_pos _ hpos₂, hnormalize, hvalue]
      exact approximates_normalize _ _ .positive

/-- The unpacked one. -/
theorem unpack_one : (1 : Float).toModel.unpack = ofParts .positive (2 ^ 52) (-52) := rfl

theorem magnitude_one : magnitude 1 = 1 := by
  rw [magnitude_of_unpack unpack_one]
  norm_num

/-! ## Products and quotients -/

/-- The product of floats has as many bits as are needed for its rounding. -/
theorem Canonical.le_target_mul {m₁ m₂ : Nat} {e₁ e₂ : Int} (h₁ : Canonical m₁ e₁)
    (h₂ : Canonical m₂ e₂) (hpos₁ : 0 < m₁) (hpos₂ : 0 < m₂) :
    e₁ + e₂ ≤ target (m₁ * m₂) (e₁ + e₂) := by
  rw [target_eq]
  by_cases hwidth : 2 ^ 52 ≤ m₁ * m₂
  · have hlog := Nat.le_log_of_pow_le (by decide) hwidth
    omega
  · -- neither factor has full width
    have hle₁ : m₁ ≤ m₁ * m₂ := Nat.le_mul_of_pos_right m₁ hpos₂
    have hle₂ : m₂ ≤ m₁ * m₂ := Nat.le_mul_of_pos_left m₂ hpos₁
    have he₁ := h₁.full.resolve_left (by omega)
    have he₂ := h₂.full.resolve_left (by omega)
    omega

theorem zero_mul_ofParts (s₁ s₂ : Sign) (m : Nat) (e : Int) :
    UnpackedFloat.mul .binary64 (.zero s₁) (ofParts s₂ m e) = .zero (s₁ * s₂) := by
  unfold ofParts
  split <;> rfl

theorem ofParts_mul_zero (s₁ s₂ : Sign) (m : Nat) (e : Int) :
    UnpackedFloat.mul .binary64 (ofParts s₁ m e) (.zero s₂) = .zero (s₁ * s₂) := by
  unfold ofParts
  split <;> rfl

/-- **A product of finite floats** approximates the product of the numbers. -/
theorem approximates_mul (hx : x.isFinite = true) (hy : y.isFinite = true) :
    Approximates (x * y) (magnitude x * magnitude y) := by
  obtain ⟨s₁, m₁, e₁, hunpack₁, hcanonical₁, -, hvalue₁⟩ := exists_unpack_eq hx
  obtain ⟨s₂, m₂, e₂, hunpack₂, hcanonical₂, -, hvalue₂⟩ := exists_unpack_eq hy
  have hmul : x * y = .ofModel (.pack (.mul .binary64 (ofParts s₁ m₁ e₁) (ofParts s₂ m₂ e₂))) := by
    rw [← hunpack₁, ← hunpack₂]
    rfl
  rw [hmul, hvalue₁, hvalue₂]
  -- a factor of zero makes the product zero, without rounding
  rcases Nat.eq_zero_or_pos m₁ with rfl | hpos₁
  · rw [ofParts_zero, zero_mul_ofParts, Nat.cast_zero, zero_mul, zero_mul]
    exact approximates_zero (s₁ * s₂)
  · rcases Nat.eq_zero_or_pos m₂ with rfl | hpos₂
    · rw [ofParts_zero, ofParts_mul_zero, Nat.cast_zero, zero_mul, mul_zero]
      exact approximates_zero (s₁ * s₂)
    · -- otherwise the product of the mantissas is rounded once
      have hvalue : (m₁ : ℚ) * 2 ^ e₁ * (m₂ * 2 ^ e₂) = (m₁ * m₂ : Nat) * 2 ^ (e₁ + e₂) := by
        rw [zpow_add₀ (by norm_num)]
        push_cast
        ring
      rw [ofParts_of_pos s₁ hpos₁, ofParts_of_pos s₂ hpos₂, hvalue]
      exact approximates_exact (hcanonical₁.le_target_mul hcanonical₂ hpos₁ hpos₂) (s₁ * s₂)

/-- **A quotient of finite floats** approximates the quotient of the numbers. -/
theorem approximates_div (hx : x.isFinite = true) (hy : y.isFinite = true)
    (hne : magnitude y ≠ 0) : Approximates (x / y) (magnitude x / magnitude y) := by
  obtain ⟨s₁, m₁, e₁, hunpack₁, -, -, hvalue₁⟩ := exists_unpack_eq hx
  obtain ⟨s₂, m₂, e₂, hunpack₂, -, -, hvalue₂⟩ := exists_unpack_eq hy
  have hdiv : x / y = .ofModel (.pack (.div .binary64 (ofParts s₁ m₁ e₁) (ofParts s₂ m₂ e₂))) := by
    rw [← hunpack₁, ← hunpack₂]
    rfl
  have hpos₂ : 0 < m₂ := by
    refine Nat.pos_of_ne_zero ?_
    rintro rfl
    simp [hvalue₂] at hne
  rw [hdiv, hvalue₁, hvalue₂, ofParts_of_pos s₂ hpos₂]
  rcases Nat.eq_zero_or_pos m₁ with rfl | hpos₁
  · rw [ofParts_zero, Nat.cast_zero, zero_mul, zero_div]
    exact approximates_zero (s₁ / s₂)
  · rw [ofParts_of_pos s₁ hpos₁]
    have hsplit : (2 : ℚ) ^ e₁ = 2 ^ (e₁ - e₂) * 2 ^ e₂ := by
      rw [← zpow_add₀ (by norm_num), sub_add_cancel]
    -- the quotient of the mantissas at the difference of the exponents
    have hfraction : (m₁ : ℚ) * (m₂ * 2 ^ (-(e₁ - e₂)).toNat : Nat) * 2 ^ e₁ =
        (m₁ * 2 ^ (e₁ - e₂).toNat : Nat) * m₂ * 2 ^ e₂ := by
      push_cast
      rw [← two_zpow (e₁ - e₂), hsplit]
      ring
    have hstands := standsFor_divCore (by positivity) hpos₁ hpos₂ e₁ e₂ hfraction
    have hvalue : ((m₁ * 2 ^ (e₁ - e₂).toNat : Nat) : ℚ) / (m₂ * 2 ^ (-(e₁ - e₂)).toNat : Nat) =
        m₁ * 2 ^ e₁ / (m₂ * 2 ^ e₂) := by
      push_cast
      rw [← two_zpow (e₁ - e₂), hsplit]
      field_simp
    rw [← hvalue]
    exact hstands.approximates (by positivity) (s₁ / s₂)

end Binary64

end ColumnMask
