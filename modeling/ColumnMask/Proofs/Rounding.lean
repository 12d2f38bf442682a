import Mathlib
import ColumnMask.Binary64

/-!
# Rounding to floats

A product or quotient of floats is first cut to a mantissa with two residual bits, which is then
rounded. What the bits are, and so the result, depends on the exact product or quotient alone and
not on the exponent at which it was cut.

- `Binary64.residue`, `Binary64.cut`: the mantissa of a fraction with its residual bits.
- `Binary64.StandsFor`: what is about to be rounded has the residue of a fraction;
  `Binary64.StandsFor.round_congr`: the fraction alone decides what comes of it.
- `Binary64.standsFor_exact`, `Binary64.standsFor_divCore`: products and quotients.
- `Binary64.Canonical`: a mantissa and an exponent as floats hold them; `Binary64.unpack_pack`: such
  numbers are unpacked as they were packed.
- `Binary64.isWhole_toFloat`: whole numbers that are floats.
- `Binary64.isRounded_ofScientific_mul`, `Binary64.isRounded_ofScientific_div`: decimal numbers.
-/

namespace ColumnMask

namespace Binary64

open Float.Model Float.Model.UnpackedFloat

/-! ## Residual bits -/

/-- The whole part of a fraction; whether half of one is reached after it, and whether anything is
left below the half. -/
def residue (num den : Nat) : ExtendedMantissa :=
  ⟨num / den, decide (den ≤ 2 * (num % den)), decide (2 * num % den ≠ 0)⟩

theorem residue_mul_mul {k : Nat} (hk : 0 < k) (num den : Nat) :
    residue (k * num) (k * den) = residue num den := by
  unfold residue
  rw [Nat.mul_div_mul_left _ _ hk, Nat.mul_mod_mul_left, Nat.mul_left_comm 2 k num,
    Nat.mul_mod_mul_left, Nat.mul_left_comm 2 k]
  simp [hk, Nat.ne_of_gt hk]

/-- Equal fractions have the same residue. -/
theorem residue_congr {num den num' den' : Nat} (hden : 0 < den) (hden' : 0 < den')
    (h : num * den' = num' * den) : residue num den = residue num' den' := by
  rw [← residue_mul_mul hden' num den, ← residue_mul_mul hden num' den', Nat.mul_comm den' num, h,
    Nat.mul_comm num' den, Nat.mul_comm den' den]

/-- Something is left below the half unless the remainder is nothing or the half itself. -/
theorem two_mul_mod_eq_zero_iff (num : Nat) {den : Nat} (hden : 0 < den) :
    2 * num % den = 0 ↔ num % den = 0 ∨ 2 * (num % den) = den := by
  have hr := Nat.mod_lt num hden
  rw [← Nat.mul_mod_mod]
  generalize num % den = r at hr ⊢
  constructor
  · intro hzero
    -- twice the remainder may have gone once around the divisor
    rcases Nat.lt_or_ge (2 * r) den with hlt | hge
    · rw [Nat.mod_eq_of_lt hlt] at hzero
      omega
    · rw [Nat.mod_eq_sub_mod hge, Nat.mod_eq_of_lt (by omega)] at hzero
      omega
  · rintro (rfl | heq)
    · simp
    · rw [heq, Nat.mod_self]

/-- Cutting off a bit halves the fraction. -/
theorem shiftRightOne_residue (num : Nat) {den : Nat} (hden : 0 < den) :
    (residue num den).shiftRightOne = residue num (2 * den) := by
  have hr := Nat.mod_lt num hden
  have hsticky := two_mul_mod_eq_zero_iff num hden
  have hmod : num % (2 * den) = num % den + den * (num / den % 2) := by
    rw [Nat.mul_comm, Nat.mod_mul]
  have hdiv : num / (2 * den) = num / den / 2 := by
    rw [Nat.mul_comm, Nat.div_div_eq_div_mul]
  unfold residue ExtendedMantissa.shiftRightOne
  rw [hdiv, hmod, Nat.mul_mod_mul_left]
  generalize num % den = r at hr hsticky
  generalize 2 * num % den = below at hsticky
  congr 1
  · -- the bit that is shifted out is the new half
    rcases Nat.mod_two_eq_zero_or_one (num / den) with h | h <;> simp [h]
    omega
  · -- something is left below it if it was left at the half or below that
    rw [Bool.eq_iff_iff]
    simp only [Bool.or_eq_true, decide_eq_true_eq, ne_eq, hsticky]
    omega

theorem residue_shiftRight (num : Nat) {den : Nat} (hden : 0 < den) (n : Nat) :
    residue num den >>> n = residue num (2 ^ n * den) := by
  -- on the bits that are cut off, the last one after the others
  induction n with
  | zero => rw [pow_zero, one_mul]; rfl
  | succ n ih =>
    show (residue num den >>> n).shiftRightOne = _
    rw [ih, shiftRightOne_residue num (by positivity), ← mul_assoc, pow_succ, Nat.mul_comm 2]

theorem ofMantissaAndAccuracy_exact (m : Nat) :
    ExtendedMantissa.ofMantissaAndAccuracy m .exact = residue m 1 := by
  simp [ExtendedMantissa.ofMantissaAndAccuracy, residue, Nat.mod_one]

theorem ofMantissaAndAccuracy_fraction (num : Nat) {den : Nat} (hden : 0 < den) :
    ExtendedMantissa.ofMantissaAndAccuracy (num / den) (accuracyOfFraction (num % den) den) =
      residue num den := by
  have hr := Nat.mod_lt num hden
  have hsticky := two_mul_mod_eq_zero_iff num hden
  unfold residue accuracyOfFraction
  generalize num % den = r at hr hsticky ⊢
  generalize 2 * num % den = below at hsticky ⊢
  -- nothing is left over, or it is less than a half, a half or more
  by_cases hzero : r = 0
  · have hbelow := hsticky.mpr (.inl hzero)
    simp [hzero, hbelow, hden.ne', ExtendedMantissa.ofMantissaAndAccuracy]
  · rw [if_neg hzero]
    rcases hcompare : compare (2 * r) den with - | - | -
    · have hlt := Nat.compare_eq_lt.mp hcompare
      have hbelow : below ≠ 0 := by omega
      simp [ExtendedMantissa.ofMantissaAndAccuracy, hbelow, hlt]
    · have heq := Nat.compare_eq_eq.mp hcompare
      have hbelow : below = 0 := by omega
      simp [ExtendedMantissa.ofMantissaAndAccuracy, hbelow, heq]
    · have hgt := Nat.compare_eq_gt.mp hcompare
      have hbelow : below ≠ 0 := by omega
      simp [ExtendedMantissa.ofMantissaAndAccuracy, hbelow, hgt.le]

/-! ## Cutting at an exponent -/

/-- The residue of a fraction where it is cut at an exponent of two. -/
def cut (num den : Nat) (e : Int) : ExtendedMantissa :=
  residue (num * 2 ^ (-e).toNat) (den * 2 ^ e.toNat)

variable {num den num' den' m m' : Nat} {e e' : Int} {acc acc' : Accuracy}

theorem cut_congr (hden : 0 < den) (hden' : 0 < den') (h : num * den' = num' * den) (e : Int) :
    cut num den e = cut num' den' e := by
  refine residue_congr (by positivity) (by positivity) ?_
  rw [mul_mul_mul_comm, h, mul_mul_mul_comm]

theorem cut_shiftRight (num : Nat) (hden : 0 < den) (e : Int) (n : Nat) :
    cut num den e >>> n = cut num den (e + n) := by
  unfold cut
  rw [residue_shiftRight _ (by positivity)]
  refine residue_congr (by positivity) (by positivity) ?_
  have hexponents : (-e).toNat + (e + n).toNat = (-(e + n)).toNat + (n + e.toNat) := by omega
  calc num * 2 ^ (-e).toNat * (den * 2 ^ (e + n).toNat)
      = num * den * 2 ^ ((-e).toNat + (e + n).toNat) := by rw [pow_add]; ring
    _ = num * 2 ^ (-(e + n)).toNat * (2 ^ n * (den * 2 ^ e.toNat)) := by
      rw [hexponents, pow_add, pow_add]
      ring

theorem mantissa_shiftRight (em : ExtendedMantissa) (n : Nat) :
    (em >>> n).mantissa = em.mantissa / 2 ^ n := by
  induction n with
  | zero => rw [pow_zero, Nat.div_one]; rfl
  | succ n ih =>
    show (em >>> n).mantissa / 2 = _
    rw [ih, Nat.div_div_eq_div_mul, pow_succ]

theorem mantissa_ofMantissaAndAccuracy (m : Nat) (acc : Accuracy) :
    (ExtendedMantissa.ofMantissaAndAccuracy m acc).mantissa = m := by
  cases acc with
  | exact => rfl
  | inexact order => cases order <;> rfl

/-- The exponent at which a number is cut in the end. -/
def target (m : Nat) (e : Int) : Int := Format.binary64.targetExponent (totalExponent m e)

theorem target_eq (m : Nat) (e : Int) : target m e = max (Nat.log 2 m + e - 52) (-1074) := by
  simp only [target, Format.targetExponent, totalExponent, Format.mantissaBits, Format.minExponent,
    Nat.log2_eq_log_two]
  omega

/-- A mantissa that has been shifted is cut at the same exponent in the end, as long as that is not
below the exponent it was shifted to. -/
theorem target_div (m j : Nat) (hfine : e ≤ target (m / 2 ^ j) e) :
    target m (e - j) = target (m / 2 ^ j) e := by
  have hlog := Nat.log_div_base_pow 2 m j
  simp only [target_eq, hlog] at hfine ⊢
  rcases Nat.lt_or_ge (Nat.log 2 m) j with hlt | hge
  · -- nothing is left of the mantissa, so `e` is at most the least exponent there is
    omega
  · omega

/-- What is about to be rounded stands for a fraction: it has the residue of the fraction, and the
fraction has not been cut at too large an exponent. -/
structure StandsFor (num den m : Nat) (e : Int) (acc : Accuracy) : Prop where
  cut_eq : ExtendedMantissa.ofMantissaAndAccuracy m acc = cut num den e
  fine : e ≤ target m e

/-- Rounding after the fraction has been cut in the end. -/
def finish (sign : Sign) (em : ExtendedMantissa) (e : Int) : UnpackedFloat :=
  let (final, exponent) := shiftToTargetExponent .binary64 em.roundedMantissa e .exact
  if h : final.mantissa = 0 then .zero sign
  else .finite sign final.mantissa exponent (Nat.pos_of_ne_zero h)

theorem StandsFor.round_eq (hden : 0 < den) (h : StandsFor num den m e acc) (sign : Sign) :
    roundWithAccuracy .binary64 sign m e acc =
      finish sign (cut num den (target m e)) (target m e) := by
  have hfine := h.fine
  have hshift : e + (target m e - e).toNat = target m e := by omega
  show finish sign (ExtendedMantissa.ofMantissaAndAccuracy m acc >>> (target m e - e).toNat)
    (e + (target m e - e).toNat) = _
  rw [h.cut_eq, cut_shiftRight num hden, hshift]

/-- **Rounding depends on the fraction alone.** -/
theorem StandsFor.round_congr (hden : 0 < den) (h : StandsFor num den m e acc)
    (h' : StandsFor num den m' e' acc') (sign : Sign) :
    roundWithAccuracy .binary64 sign m e acc = roundWithAccuracy .binary64 sign m' e' acc' := by
  -- the mantissa at the smaller exponent is shifted to the one at the larger
  wlog hle : e' ≤ e generalizing m m' e e' acc acc'
  · exact (this h' h (by omega)).symm
  obtain ⟨j, rfl⟩ : ∃ j : Nat, e' = e - j := ⟨(e - e').toNat, by omega⟩
  have hshift : m' / 2 ^ j = m := by
    rw [← mantissa_ofMantissaAndAccuracy m acc, h.cut_eq, ← mantissa_ofMantissaAndAccuracy m' acc',
      h'.cut_eq, ← mantissa_shiftRight, cut_shiftRight num hden, sub_add_cancel]
  have htarget : target m' (e - j) = target m e := by
    have hfine := h.fine
    rw [← hshift] at hfine ⊢
    exact target_div m' j hfine
  rw [h.round_eq hden, h'.round_eq hden, htarget]

/-! ## Products and quotients -/

theorem two_zpow (e : Int) : (2 : ℚ) ^ e * 2 ^ (-e).toNat = 2 ^ e.toNat := by
  have hparts : e + ((-e).toNat : Int) = (e.toNat : Int) := by omega
  rw [← zpow_natCast, ← zpow_natCast, ← zpow_add₀ (by norm_num), hparts]

/-- A fraction is cut at an exponent by bringing it to that exponent. -/
theorem residue_eq_cut (hden : 0 < den) (hden' : 0 < den')
    (h : (num : ℚ) * den' * 2 ^ e = num' * den) : residue num den = cut num' den' e := by
  refine residue_congr hden (by positivity) ?_
  have hcast : ((num * (den' * 2 ^ e.toNat) : Nat) : ℚ) = (num' * 2 ^ (-e).toNat * den : Nat) := by
    push_cast
    rw [← two_zpow]
    linear_combination (2 : ℚ) ^ (-e).toNat * h
  exact_mod_cast hcast

/-- An exact number stands for itself if no bits of it are missing. -/
theorem standsFor_of_fine (hden : 0 < den) (h : (m : ℚ) * den * 2 ^ e = num)
    (hfine : e ≤ target m e) : StandsFor num den m e .exact where
  cut_eq := by
    rw [ofMantissaAndAccuracy_exact]
    exact residue_eq_cut Nat.one_pos hden (by simpa using h)
  fine := hfine

/-- An exact number of full width stands for itself. -/
theorem standsFor_exact (hden : 0 < den) (h : (m : ℚ) * den * 2 ^ e = num)
    (hwidth : 52 ≤ Nat.log 2 m) : StandsFor num den m e .exact :=
  standsFor_of_fine hden h (by rw [target_eq]; omega)

/-- The quotient of a shifted mantissa has as many bits as the exponents tell, or one less. -/
theorem log_shiftLeft_div {m₁ m₂ : Nat} (h₁ : 0 < m₁) (h₂ : 0 < m₂) (s : Nat) :
    Nat.log 2 m₁ + s - (Nat.log 2 m₂ + 1) ≤ Nat.log 2 (m₁ <<< s / m₂) := by
  rcases Nat.lt_or_ge (Nat.log 2 m₁ + s) (Nat.log 2 m₂ + 1) with hlt | hge
  · omega
  · obtain ⟨d, hd⟩ := Nat.exists_eq_add_of_le hge
    have hlow := Nat.pow_log_le_self 2 h₁.ne'
    have hhigh := Nat.lt_pow_succ_log_self (by decide : 1 < 2) m₂
    rw [hd, Nat.add_sub_cancel_left]
    refine Nat.le_log_of_pow_le (by decide) ((Nat.le_div_iff_mul_le h₂).mpr ?_)
    calc 2 ^ d * m₂ ≤ 2 ^ d * 2 ^ (Nat.log 2 m₂ + 1) := Nat.mul_le_mul_left _ hhigh.le
      _ = 2 ^ (Nat.log 2 m₁) * 2 ^ s := by rw [← pow_add, ← pow_add, hd, Nat.add_comm]
      _ ≤ m₁ <<< s := by
        rw [Nat.shiftLeft_eq]
        exact Nat.mul_le_mul_right _ hlow

/-- The quotient that is rounded stands for the fraction of the numbers. -/
theorem standsFor_divCore {m₁ m₂ : Nat} (hden : 0 < den) (h₁ : 0 < m₁) (h₂ : 0 < m₂) (e₁ e₂ : Int)
    (h : (m₁ : ℚ) * den * 2 ^ e₁ = num * m₂ * 2 ^ e₂) :
    StandsFor num den (divCore .binary64 m₁ e₁ m₂ e₂).1 (divCore .binary64 m₁ e₁ m₂ e₂).2.1
      (divCore .binary64 m₁ e₁ m₂ e₂).2.2 := by
  have htarget : Format.binary64.targetExponent (totalExponent m₁ e₁ - totalExponent m₂ e₂) =
      max (Nat.log 2 m₁ + e₁ - (Nat.log 2 m₂ + e₂) - 53) (-1074) := by
    simp only [Format.targetExponent, totalExponent, Format.mantissaBits, Format.minExponent,
      Nat.log2_eq_log_two]
    omega
  unfold divCore
  rw [htarget]
  dsimp only
  -- the shift may stop early, but not after the exponent of the target
  generalize ht : min (e₁ - e₂) (max (Nat.log 2 m₁ + e₁ - (Nat.log 2 m₂ + e₂) - 53) (-1074)) = t
  have hshift : ((e₁ - e₂ - t).toNat : Int) = e₁ - e₂ - t := by omega
  constructor
  · -- the shifted quotient is the fraction cut at exponent `t`
    rw [ofMantissaAndAccuracy_fraction _ h₂]
    refine residue_eq_cut h₂ hden ?_
    rw [Nat.shiftLeft_eq, Nat.cast_mul, Nat.cast_pow, Nat.cast_ofNat, ← zpow_natCast, hshift]
    have hsplit : (2 : ℚ) ^ (e₁ - e₂ - t) * 2 ^ t = 2 ^ e₁ / 2 ^ e₂ := by
      rw [← zpow_add₀ (by norm_num), sub_add_cancel, zpow_sub₀ (by norm_num)]
    have hne : (2 : ℚ) ^ e₂ ≠ 0 := zpow_ne_zero _ (by norm_num)
    calc (m₁ : ℚ) * 2 ^ (e₁ - e₂ - t) * den * 2 ^ t
        = m₁ * den * (2 ^ (e₁ - e₂ - t) * 2 ^ t) := by ring
      _ = m₁ * den * 2 ^ e₁ / 2 ^ e₂ := by rw [hsplit, mul_div_assoc]
      _ = num * m₂ := by rw [h, mul_div_assoc, div_self hne, mul_one]
  · -- the exponent leaves a bit to spare, for a quotient that has one less than the width
    have hlog := log_shiftLeft_div h₁ h₂ (e₁ - e₂ - t).toNat
    rw [target_eq]
    omega

/-! ## Packing -/

/-- A magnitude as floats hold it: of full width unless the exponent is the least one. -/
structure Canonical (m : Nat) (e : Int) : Prop where
  lt : m < 2 ^ 53
  le : -1074 ≤ e
  full : 2 ^ 52 ≤ m ∨ e = -1074

/-- The leading bit of a full mantissa is not kept. -/
theorem toNat_one_append (frac : BitVec 52) : (1#1 ++ frac).toNat = 2 ^ 52 + frac.toNat := by
  rw [BitVec.toNat_append, ← Nat.shiftLeft_add_eq_or_of_lt frac.isLt]
  rfl

theorem unpack_packComponents {sign : Sign} {biased : Nat} (frac : BitVec 52)
    (hpos : 0 < biased) (hbiased : biased < 2047) :
    UnpackedFloat.unpack .binary64 (packComponents .binary64 sign (BitVec.ofNat 11 biased) frac) =
      .finite sign (1#1 ++ frac).toNat (biased - 1075) (by rw [toNat_one_append]; omega) := by
  have hexponent : (BitVec.ofNat 11 biased).toNat = biased := by
    rw [BitVec.toNat_ofNat]
    omega
  -- neither zero nor the largest exponent, which stand for other numbers
  have hne {b : BitVec 11} (hb : b.toNat ≠ biased) : BitVec.ofNat 11 biased ≠ b := by
    rintro rfl
    exact hb hexponent
  unfold UnpackedFloat.unpack
  simp only [unpackExponent_packComponents, unpackMantissa_packComponents]
  rw [unpackSign_packComponents, Sign.ofBitVec_toBitVec, if_neg (hne _), if_neg (hne _)]
  · have hvalue : ((BitVec.ofNat 11 biased).toNat : Int) - (1023 + 52) = biased - 1075 := by
      rw [hexponent]
      omega
    congr 1
  · show (0 : Nat) ≠ _
    omega
  · show (2047 : Nat) ≠ _
    omega

theorem unpack_packComponents_zero {sign : Sign} {frac : BitVec 52} (hfrac : 0 < frac.toNat) :
    UnpackedFloat.unpack .binary64 (packComponents .binary64 sign 0#11 frac) =
      .finite sign frac.toNat (-1074) hfrac := by
  have hne : frac ≠ 0#52 := by
    rintro rfl
    exact absurd hfrac (by decide)
  unfold UnpackedFloat.unpack
  simp only [unpackExponent_packComponents, unpackMantissa_packComponents]
  rw [unpackSign_packComponents, Sign.ofBitVec_toBitVec, if_neg (by decide), if_pos trivial,
    dif_neg hne]
  rfl

/-- **Floats are unpacked as they were packed.** -/
theorem unpack_pack {sign : Sign} {m : Nat} {e : Int} (hm : 0 < m) (h : Canonical m e)
    (he : e ≤ 971) :
    (Float.Model.pack (.finite sign m e hm)).unpack = .finite sign m e hm := by
  obtain ⟨hlt, hle, hfull⟩ := h
  have hfits : ¬ 2 ^ 11 ≤ (e + 1023 + 52).toNat + 1 := by omega
  show UnpackedFloat.unpack .binary64 (UnpackedFloat.pack .binary64 _) = _
  by_cases hnormal : 2 ^ 52 ≤ m
  · -- a full mantissa, of which the first bit is not stored
    have hlog : m.log2 = 52 := (Nat.log2_eq_iff (by omega)).mpr ⟨hnormal, hlt⟩
    have hpack : UnpackedFloat.pack .binary64 (.finite sign m e hm) =
        packComponents .binary64 sign (BitVec.ofNat 11 (e + 1023 + 52).toNat)
          (BitVec.ofNat 52 m) := by
      unfold UnpackedFloat.pack
      rw [if_neg, if_pos]
      · rfl
      · rw [hlog]; rfl
      · exact hfits
    have hmantissa : (1#1 ++ BitVec.ofNat 52 m).toNat = m := by
      rw [toNat_one_append, BitVec.toNat_ofNat]
      omega
    rw [hpack, unpack_packComponents _ (by omega) (by omega)]
    congr 1
    omega
  · -- a short one at the least exponent, which is stored as zero
    obtain rfl : e = -1074 := by omega
    have hlog : m.log2 < 52 := (Nat.log2_lt hm.ne').mpr (by omega)
    have hmantissa : (BitVec.ofNat 52 m).toNat = m := by
      rw [BitVec.toNat_ofNat]
      omega
    have hpack : UnpackedFloat.pack .binary64 (.finite sign m (-1074) hm) =
        packComponents .binary64 sign 0#11 (BitVec.ofNat 52 m) := by
      unfold UnpackedFloat.pack
      rw [if_neg, if_neg]
      · show ¬ m.log2 + 1 = 53
        omega
      · exact hfits
    rw [hpack, unpack_packComponents_zero (by omega)]
    congr 1

/-- Numbers with a larger exponent are packed as an infinity. -/
theorem unpack_pack_of_lt {sign : Sign} {m : Nat} {e : Int} (hm : 0 < m) (he : 971 < e) :
    (Float.Model.pack (.finite sign m e hm)).unpack = .infinity sign := by
  have hpack : UnpackedFloat.pack .binary64 (.finite sign m e hm) =
      packedInfinity .binary64 sign := by
    unfold UnpackedFloat.pack
    rw [if_pos]
    show 2 ^ 11 ≤ (e + 1023 + 52).toNat + 1
    omega
  show UnpackedFloat.unpack .binary64 (UnpackedFloat.pack .binary64 _) = _
  rw [hpack]
  cases sign with
  | negative => rfl
  | positive => rfl

/-- What is unpacked is a magnitude as floats hold it. -/
theorem canonical_of_unpack {x : Float.Model} {sign : Sign} {m : Nat} {e : Int} {hm : 0 < m}
    (h : x.unpack = .finite sign m e hm) : Canonical m e ∧ e ≤ 971 := by
  have hbias : Format.binary64.exponentBias = 1023 := rfl
  unfold Float.Model.unpack UnpackedFloat.unpack at h
  dsimp only at h
  rw [hbias] at h
  split_ifs at h with hinfinite _ hsubnormal _
  · -- the stored exponent is zero
    obtain ⟨-, rfl, rfl⟩ := UnpackedFloat.finite.inj h
    have hfrac : (@unpackMantissa .binary64 x.toBits.toBitVec).toNat < 2 ^ 52 :=
      BitVec.isLt _
    have hexponent : (@unpackExponent .binary64 x.toBits.toBitVec).toNat = 0 :=
      congrArg BitVec.toNat hsubnormal
    exact ⟨⟨by omega, by omega, .inr (by omega)⟩, by omega⟩
  · -- any other exponent puts the first bit of the mantissa back
    obtain ⟨-, rfl, rfl⟩ := UnpackedFloat.finite.inj h
    have hexponent : (@unpackExponent .binary64 x.toBits.toBitVec).toNat < 2 ^ 11 :=
      BitVec.isLt _
    have hpos : (@unpackExponent .binary64 x.toBits.toBitVec).toNat ≠ 0 :=
      fun hzero => hsubnormal (BitVec.eq_of_toNat_eq hzero)
    have hlt : (@unpackExponent .binary64 x.toBits.toBitVec).toNat ≠ 2047 :=
      fun hones => hinfinite (BitVec.eq_of_toNat_eq hones)
    rw [toNat_one_append]
    exact ⟨⟨by omega, by omega, .inl (by omega)⟩, by omega⟩

/-! ## Whole numbers as floats -/

/-- A float of full width that is exactly a whole number. -/
def IsWhole : (x : UnpackedFloat) → (n : Nat) → Prop
  | .finite .positive m e _, n => 2 ^ 52 ≤ m ∧ m * 2 ^ e.toNat = n * 2 ^ (-e).toNat
  | _, _ => False

instance : (x : UnpackedFloat) → (n : Nat) → Decidable (IsWhole x n)
  | .finite .positive m e _, n =>
    inferInstanceAs (Decidable (2 ^ 52 ≤ m ∧ m * 2 ^ e.toNat = n * 2 ^ (-e).toNat))
  | .finite .negative _ _ _, _ => inferInstanceAs (Decidable False)
  | .infinity _, _ => inferInstanceAs (Decidable False)
  | .notANumber, _ => inferInstanceAs (Decidable False)
  | .zero _, _ => inferInstanceAs (Decidable False)

/-- The powers of ten that are kept as floats are exact. -/
theorem isWhole_powerOfTen : ∀ k : Fin 23,
    IsWhole (Float.exactlyRepresentablePowersOfTen[k]).toModel.unpack (10 ^ k.val) := by
  decide +kernel

/-- A mantissa of at most full width is not shifted. -/
theorem shiftToTargetExponent_exact {m : Nat} {e : Int} (hlt : m < 2 ^ 53) (he : -1074 ≤ e) :
    shiftToTargetExponent .binary64 m e .exact = (⟨m, false, false⟩, e) := by
  have htarget : target m e ≤ e := by
    have hlog : Nat.log 2 m < 53 := Nat.log_lt_of_lt_pow' (by decide) hlt
    rw [target_eq]
    omega
  show (ExtendedMantissa.ofMantissaAndAccuracy m .exact >>> (target m e - e).toNat,
    e + (target m e - e).toNat) = _
  rw [Int.toNat_of_nonpos (by omega)]
  simp [ExtendedMantissa.ofMantissaAndAccuracy]
  rfl

theorem roundWithAccuracy_exact {m : Nat} {e : Int} (hwidth : 2 ^ 52 ≤ m ∧ m < 2 ^ 53)
    (he : -1074 ≤ e) (sign : Sign) :
    roundWithAccuracy .binary64 sign m e .exact = .finite sign m e (by omega) := by
  have hrounded : (⟨m, false, false⟩ : ExtendedMantissa).roundedMantissa = m := rfl
  unfold roundWithAccuracy
  simp only [shiftToTargetExponent_exact hwidth.2 he, hrounded]
  rw [dif_neg (by omega)]

/-- A whole number of at most full width is shifted to full width. -/
theorem shiftLeft_width {n : Nat} (hpos : 0 < n) (hlt : n < 2 ^ 53) :
    2 ^ 52 ≤ n <<< (52 - Nat.log 2 n) ∧ n <<< (52 - Nat.log 2 n) < 2 ^ 53 := by
  have hlog : Nat.log 2 n ≤ 52 := Nat.lt_succ_iff.mp (Nat.log_lt_of_lt_pow hpos.ne' hlt)
  have hlow := Nat.pow_log_le_self 2 hpos.ne'
  have hhigh := Nat.lt_pow_succ_log_self (by decide : 1 < 2) n
  obtain ⟨s, hs⟩ := Nat.exists_eq_add_of_le hlog
  rw [show 52 - Nat.log 2 n = s by omega, Nat.shiftLeft_eq]
  constructor
  · rw [hs, pow_add]
    exact Nat.mul_le_mul_right _ hlow
  · calc n * 2 ^ s < 2 ^ (Nat.log 2 n + 1) * 2 ^ s :=
        Nat.mul_lt_mul_of_pos_right hhigh (by positivity)
      _ = 2 ^ 53 := by rw [← pow_add, show Nat.log 2 n + 1 + s = 53 by omega]

theorem ofUInt64_eq {n : Nat} (hpos : 0 < n) (hlt : n < 2 ^ 53) :
    UnpackedFloat.ofUInt64 .binary64 n.toUInt64 =
      .finite .positive (n <<< (52 - Nat.log 2 n)) (-(52 - Nat.log 2 n : Nat))
        (by have hwidth := shiftLeft_width hpos hlt; omega) := by
  have hlog : Nat.log 2 n ≤ 52 := Nat.lt_succ_iff.mp (Nat.log_lt_of_lt_pow hpos.ne' hlt)
  have hn : n.toUInt64.toNat = n := by
    show n % 2 ^ 64 = n
    omega
  have hcompare : compare (n : Int) 0 = .gt := by
    rw [compare_gt_iff_gt]
    omega
  -- the shift to the full width loses no bit
  have hshift : (0 - target n 0).toNat = 52 - Nat.log 2 n := by
    rw [target_eq]
    omega
  have hround : UnpackedFloat.round .binary64 .positive n 0 =
      roundWithAccuracy .binary64 .positive (n <<< (0 - target n 0).toNat)
        (0 - (0 - target n 0).toNat) .exact := rfl
  unfold UnpackedFloat.ofUInt64 UnpackedFloat.ofNat UnpackedFloat.ofInt UnpackedFloat.normalize
  rw [hn, hcompare]
  show UnpackedFloat.round .binary64 .positive n 0 = _
  rw [hround, hshift, zero_sub]
  exact roundWithAccuracy_exact (shiftLeft_width hpos hlt) (by omega) .positive

/-- A whole number of at most full width is converted exactly. -/
theorem isWhole_toFloat {n : Nat} (hpos : 0 < n) (hlt : n < 2 ^ 53) :
    IsWhole n.toUInt64.toFloat.toModel.unpack n := by
  have hwidth := shiftLeft_width hpos hlt
  show IsWhole (Float.Model.pack (UnpackedFloat.ofUInt64 .binary64 n.toUInt64)).unpack n
  rw [ofUInt64_eq hpos hlt, unpack_pack (by omega) ⟨hwidth.2, by omega, .inl hwidth.1⟩ (by omega)]
  refine ⟨hwidth.1, ?_⟩
  rw [Nat.shiftLeft_eq, neg_neg, Int.toNat_natCast, Int.toNat_neg_natCast, pow_zero, mul_one]

/-! ## Decimal numbers as floats -/

/-- The float is the fraction rounded. -/
def IsRounded (x : Float) (num den : Nat) : Prop :=
  ∃ m e acc, StandsFor num den m e acc ∧
    x = .ofModel (.pack (roundWithAccuracy .binary64 .positive m e acc))

/-- Equal fractions are rounded to the same float. -/
theorem IsRounded.eq {x x' : Float} (hden : 0 < den) (hden' : 0 < den')
    (h : num * den' = num' * den) (hx : IsRounded x num den) (hx' : IsRounded x' num' den') :
    x = x' := by
  obtain ⟨m, e, acc, hstands, rfl⟩ := hx
  obtain ⟨m', e', acc', ⟨hcut, hfine⟩, rfl⟩ := hx'
  rw [← cut_congr hden hden' h] at hcut
  rw [hstands.round_congr hden ⟨hcut, hfine⟩ .positive]

theorem IsWhole.exists {x : UnpackedFloat} {n : Nat} (h : IsWhole x n) :
    ∃ (m : Nat) (e : Int) (hm : 0 < m), x = .finite .positive m e hm ∧ 52 ≤ Nat.log 2 m ∧
      (m : ℚ) * 2 ^ e = n := by
  cases x with
  | finite sign m e hm =>
    cases sign with
    | positive =>
      refine ⟨m, e, hm, rfl, Nat.le_log_of_pow_le (by decide) h.1, ?_⟩
      have hcast : (m : ℚ) * 2 ^ e.toNat = n * 2 ^ (-e).toNat := by exact_mod_cast h.2
      rw [← two_zpow, ← mul_assoc] at hcast
      exact mul_right_cancel₀ (by positivity) hcast
    | negative => exact h.elim
  | infinity sign => exact h.elim
  | notANumber => exact h.elim
  | zero sign => exact h.elim

/-- The product of whole numbers is rounded. -/
theorem IsWhole.mul {x y : Float} {a b : Nat} (hx : IsWhole x.toModel.unpack a)
    (hy : IsWhole y.toModel.unpack b) : IsRounded (x * y) (a * b) 1 := by
  obtain ⟨m₁, e₁, h₁, hunpack₁, hwidth₁, hvalue₁⟩ := hx.exists
  obtain ⟨m₂, e₂, h₂, hunpack₂, hwidth₂, hvalue₂⟩ := hy.exists
  refine ⟨m₁ * m₂, e₁ + e₂, .exact, standsFor_exact Nat.one_pos ?_ ?_, ?_⟩
  · push_cast
    rw [zpow_add₀ (by norm_num), ← hvalue₁, ← hvalue₂]
    ring
  · exact hwidth₁.trans (Nat.log_mono_right (Nat.le_mul_of_pos_right m₁ h₂))
  · show Float.ofModel (.pack (.mul .binary64 x.toModel.unpack y.toModel.unpack)) = _
    rw [hunpack₁, hunpack₂]
    rfl

/-- The quotient of whole numbers is rounded. -/
theorem IsWhole.div {x y : Float} {a b : Nat} (hb : 0 < b) (hx : IsWhole x.toModel.unpack a)
    (hy : IsWhole y.toModel.unpack b) : IsRounded (x / y) a b := by
  obtain ⟨m₁, e₁, h₁, hunpack₁, -, hvalue₁⟩ := hx.exists
  obtain ⟨m₂, e₂, h₂, hunpack₂, -, hvalue₂⟩ := hy.exists
  refine ⟨_, _, _, standsFor_divCore hb h₁ h₂ e₁ e₂ ?_, ?_⟩
  · rw [← hvalue₁, ← hvalue₂]
    ring
  · show Float.ofModel (.pack (.div .binary64 x.toModel.unpack y.toModel.unpack)) = _
    rw [hunpack₁, hunpack₂]
    rfl

/-- **A number with a power of ten** is rounded. -/
theorem isRounded_ofScientific_mul {n k : Nat} (hn : 0 < n) (hk : k ≤ 2048) :
    IsRounded (Float.ofScientific n false k) (n * 10 ^ k) 1 := by
  unfold Float.ofScientific
  by_cases hfast : n < 2 ^ 53 ∧ k ≤ 22
  · -- both factors are floats, and their product is the only step that rounds
    rw [dif_pos hfast]
    exact (isWhole_toFloat hn hfast.1).mul (isWhole_powerOfTen ⟨k, by omega⟩)
  · -- in all other cases the exact product is rounded
    rw [dif_neg hfast]
    have hmantissa : 0 < n <<< 53 := by
      rw [Nat.shiftLeft_eq]
      omega
    have hslow : Float.Model.ofScientific n (Int.ofNat k) = .pack
        (.mul .binary64 (.finite .positive (n <<< 53) (-53) hmantissa)
          (.finite .positive (10 ^ k) 0 (by positivity))) := by
      unfold Float.Model.ofScientific UnpackedFloat.ofScientific
      rw [dif_neg hn.ne', if_neg, if_neg, if_pos]
      · rfl
      · exact Int.natCast_nonneg k
      · show ¬ (k : Int) < -((2 ^ 11 : Int) + n.log2)
        omega
      · show ¬ (k : Int) > 2 ^ 11
        omega
    refine ⟨n <<< 53 * 10 ^ k, -53 + 0, .exact, standsFor_exact Nat.one_pos ?_ ?_,
      congrArg Float.ofModel hslow⟩
    · rw [Nat.shiftLeft_eq]
      push_cast
      norm_num
      ring
    · have hpower : 0 < 10 ^ k := by positivity
      rw [Nat.shiftLeft_eq]
      exact Nat.le_log_of_pow_le (by decide) (by nlinarith)

/-- **A number with a power of ten below it** is rounded. -/
theorem isRounded_ofScientific_div {n k : Nat} (hn : 0 < n) (hpos : 0 < k)
    (hk : k ≤ 2048 + Nat.log 2 n) : IsRounded (Float.ofScientific n true k) n (10 ^ k) := by
  unfold Float.ofScientific
  by_cases hfast : n < 2 ^ 53 ∧ k ≤ 22
  · -- again the quotient of two floats is the only step that rounds
    rw [dif_pos hfast]
    exact (isWhole_toFloat hn hfast.1).div (by positivity) (isWhole_powerOfTen ⟨k, by omega⟩)
  · -- in all other cases the exact quotient is rounded
    rw [dif_neg hfast]
    have hslow : Float.Model.ofScientific n (Int.negOfNat k) = .pack
        (.div .binary64 (.finite .positive n 0 hn)
          (.finite .positive (10 ^ k) 0 (by positivity))) := by
      obtain ⟨j, rfl⟩ := Nat.exists_eq_succ_of_ne_zero hpos.ne'
      unfold Float.Model.ofScientific UnpackedFloat.ofScientific
      rw [dif_neg hn.ne', if_neg, if_neg, if_neg]
      · rfl
      · exact Int.not_le.mpr (Int.negSucc_lt_zero j)
      · show ¬ Int.negSucc j < -((2 ^ 11 : Int) + n.log2)
        rw [Nat.log2_eq_log_two]
        omega
      · show ¬ Int.negSucc j > 2 ^ 11
        omega
    have hpower : 0 < 10 ^ k := by positivity
    exact ⟨_, _, _, standsFor_divCore hpower hn hpower 0 0 rfl, congrArg Float.ofModel hslow⟩

end Binary64

end ColumnMask
