import Mathlib
import ColumnMask.Proofs.FloatOrder
import ColumnMask.Proofs.FloatPower
import ColumnMask.Window

/-!
# Floats stay in their window

A value that is brought into a window is a number of the window, whatever it was before and however
many digits it is rounded to. The exception are digit counts that scale every number to zero: a
number that is scaled back from there is no number, and clamping does not catch it.

- `Binary64.isNaN_roundDigits`, `Binary64.isNaN_roundDigits_of_tooCoarse`: when rounding to digits
  gives a number.
- `FloatWindow.Contains`: a number of a window.
- `FloatWindow.contains_iff`: the windows that all results are in.
-/

namespace ColumnMask

namespace Binary64

open Float.Model Float.Model.UnpackedFloat

variable {x y : Float} {digits : UInt32}

/-! ## Rounding to digits -/

theorem roundWhole_zero {s : Sign} (h : x.toModel.unpack = .zero s) : roundWhole x = x := by
  unfold roundWhole ofFloat
  rw [h]

/-- What is multiplied by an infinity is not finite. -/
theorem isFinite_mul_of_isInf (h : y.isInf = true) (x : Float) : (x * y).isFinite = false := by
  obtain ⟨t, hunpack⟩ := exists_unpack_infinity h
  have hinfinite (s : Sign) : (Float.ofModel (.pack (.infinity s))).isFinite = false := by
    cases s <;> rfl
  have hnothing : (Float.ofModel (.pack .notANumber)).isFinite = false := rfl
  show (Float.ofModel (.pack (.mul .binary64 x.toModel.unpack y.toModel.unpack))).isFinite = false
  rw [hunpack]
  cases x.toModel.unpack with
  | notANumber => exact hnothing
  | infinity s => exact hinfinite (s * t)
  | zero s => exact hnothing
  | finite s m e hm => exact hinfinite (s * t)

/-- **Rounding to digits** gives a number if the digit count is not too coarse. -/
theorem isNaN_roundDigits (hdigits : ¬ TooCoarse digits) (hx : x.isNaN = false) :
    (roundDigits digits x).isNaN = false := by
  have hfactor := ((digitFactor_cases digits).resolve_left fun h => hdigits h.1).2
  unfold roundDigits
  dsimp only
  split_ifs with hscaled
  · rcases hfactor with hinfinite | ⟨hfinite, hne⟩
    · rw [isFinite_mul_of_isInf hinfinite x] at hscaled
      contradiction
    · obtain ⟨s, m, e, hm, hunpack⟩ := exists_unpack_finite hfinite hne
      exact isNaN_div (isNaN_roundWhole (isNaN_of_isFinite hscaled)) hunpack
  · exact hx

/-- Nothing times a finite number is nothing. -/
theorem exists_unpack_mul_zero {t : Sign} (hx : x.isFinite = true)
    (hy : y.toModel.unpack = .zero t) : ∃ s, (x * y).toModel.unpack = .zero s := by
  obtain ⟨s, m, e, hunpack, -⟩ := exists_unpack_eq hx
  refine ⟨s * t, ?_⟩
  show (Float.Model.pack (.mul .binary64 x.toModel.unpack y.toModel.unpack)).unpack = _
  rw [hunpack, hy, ofParts_mul_zero]
  cases s <;> cases t <;> rfl

theorem isFinite_of_unpack_zero {s : Sign} (h : x.toModel.unpack = .zero s) :
    x.isFinite = true := by
  unfold Float.isFinite Float.Model.isFinite
  rw [h]
  rfl

/-- A sum with nothing is finite. -/
theorem isFinite_add_zero {t : Sign} (hx : x.isFinite = true) (hy : y.toModel.unpack = .zero t) :
    (x + y).isFinite = true := by
  obtain ⟨s, m, e, hunpack, hcanonical, he, -⟩ := exists_unpack_eq hx
  show (Float.ofModel (.pack (.add .binary64 x.toModel.unpack y.toModel.unpack))).isFinite = true
  rw [hunpack, hy]
  rcases Nat.eq_zero_or_pos m with rfl | hm
  · rw [ofParts_zero]
    cases s <;> cases t <;> rfl
  · have hsum : UnpackedFloat.add .binary64 (ofParts s m e) (.zero t) = ofParts s m e := by
      rw [ofParts_of_pos s hm]
      rfl
    rw [hsum]
    exact isFinite_of_unpack (unpack_pack_ofParts hcanonical he s)

/-- With a digit count that is too coarse no finite number is rounded to a number. -/
theorem isNaN_roundDigits_of_tooCoarse (hdigits : TooCoarse digits) (hx : x.isFinite = true) :
    (roundDigits digits x).isNaN = true := by
  obtain ⟨t, hfactor⟩ := ((digitFactor_cases digits).resolve_right fun h => h.1 hdigits).2
  obtain ⟨s, hscaled⟩ := exists_unpack_mul_zero hx hfactor
  unfold roundDigits
  dsimp only
  rw [if_pos (isFinite_of_unpack_zero hscaled), roundWhole_zero hscaled]
  exact isNaN_zero_div_zero hscaled hfactor

/-! ## Shares of one -/

theorem unpack_zero : (0 : Float).toModel.unpack = .zero .positive := rfl

/-- Mantissa and exponent of a number that is not above one. -/
theorem mul_zpow_le_one {m : Nat} {e : Int} (hlt : m < 2 ^ 53)
    (h : (compare e (-52)).then (compare m (2 ^ 52)) ≠ .gt) : (m : ℚ) * 2 ^ e ≤ 1 := by
  -- a smaller exponent, or the one of the number one with a mantissa that is no larger
  rcases hcompare : compare e (-52) with - | - | -
  · have he : e ≤ -53 := by
      have := Int.compare_eq_lt.mp hcompare
      omega
    have hm : (m : ℚ) ≤ 2 ^ 53 := by exact_mod_cast hlt.le
    calc (m : ℚ) * 2 ^ e ≤ 2 ^ 53 * 2 ^ (-53 : Int) :=
          mul_le_mul hm (zpow_le_zpow_right₀ (by norm_num) he) (by positivity) (by positivity)
      _ = 1 := by norm_num
  · rw [Int.compare_eq_eq.mp hcompare]
    have hle : m ≤ 2 ^ 52 := by
      rw [hcompare] at h
      exact Nat.compare_ne_gt.mp h
    have hm : (m : ℚ) ≤ 2 ^ 52 := by exact_mod_cast hle
    calc (m : ℚ) * 2 ^ (-52 : Int) ≤ 2 ^ 52 * 2 ^ (-52 : Int) :=
          mul_le_mul_of_nonneg_right hm (by positivity)
      _ = 1 := by norm_num
  · rw [hcompare] at h
    contradiction

/-- A number from zero to one is zero of either sign, or positive. -/
theorem unpack_of_mem_unit (hlow : 0 ≤ x) (hhigh : x ≤ 1) :
    (∃ s, x.toModel.unpack = .zero s) ∨
      ∃ m e, x.toModel.unpack = ofParts .positive m e ∧ magnitude x ≤ 1 := by
  rw [le_iff, unpack_zero] at hlow
  rw [le_iff, unpack_one, ofParts_of_pos _ (by decide)] at hhigh
  -- neither what is no number nor an infinity lies between zero and one
  cases hunpack : x.toModel.unpack with
  | zero s => exact .inl ⟨s, rfl⟩
  | notANumber =>
    rw [hunpack] at hlow
    simp [UnpackedFloat.compare] at hlow
  | infinity s =>
    rw [hunpack] at hlow hhigh
    cases s with
    | negative => simp [UnpackedFloat.compare] at hlow
    | positive => simp [UnpackedFloat.compare] at hhigh
  | finite s m e hm =>
    rw [hunpack] at hlow hhigh
    cases s with
    | negative => simp [UnpackedFloat.compare] at hlow
    -- a positive number that is not above one has a magnitude that is not either
    | positive =>
      right
      refine ⟨m, e, (ofParts_of_pos .positive hm e).symm, ?_⟩
      rw [magnitude_of_unpack (hunpack.trans (ofParts_of_pos .positive hm e).symm)]
      refine mul_zpow_le_one (canonical_of_unpack hunpack).1.lt ?_
      simp only [UnpackedFloat.compare, Option.some.injEq] at hhigh
      intro hgt
      rw [hgt] at hhigh
      simp at hhigh

theorem magnitude_le_one (hlow : 0 ≤ x) (hhigh : x ≤ 1) : magnitude x ≤ 1 := by
  rcases unpack_of_mem_unit hlow hhigh with ⟨s, hzero⟩ | ⟨m, e, -, hle⟩
  · unfold magnitude
    rw [hzero]
    norm_num
  · exact hle

theorem one_le_largest : (1 : ℚ) ≤ (2 ^ 53 - 1) * 2 ^ (971 : Int) :=
  one_le_mul_of_one_le_of_one_le (by norm_num) (one_le_zpow₀ (by norm_num) (by norm_num))

/-- What a share leaves of one is finite. -/
theorem isFinite_one_sub (hlow : 0 ≤ x) (hhigh : x ≤ 1) : (1 - x : Float).isFinite = true := by
  rcases unpack_of_mem_unit hlow hhigh with ⟨s, hzero⟩ | ⟨m, e, hunpack, hle⟩
  · have hsub : (1 - x : Float) =
        .ofModel (.pack (.sub .binary64 (1 : Float).toModel.unpack x.toModel.unpack)) := rfl
    rw [hsub, hzero]
    cases s <;> rfl
  · refine (approximates_sub unpack_one hunpack).isFinite (le_trans ?_ one_le_largest)
    have hnonneg := magnitude_nonneg x
    rw [magnitude_one, abs_of_nonneg (by linarith)]
    linarith

/-- A share of a finite number is finite. -/
theorem isFinite_mul_share {r : Float} (hx : x.isFinite = true) (hlow : 0 ≤ r) (hhigh : r ≤ 1) :
    (x * r).isFinite = true := by
  have hshare := magnitude_le_one hlow hhigh
  have hr : r.isFinite = true := by
    rcases unpack_of_mem_unit hlow hhigh with ⟨s, hzero⟩ | ⟨m, e, hunpack, -⟩
    · exact isFinite_of_unpack_zero hzero
    · exact isFinite_of_unpack hunpack
  refine (approximates_mul hx hr).isFinite ((mul_le_of_le_one_right ?_ hshare).trans ?_)
  · exact magnitude_nonneg x
  · exact magnitude_le x

end Binary64

namespace FloatWindow

open Binary64

variable (w : FloatWindow)

/-! ## Windows -/

/-- A number of the window. -/
structure Contains (y : Float) : Prop where
  isNumber : y.isNaN = false
  min_le : w.min ≤ y
  le_max : y ≤ w.max

/-- The digit count that a window rounds to, if any, does not scale everything to zero. -/
def Roundable : Prop := ∀ digits ∈ w.precision, ¬ TooCoarse digits

theorem contains_min : w.Contains w.min where
  isNumber := isNaN_of_isFinite w.finite.1
  min_le := le_self (isNaN_of_isFinite w.finite.1)
  le_max := le_of_lt w.min_lt_max

theorem contains_max : w.Contains w.max where
  isNumber := isNaN_of_isFinite w.finite.2
  min_le := le_of_lt w.min_lt_max
  le_max := le_self (isNaN_of_isFinite w.finite.2)

/-- What is clamped is in the window exactly if it was a number. -/
theorem contains_clamp_iff (x : Float) :
    w.Contains (clamp w.min w.max x) ↔ x.isNaN = false := by
  constructor
  · -- a clamped value that is no number comes back as it is
    intro h
    by_contra hnan
    have hx : x.isNaN = true := by simpa using hnan
    have hnumber := h.isNumber
    rw [clamp_of_isNaN hx] at hnumber
    exact hnan hnumber
  · -- all others end up between the bounds or at one of them
    intro hx
    have hmin := isNaN_of_isFinite w.finite.1
    have hmax := isNaN_of_isFinite w.finite.2
    obtain ⟨hlow, hhigh⟩ := clamp_mem w.min_lt_max hmin hmax hx
    refine ⟨?_, hlow, hhigh⟩
    unfold clamp
    split_ifs
    · exact hmin
    · exact hmax
    · exact hx

variable {w}

/-- **Rounding** keeps numbers in a window that can be rounded in. -/
theorem Roundable.isNaN_round (h : w.Roundable) {x : Float} (hx : x.isNaN = false) :
    (w.round x).isNaN = false := by
  unfold round
  cases hprecision : w.precision with
  | none => exact hx
  | some digits => exact isNaN_roundDigits (h digits hprecision) hx

/-- In any other window a finite number that is rounded is no number any more. -/
theorem isNaN_round_of_not_roundable (h : ¬ w.Roundable) {x : Float} (hx : x.isFinite = true) :
    (w.round x).isNaN = true := by
  unfold Roundable at h
  push Not at h
  obtain ⟨digits, hprecision, hcoarse⟩ := h
  unfold round
  rw [Option.mem_def.mp hprecision]
  exact isNaN_roundDigits_of_tooCoarse hcoarse hx

variable (w)

/-- The share of the window that a ratio asks for. -/
theorem share_mem {ratio : Float} (h : ratio.isNaN = false) :
    0 ≤ clamp 0 1 ratio ∧ clamp 0 1 ratio ≤ 1 :=
  clamp_mem (by decide +kernel) rfl rfl h

/-- **Interpolation** leads into the window for every ratio exactly if the window can be rounded
in. -/
theorem contains_interpolate_iff :
    (∀ ratio : Float, ratio.isNaN = false → w.Contains (w.interpolate ratio)) ↔ w.Roundable := by
  unfold interpolate
  simp only [contains_clamp_iff]
  constructor
  · intro h
    by_contra hround
    -- without any share of it, the upper bound adds nothing to the lower one
    have hshare : clamp 0 1 0 = 0 := by decide +kernel
    have hnumber := h 0 rfl
    obtain ⟨s, hnothing⟩ := exists_unpack_mul_zero w.finite.2 unpack_zero
    have hfinite : (w.min * (1 - 0)).isFinite = true :=
      isFinite_mul_share w.finite.1 (by decide +kernel) (by decide +kernel)
    rw [hshare, isNaN_round_of_not_roundable hround (isFinite_add_zero hfinite hnothing)] at hnumber
    contradiction
  · intro h ratio hratio
    obtain ⟨hlow, hhigh⟩ := share_mem hratio
    refine h.isNaN_round (isNaN_add ?_ (isFinite_mul_share w.finite.2 hlow hhigh))
    exact isNaN_mul w.finite.1 (isFinite_one_sub hlow hhigh)

/-- A number between the bounds is rounded, and clamped if it was. -/
theorem confine_of_mem {x : Float} (hx : x.isNaN = false) (hlow : ¬ x < w.min)
    (hhigh : ¬ w.max < x) :
    w.confine x = if w.precision.isSome then clamp w.min w.max (w.round x) else x := by
  have hnumber : ¬ x.isNaN = true := by rw [hx]; exact Bool.false_ne_true
  unfold confine round
  rw [if_neg hnumber, if_neg hlow, if_neg hhigh]
  cases w.precision <;> rfl

/-- **Confining** leads into the window for every value exactly if the window can be rounded in. -/
theorem contains_confine_iff : (∀ x : Float, w.Contains (w.confine x)) ↔ w.Roundable := by
  have hmin := isNaN_of_isFinite w.finite.1
  have hmax := isNaN_of_isFinite w.finite.2
  constructor
  · intro h
    by_contra hround
    have hsome : w.precision.isSome = true := by
      by_contra hnone
      refine hround fun digits hdigits => absurd ?_ hnone
      rw [Option.mem_def.mp hdigits]
      rfl
    -- the lower bound itself is rounded to what is no number
    have hnumber := h w.min
    rw [w.confine_of_mem hmin (not_lt_self w.min) (not_lt_of_lt w.min_lt_max), if_pos hsome,
      contains_clamp_iff, isNaN_round_of_not_roundable hround w.finite.1] at hnumber
    contradiction
  · -- what is not confined to a bound is rounded, and rounding gives a number
    intro h x
    by_cases hnan : x.isNaN = true
    · rw [confine, if_pos hnan]
      exact w.contains_min
    · have hx : x.isNaN = false := by simpa only [Bool.not_eq_true] using hnan
      by_cases hlow : x < w.min
      · rw [confine, if_neg hnan, if_pos hlow]
        exact w.contains_min
      · by_cases hhigh : w.max < x
        · rw [confine, if_neg hnan, if_neg hlow, if_pos hhigh]
          exact w.contains_max
        · rw [w.confine_of_mem hx hlow hhigh]
          split_ifs
          · exact (w.contains_clamp_iff _).mpr (h.isNaN_round hx)
          · exact ⟨hx, le_of_not_lt hx hmin hlow, le_of_not_lt hmax hx hhigh⟩

/-- **All results are numbers of the window**, for whatever ratios and values, exactly if the digit
count of the window is none that scales everything to zero: as a signed word such a count is below
-308. -/
theorem contains_iff :
    ((∀ ratio : Float, ratio.isNaN = false → w.Contains (w.interpolate ratio)) ↔
        ∀ digits ∈ w.precision, ¬ (2147483648 ≤ digits.toNat ∧ digits.toNat ≤ 4294966987)) ∧
      ((∀ x : Float, w.Contains (w.confine x)) ↔
        ∀ digits ∈ w.precision, ¬ (2147483648 ≤ digits.toNat ∧ digits.toNat ≤ 4294966987)) :=
  ⟨w.contains_interpolate_iff, w.contains_confine_iff⟩

/-- From zero to one, with as many digits as a signed word cannot count. -/
def unitWindow : FloatWindow where
  min := 0
  max := 1
  precision := some 2147483648
  finite := by decide +kernel
  min_lt_max := by decide +kernel

/-- The window is accepted, and one half, which is in it, comes out as what is no number. -/
theorem confine_unitWindow_half :
    make? 0 1 (some 2147483648) = .ok unitWindow ∧
      (unitWindow.confine 0.5).isNaN = true ∧ (unitWindow.interpolate 0.5).isNaN = true := by
  have hround : ¬ unitWindow.Roundable := fun h => h 2147483648 rfl (by decide)
  have hnothing {x : Float} (hx : x.isFinite = true) :
      (clamp unitWindow.min unitWindow.max (unitWindow.round x)).isNaN = true := by
    have hnan := isNaN_round_of_not_roundable hround hx
    rwa [clamp_of_isNaN hnan]
  have hsome : unitWindow.precision.isSome = true := rfl
  refine ⟨dif_pos ⟨unitWindow.finite, unitWindow.min_lt_max⟩, ?_, ?_⟩
  · rw [unitWindow.confine_of_mem (by decide +kernel) (by decide +kernel) (by decide +kernel),
      if_pos hsome]
    exact hnothing (by decide +kernel)
  · unfold interpolate
    exact hnothing (by decide +kernel)

end FloatWindow

end ColumnMask
