import Mathlib
import ColumnMask.Proofs.DecimalArithmetic
import ColumnMask.Proofs.DecimalWindow

/-!
# Digits after the point

A number that is rounded to a precision can leave its window. It is then brought back to the bound,
which has the digits that it was written with: they can be too many, although there are numbers with
fewer digits in the window.

- `DecimalWindow.clamp_roundTo_fits_or`: a number that was rounded and brought into the window has
  few enough digits or is a bound.
- `DecimalWindow.exists_fold`: enough bytes count up to every number of steps below the width.
- `RandomDecimal.results_fit_iff`: when all the results of a random decimal have few enough digits.
- `DecimalWindow.confine_fits_iff`: when everything that is confined by a window has.
- `RandomDecimal.precision_kept_iff`: both for the windows and the precisions that are accepted, and
  what is true of any of them.
-/

namespace ColumnMask

namespace DecimalWindow

variable (w : DecimalWindow) {precision : Nat} {d : Decimal}

/-! ## Rounding and bringing back -/

/-- What a window makes of a number: the bound that it has passed, or itself. -/
theorem clamp_cases (d : Decimal) :
    d < w.min ∧ w.window.clamp d = w.min ∨ w.max < d ∧ w.window.clamp d = w.max ∨
      w.min ≤ d ∧ d ≤ w.max ∧ w.window.clamp d = d := by
  rw [← Decimal.not_lt_iff_le, ← Decimal.not_lt_iff_le]
  by_cases hlow : d < w.min
  · exact .inl ⟨hlow, if_pos hlow⟩
  · by_cases hhigh : w.max < d
    · exact .inr (.inl ⟨hhigh, (if_neg hlow).trans (if_pos hhigh)⟩)
    · exact .inr (.inr ⟨hlow, hhigh, (if_neg hlow).trans (if_neg hhigh)⟩)

/-- A number that was rounded and brought into the window has few digits or is a bound. -/
theorem clamp_roundTo_fits_or (d : Decimal) (precision : Nat) :
    (w.window.clamp (d.roundTo precision)).Fits precision ∨
      w.window.clamp (d.roundTo precision) = w.min ∨
      w.window.clamp (d.roundTo precision) = w.max := by
  rcases w.clamp_cases (d.roundTo precision) with ⟨-, h⟩ | ⟨-, h⟩ | ⟨-, -, h⟩
  · exact .inr (.inl h)
  · exact .inr (.inr h)
  · rw [h]
    exact .inl (d.fits_roundTo precision)

/-- It has few digits if it did not fall below the lower bound and the upper bound has few. -/
theorem clamp_roundTo_fits (hlow : w.min ≤ d.roundTo precision) (hmax : w.max.Fits precision) :
    (w.window.clamp (d.roundTo precision)).Fits precision := by
  rcases w.clamp_cases (d.roundTo precision) with ⟨hlt, -⟩ | ⟨-, h⟩ | ⟨-, -, h⟩
  · exact absurd hlt (Decimal.not_lt_iff_le.mpr hlow)
  · rw [h]
    exact hmax
  · rw [h]
    exact d.fits_roundTo precision

/-- What is not below the upper bound becomes the upper bound. -/
theorem clamp_same_max (h : w.max ≤ d) : (w.window.clamp d).Same w.max := by
  have hlt := w.min_lt_max
  rw [Decimal.le_iff_toRat] at h
  rcases w.clamp_cases d with ⟨hlow, -⟩ | ⟨-, hclamp⟩ | ⟨-, hhigh, hclamp⟩
  · rw [Decimal.lt_iff_toRat] at hlow
    linarith
  · rw [hclamp]
    exact .refl _
  · rw [hclamp, Decimal.same_iff_toRat]
    exact le_antisymm (Decimal.le_iff_toRat.mp hhigh) h

/-! ## Confining -/

/-- What is confined lies in the window. -/
theorem confine_mem (d : Decimal) :
    w.min.toRat ≤ (w.confine d).toRat ∧ (w.confine d).toRat ≤ w.max.toRat := by
  have hlt := w.min_lt_max
  unfold confine
  split_ifs with hlow hhigh
  · exact ⟨le_refl _, hlt.le⟩
  · exact ⟨hlt.le, le_refl _⟩
  · cases w.precision with
    | none =>
      rw [Decimal.lt_iff_toRat, not_lt] at hlow hhigh
      exact ⟨hlow, hhigh⟩
    | some p => exact w.clamp_mem _

variable {w}

theorem confine_fits_or (hprecision : w.precision = some precision) (d : Decimal) :
    (w.confine d).Fits precision ∨ w.confine d = w.min ∨ w.confine d = w.max := by
  unfold confine
  rw [hprecision]
  split_ifs
  · exact .inr (.inl rfl)
  · exact .inr (.inr rfl)
  · exact w.clamp_roundTo_fits_or d precision

/-- **Confining** keeps the precision exactly if both bounds have few digits, since a number outside
is brought to a bound. -/
theorem confine_fits_iff (hprecision : w.precision = some precision) :
    (∀ d, (w.confine d).Fits precision) ↔ w.min.Fits precision ∧ w.max.Fits precision := by
  have hone : (Decimal.ofInt 1).toRat = 1 := by simp
  constructor
  · -- beyond its bounds the window gives the bounds themselves
    intro hall
    have hbelow : w.min - Decimal.ofInt 1 < w.min := by
      rw [Decimal.lt_iff_toRat, Decimal.toRat_sub, hone]
      linarith
    have habove : w.max < w.max + Decimal.ofInt 1 := by
      rw [Decimal.lt_iff_toRat, Decimal.toRat_add, hone]
      linarith
    have hnot : ¬ w.max + Decimal.ofInt 1 < w.min := by
      have hlt := w.min_lt_max
      rw [Decimal.lt_iff_toRat, Decimal.toRat_add, hone]
      linarith
    have hlow := hall (w.min - Decimal.ofInt 1)
    have hhigh := hall (w.max + Decimal.ofInt 1)
    rw [confine, if_pos hbelow] at hlow
    rw [confine, if_neg hnot, if_pos habove] at hhigh
    exact ⟨hlow, hhigh⟩
  · rintro ⟨hmin, hmax⟩ d
    rcases confine_fits_or hprecision d with h | h | h
    · exact h
    · exact h ▸ hmin
    · exact h ▸ hmax

/-! ## Folding -/

theorem fold_of_precision (hprecision : w.precision = some precision) (d : Decimal) :
    w.fold d = w.window.clamp ((w.min + d % w.width).roundTo precision) := by
  rw [fold, round, hprecision]

/-- What is folded has few digits or is a bound. -/
theorem fold_fits_or (hprecision : w.precision = some precision) (d : Decimal) :
    (w.fold d).Fits precision ∨ w.fold d = w.min ∨ w.fold d = w.max := by
  rw [fold_of_precision hprecision]
  exact w.clamp_roundTo_fits_or _ _

theorem round_same {a b : Decimal} (h : a.Same b) : (w.round a).Same (w.round b) := by
  unfold round
  cases w.precision with
  | none => exact h
  | some p => exact h.roundTo p

/-- The width is one step longer than the distance of the bounds. -/
theorem width_mul_pow (hprecision : w.precision = some precision) :
    w.width.toRat * 10 ^ precision = (w.max.toRat - w.min.toRat) * 10 ^ precision + 1 := by
  have hpow : (10 : ℚ) ^ precision ≠ 0 := by positivity
  rw [toRat_width, hprecision, Option.elim_some, add_mul, Decimal.toRat_step, zpow_neg,
    zpow_natCast, inv_mul_cancel₀ hpow]

/-- Before rounding, the fold counts up from the lower bound. -/
theorem min_le_sum (d : Decimal) : w.min ≤ w.min + d % w.width := by
  have hmod := (Decimal.toRat_mod_mem d w.width_pos).1
  rw [Decimal.le_iff_toRat, Decimal.toRat_add]
  linarith

/-- The bytes that a window takes tell every number of steps up to its width. -/
theorem lt_pow_byteLength {n : ℕ} (h : (n : ℚ) ≤ w.width.toRat * 10 ^ precision) :
    n < 256 ^ w.byteLength precision := by
  have hwidth := w.width_pos
  have habs : w.width.abs.toRat = w.width.toRat := by
    rw [Decimal.toRat_abs, abs_of_pos hwidth]
  have hunits : w.width.abs.truncatedUnits precision = ⌊w.width.toRat * 10 ^ precision⌋ := by
    rw [Decimal.truncatedUnits_eq_floor (habs ▸ hwidth.le), habs]
  have hfloor : (n : Int) ≤ ⌊w.width.toRat * 10 ^ precision⌋ := by
    rw [Int.le_floor, Int.cast_natCast]
    exact h
  calc n ≤ (w.width.abs.truncatedUnits precision).natAbs := by omega
    _ < 256 ^ w.byteLength precision := lt_of_le_of_lt (le_max_right _ _) (lt_pow_byteCount _)

/-- Every number of steps below the width is counted up from the lower bound by some block of enough
bytes. -/
theorem exists_fold {length n : ℕ} (hlength : w.byteLength precision ≤ length)
    (h : (n : ℚ) < w.width.toRat * 10 ^ precision) :
    ∃ block : Bytes, block.length = length ∧ (w.fold ⟨Bytes.toNatBE block, precision⟩).Same
      (w.window.clamp (w.round (w.min + ⟨n, precision⟩))) := by
  have hsteps : Decimal.Counts ⟨n, precision⟩ precision n := Decimal.counts_mk _ _
  have hpow : (0 : ℚ) < 10 ^ precision := by positivity
  -- a block of this number is below the width, and its remainder is the number itself
  have hnonneg : 0 ≤ Decimal.toRat ⟨n, precision⟩ := by
    rw [← mul_nonneg_iff_left_nonneg_of_pos hpow, hsteps]
    positivity
  have hlt : Decimal.toRat ⟨n, precision⟩ < w.width.toRat := by
    rwa [← mul_lt_mul_iff_left₀ hpow, hsteps]
  have hmod : (⟨n, precision⟩ % w.width : Decimal).Same ⟨n, precision⟩ :=
    Decimal.same_iff_toRat.mpr (Decimal.toRat_mod_of_lt hnonneg hlt)
  obtain ⟨block, hblock, hnumber⟩ := Bytes.exists_toNatBE
    (lt_of_lt_of_le (lt_pow_byteLength h.le) (Nat.pow_le_pow_right (by decide) hlength))
  refine ⟨block, hblock, ?_⟩
  rw [hnumber, fold]
  exact w.clamp_same (round_same ((Decimal.Same.refl _).add hmod))

end DecimalWindow

namespace RandomDecimal

variable {r : RandomDecimal} {min max : Decimal} {precision : Nat}

/-! ## Results -/

/-- Every number of steps below the width is counted up from the lower bound by some block. -/
theorem exists_read {n : ℕ} (h : (n : ℚ) < r.window.width.toRat * 10 ^ r.precision) :
    ∃ block, block.length = r.required ∧ (r.read none block).Same
      (r.window.window.clamp ((r.window.min + ⟨n, r.precision⟩).roundTo r.precision)) := by
  obtain ⟨block, hlength, hfold⟩ := DecimalWindow.exists_fold le_rfl h
  rw [DecimalWindow.round, r.precision_eq] at hfold
  exact ⟨block, hlength, hfold⟩

theorem read_mem (r : RandomDecimal) (block : Bytes) :
    r.window.min ≤ r.read none block ∧ r.read none block ≤ r.window.max := by
  rw [Decimal.le_iff_toRat, Decimal.le_iff_toRat]
  exact r.window.fold_mem _

theorem read_fits_or (r : RandomDecimal) (block : Bytes) :
    (r.read none block).Fits r.precision ∨ r.read none block = r.window.min ∨
      r.read none block = r.window.max :=
  DecimalWindow.fold_fits_or r.precision_eq _

/-- The block of zeros counts nothing up, so that the lower bound itself is rounded. -/
theorem min_le_roundTo_of_fits
    (hall : ∀ block, block.length = r.required → (r.read none block).Fits r.precision) :
    r.window.min ≤ r.window.min.roundTo r.precision := by
  have hwidth : ((0 : ℕ) : ℚ) < r.window.width.toRat * 10 ^ r.precision := by
    rw [Nat.cast_zero]
    exact mul_pos r.window.width_pos (by positivity)
  have hnothing : Decimal.toRat ⟨(0 : ℕ), r.precision⟩ = 0 := by
    simp [Decimal.toRat]
  have hsum : (r.window.min + ⟨(0 : ℕ), r.precision⟩).Same r.window.min := by
    rw [Decimal.same_iff_toRat, Decimal.toRat_add, hnothing, add_zero]
  obtain ⟨block, hlength, hread⟩ := exists_read hwidth
  have hrounded := hread.trans (r.window.clamp_same (hsum.roundTo r.precision))
  rcases r.window.clamp_cases (r.window.min.roundTo r.precision) with
    ⟨hlt, h⟩ | ⟨hlt, -⟩ | ⟨hle, -⟩
  · -- rounding has fallen below the bound, so the bound is read; but then it was not rounded
    rw [h] at hrounded
    have hsame := (hrounded.fits (hall block hlength)).roundTo_same
    rw [Decimal.lt_iff_toRat, Decimal.same_iff_toRat.mp hsame] at hlt
    exact absurd hlt (lt_irrefl _)
  · have hbounds := r.window.min_lt_max
    rw [Decimal.lt_iff_toRat] at hlt
    rw [Decimal.le_iff_toRat]
    exact (hbounds.trans hlt).le
  · exact hle

/-- Enough steps lead to the upper bound or beyond it, unless the lower bound was rounded down. -/
theorem exists_read_same_max (hmin : r.window.min ≤ r.window.min.roundTo r.precision) :
    ∃ block, block.length = r.required ∧ (r.read none block).Same r.window.max := by
  have hpow : (0 : ℚ) < 10 ^ r.precision := by positivity
  have hbounds := r.window.min_lt_max
  -- as many steps as it takes to get to the upper bound or beyond it
  let steps := (r.window.max.toRat - r.window.min.toRat) * 10 ^ r.precision
  have hceil : (⌈steps⌉₊ : ℚ) < r.window.width.toRat * 10 ^ r.precision := by
    rw [DecimalWindow.width_mul_pow r.precision_eq]
    exact Nat.ceil_lt_add_one (mul_nonneg (sub_nonneg.mpr hbounds.le) hpow.le)
  have hcounts : Decimal.Counts ⟨(⌈steps⌉₊ : ℕ), r.precision⟩ r.precision (⌈steps⌉₊ : ℕ) :=
    Decimal.counts_mk _ _
  have hsum : r.window.max ≤ r.window.min + ⟨(⌈steps⌉₊ : ℕ), r.precision⟩ := by
    rw [Decimal.le_iff_toRat, Decimal.toRat_add, ← mul_le_mul_iff_left₀ hpow, add_mul, hcounts]
    have hle : steps ≤ (⌈steps⌉₊ : ℕ) := Nat.le_ceil _
    rw [Int.cast_natCast]
    linarith
  have hround := Decimal.le_roundTo_add hmin hcounts
  obtain ⟨block, hlength, hread⟩ := exists_read hceil
  exact ⟨block, hlength, hread.trans (r.window.clamp_same_max (Decimal.le_trans hsum hround))⟩

/-- **Random decimals** keep the precision exactly if the lower bound is not rounded down and the
upper bound has few digits. -/
theorem results_fit_iff (r : RandomDecimal) :
    (∀ block, block.length = r.required → (r.read none block).Fits r.precision) ↔
      r.window.min ≤ r.window.min.roundTo r.precision ∧ r.window.max.Fits r.precision := by
  constructor
  · intro hall
    have hmin := min_le_roundTo_of_fits hall
    obtain ⟨block, hlength, hread⟩ := exists_read_same_max hmin
    exact ⟨hmin, hread.fits (hall block hlength)⟩
  · rintro ⟨hmin, hmax⟩ block -
    show (r.window.fold _).Fits _
    rw [DecimalWindow.fold_of_precision r.precision_eq]
    have hmono := Decimal.roundTo_mono (r.window.min_le_sum ⟨Bytes.toNatBE block, r.precision⟩)
      r.precision
    exact r.window.clamp_roundTo_fits (Decimal.le_trans hmin hmono) hmax

/-- **When the digits after the point are kept.** Bounds in order and a precision that is not too
large are accepted for random decimals and for noise. What comes out lies between the bounds, and
has no more digits after the point than the precision unless it is a bound itself. For random
decimals there is no such exception exactly if rounding does not take the lower bound down and the
upper bound has few digits; for noise exactly if both bounds have few digits. -/
theorem precision_kept_iff (hprecision : precision ≤ DecimalWindow.maxPrecision) (hlt : min < max) :
    ∃ w r v, DecimalWindow.make? min max = .ok w ∧ make? w precision = .ok r ∧
      DecimalWindow.makeWith? min max (some precision) = .ok v ∧
      (∀ input block, block.length = r.required → ∃ d,
        (Request.randomDecimal input none : Request (.randomDecimal r)).Gives block
          (.ok (.decimal d)) ∧
        min ≤ d ∧ d ≤ max ∧ (d.Fits precision ∨ d = min ∨ d = max)) ∧
      (∀ input, (∀ d, .ok (.decimal d) ∈
            (Request.randomDecimal input none : Request (.randomDecimal r)).results →
          d.Fits precision) ↔
        min ≤ min.roundTo precision ∧ max.Fits precision) ∧
      (∀ d, min ≤ v.confine d ∧ v.confine d ≤ max ∧
        ((v.confine d).Fits precision ∨ v.confine d = min ∨ v.confine d = max)) ∧
      ((∀ d, (v.confine d).Fits precision) ↔ min.Fits precision ∧ max.Fits precision) := by
  -- both windows have these bounds, and only the second one has digits of its own
  let window : Window Decimal := ⟨min, max, hlt⟩
  let v : DecimalWindow := ⟨window, some precision, DecimalWindow.le_of_mem_some hprecision⟩
  let r : RandomDecimal := ⟨v, precision, rfl⟩
  have hw : DecimalWindow.make? min max = .ok ⟨window, none, by simp⟩ := by
    rw [DecimalWindow.make?, Window.make?, dif_pos hlt]
    rfl
  refine ⟨⟨window, none, by simp⟩, r, v, hw, dif_pos hprecision, ?_, ?_, ?_, ?_, ?_⟩
  · rw [DecimalWindow.makeWith?, hw]
    exact dif_pos hprecision
  · intro input block hlength
    obtain ⟨hlow, hhigh⟩ := r.read_mem block
    exact ⟨r.read none block, Request.gives_outcome _ hlength, hlow, hhigh, r.read_fits_or block⟩
  · intro input
    refine Iff.trans ?_ (results_fit_iff r)
    -- each result is read from a block of the required length
    constructor
    · intro hall block hlength
      exact hall _ (mem_results_iff.mpr ⟨block, hlength, rfl⟩)
    · intro hall d hd
      obtain ⟨block, hlength, rfl⟩ := mem_results_iff.mp hd
      exact hall block hlength
  · intro d
    obtain ⟨hlow, hhigh⟩ := v.confine_mem d
    exact ⟨Decimal.le_iff_toRat.mpr hlow, Decimal.le_iff_toRat.mpr hhigh,
      DecimalWindow.confine_fits_or rfl d⟩
  · exact DecimalWindow.confine_fits_iff rfl

/-- From 0.86, which is rounded up, to 2: random decimals keep one digit after the point, noise does
not. -/
theorem precision_kept_iff_roundedUp :
    1 ≤ DecimalWindow.maxPrecision ∧ (⟨86, 2⟩ : Decimal) < ⟨2, 0⟩ ∧
      ∃ w r v, DecimalWindow.make? ⟨86, 2⟩ ⟨2, 0⟩ = .ok w ∧ make? w 1 = .ok r ∧
        DecimalWindow.makeWith? ⟨86, 2⟩ ⟨2, 0⟩ (some 1) = .ok v ∧
        (∀ input d, .ok (.decimal d) ∈
            (Request.randomDecimal input none : Request (.randomDecimal r)).results → d.Fits 1) ∧
        ¬ ∀ d, (v.confine d).Fits 1 := by
  obtain ⟨w, r, v, hw, hr, hv, -, hrandom, -, hnoise⟩ :=
    precision_kept_iff (by decide : 1 ≤ DecimalWindow.maxPrecision)
      (by decide : (⟨86, 2⟩ : Decimal) < ⟨2, 0⟩)
  refine ⟨by decide, by decide, w, r, v, hw, hr, hv, ?_, ?_⟩
  · intro input
    exact (hrandom input).mpr ⟨by decide, Decimal.exists_counts_of_scale_le (by decide)⟩
  · rw [hnoise]
    rintro ⟨⟨n, hn⟩, -⟩
    have hcoefficient : 86 = n * 10 := hn.coefficient_eq (by decide)
    omega

/-- From 0.14, which is rounded down, to 1: there is 0.2, but one digit after the point becomes two.
A random decimal that counts nothing up is 0.14, and so is what noise makes of 0.144. -/
theorem precision_lost_at_bound :
    ∃ w r v, DecimalWindow.make? ⟨14, 2⟩ ⟨1, 0⟩ = .ok w ∧ make? w 1 = .ok r ∧
      DecimalWindow.makeWith? ⟨14, 2⟩ ⟨1, 0⟩ (some 1) = .ok v ∧
      (⟨14, 2⟩ : Decimal) ≤ ⟨2, 1⟩ ∧ (⟨2, 1⟩ : Decimal) ≤ ⟨1, 0⟩ ∧ Decimal.Fits ⟨2, 1⟩ 1 ∧
      ¬ Decimal.Fits ⟨14, 2⟩ 1 ∧ r.required = 1 ∧
      (∀ input, (Request.randomDecimal input none : Request (.randomDecimal r)).Gives [0]
        (.ok (.decimal ⟨14, 2⟩))) ∧
      v.confine ⟨144, 3⟩ = ⟨14, 2⟩ := by
  let window : Window Decimal := ⟨⟨14, 2⟩, ⟨1, 0⟩, by decide⟩
  let v : DecimalWindow := ⟨window, some 1, DecimalWindow.le_of_mem_some (by decide)⟩
  let r : RandomDecimal := ⟨v, 1, rfl⟩
  have hread : r.read none [0] = ⟨14, 2⟩ := by decide +kernel
  have hrequired : r.required = 1 := by decide +kernel
  refine ⟨⟨window, none, by simp⟩, r, v, rfl, rfl, rfl, by decide, by decide,
    Decimal.exists_counts_of_scale_le (by decide), ?_, hrequired, ?_, by decide +kernel⟩
  · -- fourteen hundredths are no whole number of tenths
    rintro ⟨n, hn⟩
    have hcoefficient : 14 = n * 10 := hn.coefficient_eq (by decide)
    omega
  · intro input
    rw [← hread]
    exact Request.gives_outcome _ hrequired.symm

end RandomDecimal

end ColumnMask
