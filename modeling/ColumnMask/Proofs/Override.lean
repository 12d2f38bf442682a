import Mathlib
import ColumnMask.Proofs.Capacity
import ColumnMask.Proofs.Precision

/-!
# Decimals in the window of a call

A call can bring along a window with digits of its own or without any, and the block is still
counted in the steps of the rule. If the bounds are such steps, all numbers of the window that the
steps and its own digits allow are reached.

- `DecimalWindow.exists_fold_of_fits`: a number of steps is folded from some block.
- `DecimalWindow.fold_lt_max`: without digits the fold stays below the upper bound.
- `Request.Reaches`: a number that a call gives for some block.
- `RandomDecimal.override_reaches`: the numbers that are reached in a window that is accepted.
- `RandomDecimal.override_misses`: without digits the upper bound is missed, and with fewer digits
  the numbers between.
-/

namespace ColumnMask

namespace DecimalWindow

variable {w : DecimalWindow} {precision length : Nat} {d : Decimal}

/-- How far the fold counts: to the upper bound, and with digits one step beyond it. -/
theorem min_add_width : w.min.toRat + w.width.toRat =
    w.max.toRat + w.precision.elim 0 fun p => (Decimal.step p).toRat := by
  rw [toRat_width]
  ring

theorem max_le_min_add_width : w.max.toRat ≤ w.min.toRat + w.width.toRat := by
  rw [min_add_width]
  cases w.precision with
  | none => exact (add_zero _).ge
  | some p =>
    rw [Option.elim_some, Decimal.toRat_step]
    exact le_add_of_nonneg_right (Decimal.ten_zpow_pos _).le

/-- Rounding leaves a number alone that fits the digits of the window. -/
theorem round_of_fits (hown : ∀ p ∈ w.precision, d.Fits p) : (w.round d).Same d := by
  unfold round
  cases hprecision : w.precision with
  | none => exact .refl d
  | some p => exact (hown p hprecision).roundTo_same

/-- What lies in the window is left as it is. -/
theorem clamp_of_mem (hlow : w.min ≤ d) (hhigh : d ≤ w.max) : w.window.clamp d = d := by
  rcases w.clamp_cases d with ⟨hlt, -⟩ | ⟨hlt, -⟩ | ⟨-, -, h⟩
  · exact absurd hlt (Decimal.not_lt_iff_le.mpr hlow)
  · exact absurd hlt (Decimal.not_lt_iff_le.mpr hhigh)
  · exact h

/-- If a number and the lower bound are steps, and the number is less than the width away, then some
block is counted up to it. -/
theorem exists_fold_of_fits (hlength : w.byteLength precision ≤ length)
    (hmin : w.min.Fits precision) (hd : d.Fits precision) (hlow : w.min ≤ d)
    (hfar : d.toRat < w.min.toRat + w.width.toRat) :
    ∃ block : Bytes, block.length = length ∧
      (w.fold ⟨Bytes.toNatBE block, precision⟩).Same (w.window.clamp (w.round d)) := by
  obtain ⟨a, ha⟩ := hmin
  obtain ⟨m, hm⟩ := hd
  have hpow : (0 : ℚ) < 10 ^ precision := by positivity
  have hle : a ≤ m := (Decimal.le_iff_of_steps ha hm).mp (Decimal.le_iff_toRat.mp hlow)
  -- the steps from the lower bound to the decimal are the number that the block has to fold
  have hoffset : (((m - a).toNat : Int) : ℚ) = d.toRat * 10 ^ precision -
      w.min.toRat * 10 ^ precision := by
    rw [Int.toNat_of_nonneg (by omega), Int.cast_sub, hm, ha]
  have hlt : ((m - a).toNat : ℚ) < w.width.toRat * 10 ^ precision := by
    rw [← Int.cast_natCast, hoffset, ← sub_mul]
    exact mul_lt_mul_of_pos_right (by linarith) hpow
  have hsum : (w.min + ⟨(m - a).toNat, precision⟩).Same d := by
    have hcounts : Decimal.Counts ⟨(m - a).toNat, precision⟩ precision (m - a).toNat :=
      Decimal.counts_mk _ _
    rw [Decimal.same_iff_toRat, ← mul_left_inj' hpow.ne', Decimal.toRat_add, add_mul, hcounts,
      hoffset, add_sub_cancel]
  obtain ⟨block, hblock, hfold⟩ := exists_fold hlength hlt
  exact ⟨block, hblock, hfold.trans (w.clamp_same (round_same hsum))⟩

/-- Without digits the upper bound is where the fold starts over. -/
theorem fold_lt_max (hprecision : w.precision = none) (d : Decimal) : w.fold d < w.max := by
  -- without a precision the fold stops below the upper bound before anything is rounded
  have hrest := (Decimal.toRat_mod_mem d w.width_pos).2
  have hsum : w.min + d % w.width < w.max := by
    rw [toRat_width, hprecision, Option.elim_none] at hrest
    rw [Decimal.lt_iff_toRat, Decimal.toRat_add]
    linarith
  have hround : w.round (w.min + d % w.width) = w.min + d % w.width := by
    rw [round, hprecision]
  rw [fold, hround]
  rcases w.clamp_cases (w.min + d % w.width) with ⟨-, h⟩ | ⟨hlt, -⟩ | ⟨-, -, h⟩
  · rw [h]
    exact w.window.min_lt_max
  · rw [Decimal.lt_iff_toRat] at hlt hsum
    exact absurd hlt hsum.not_gt
  · rwa [h]

end DecimalWindow

/-- A call gives the number for some block of the needed length, at some scale. -/
def Request.Reaches {r : RandomDecimal} (request : Request (.randomDecimal r)) (d : Decimal) :
    Prop :=
  ∃ e, .ok (.decimal e) ∈ request.results ∧ e.Same d

namespace RandomDecimal

variable {r : RandomDecimal} {w : DecimalWindow} {input : Bytes} {d e : Decimal}

/-- What is reached is folded from a block. -/
theorem reaches_iff
    (haccepted : (Request.randomDecimal input (some w) : Request (.randomDecimal r)).Accepted) :
    (Request.randomDecimal input (some w) : Request (.randomDecimal r)).Reaches d ↔
      ∃ block : Bytes, block.length = r.required ∧
        (w.fold ⟨Bytes.toNatBE block, r.precision⟩).Same d := by
  unfold Request.Reaches
  rw [Request.results_eq]
  constructor
  · rintro ⟨e, ⟨block, hlength, houtcome⟩, hsame⟩
    rw [outcome_eq haccepted] at houtcome
    obtain rfl := Value.decimal.inj (Except.ok.inj houtcome)
    exact ⟨block, hlength, hsame⟩
  · rintro ⟨block, hlength, hsame⟩
    exact ⟨r.read (some w) block, ⟨block, hlength, outcome_eq haccepted block⟩, hsame⟩

/-- Steps that the fold counts up to are rounded and brought into the window. -/
theorem reaches_of_fits
    (haccepted : (Request.randomDecimal input (some w) : Request (.randomDecimal r)).Accepted)
    (hmin : w.min.Fits r.precision) (hd : d.Fits r.precision) (hlow : w.min ≤ d)
    (hfar : d.toRat < w.min.toRat + w.width.toRat)
    (hsame : (w.window.clamp (w.round d)).Same e) :
    (Request.randomDecimal input (some w) : Request (.randomDecimal r)).Reaches e := by
  have hlength := accepted_iff.mp haccepted
  rw [Option.getD_some] at hlength
  obtain ⟨block, hblock, hfold⟩ := DecimalWindow.exists_fold_of_fits hlength hmin hd hlow hfar
  exact (reaches_iff haccepted).mpr ⟨block, hblock, hfold.trans hsame⟩

/-- **What a window for one call can give.** In a window that is accepted and whose bounds are steps
of the rule, a call reaches every such step below the upper bound that fits the digits of the
window, if it has any; and if it has any, the upper bound as well. -/
theorem override_reaches (hmin : w.min.Fits r.precision) (hmax : w.max.Fits r.precision)
    (haccepted : (Request.randomDecimal input (some w) : Request (.randomDecimal r)).Accepted) :
    let call : Request (.randomDecimal r) := .randomDecimal input (some w)
    (∀ d, w.min ≤ d → d < w.max → d.Fits r.precision → (∀ p ∈ w.precision, d.Fits p) →
      call.Reaches d) ∧
    ∀ p ∈ w.precision, call.Reaches w.max := by
  intro call
  constructor
  · -- below the upper bound nothing is rounded, and nothing clamped
    intro d hlow hhigh hfits hown
    have hlt := Decimal.lt_iff_toRat.mp hhigh
    have hsame := w.clamp_same (DecimalWindow.round_of_fits hown)
    rw [DecimalWindow.clamp_of_mem hlow (Decimal.le_iff_toRat.mpr hlt.le)] at hsame
    exact reaches_of_fits haccepted hmin hfits hlow
      (lt_of_lt_of_le hlt DecimalWindow.max_le_min_add_width) hsame
  · -- the upper bound is what becomes of the next number that fits the digits of the window
    intro p hp
    obtain ⟨e, hfits, hown, hle, hlt⟩ := hmax.exists_le p
    rw [Option.mem_def] at hp
    have hround : w.max ≤ w.round e := by
      have hsame := Decimal.same_iff_toRat.mp hown.roundTo_same
      rw [DecimalWindow.round, hp, Decimal.le_iff_toRat, hsame]
      exact Decimal.le_iff_toRat.mp hle
    have hlow : w.min ≤ e := Decimal.le_trans (Decimal.le_iff_toRat.mpr w.min_lt_max.le) hle
    have hfar : e.toRat < w.min.toRat + w.width.toRat := by
      rwa [DecimalWindow.min_add_width, hp, Option.elim_some]
    exact reaches_of_fits haccepted hmin hfits hlow hfar (w.clamp_same_max hround)

/-- From -0.5 to 0.96 a rule with two digits after the point is given a window with one: 0.3 is
reached, and so is the upper bound, although it has two digits. -/
theorem override_reaches_coarser :
    let r : RandomDecimal := ⟨⟨⟨⟨-5, 0⟩, ⟨5, 0⟩, by decide⟩, some 2, by decide⟩, 2, rfl⟩
    let w : DecimalWindow := ⟨⟨⟨-5, 1⟩, ⟨96, 2⟩, by decide⟩, some 1, by decide⟩
    let call : Request (.randomDecimal r) := .randomDecimal [] (some w)
    w.min.Fits 2 ∧ w.max.Fits 2 ∧ call.Accepted ∧ call.Reaches ⟨3, 1⟩ ∧ call.Reaches ⟨96, 2⟩ := by
  intro r w call
  have hmin : w.min.Fits 2 := Decimal.exists_counts_of_scale_le (by decide)
  have hmax : w.max.Fits 2 := Decimal.exists_counts_of_scale_le (by decide)
  have haccepted : call.Accepted := accepted_iff.mpr (by decide +kernel)
  obtain ⟨hsteps, hupper⟩ := override_reaches hmin hmax haccepted
  refine ⟨hmin, hmax, haccepted, hsteps _ (by decide) (by decide) ?_ ?_, hupper 1 rfl⟩
  · exact Decimal.exists_counts_of_scale_le (by decide)
  · rintro p ⟨⟩
    exact Decimal.exists_counts_of_scale_le (by decide)

/-- From 0 to 1 there are eleven steps of one tenth. In this window the upper bound is never reached
if a call brings it along without digits, and one half is not if it is for whole numbers only. -/
theorem override_misses :
    ∃ u v r, DecimalWindow.make? ⟨0, 0⟩ ⟨1, 0⟩ = .ok u ∧ u.withPrecision? 0 = .ok v ∧
      make? u 1 = .ok r ∧ u.min.Fits r.precision ∧ u.max.Fits r.precision ∧
      v.min.Fits r.precision ∧ v.max.Fits r.precision ∧
      (let call : Request (.randomDecimal r) := .randomDecimal [] (some u)
      call.Accepted ∧ ¬ call.Reaches u.max) ∧
      (let call : Request (.randomDecimal r) := .randomDecimal [] (some v)
      call.Accepted ∧ v.min ≤ ⟨5, 1⟩ ∧ ⟨5, 1⟩ ≤ v.max ∧ Decimal.Fits ⟨5, 1⟩ r.precision ∧
        ¬ call.Reaches ⟨5, 1⟩) := by
  -- from zero to one: a window without a precision, and one with no digits after the point
  let u : DecimalWindow := ⟨⟨⟨0, 0⟩, ⟨1, 0⟩, by decide⟩, none, by simp⟩
  let v : DecimalWindow := ⟨u.window, some 0, by decide⟩
  let r : RandomDecimal := ⟨⟨u.window, some 1, by decide⟩, 1, rfl⟩
  have hmin : Decimal.Fits ⟨0, 0⟩ 1 := Decimal.exists_counts_of_scale_le (by decide)
  have hmax : Decimal.Fits ⟨1, 0⟩ 1 := Decimal.exists_counts_of_scale_le (by decide)
  have hu : (Request.randomDecimal [] (some u) : Request (.randomDecimal r)).Accepted :=
    accepted_iff.mpr (by decide +kernel)
  have hv : (Request.randomDecimal [] (some v) : Request (.randomDecimal r)).Accepted :=
    accepted_iff.mpr (by decide +kernel)
  refine ⟨u, v, r, rfl, rfl, rfl, hmin, hmax, hmin, hmax, ⟨hu, ?_⟩, hv, by decide, by decide,
    Decimal.exists_counts_of_scale_le (by decide), ?_⟩
  · -- without a precision the fold stops short of the upper bound
    rw [reaches_iff hu]
    rintro ⟨block, -, hsame⟩
    have hlt := DecimalWindow.fold_lt_max (w := u) rfl ⟨Bytes.toNatBE block, r.precision⟩
    rw [Decimal.lt_iff_toRat, Decimal.same_iff_toRat.mp hsame] at hlt
    exact lt_irrefl _ hlt
  · -- with no digits only zero and one are left, and one half is neither
    rw [reaches_iff hv]
    rintro ⟨block, -, hsame⟩
    rcases DecimalWindow.fold_fits_or (w := v) rfl ⟨Bytes.toNatBE block, r.precision⟩ with
      hfits | hbound | hbound
    · obtain ⟨n, hn⟩ := hsame.fits hfits
      have hcoefficient : 5 = n * 10 := hn.coefficient_eq (by decide)
      omega
    · rw [hbound] at hsame
      exact absurd hsame (by decide)
    · rw [hbound] at hsame
      exact absurd hsame (by decide)

end RandomDecimal

end ColumnMask
