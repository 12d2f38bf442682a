import Mathlib
import ColumnMask.Proofs.Call
import ColumnMask.Proofs.Decimal
import ColumnMask.Proofs.IntegerWindow
import ColumnMask.Transformer.Random
import ColumnMask.Window

/-!
# Windows of decimals and random decimals

Decimals in steps of a precision are counted like integers.
-/

namespace ColumnMask

/-!
## Laws of windows of decimals

- `DecimalWindow.fold_mem`: folding stays in the window.
- `DecimalWindow.OnGrid`: a window whose bounds are whole numbers of steps at its precision.
- `DecimalWindow.OnGrid.fold_counts`, `DecimalWindow.OnGrid.byteLength_eq`: in such a window folding
  and the number of bytes are those of the window of integers.
- `DecimalWindow.OnGrid.toRat_round`, `DecimalWindow.OnGrid.clamp_eq`: rounding and clamping have
  nothing to do there.
-/

namespace DecimalWindow

/-! ### Any window -/

section Any

variable (w : DecimalWindow)

theorem min_lt_max : w.min.toRat < w.max.toRat := Decimal.lt_iff_toRat.mp w.window.min_lt_max

/-- With digits set the width is one step longer than the distance of the bounds. -/
theorem toRat_width : w.width.toRat =
    w.max.toRat - w.min.toRat + w.precision.elim 0 fun p => (Decimal.step p).toRat := by
  unfold width
  cases w.precision with
  | none => rw [Decimal.toRat_sub, Option.elim_none, add_zero]
  | some p => rw [Decimal.toRat_add, Decimal.toRat_sub, Option.elim_some]

theorem width_pos : 0 < w.width.toRat := by
  have hlt := w.min_lt_max
  rw [toRat_width]
  cases w.precision with
  | none =>
    rw [Option.elim_none]
    linarith
  | some p =>
    have hstep := Decimal.ten_zpow_pos (-(p : Int))
    rw [Option.elim_some, Decimal.toRat_step]
    linarith

/-- What is clamped lies in the window. -/
theorem clamp_mem (d : Decimal) :
    w.min.toRat ≤ (w.window.clamp d).toRat ∧ (w.window.clamp d).toRat ≤ w.max.toRat := by
  have hlt := w.min_lt_max
  unfold Window.clamp
  by_cases hlow : d < w.window.min
  · rw [if_pos hlow]
    exact ⟨le_refl _, hlt.le⟩
  · by_cases hhigh : w.window.max < d
    · rw [if_neg hlow, if_pos hhigh]
      exact ⟨hlt.le, le_refl _⟩
    · rw [if_neg hlow, if_neg hhigh]
      rw [Decimal.lt_iff_toRat] at hlow hhigh
      exact ⟨not_lt.mp hlow, not_lt.mp hhigh⟩

/-- Folding stays in the window. -/
theorem fold_mem (d : Decimal) :
    w.min.toRat ≤ (w.fold d).toRat ∧ (w.fold d).toRat ≤ w.max.toRat := w.clamp_mem _

end Any

/-! ### Bounds on a grid -/

/-- A window whose bounds are `a` and `b` steps at its precision. -/
structure OnGrid (w : DecimalWindow) (precision : Nat) (v : Window Int) : Prop where
  precision_eq : w.precision = some precision
  min_counts : w.min.Counts precision v.min
  max_counts : w.max.Counts precision v.max

namespace OnGrid

variable {w : DecimalWindow} {precision : Nat} {v : Window Int} {d : Decimal} {n : Int}

/-- The width is the number of integers in the window of steps. -/
theorem width_counts (h : w.OnGrid precision v) : w.width.Counts precision v.count := by
  rw [width, h.precision_eq]
  exact (h.max_counts.sub h.min_counts).add (Decimal.counts_mk 1 precision)

/-- Before rounding, the fold is on a step of the window. -/
theorem sum_counts (h : w.OnGrid precision v) (hd : d.Counts precision n) :
    (w.min + d % w.width).Counts precision (v.foldInteger n) :=
  h.min_counts.add (hd.mod h.width_counts v.count_pos)

theorem round_counts (h : w.OnGrid precision v) (hd : d.Counts precision n) :
    (w.round d).Counts precision n := by
  rw [round, h.precision_eq]
  exact hd.roundTo

/-- Rounding leaves the number alone. -/
theorem toRat_round (h : w.OnGrid precision v) (hd : d.Counts precision n) :
    (w.round d).toRat = d.toRat := by
  rw [Decimal.counts_iff.mp (h.round_counts hd), Decimal.counts_iff.mp hd]

/-- Clamping leaves a step of the window alone. -/
theorem clamp_eq (h : w.OnGrid precision v) (hd : d.Counts precision n)
    (hn : v.min ≤ n ∧ n ≤ v.max) : w.window.clamp d = d := by
  have hlow : ¬ d < w.min := by
    rw [hd.lt_iff h.min_counts]
    omega
  have hhigh : ¬ w.max < d := by
    rw [h.max_counts.lt_iff hd]
    omega
  exact (if_neg hlow).trans (if_neg hhigh)

/-- Rounding and clamping have nothing to do. -/
theorem fold_eq (h : w.OnGrid precision v) (hd : d.Counts precision n) :
    w.fold d = w.round (w.min + d % w.width) :=
  h.clamp_eq (h.round_counts (h.sum_counts hd)) (v.foldInteger_mem n)

/-- Steps are folded like integers. -/
theorem fold_counts (h : w.OnGrid precision v) (hd : d.Counts precision n) :
    (w.fold d).Counts precision (v.foldInteger n) := by
  rw [h.fold_eq hd]
  exact h.round_counts (h.sum_counts hd)

/-- As many bytes are needed as for the window of steps. -/
theorem byteLength_eq (h : w.OnGrid precision v) : w.byteLength precision = v.byteLength := by
  simp only [byteLength, Window.byteLength, h.min_counts.abs.truncatedUnits,
    h.max_counts.abs.truncatedUnits, h.width_counts.abs.truncatedUnits, Int.natAbs_natCast]

end OnGrid

end DecimalWindow

/-!
## Random decimals are random integers

A random decimal whose bounds are whole numbers of steps at its precision counts the steps exactly
as a random integer of any size counts ones.

- `RandomDecimal.toRat_results`: the results are the steps of the window, all of them.
- `RandomDecimal.agrees_with_bigInteger`: the same blocks give the same numbers, up to the scale.
-/

namespace RandomDecimal

variable {min max : Decimal} {precision : Nat} {a b : Int}

/-- Bounds that are steps at the precision are accepted, and so are the numbers of steps. -/
theorem exists_onGrid (hprecision : precision ≤ DecimalWindow.maxPrecision) (hlt : min < max)
    (hmin : min.Counts precision a) (hmax : max.Counts precision b) :
    ∃ w r v, DecimalWindow.make? min max = .ok w ∧ make? w precision = .ok r ∧
      Window.ofIntegers? a b = .ok v ∧ v.min = a ∧ v.max = b ∧ r.precision = precision ∧
      r.window.min = min ∧ r.window.max = max ∧ r.window.OnGrid precision v := by
  have hab : a < b := (hmin.lt_iff hmax).mp hlt
  refine ⟨⟨⟨min, max, hlt⟩, none, by simp⟩,
    ⟨⟨⟨min, max, hlt⟩, some precision, DecimalWindow.le_of_mem_some hprecision⟩, precision, rfl⟩,
    ⟨a, b, hab⟩, ?_, dif_pos hprecision, dif_pos hab, rfl, rfl, rfl, rfl, rfl, rfl, hmin, hmax⟩
  rw [DecimalWindow.make?, Window.make?, dif_pos hlt]
  rfl

theorem mem_results_iff {r : RandomDecimal} {input : Bytes} {d : Decimal} :
    .ok (.decimal d) ∈ (Request.randomDecimal input none : Request (.randomDecimal r)).results ↔
      ∃ block, block.length = r.required ∧ r.read none block = d := by
  rw [Request.results_eq]
  constructor
  · rintro ⟨block, hlength, houtcome⟩
    exact ⟨block, hlength, Value.decimal.inj (Except.ok.inj houtcome)⟩
  · rintro ⟨block, hlength, rfl⟩
    exact ⟨block, hlength, rfl⟩

/-- On a grid the results are the steps of the window, all of them. -/
theorem toRat_results (r : RandomDecimal) {v : Window Int}
    (h : r.window.OnGrid r.precision v) (input : Bytes) :
    {x | ∃ d, .ok (.decimal d) ∈
        (Request.randomDecimal input none : Request (.randomDecimal r)).results ∧ d.toRat = x} =
      {x | r.window.min.toRat ≤ x ∧ x ≤ r.window.max.toRat ∧
        ∃ m : ℤ, x * 10 ^ r.precision = m} := by
  ext x
  constructor
  · -- what is read is on a step between the bounds
    rintro ⟨d, hmem, rfl⟩
    obtain ⟨block, -, rfl⟩ := mem_results_iff.mp hmem
    have hread : (r.read none block).Counts r.precision (v.foldInteger (Bytes.toNatBE block)) :=
      h.fold_counts (Decimal.counts_mk _ _)
    have hbounds := v.foldInteger_mem (Bytes.toNatBE block)
    refine ⟨?_, ?_, _, hread⟩
    · exact (Decimal.le_iff_of_steps h.min_counts hread).mpr hbounds.1
    · exact (Decimal.le_iff_of_steps hread h.max_counts).mpr hbounds.2
  · -- a step between the bounds is reached by the block that folds to its number
    rintro ⟨hlow, hhigh, m, hm⟩
    have hmin := (Decimal.le_iff_of_steps h.min_counts hm).mp hlow
    have hmax := (Decimal.le_iff_of_steps hm h.max_counts).mp hhigh
    obtain ⟨block, hlength, hfold⟩ := v.exists_foldInteger le_rfl ⟨hmin, hmax⟩
    refine ⟨_, mem_results_iff.mpr ⟨block, hlength.trans h.byteLength_eq.symm, rfl⟩, ?_⟩
    have hread : (r.read none block).Counts r.precision (v.foldInteger (Bytes.toNatBE block)) :=
      h.fold_counts (Decimal.counts_mk _ _)
    rw [hfold] at hread
    exact le_antisymm ((Decimal.le_iff_of_steps hread hm).mpr le_rfl)
      ((Decimal.le_iff_of_steps hm hread).mpr le_rfl)

/-- **Random decimals agree with random integers.** For bounds that are whole numbers of steps at
the precision, the random decimal and the random integer of any size between the numbers of steps
take equally many bytes, and each block gives the same number to both when the decimal is counted in
steps. So the decimals are all those with the precision from one bound to the other, and neither
rounding nor clamping changes any of them. -/
theorem agrees_with_bigInteger (hprecision : precision ≤ DecimalWindow.maxPrecision)
    (hlt : min < max) (hmin : min.toRat * 10 ^ precision = a)
    (hmax : max.toRat * 10 ^ precision = b) :
    ∃ w r v, DecimalWindow.make? min max = .ok w ∧ make? w precision = .ok r ∧
      Window.ofIntegers? a b = .ok v ∧
      r.required = RandomBigInteger.required ⟨v⟩ ∧
      (∀ input block, block.length = r.required → ∃ d n,
        (Request.randomDecimal input none : Request (.randomDecimal r)).Gives block
          (.ok (.decimal d)) ∧
        (Request.randomBigInteger input none : Request (.randomBigInteger ⟨v⟩)).Gives block
          (.ok (.decimal (Decimal.ofInt n))) ∧
        d.toRat * 10 ^ precision = n) ∧
      (∀ input, {x | ∃ d, .ok (.decimal d) ∈
            (Request.randomDecimal input none : Request (.randomDecimal r)).results ∧ d.toRat = x} =
          {x | min.toRat ≤ x ∧ x ≤ max.toRat ∧ ∃ m : ℤ, x * 10 ^ precision = m}) ∧
      ∀ block, block.length = r.required →
        let sum := min + ⟨Bytes.toNatBE block, precision⟩ % r.window.width
        (r.window.round sum).toRat = sum.toRat ∧ r.read none block = r.window.round sum := by
  obtain ⟨w, r, v, hw, hr, hv, rfl, rfl, rfl, rfl, rfl, hgrid⟩ :=
    exists_onGrid hprecision hlt hmin hmax
  have hlength : r.required = RandomBigInteger.required ⟨v⟩ := hgrid.byteLength_eq
  refine ⟨w, r, v, hw, hr, hv, hlength, fun input block hblock => ?_,
    r.toRat_results hgrid, fun block _ => ?_⟩
  · have hread := hgrid.fold_counts (Decimal.counts_mk (Bytes.toNatBE block) r.precision)
    refine ⟨r.read none block, v.foldInteger (Bytes.toNatBE block), ?_, ?_, hread⟩
    · exact Request.gives_outcome _ hblock
    · exact Request.gives_outcome _ (hblock.trans hlength)
  · have hv := Decimal.counts_mk (Bytes.toNatBE block) r.precision
    exact ⟨hgrid.toRat_round (hgrid.sum_counts hv), hgrid.fold_eq hv⟩

/-- From 0.00000 to 2.550 there are 256 steps of one hundredth, one more than a byte can tell. -/
theorem agrees_with_bigInteger_at_byte :
    2 ≤ DecimalWindow.maxPrecision ∧ (⟨0, 5⟩ : Decimal) < ⟨2550, 3⟩ ∧
      Decimal.toRat ⟨0, 5⟩ * 10 ^ 2 = (0 : Int) ∧
      Decimal.toRat ⟨2550, 3⟩ * 10 ^ 2 = (255 : Int) ∧
      ∃ w r v, DecimalWindow.make? ⟨0, 5⟩ ⟨2550, 3⟩ = .ok w ∧ make? w 2 = .ok r ∧
        Window.ofIntegers? 0 255 = .ok v ∧ r.required = RandomBigInteger.required ⟨v⟩ := by
  have hmin : Decimal.toRat ⟨0, 5⟩ * 10 ^ 2 = (0 : Int) := by norm_num [Decimal.toRat]
  have hmax : Decimal.toRat ⟨2550, 3⟩ * 10 ^ 2 = (255 : Int) := by norm_num [Decimal.toRat]
  obtain ⟨w, r, v, hw, hr, hv, hrequired, -⟩ :=
    agrees_with_bigInteger (by decide : 2 ≤ DecimalWindow.maxPrecision) (by decide) hmin hmax
  exact ⟨by decide, by decide, hmin, hmax, w, r, v, hw, hr, hv, hrequired⟩

end RandomDecimal

end ColumnMask
