import Mathlib
import ColumnMask.Proofs.Override

/-!
# Folding and confining decimals

The two ways to bring a decimal into a window.
-/

namespace ColumnMask

/-!
## Folding decimals

Folding counts a number up from the lower bound of a window and starts over after the width. What
comes of it depends on the numbers alone, and not on the scales that they are written with.

- `Decimal.mod_eq_lift`: the remainder, from a division that is cut toward zero.
- `DecimalWindow.counted`: what is counted up to, before it is rounded and brought into the window.
- `DecimalWindow.counted_add_width`, `DecimalWindow.counted_eq_iff`: it is the same for numbers that
  are whole widths apart, and the only number within a width of the lower bound that is.
- `DecimalWindow.Same.fold`: the same numbers are folded to the same number.
- `DecimalWindow.fold_exact`: what folding gives, with digits and without.
-/

/-! ### Remainders -/

/-- The remainder of a division that is cut toward zero is lifted by the divisor where it is
negative. -/
theorem Decimal.emod_eq_lift_tmod (u : Int) {n : Int} (hn : 0 < n) :
    u % n = if u.tmod n < 0 then u.tmod n + n else u.tmod n := by
  have hrest := Int.emod_nonneg u hn.ne'
  have hlt := Int.emod_lt_of_pos u hn
  have htmod := Int.tmod_eq_emod (a := u) (b := n)
  by_cases hcut : 0 ≤ u ∨ n ∣ u
  · rw [if_pos hcut] at htmod
    rw [if_neg (by omega)]
    omega
  · rw [if_neg hcut] at htmod
    rw [if_pos (by omega)]
    omega

namespace Decimal

/-- What a division that is cut toward zero leaves; it has the sign of the first number. -/
def cutRemainder (a b : Decimal) : Decimal :=
  let scale := max a.scale b.scale
  ⟨(a.unitsAt scale).tmod (b.unitsAt scale), scale⟩

/-- A negative remainder is lifted by the divisor. -/
theorem mod_eq_lift (a : Decimal) {b : Decimal} (hb : 0 < b.toRat) :
    a % b =
      if (a.cutRemainder b).coefficient < 0 then a.cutRemainder b + b else a.cutRemainder b := by
  have hunits : 0 < b.unitsAt (max a.scale b.scale) := by
    rw [← unitsAt_mul (le_max_right a.scale b.scale)] at hb
    exact_mod_cast pos_of_mul_pos_left hb (ten_zpow_pos _).le
  have hlift := emod_eq_lift_tmod (a.unitsAt (max a.scale b.scale)) hunits
  -- the remainder is at the finer scale already
  have hscale : max (max a.scale b.scale) b.scale = max a.scale b.scale := by omega
  have hcut : (a.cutRemainder b).unitsAt (max a.scale b.scale) = (a.cutRemainder b).coefficient :=
    unitsAt_self (a.cutRemainder b)
  have hsum : a.cutRemainder b + b = ⟨(a.cutRemainder b).coefficient +
      b.unitsAt (max a.scale b.scale), max a.scale b.scale⟩ := by
    show (⟨(a.cutRemainder b).unitsAt (max (max a.scale b.scale) b.scale) +
      b.unitsAt (max (max a.scale b.scale) b.scale), max (max a.scale b.scale) b.scale⟩ : Decimal) =
        _
    rw [hscale, hcut]
  rw [hsum]
  show (⟨a.unitsAt (max a.scale b.scale) % b.unitsAt (max a.scale b.scale), _⟩ : Decimal) = _
  rw [hlift]
  unfold cutRemainder
  dsimp only
  split_ifs
  · rfl
  · rfl

end Decimal

namespace DecimalWindow

variable {w w' : DecimalWindow} {precision : Nat} {u v : Decimal}

/-! ### Counting up -/

/-- The number that is counted up to from the lower bound, starting over after the width. -/
def counted (w : DecimalWindow) (v : Decimal) : ℚ :=
  w.min.toRat + w.width.toRat * Int.fract (v.toRat / w.width.toRat)

theorem toRat_sum (w : DecimalWindow) (v : Decimal) :
    (w.min + v % w.width).toRat = w.counted v := by
  have hwidth := w.width_pos
  rw [Decimal.toRat_add, Decimal.toRat_mod v hwidth, counted, Int.fract, mul_sub,
    mul_div_cancel₀ _ hwidth.ne']

/-- Whole widths do not count. -/
theorem counted_add_width {k : ℤ} (h : u.toRat = v.toRat + k * w.width.toRat) :
    w.counted u = w.counted v := by
  rw [counted, counted, h, add_div, mul_div_cancel_right₀ _ w.width_pos.ne',
    Int.fract_add_intCast]

/-- It is the one number within a width of the lower bound that is whole widths away from the
sum. -/
theorem counted_eq_iff {q : ℚ} :
    w.counted v = q ↔ (w.min.toRat ≤ q ∧ q < w.min.toRat + w.width.toRat) ∧
      ∃ k : ℤ, q = w.min.toRat + v.toRat + k * w.width.toRat := by
  have hwidth := w.width_pos
  -- what lies above the lower bound is a fractional part of widths
  have hshare : w.counted v = q ↔
      Int.fract (v.toRat / w.width.toRat) = (q - w.min.toRat) / w.width.toRat := by
    rw [counted, eq_div_iff hwidth.ne', eq_sub_iff_add_eq, mul_comm, add_comm]
  rw [hshare, Int.fract_eq_iff, le_div_iff₀ hwidth, zero_mul, div_lt_one hwidth, sub_nonneg,
    sub_lt_iff_lt_add', ← and_assoc]
  refine and_congr_right fun _ => ?_
  -- the number of widths changes its sign
  constructor
  · rintro ⟨k, hk⟩
    refine ⟨-k, ?_⟩
    rw [← sub_div, div_eq_iff hwidth.ne'] at hk
    push_cast
    linarith
  · rintro ⟨k, hk⟩
    refine ⟨-k, ?_⟩
    rw [← sub_div, div_eq_iff hwidth.ne']
    push_cast
    linarith

/-! ### The same numbers -/

theorem Same.toRat_width (h : w.Same w') : w.width.toRat = w'.width.toRat := by
  rw [DecimalWindow.toRat_width, DecimalWindow.toRat_width, Decimal.same_iff_toRat.mp h.min,
    Decimal.same_iff_toRat.mp h.max, h.precision]

theorem Same.round (h : w.Same w') (hsame : u.Same v) : (w.round u).Same (w'.round v) := by
  unfold DecimalWindow.round
  rw [h.precision]
  cases w'.precision with
  | none => exact hsame
  | some p => exact hsame.roundTo p

/-- What is folded depends on what is counted up to. -/
theorem Same.fold_of_counted (h : w.Same w') (hcounted : w.counted u = w'.counted v) :
    (w.fold u).Same (w'.fold v) := by
  have hsum : (w.min + u % w.width).Same (w'.min + v % w'.width) := by
    rw [Decimal.same_iff_toRat, toRat_sum, toRat_sum, hcounted]
  exact h.clamp (h.round hsum)

/-- **The same numbers** are folded to the same number, whatever their scales. -/
theorem Same.fold (h : w.Same w') (hsame : u.Same v) : (w.fold u).Same (w'.fold v) := by
  refine h.fold_of_counted ?_
  rw [counted, counted, h.toRat_width, Decimal.same_iff_toRat.mp h.min,
    Decimal.same_iff_toRat.mp hsame]

/-! ### Rounding -/

/-- Without digits the fold is what is counted up to. -/
theorem toRat_fold_of_none (hprecision : w.precision = none) (v : Decimal) :
    (w.fold v).toRat = w.counted v := by
  have hlt : w.counted v < w.max.toRat := by
    obtain ⟨⟨-, hlt⟩, -⟩ := counted_eq_iff.mp (rfl : w.counted v = w.counted v)
    rwa [min_add_width, hprecision, Option.elim_none, add_zero] at hlt
  have hround : w.round (w.min + v % w.width) = w.min + v % w.width := by
    rw [DecimalWindow.round, hprecision]
  have hhigh : w.min + v % w.width ≤ w.max := by
    rw [Decimal.le_iff_toRat, toRat_sum]
    exact hlt.le
  rw [DecimalWindow.fold, hround, clamp_of_mem (w.min_le_sum v) hhigh, toRat_sum]

section Digits

variable (hprecision : w.precision = some precision)
include hprecision

/-- Below an upper bound with few digits the fold is at most half a step away. -/
theorem abs_fold_sub_counted_le (hmin : w.min.Fits precision) (hmax : w.max.Fits precision)
    (hlt : w.counted v < w.max.toRat) :
    |(w.fold v).toRat - w.counted v| ≤ (Decimal.step precision).toRat / 2 := by
  have hsum : w.min + v % w.width ≤ w.max := by
    rw [Decimal.le_iff_toRat, toRat_sum]
    exact hlt.le
  rw [fold_of_precision hprecision,
    clamp_of_mem (hmin.le_roundTo (w.min_le_sum v)) (hmax.roundTo_le hsum), ← toRat_sum]
  exact Decimal.abs_toRat_roundTo_sub_le _ _

/-- At an upper bound with few digits and beyond it the fold is this bound. -/
theorem fold_same_max (hmax : w.max.Fits precision) (hle : w.max.toRat ≤ w.counted v) :
    (w.fold v).Same w.max := by
  have hsum : w.max ≤ w.min + v % w.width := by
    rw [Decimal.le_iff_toRat, toRat_sum]
    exact hle
  rw [fold_of_precision hprecision]
  exact w.clamp_same_max (hmax.le_roundTo hsum)

/-- Between bounds with few digits the fold has few digits. -/
theorem fold_fits (hmin : w.min.Fits precision) (hmax : w.max.Fits precision) (v : Decimal) :
    (w.fold v).Fits precision := by
  rw [fold_of_precision hprecision]
  exact w.clamp_roundTo_fits (hmin.le_roundTo (w.min_le_sum v)) hmax

end Digits

/-! ### What folding gives -/

/-- **Folding is exact.** The result lies in the window and stays the same when whole widths are
added. Without digits it is the one number from the lower bound on and below the upper one that is
whole widths away from the sum of the lower bound and the number. With digits that fit the bounds it
has no more of them; it is half a step at most from what is counted up to where that is below the
upper bound, and the upper bound where it is not. Only the numbers matter and not their scales, and
a division that is cut toward zero does as well if its remainder is lifted where it is negative. -/
theorem fold_exact (w : DecimalWindow) (v : Decimal) :
    (w.min ≤ w.fold v ∧ w.fold v ≤ w.max) ∧
    (∀ k : ℤ, (w.fold (v + Decimal.ofInt k * w.width)).Same (w.fold v)) ∧
    (w.precision = none → ∀ q : ℚ, (w.fold v).toRat = q ↔
      (w.min.toRat ≤ q ∧ q < w.max.toRat) ∧
        ∃ k : ℤ, q = w.min.toRat + v.toRat + k * (w.max.toRat - w.min.toRat)) ∧
    (∀ p, w.precision = some p → w.min.Fits p → w.max.Fits p →
      (w.fold v).Fits p ∧
      (w.counted v < w.max.toRat →
        |(w.fold v).toRat - w.counted v| ≤ (10 : ℚ) ^ (-(p : ℤ)) / 2) ∧
      (w.max.toRat ≤ w.counted v → (w.fold v).Same w.max)) ∧
    (∀ (w' : DecimalWindow) (v' : Decimal), w'.Same w → v'.Same v →
      (w'.fold v').Same (w.fold v)) ∧
    w.fold v = w.window.clamp (w.round (w.min +
      if (v.cutRemainder w.width).coefficient < 0 then v.cutRemainder w.width + w.width
      else v.cutRemainder w.width)) := by
  refine ⟨?_, fun k => ?_, fun hprecision q => ?_, fun p hprecision hmin hmax => ⟨?_, ?_, ?_⟩, ?_,
    ?_⟩
  · rw [Decimal.le_iff_toRat, Decimal.le_iff_toRat]
    exact w.fold_mem v
  · -- a whole number of widths leaves no remainder
    refine (Same.refl w).fold_of_counted (counted_add_width (k := k) ?_)
    rw [Decimal.toRat_add, Decimal.toRat_mul, Decimal.toRat_ofInt]
  · -- without a precision the width is the distance of the bounds and nothing is rounded
    have hwidth : w.width.toRat = w.max.toRat - w.min.toRat := by
      rw [toRat_width, hprecision, Option.elim_none, add_zero]
    rw [toRat_fold_of_none hprecision, counted_eq_iff, hwidth, add_sub_cancel]
  · exact fold_fits hprecision hmin hmax v
  · intro hlt
    rw [← Decimal.toRat_step]
    exact abs_fold_sub_counted_le hprecision hmin hmax hlt
  · exact fold_same_max hprecision hmax
  · intro w' v' hw hv
    exact hw.fold hv
  · -- the remainder that goes with the sign of its number is lifted where it is negative
    rw [← Decimal.mod_eq_lift v w.width_pos]
    rfl

theorem le_of_mem_none : ∀ p ∈ (none : Option Nat), p ≤ maxPrecision := by simp

/-- From ten to twenty. -/
def tens : DecimalWindow := ⟨⟨⟨10, 0⟩, ⟨20, 0⟩, by decide⟩, none, le_of_mem_none⟩

/-- From zero to one, with two digits. -/
def cents : DecimalWindow := ⟨⟨⟨0, 0⟩, ⟨1, 0⟩, by decide⟩, some 2, le_of_mem_some (by decide)⟩

/-- Minus three comes round to seventeen; five thousandths below zero come round to one. -/
theorem fold_exact_comesRound :
    (tens.fold ⟨-30, 1⟩).toRat = 17 ∧ (cents.fold ⟨-5, 3⟩).Same cents.max := by
  constructor
  · refine ((fold_exact tens ⟨-30, 1⟩).2.2.1 rfl 17).mpr ⟨⟨?_, ?_⟩, 1, ?_⟩
    · norm_num [tens, min, Decimal.toRat]
    · norm_num [tens, max, Decimal.toRat]
    · norm_num [tens, min, max, Decimal.toRat]
  · have hmin : cents.min.Fits 2 := ⟨0, by norm_num [Decimal.Counts, cents, min, Decimal.toRat]⟩
    have hmax : cents.max.Fits 2 := ⟨100, by norm_num [Decimal.Counts, cents, max, Decimal.toRat]⟩
    refine ((fold_exact cents ⟨-5, 3⟩).2.2.2.1 2 rfl hmin hmax).2.2 ?_
    rw [← toRat_sum, ← Decimal.le_iff_toRat]
    decide +kernel

end DecimalWindow

/-!
## Confining decimals

A number outside a window becomes the nearer bound. A number inside is rounded, and brought back to
the bound if rounding has led across it. Neither step reverses the order of two numbers, and in a
number that was confined once nothing is left to be rounded where the bounds have few digits.

- `DecimalWindow.toRat_clamp`: bringing into a window as a maximum and a minimum.
- `DecimalWindow.confine_cases`: the three outcomes.
- `DecimalWindow.confine_mono`: the order is kept.
- `DecimalWindow.exists_confine_eq`: the nearest number of steps, halves away from zero.
- `DecimalWindow.confine_confine`: confining twice is confining once.
- `DecimalWindow.confine_laws`: all of it, for every window.
-/

namespace DecimalWindow

variable {w : DecimalWindow} {precision : Nat} {u v : Decimal}

/-! ### Bringing into the window -/

theorem toRat_clamp (w : DecimalWindow) (d : Decimal) :
    (w.window.clamp d).toRat = Max.max w.min.toRat (Min.min w.max.toRat d.toRat) := by
  have hbounds := w.min_lt_max
  rcases w.clamp_cases d with ⟨hlow, h⟩ | ⟨hhigh, h⟩ | ⟨hlow, hhigh, h⟩
  · rw [Decimal.lt_iff_toRat] at hlow
    rw [h, max_eq_left ((min_le_right _ _).trans hlow.le)]
  · rw [Decimal.lt_iff_toRat] at hhigh
    rw [h, min_eq_left hhigh.le, max_eq_right hbounds.le]
  · rw [Decimal.le_iff_toRat] at hlow hhigh
    rw [h, min_eq_right hhigh, max_eq_right hlow]

theorem clamp_mono (h : u ≤ v) : w.window.clamp u ≤ w.window.clamp v := by
  rw [Decimal.le_iff_toRat] at h ⊢
  rw [toRat_clamp, toRat_clamp]
  exact max_le_max_left _ (min_le_min_left _ h)

/-- What is brought into the window comes no further away from the numbers in it. -/
theorem abs_clamp_sub_le (hlow : w.min ≤ v) (hhigh : v ≤ w.max) (d : Decimal) :
    |(w.window.clamp d).toRat - v.toRat| ≤ |d.toRat - v.toRat| := by
  rw [Decimal.le_iff_toRat] at hlow hhigh
  rcases w.clamp_cases d with ⟨hbelow, h⟩ | ⟨habove, h⟩ | ⟨-, -, h⟩
  · rw [Decimal.lt_iff_toRat] at hbelow
    rw [h, abs_of_nonpos (by linarith), abs_of_nonpos (by linarith)]
    linarith
  · rw [Decimal.lt_iff_toRat] at habove
    rw [h, abs_of_nonneg (by linarith), abs_of_nonneg (by linarith)]
    linarith
  · rw [h]

/-! ### Confining -/

theorem round_mono (h : u ≤ v) : w.round u ≤ w.round v := by
  unfold round
  cases w.precision with
  | none => exact h
  | some p => exact Decimal.roundTo_mono h p

/-- A number outside becomes the nearer bound; one inside is rounded and brought back. -/
theorem confine_cases (w : DecimalWindow) (v : Decimal) :
    v < w.min ∧ w.confine v = w.min ∨ w.max < v ∧ w.confine v = w.max ∨
      w.min ≤ v ∧ v ≤ w.max ∧ w.confine v = w.window.clamp (w.round v) := by
  rcases w.clamp_cases v with ⟨hlow, -⟩ | ⟨hhigh, -⟩ | ⟨hlow, hhigh, hclamp⟩
  · exact .inl ⟨hlow, if_pos hlow⟩
  · have hlow : ¬ v < w.min := by
      have hbounds := w.min_lt_max
      rw [Decimal.lt_iff_toRat] at hhigh ⊢
      linarith
    exact .inr (.inl ⟨hhigh, (if_neg hlow).trans (if_pos hhigh)⟩)
  · -- inside the window no bound replaces the number
    refine .inr (.inr ⟨hlow, hhigh, ?_⟩)
    unfold confine round
    rw [if_neg (Decimal.not_lt_iff_le.mpr hlow), if_neg (Decimal.not_lt_iff_le.mpr hhigh)]
    cases w.precision with
    | none => exact hclamp.symm
    | some p => rfl

theorem confine_of_mem (hlow : w.min ≤ v) (hhigh : v ≤ w.max) :
    w.confine v = w.window.clamp (w.round v) := by
  rcases w.confine_cases v with ⟨hlt, -⟩ | ⟨hlt, -⟩ | ⟨-, -, h⟩
  · exact absurd hlt (Decimal.not_lt_iff_le.mpr hlow)
  · exact absurd hlt (Decimal.not_lt_iff_le.mpr hhigh)
  · exact h

theorem min_le_confine (w : DecimalWindow) (v : Decimal) : w.min ≤ w.confine v :=
  Decimal.le_iff_toRat.mpr (w.confine_mem v).1

theorem confine_le_max (w : DecimalWindow) (v : Decimal) : w.confine v ≤ w.max :=
  Decimal.le_iff_toRat.mpr (w.confine_mem v).2

/-- **The order is kept**. -/
theorem confine_mono (h : u ≤ v) : w.confine u ≤ w.confine v := by
  -- where the smaller number lies leaves few places for the larger one
  rcases w.confine_cases u with ⟨-, hu⟩ | ⟨hlt, hu⟩ | ⟨hlow, -, hu⟩
  · rw [hu]
    exact w.min_le_confine v
  · -- the larger number is beyond the upper bound as well
    rcases w.confine_cases v with ⟨hlow, -⟩ | ⟨-, hv⟩ | ⟨-, hhigh, -⟩
    · have hbounds := w.min_lt_max
      rw [Decimal.lt_iff_toRat] at hlt hlow
      rw [Decimal.le_iff_toRat] at h
      linarith
    · rw [hu, hv]
      exact Decimal.le_iff_toRat.mpr le_rfl
    · exact absurd hlt (Decimal.not_lt_iff_le.mpr (Decimal.le_trans h hhigh))
  · rcases w.confine_cases v with ⟨hlt, -⟩ | ⟨-, hv⟩ | ⟨-, -, hv⟩
    · exact absurd hlt (Decimal.not_lt_iff_le.mpr (Decimal.le_trans hlow h))
    · rw [hv]
      exact w.confine_le_max u
    · rw [hu, hv]
      exact clamp_mono (round_mono h)

/-- Without digits a number of the window stays as it is. -/
theorem confine_of_none (hprecision : w.precision = none) (hlow : w.min ≤ v) (hhigh : v ≤ w.max) :
    w.confine v = v := by
  rw [confine_of_mem hlow hhigh, round, hprecision, clamp_of_mem hlow hhigh]

section Digits

variable (hprecision : w.precision = some precision)
include hprecision

theorem round_of_some (v : Decimal) : w.round v = v.roundTo precision := by
  rw [round, hprecision]

/-- A number of the window is moved by half a step at most. -/
theorem abs_confine_sub_le (hlow : w.min ≤ v) (hhigh : v ≤ w.max) :
    |(w.confine v).toRat - v.toRat| ≤ (Decimal.step precision).toRat / 2 := by
  rw [confine_of_mem hlow hhigh, round_of_some hprecision]
  exact (abs_clamp_sub_le hlow hhigh _).trans (Decimal.abs_toRat_roundTo_sub_le v precision)

/-- It becomes the nearest number of steps, the one further away from zero where two are equally
near, as far as that is in the window. -/
theorem exists_confine_eq (hlow : w.min ≤ v) (hhigh : v ≤ w.max) :
    ∃ n : ℤ, |v.toRat * 10 ^ precision - n| ≤ 1 / 2 ∧
      (|v.toRat * 10 ^ precision - n| = 1 / 2 → |v.toRat * 10 ^ precision| < |(n : ℚ)|) ∧
      (w.confine v).toRat =
        Max.max w.min.toRat (Min.min w.max.toRat (n * (10 : ℚ) ^ (-(precision : ℤ)))) := by
  refine ⟨roundAway (v.toRat * 10 ^ precision), abs_sub_roundAway _, roundAway_tie, ?_⟩
  rw [confine_of_mem hlow hhigh, round_of_some hprecision, toRat_clamp,
    Decimal.counts_iff.mp (v.counts_roundTo precision)]

end Digits

/-- **Confining twice** is confining once, if the bounds have few digits where digits are set. -/
theorem confine_confine (hfits : ∀ p, w.precision = some p → w.min.Fits p ∧ w.max.Fits p)
    (v : Decimal) : (w.confine (w.confine v)).Same (w.confine v) := by
  have hlow := w.min_le_confine v
  have hhigh := w.confine_le_max v
  cases hprecision : w.precision with
  | none =>
    rw [confine_of_none hprecision hlow hhigh]
    exact .refl _
  | some p =>
    have hround := ((confine_fits_iff hprecision).mpr (hfits p hprecision) v).roundTo_same
    rw [confine_of_mem hlow hhigh, round_of_some hprecision]
    refine (w.clamp_same hround).trans ?_
    rw [clamp_of_mem hlow hhigh]
    exact .refl _

/-! ### What confining gives -/

/-- **The laws of confining.** The order of two numbers is kept, and the results lie in the window.
A number of the window stays as it is without digits; with digits it moves by half a step at most,
to the nearest number of steps and away from zero from half way, except that it does not leave the
window. Confining twice is confining once where no digits are set or the bounds have no more of
them. Only the numbers matter and not their scales. -/
theorem confine_laws (w : DecimalWindow) :
    (∀ u v : Decimal, u ≤ v → w.confine u ≤ w.confine v) ∧
    (∀ v, w.min ≤ w.confine v ∧ w.confine v ≤ w.max) ∧
    (∀ v, w.min ≤ v → v ≤ w.max →
      (w.precision = none → w.confine v = v) ∧
      ∀ p, w.precision = some p →
        |(w.confine v).toRat - v.toRat| ≤ (10 : ℚ) ^ (-(p : ℤ)) / 2 ∧
        ∃ n : ℤ, |v.toRat * 10 ^ p - n| ≤ 1 / 2 ∧
          (|v.toRat * 10 ^ p - n| = 1 / 2 → |v.toRat * 10 ^ p| < |(n : ℚ)|) ∧
          (w.confine v).toRat =
            Max.max w.min.toRat (Min.min w.max.toRat (n * (10 : ℚ) ^ (-(p : ℤ))))) ∧
    ((∀ p, w.precision = some p → w.min.Fits p ∧ w.max.Fits p) →
      ∀ v, (w.confine (w.confine v)).Same (w.confine v)) ∧
    ∀ (w' : DecimalWindow) (v v' : Decimal), w'.Same w → v'.Same v →
      (w'.confine v').Same (w.confine v) := by
  refine ⟨fun u v => confine_mono, fun v => ⟨w.min_le_confine v, w.confine_le_max v⟩, ?_,
    confine_confine, fun w' v v' hw hv => hw.confine hv⟩
  intro v hlow hhigh
  refine ⟨fun hprecision => confine_of_none hprecision hlow hhigh, fun p hprecision => ⟨?_, ?_⟩⟩
  · rw [← Decimal.toRat_step]
    exact abs_confine_sub_le hprecision hlow hhigh
  · exact exists_confine_eq hprecision hlow hhigh

/-- From minus five to five, with one digit. -/
def tenths : DecimalWindow := ⟨⟨⟨-5, 0⟩, ⟨5, 0⟩, by decide⟩, some 1, le_of_mem_some (by decide)⟩

/-- Minus 1.25 is half way between two tenths and becomes minus 1.3, below what 1.25 becomes. -/
theorem confine_laws_halfWay :
    (tenths.confine ⟨-125, 2⟩).toRat = -13 / 10 ∧
      tenths.confine ⟨-125, 2⟩ ≤ tenths.confine ⟨125, 2⟩ ∧
      (tenths.confine (tenths.confine ⟨-125, 2⟩)).Same (tenths.confine ⟨-125, 2⟩) := by
  obtain ⟨hmono, -, hinside, htwice, -⟩ := confine_laws tenths
  refine ⟨?_, hmono _ _ (by decide), htwice ?_ _⟩
  · -- twelve and a half steps below zero: a tie, which goes to minus thirteen
    obtain ⟨n, hnear, htie, hvalue⟩ :=
      ((hinside ⟨-125, 2⟩ (by decide) (by decide)).2 1 rfl).2
    have hsteps : Decimal.toRat ⟨-125, 2⟩ * 10 ^ 1 = -25 / 2 := by norm_num [Decimal.toRat]
    rw [hsteps] at hnear htie
    have hlow : (-13 : ℤ) ≤ n := by
      have hle := (abs_le.mp hnear).2
      have hcast : (-13 : ℚ) ≤ n := by linarith
      exact_mod_cast hcast
    have hhigh : n ≤ -12 := by
      have hle := (abs_le.mp hnear).1
      have hcast : (n : ℚ) ≤ -12 := by linarith
      exact_mod_cast hcast
    obtain rfl | rfl : n = -13 ∨ n = -12 := by omega
    · rw [hvalue]
      norm_num [tenths, min, max, Decimal.toRat]
    · norm_num at htie
  · intro p hp
    obtain rfl : 1 = p := Option.some.inj hp
    exact ⟨Decimal.exists_counts_of_scale_le (by decide),
      Decimal.exists_counts_of_scale_le (by decide)⟩

end DecimalWindow

end ColumnMask
