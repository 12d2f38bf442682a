import Mathlib
import ColumnMask.Proofs.DecimalPrint
import ColumnMask.Transformer.Noise

/-!
# Arithmetic of decimals

Which number the results of operations are, however the operands are written, and how far rounding
takes them.
-/

namespace ColumnMask

/-!
## Noise on the same number

What is done to a decimal depends on the number that it stands for and not on its scale, although
the scale decides whether there is something to round and how far the coefficient is divided.

- `Decimal.Same.add`, `Decimal.Same.mul`, `Decimal.Same.roundTo`: arithmetic and rounding.
- `DecimalWindow.Same.confine`: what windows with the same bounds make of the same number.
- `Agree`: two results that are related, or the same failure.
- `NoiseDecimal.Same.apply_agree`: noise on the same number.
-/

namespace Decimal

variable {a b a' b' : Decimal}

/-! ### Arithmetic -/

theorem toRat_mul (a b : Decimal) : (a * b).toRat = a.toRat * b.toRat := by
  show toRat ⟨a.coefficient * b.coefficient, a.scale + b.scale⟩ = _
  rw [toRat_mk, neg_add, zpow_add₀ (by norm_num), Int.cast_mul, toRat, toRat]
  ring

theorem Same.add (ha : a.Same a') (hb : b.Same b') : (a + b).Same (a' + b') := by
  rw [same_iff_toRat, toRat_add, toRat_add, same_iff_toRat.mp ha, same_iff_toRat.mp hb]

theorem Same.mul (ha : a.Same a') (hb : b.Same b') : (a * b).Same (a' * b') := by
  rw [same_iff_toRat, toRat_mul, toRat_mul, same_iff_toRat.mp ha, same_iff_toRat.mp hb]

theorem Same.lt_iff (ha : a.Same a') (hb : b.Same b') : a < b ↔ a' < b' := by
  rw [lt_iff_toRat, lt_iff_toRat, same_iff_toRat.mp ha, same_iff_toRat.mp hb]

/-! ### Rounding -/

/-- A quotient of scaled numbers is rounded alike. -/
theorem roundQuotient_mul_mul (n : Int) (k : Nat) {c : Nat} (hc : 0 < c) :
    roundQuotient (n * c) (k * c) = roundQuotient n k := by
  have hquotient : (2 * (n.natAbs * c) + k * c) / (2 * (k * c)) = (2 * n.natAbs + k) / (2 * k) := by
    rw [← Nat.mul_div_mul_right (2 * n.natAbs + k) (2 * k) hc, add_mul, mul_assoc, mul_assoc]
  rw [roundQuotient, roundQuotient, Int.sign_mul, Int.sign_natCast_of_ne_zero hc.ne', mul_one,
    Int.natAbs_mul, Int.natAbs_natCast, hquotient]

/-- A number that is not changed by rounding is a whole number of steps. -/
theorem exists_counts_of_scale_le {d : Decimal} {precision : Nat} (h : d.scale ≤ precision) :
    ∃ n, d.Counts precision n := by
  refine ⟨d.unitsAt precision, ?_⟩
  rw [Counts, unitsAt_eq h, zpow_natCast]

theorem Same.counts {precision : Nat} {n : Int} (h : a.Same b) (ha : a.Counts precision n) :
    b.Counts precision n := by
  rw [Counts, ← same_iff_toRat.mp h]
  exact ha

/-- **Rounding** the same number gives the same number, whichever of its digits were zeros. -/
theorem Same.roundTo (h : a.Same b) (precision : Nat) :
    (a.roundTo precision).Same (b.roundTo precision) := by
  -- a number with few digits in one of its forms is not changed in any
  have hfew {c d : Decimal} (hcd : c.Same d) (hscale : c.scale ≤ precision) :
      (c.roundTo precision).Same (d.roundTo precision) := by
    obtain ⟨n, hn⟩ := exists_counts_of_scale_le hscale
    have hd := (hcd.counts hn).roundTo
    rw [same_iff_toRat, counts_iff.mp hn.roundTo, counts_iff.mp hd]
  -- with many digits in both, the longer coefficient and its divisor have the same zeros more
  have hmany {c d : Decimal} (hcd : c.Same d) (hle : c.scale ≤ d.scale) (hc : precision < c.scale) :
      c.roundTo precision = d.roundTo precision := by
    have hdivisor : Nat.pow 10 (d.scale - precision).toNat =
        Nat.pow 10 (c.scale - precision).toNat * 10 ^ (d.scale - c.scale).toNat := by
      show 10 ^ (d.scale - precision).toNat = 10 ^ (c.scale - precision).toNat * _
      rw [← pow_add]
      congr 1
      omega
    have hquotient := roundQuotient_mul_mul c.coefficient (Nat.pow 10 (c.scale - precision).toNat)
      (c := 10 ^ (d.scale - c.scale).toNat) (Nat.pow_pos (by decide))
    rw [Nat.cast_pow, Nat.cast_ofNat] at hquotient
    rw [Decimal.roundTo, Decimal.roundTo, if_neg (by omega), if_neg (by omega),
      hcd.coefficient_eq hle, hdivisor, hquotient]
  rcases le_or_gt a.scale precision with ha | ha
  · exact hfew h ha
  · rcases le_or_gt b.scale precision with hb | hb
    · exact (hfew h.symm hb).symm
    · rcases le_total a.scale b.scale with hle | hle
      · rw [hmany h hle ha]
        exact Same.refl _
      · rw [hmany h.symm hle hb]
        exact Same.refl _

end Decimal

/-! ### Windows -/

namespace DecimalWindow

/-- Two windows with bounds that stand for the same numbers, and the same digits. -/
structure Same (w w' : DecimalWindow) : Prop where
  min : w.min.Same w'.min
  max : w.max.Same w'.max
  precision : w.precision = w'.precision

variable {a b : Decimal} {w w' : DecimalWindow}

theorem Same.refl (w : DecimalWindow) : w.Same w := ⟨.refl _, .refl _, rfl⟩

theorem Same.clamp (hw : w.Same w') (h : a.Same b) :
    (w.window.clamp a).Same (w'.window.clamp b) := by
  have hlow := h.lt_iff hw.min
  have hhigh := hw.max.lt_iff h
  change a < w.window.min ↔ b < w'.window.min at hlow
  change w.window.max < a ↔ w'.window.max < b at hhigh
  simp only [Window.clamp, hlow, hhigh]
  split_ifs
  · exact hw.min
  · exact hw.max
  · exact h

/-- **Windows with the same bounds** make the same number of the same number. -/
theorem Same.confine (hw : w.Same w') (h : a.Same b) : (w.confine a).Same (w'.confine b) := by
  have hlow := h.lt_iff hw.min
  have hhigh := hw.max.lt_iff h
  simp only [DecimalWindow.confine, hlow, hhigh, hw.precision]
  split_ifs
  · exact hw.min
  · exact hw.max
  · cases w'.precision with
    | none => exact h
    | some p => exact hw.clamp (h.roundTo p)

variable (w)

theorem clamp_same (h : a.Same b) : (w.window.clamp a).Same (w.window.clamp b) :=
  (Same.refl w).clamp h

end DecimalWindow

/-! ### Noise -/

/-- Two results that are related, or the same failure. -/
inductive Agree {ε α : Type} (related : α → α → Prop) : Except ε α → Except ε α → Prop where
  | ok {a b : α} (h : related a b) : Agree related (.ok a) (.ok b)
  | error (e : ε) : Agree related (.error e) (.error e)

theorem Agree.refl {ε α : Type} {related : α → α → Prop} (h : ∀ a, related a a) (x : Except ε α) :
    Agree related x x := by
  cases x with
  | ok a => exact .ok (h a)
  | error e => exact .error e

namespace NoiseDecimal

/-- The same ratios, and windows with bounds that stand for the same numbers. -/
structure Same (noise noise' : NoiseDecimal) : Prop where
  ratio : noise.ratio = noise'.ratio
  window : Option.Rel DecimalWindow.Same noise.window noise'.window

variable {noise noise' : NoiseDecimal} {window window' : Option DecimalWindow} {a b : Decimal}

theorem Same.refl (noise : NoiseDecimal) : noise.Same noise where
  ratio := rfl
  window := by
    cases noise.window with
    | none => exact .none
    | some w => exact .some (.refl w)

/-- The windows of the calls take the places of the windows of the rules. -/
theorem Same.or_window (h : noise.Same noise')
    (hwindow : Option.Rel DecimalWindow.Same window window') :
    Option.Rel DecimalWindow.Same (window.or noise.window) (window'.or noise'.window) := by
  cases hwindow with
  | none => exact h.window
  | some hw => exact .some hw

/-- **Noise** on the same number gives the same number, or fails in the same way. -/
theorem Same.apply_agree (hnoise : noise.Same noise')
    (hwindow : Option.Rel DecimalWindow.Same window window') (h : a.Same b) (block : Bytes) :
    Agree Decimal.Same (noise.apply window a block) (noise'.apply window' b block) := by
  have hgiven := hnoise.or_window hwindow
  unfold apply
  rw [hnoise.ratio]
  dsimp only
  -- both decimals get the same multiplier
  cases Decimal.parse? (Binary64.text (noise'.ratio.multiplier block)) with
  | none => exact .error _
  | some m =>
    have hnoised : (a + a * m).Same (b + b * m) := h.add (h.mul (.refl m))
    dsimp only
    generalize window.or noise.window = given at hgiven ⊢
    generalize window'.or noise'.window = given' at hgiven ⊢
    cases hgiven with
    | none => exact .ok hnoised
    | some hw => exact .ok (hw.confine hnoised)

end NoiseDecimal

/-!
## Rounding of decimals

Rounding a decimal to a number of digits after the point rounds the number, counted in steps of the
last digit that is kept, to the nearest whole one.

- `roundAway`: the nearest integer to a rational number, halves away from zero. It is at most one
  half away, it is monotone, and counting up by whole numbers does not make it fall back.
- `Decimal.counts_roundTo`: `roundTo` rounds the number of steps in this way.
- `Decimal.abs_toRat_roundTo_sub_le`, `Decimal.roundTo_mono`, `Decimal.Fits.roundTo_same`: so it
  moves a number by half a step at most, it is monotone, and numbers with few enough digits are left
  as they are.
- `Decimal.Fits.exists_le`: a number with few enough digits has one above it, nearer than a step,
  that fits another precision too.
- `Decimal.truncatedUnits_eq_floor`: the coefficient of a number that is cut off.
-/

/-! ### Rational numbers -/

/-- The nearest integer, halves away from zero. -/
def roundAway (q : ℚ) : ℤ := if 0 ≤ q then round q else -round (-q)

section RoundAway

variable {p q : ℚ}

theorem roundAway_of_nonneg (h : 0 ≤ q) : roundAway q = round q := if_pos h

theorem roundAway_of_neg (h : q < 0) : roundAway q = -round (-q) := if_neg (not_le.mpr h)

theorem roundAway_intCast (n : ℤ) : roundAway n = n := by
  unfold roundAway
  rw [← Int.cast_neg, round_intCast, round_intCast, neg_neg, ite_self]

theorem abs_sub_roundAway (q : ℚ) : |q - roundAway q| ≤ 1 / 2 := by
  rcases le_or_gt 0 q with hq | hq
  · rw [roundAway_of_nonneg hq]
    exact abs_sub_round q
  · have hopposite : q - roundAway q = -(-q - round (-q)) := by
      rw [roundAway_of_neg hq, Int.cast_neg]
      ring
    rw [hopposite, abs_neg]
    exact abs_sub_round (-q)

/-- An integer that is one half away at most is exceeded only by the next one, and only if both are
equally near. So rounding is monotone. -/
theorem roundAway_mono (h : p ≤ q) : roundAway p ≤ roundAway q := by
  by_contra hlt
  have hstep : (roundAway q : ℚ) + 1 ≤ roundAway p := by
    exact_mod_cast Int.add_one_le_iff.mpr (not_le.mp hlt)
  have hp := abs_le.mp (abs_sub_roundAway p)
  have hq := abs_le.mp (abs_sub_roundAway q)
  have heq : p = q := by linarith
  exact hlt (heq ▸ le_refl _)

/-- A number half way between two integers goes to the one further away from zero. -/
theorem roundAway_tie (h : |q - roundAway q| = 1 / 2) : |q| < |(roundAway q : ℚ)| := by
  -- the nearest integer is never one half below
  have habove (r : ℚ) : r - 1 / 2 < round r := by
    have hfloor := Int.sub_one_lt_floor (r + 1 / 2)
    rw [round_eq]
    linarith
  -- on either side of zero a tie goes to the integer that is farther out
  rcases le_or_gt 0 q with hq | hq
  · rw [roundAway_of_nonneg hq] at h ⊢
    have hround := habove q
    rcases (abs_eq (by norm_num)).mp h with h | h
    · linarith
    · rw [abs_of_nonneg hq, abs_of_nonneg (by linarith)]
      linarith
  · rw [roundAway_of_neg hq, Int.cast_neg] at h ⊢
    have hround := habove (-q)
    rcases (abs_eq (by norm_num)).mp h with h | h
    · rw [abs_of_neg hq, abs_of_nonpos (by linarith)]
      linarith
    · linarith

/-- Halves are rounded up at least as far as away from zero. -/
theorem neg_round_neg_le (q : ℚ) : -round (-q) ≤ round q := by
  have hceil : -round (-q) = ⌈q - 1 / 2⌉ := by
    rw [round_eq, ← Int.ceil_neg]
    congr 1
    ring
  have hfloor : round q = ⌊q - 1 / 2⌋ + 1 := by
    rw [round_eq, ← Int.floor_add_one]
    congr 1
    ring
  rw [hceil, hfloor]
  exact Int.ceil_le_floor_add_one _

/-- Counting up does not make rounding fall back. It gains one where a half below zero becomes a
half above. -/
theorem roundAway_add_le (q : ℚ) (n : ℕ) : roundAway q + n ≤ roundAway (q + n) := by
  have hn : (0 : ℚ) ≤ n := Nat.cast_nonneg n
  rcases le_or_gt 0 q with hq | hq
  · rw [roundAway_of_nonneg hq, roundAway_of_nonneg (by linarith), round_add_natCast]
  · rw [roundAway_of_neg hq]
    rcases le_or_gt 0 (q + n) with hsum | hsum
    · rw [roundAway_of_nonneg hsum, round_add_natCast]
      exact Int.add_le_add_right (neg_round_neg_le q) n
    · rw [roundAway_of_neg hsum, neg_add', round_sub_natCast]
      omega

end RoundAway

namespace Decimal

variable {a b d : Decimal} {precision : Nat} {n : Int}

/-! ### Rounding quotients -/

/-- The quotient of a natural number, to which one half is added, is cut off. -/
theorem round_div (k : ℕ) {m : ℕ} (hm : 0 < m) :
    round ((k : ℚ) / m) = ((2 * k + m) / (2 * m) : ℕ) := by
  have hhalf : (k : ℚ) / m + 1 / 2 = ((2 * k + m : ℕ) : ℤ) / (2 * m : ℕ) := by
    have hpos : (m : ℚ) ≠ 0 := by exact_mod_cast hm.ne'
    push_cast
    field_simp
  rw [round_eq, hhalf, Rat.floor_intCast_div_natCast]
  norm_cast

theorem roundQuotient_eq (n : Int) {m : ℕ} (hm : 0 < m) :
    roundQuotient n m = roundAway (n / m) := by
  have hpos : (0 : ℚ) < m := by exact_mod_cast hm
  unfold roundQuotient
  rcases le_or_gt 0 n with hn | hn
  · -- half a divisor more, and the quotient is the nearest integer
    obtain ⟨k, rfl⟩ := Int.eq_ofNat_of_zero_le hn
    rw [roundAway_of_nonneg (by positivity), Int.cast_natCast, round_div k hm, Int.natAbs_natCast]
    rcases Nat.eq_zero_or_pos k with rfl | hk
    · rw [Nat.mul_zero, Nat.zero_add, Nat.div_eq_of_lt (by omega)]
      rfl
    · rw [Int.sign_natCast_of_ne_zero hk.ne', one_mul]
  · -- below zero the magnitude is rounded
    obtain ⟨k, rfl⟩ : ∃ k : ℕ, n = -k := ⟨n.natAbs, by omega⟩
    have hneg : ((-k : Int) : ℚ) / m < 0 := div_neg_of_neg_of_pos (by exact_mod_cast hn) hpos
    rw [roundAway_of_neg hneg, Int.cast_neg, Int.cast_natCast, neg_div, neg_neg, round_div k hm,
      Int.natAbs_neg, Int.natAbs_natCast, Int.sign_eq_neg_one_of_neg hn, neg_one_mul]

/-! ### Rounding decimals -/

/-- The number needs no more digits after the point. -/
def Fits (d : Decimal) (precision : Nat) : Prop := ∃ n, d.Counts precision n

/-- A coefficient with digits that do not fit, as a quotient. -/
theorem coefficient_div (h : (precision : Int) < d.scale) :
    (d.coefficient : ℚ) / (10 ^ (d.scale - precision).toNat : ℕ) = d.toRat * 10 ^ precision := by
  have hexponent : ((d.scale - precision).toNat : Int) = d.scale - precision := by omega
  rw [toRat, Nat.cast_pow, Nat.cast_ofNat, ← zpow_natCast, ← zpow_natCast, hexponent,
    div_eq_mul_inv, ← zpow_neg, mul_assoc, ← zpow_add₀ (by norm_num)]
  congr 2
  ring

/-- **Rounding** takes the nearest number of steps. -/
theorem counts_roundTo (d : Decimal) (precision : Nat) :
    (d.roundTo precision).Counts precision (roundAway (d.toRat * 10 ^ precision)) := by
  by_cases hscale : d.scale ≤ precision
  · obtain ⟨n, hn⟩ := exists_counts_of_scale_le hscale
    have hround := hn.roundTo
    unfold Counts at hn
    rwa [hn, roundAway_intCast]
  · have hround : roundQuotient d.coefficient (Nat.pow 10 (d.scale - precision).toNat) =
        roundAway (d.toRat * 10 ^ precision) := by
      rw [← coefficient_div (not_le.mp hscale)]
      exact roundQuotient_eq d.coefficient (Nat.pow_pos (by decide))
    rw [roundTo, if_neg hscale, hround]
    exact counts_mk _ _

/-- Rounding moves a number by half a step at most. -/
theorem abs_toRat_roundTo_sub_le (d : Decimal) (precision : Nat) :
    |(d.roundTo precision).toRat - d.toRat| ≤ (step precision).toRat / 2 := by
  have hpow : (0 : ℚ) < 10 ^ precision := by positivity
  have hsteps := abs_sub_roundAway (d.toRat * 10 ^ precision)
  rw [← counts_roundTo, ← sub_mul, abs_mul, abs_of_pos hpow, abs_sub_comm] at hsteps
  rw [toRat_step, zpow_neg, zpow_natCast, ← mul_le_mul_iff_left₀ hpow, div_mul_eq_mul_div,
    inv_mul_cancel₀ hpow.ne']
  exact hsteps

theorem fits_roundTo (d : Decimal) (precision : Nat) : (d.roundTo precision).Fits precision :=
  ⟨_, counts_roundTo d precision⟩

theorem Fits.roundTo_same (h : d.Fits precision) : (d.roundTo precision).Same d := by
  obtain ⟨n, hn⟩ := h
  rw [same_iff_toRat, counts_iff.mp hn.roundTo, counts_iff.mp hn]

theorem Same.fits (h : a.Same b) (ha : a.Fits precision) : b.Fits precision := by
  obtain ⟨n, hn⟩ := ha
  exact ⟨n, h.counts hn⟩

/-- A number that fits a precision fits every larger one. -/
theorem Fits.mono {larger : Nat} (h : d.Fits precision) (hle : precision ≤ larger) :
    d.Fits larger := by
  obtain ⟨n, hn⟩ := h
  refine ⟨n * 10 ^ (larger - precision), ?_⟩
  rw [Counts, ← Nat.add_sub_of_le hle, pow_add, ← mul_assoc, hn, Nat.add_sub_cancel_left]
  push_cast
  rfl

/-- A number that fits one precision is at most one step of another below a number that fits
both. -/
theorem Fits.exists_le (h : d.Fits precision) (other : Nat) :
    ∃ e : Decimal, e.Fits precision ∧ e.Fits other ∧ d ≤ e ∧
      e.toRat < d.toRat + (step other).toRat := by
  rcases le_or_gt precision other with hle | hlt
  · refine ⟨d, h, h.mono hle, le_iff_toRat.mpr le_rfl, ?_⟩
    rw [toRat_step]
    exact lt_add_of_pos_right _ (ten_zpow_pos _)
  · -- the other steps are larger, and the next of them is taken
    have hpow : (0 : ℚ) < 10 ^ other := by positivity
    have he : Counts ⟨⌈d.toRat * 10 ^ other⌉, other⟩ other ⌈d.toRat * 10 ^ other⌉ := counts_mk _ _
    have hfits : Fits ⟨⌈d.toRat * 10 ^ other⌉, other⟩ other := ⟨_, he⟩
    refine ⟨_, hfits.mono hlt.le, hfits, ?_, ?_⟩
    · rw [le_iff_toRat, ← mul_le_mul_iff_left₀ hpow, he]
      exact Int.le_ceil _
    · rw [← mul_lt_mul_iff_left₀ hpow, he, add_mul, toRat_step, zpow_neg, zpow_natCast,
        inv_mul_cancel₀ hpow.ne']
      exact Int.ceil_lt_add_one _

/-- **Rounding** is monotone. -/
theorem roundTo_mono (h : a ≤ b) (precision : Nat) : a.roundTo precision ≤ b.roundTo precision := by
  have hsteps : a.toRat * 10 ^ precision ≤ b.toRat * 10 ^ precision :=
    mul_le_mul_of_nonneg_right (le_iff_toRat.mp h) (by positivity)
  rw [le_iff_toRat, le_iff_of_steps (counts_roundTo a precision) (counts_roundTo b precision)]
  exact roundAway_mono hsteps

/-- Rounding does not lead across a number with few digits. -/
theorem Fits.le_roundTo (ha : a.Fits precision) (h : a ≤ b) : a ≤ b.roundTo precision := by
  have hmono := roundTo_mono h precision
  rwa [le_iff_toRat, same_iff_toRat.mp ha.roundTo_same, ← le_iff_toRat] at hmono

theorem Fits.roundTo_le (hb : b.Fits precision) (h : a ≤ b) : a.roundTo precision ≤ b := by
  have hmono := roundTo_mono h precision
  rwa [le_iff_toRat, same_iff_toRat.mp hb.roundTo_same, ← le_iff_toRat] at hmono

/-- Steps that are counted up before rounding are not lost. -/
theorem le_roundTo_add {steps : Nat} (ha : a ≤ a.roundTo precision)
    (hb : b.Counts precision steps) : a + b ≤ (a + b).roundTo precision := by
  have hpow : (0 : ℚ) < 10 ^ precision := by positivity
  have hsum : (a + b).toRat * 10 ^ precision = a.toRat * 10 ^ precision + steps := by
    rw [toRat_add, add_mul, hb, Int.cast_natCast]
  have hup : a.toRat * 10 ^ precision ≤ roundAway (a.toRat * 10 ^ precision) := by
    rw [← counts_roundTo a precision]
    exact mul_le_mul_of_nonneg_right (le_iff_toRat.mp ha) hpow.le
  rw [le_iff_toRat, ← mul_le_mul_iff_left₀ hpow, counts_roundTo, hsum]
  -- the steps move the nearest integer on and the rest of `a` with it
  calc a.toRat * 10 ^ precision + steps
      ≤ ((roundAway (a.toRat * 10 ^ precision) + steps : Int) : ℚ) := by
        rw [Int.cast_add, Int.cast_natCast]
        exact add_le_add_left hup _
    _ ≤ roundAway (a.toRat * 10 ^ precision + steps) := by
        exact_mod_cast roundAway_add_le _ steps

/-! ### Cutting off -/

/-- **Cutting off** the digits of a number that is not negative leaves the whole steps. -/
theorem truncatedUnits_eq_floor (h : 0 ≤ d.toRat) :
    d.truncatedUnits precision = ⌊d.toRat * 10 ^ precision⌋ := by
  by_cases hscale : d.scale ≤ precision
  · obtain ⟨n, hn⟩ := exists_counts_of_scale_le hscale
    have htruncated := hn.truncatedUnits
    unfold Counts at hn
    rw [htruncated, hn, Int.floor_intCast]
  · have hcoefficient : 0 ≤ d.coefficient := by
      exact_mod_cast nonneg_of_mul_nonneg_left h (ten_zpow_pos (-d.scale))
    rw [truncatedUnits, if_neg hscale, ← coefficient_div (not_le.mp hscale),
      Rat.floor_intCast_div_natCast]
    exact Int.tdiv_eq_ediv_of_nonneg hcoefficient

end Decimal

end ColumnMask
