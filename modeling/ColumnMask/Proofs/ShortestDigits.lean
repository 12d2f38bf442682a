import Mathlib
import ColumnMask.Binary64
import ColumnMask.Proofs.NearestFloat

/-!
# Shortest digits

The shortest digits of a float are digits of it: whatever form they are written in, they are read
back as the same float.

- `Binary64.roundsTo_of_holds`: what lies in the interval of a float is rounded to it.
- `Binary64.roundsTo_shortest`: the shortest digits lie in the interval. Seventeen always suffice.
- `Binary64.parse?_text`, `Binary64.parse?_marked`: both texts of a finite float are read back.
-/

namespace ColumnMask

namespace Binary64

variable {m n : Nat} {e k : Int} {tie : Tie}

/-! ## The interval of a float -/

theorem interval_eq (m : Nat) (e : Int) :
    interval m e = {
      low := (4 * m - quartersBelow m e) * 2 ^ (e - 2).toNat
      value := 4 * m * 2 ^ (e - 2).toNat
      high := (4 * m + 2) * 2 ^ (e - 2).toNat
      denominator := 2 ^ (2 - e).toNat
      closed := m % 2 = 0 } := rfl

/-- Quarters of the last place and units of a power of ten over one denominator. -/
theorem cast_quarters (a : Nat) (e k : Int) :
    ((a * 2 ^ (e - 2).toNat * 10 ^ (-k).toNat : Nat) : ℚ) =
      a * 2 ^ (e - 2) * (2 ^ (2 - e).toNat * 10 ^ (-k).toNat) := by
  have htwo := two_zpow (e - 2)
  rw [neg_sub] at htwo
  push_cast
  rw [← htwo]
  ring

theorem cast_units (n : Nat) (e k : Int) :
    ((n * (2 ^ (2 - e).toNat * 10 ^ k.toNat) : Nat) : ℚ) =
      n * 10 ^ k * (2 ^ (2 - e).toNat * 10 ^ (-k).toNat) := by
  push_cast
  rw [← ten_zpow_mul k]
  ring

theorem quarters_le_units_iff {a : Nat} :
    a * 2 ^ (e - 2).toNat * 10 ^ (-k).toNat ≤ n * (2 ^ (2 - e).toNat * 10 ^ k.toNat) ↔
      (a : ℚ) * 2 ^ (e - 2) ≤ n * 10 ^ k := by
  rw [← Nat.cast_le (α := ℚ), cast_quarters, cast_units]
  exact mul_le_mul_iff_of_pos_right (by positivity)

theorem units_le_quarters_iff {a : Nat} :
    n * (2 ^ (2 - e).toNat * 10 ^ k.toNat) ≤ a * 2 ^ (e - 2).toNat * 10 ^ (-k).toNat ↔
      (n : ℚ) * 10 ^ k ≤ a * 2 ^ (e - 2) := by
  rw [← Nat.cast_le (α := ℚ), cast_quarters, cast_units]
  exact mul_le_mul_iff_of_pos_right (by positivity)

theorem two_zpow_eq_quarters (e : Int) : (2 : ℚ) ^ e = 4 * 2 ^ (e - 2) := by
  rw [zpow_sub₀ (by norm_num)]
  norm_num
  ring

theorem quartersBelow_of_odd (h : m % 2 = 1) (e : Int) : quartersBelow m e = 2 :=
  if_neg fun hm => by omega

/-- **What lies in the interval** is rounded to the float. -/
theorem roundsTo_of_holds (hm : 0 < m) (h : ((interval m e).inUnits k).holds n = true) :
    RoundsTo m e (n * 10 ^ k) := by
  have hquarters : quartersBelow m e ≤ 4 * m := (quartersBelow_le m e).trans (by omega)
  -- both ends of the interval in quarters of the last place
  have hlow : ((m : ℚ) - quartersBelow m e / 4) * 2 ^ e =
      (4 * m - quartersBelow m e : Nat) * 2 ^ (e - 2) := by
    rw [two_zpow_eq_quarters, Nat.cast_sub hquarters]
    push_cast
    ring
  have hhigh : ((m : ℚ) + 1 / 2) * 2 ^ e = (4 * m + 2 : Nat) * 2 ^ (e - 2) := by
    rw [two_zpow_eq_quarters]
    push_cast
    ring
  rw [interval_eq] at h
  unfold Interval.holds Interval.inUnits at h
  -- the ends belong to the interval of an even mantissa, but not to that of an odd one
  by_cases heven : m % 2 = 0
  · simp only [heven, decide_true, if_true, Bool.and_eq_true, decide_eq_true_eq] at h
    refine ⟨?_, ?_, fun hodd => by omega⟩
    · rw [hlow]
      exact quarters_le_units_iff.mp h.1
    · rw [hhigh]
      exact units_le_quarters_iff.mp h.2
  · simp only [heven, decide_false, Bool.false_eq_true, if_false, Bool.and_eq_true,
      decide_eq_true_eq] at h
    have hbelow : (4 * m - quartersBelow m e : Nat) * 2 ^ (e - 2) < (n : ℚ) * 10 ^ k :=
      not_le.mp fun hle => (units_le_quarters_iff.mpr hle).not_gt h.1
    have habove : (n : ℚ) * 10 ^ k < (4 * m + 2 : Nat) * 2 ^ (e - 2) :=
      not_le.mp fun hle => (quarters_le_units_iff.mpr hle).not_gt h.2
    rw [← hlow] at hbelow
    rw [← hhigh] at habove
    refine ⟨hbelow.le, habove.le, fun hodd => ⟨?_, habove⟩⟩
    rw [quartersBelow_of_odd hodd] at hbelow
    norm_num at hbelow ⊢
    exact hbelow

namespace Interval

variable {i : Interval}

theorem holds_of_nearest? (h : i.nearest? tie = some n) : i.holds n = true := by
  unfold nearest? at h
  generalize i.value / i.denominator = lower at h
  dsimp only at h
  cases hlower : i.holds lower <;> cases hupper : i.holds (lower + 1)
  · simp [hlower, hupper] at h
  · simp only [hlower, hupper, Option.some.injEq] at h
    rwa [← h]
  · simp only [hlower, hupper, Option.some.injEq] at h
    rwa [← h]
  · -- it is one of the two in any case
    have hcases : n = lower ∨ n = lower + 1 := by
      simp only [hlower, hupper] at h
      split at h <;> simp only [Option.some.injEq] at h <;> (try split at h) <;> omega
    rcases hcases with rfl | rfl
    · exact hlower
    · exact hupper

/-- An interval that is wider than a unit holds one of the whole numbers next to its value. -/
theorem exists_nearest? (hlow : i.low < i.value) (hhigh : i.value < i.high)
    (hwide : i.low + i.denominator < i.high) (hden : 0 < i.denominator) (tie : Tie) :
    ∃ n, i.nearest? tie = some n := by
  have hdiv := Nat.div_mul_le_self i.value i.denominator
  have hlt := Nat.lt_mul_div_succ i.value hden
  rw [Nat.mul_comm, Nat.add_mul, Nat.one_mul] at hlt
  -- the interval is wide enough for one of the two neighbours
  have hone : i.holds (i.value / i.denominator) = true ∨
      i.holds (i.value / i.denominator + 1) = true := by
    unfold holds
    rw [Nat.add_mul, Nat.one_mul]
    generalize i.value / i.denominator * i.denominator = x at hdiv hlt ⊢
    split <;> simp only [Bool.and_eq_true, decide_eq_true_eq] <;> omega
  unfold nearest?
  dsimp only
  generalize i.value / i.denominator = lower at hone ⊢
  cases hlower : i.holds lower <;> cases hupper : i.holds (lower + 1)
  · simp [hlower, hupper] at hone
  · exact ⟨_, rfl⟩
  · exact ⟨_, rfl⟩
  · dsimp only
    split <;> exact ⟨_, rfl⟩

end Interval

/-! ## Seventeen digits -/

/-- The leading digit of a whole number that is the whole part of another one after a shift. -/
theorem pow_lead_le {N d : Nat} {x : ℚ} (hN : 0 < N) (hle : (N : ℚ) ≤ x * 10 ^ d) :
    (10 : ℚ) ^ ((Text.ofNat N).length - (d + 1 : Int)) ≤ x := by
  have hlow := (pow_lead_le_lt hN.ne' 0).1
  rw [zpow_zero, mul_one, add_zero] at hlow
  have hpower : (0 : ℚ) < 10 ^ d := by positivity
  have hsplit :
      ((Text.ofNat N).length - (d + 1 : Int)) = (Text.ofNat N).length - 1 - (d : Int) := by omega
  rw [hsplit, zpow_sub₀ (by norm_num), zpow_natCast, div_le_iff₀ hpower]
  exact hlow.trans hle

/-- The leading digit is no larger than the float. -/
theorem pow_leadingExponent_le (hm : 0 < m) (he : -1074 ≤ e) :
    (10 : ℚ) ^ leadingExponent (interval m e) ≤ m * 2 ^ e := by
  have hvalue :
      ((4 * m * 2 ^ (e - 2).toNat : Nat) : ℚ) / (2 ^ (2 - e).toNat : Nat) = m * 2 ^ e := by
    have htwo := two_zpow (e - 2)
    rw [neg_sub] at htwo
    rw [div_eq_iff (by positivity), two_zpow_eq_quarters]
    push_cast
    rw [← htwo]
    ring
  -- with `d` more places the whole part is not above the number
  have hwhole (d : Nat) :
      ((4 * m * 2 ^ (e - 2).toNat * Nat.pow 10 d / 2 ^ (2 - e).toNat : Nat) : ℚ) ≤
        m * 2 ^ e * 10 ^ d := by
    rw [← hvalue, div_mul_eq_mul_div]
    have hpower : ((Nat.pow 10 d : Nat) : ℚ) = 10 ^ d := Nat.cast_pow 10 d
    refine Nat.cast_div_le.trans_eq ?_
    rw [Nat.cast_mul _ (Nat.pow 10 d), hpower]
  unfold leadingExponent
  rw [interval_eq]
  dsimp only
  generalize hd : 400 = d
  rw [show (401 : Int) = d + 1 by omega]
  have hle := hwhole d
  generalize 4 * m * 2 ^ (e - 2).toNat * Nat.pow 10 d / 2 ^ (2 - e).toNat = N at hle ⊢
  rcases Nat.eq_zero_or_pos N with rfl | hpos
  · -- there would be more than four hundred zeros, but no float is that small
    have hone : (1 : ℚ) ≤ m := by exact_mod_cast hm
    have hzero : ((Text.ofNat 0).length : Int) - (d + 1) = -400 := by
      rw [show (Text.ofNat 0).length = 1 from rfl]
      omega
    rw [hzero]
    calc (10 : ℚ) ^ (-400 : Int) ≤ 2 ^ (-1075 : Int) := by
          rw [zpow_neg, zpow_neg]
          exact inv_anti₀ (by positivity) two_pow_lt_ten_pow.le
      _ ≤ 2 ^ e := zpow_le_zpow_right₀ (by norm_num) (by omega)
      _ ≤ m * 2 ^ e := le_mul_of_one_le_left (by positivity) hone
  · exact pow_lead_le hpos hle

theorem stripZeros_value (fuel : Nat) (d : DecimalDigits) :
    ((stripZeros fuel d).digits : ℚ) * 10 ^ (stripZeros fuel d).exponent =
      d.digits * 10 ^ d.exponent := by
  induction fuel generalizing d with
  | zero => rfl
  | succ fuel ih =>
    rw [stripZeros]
    split_ifs with hzero
    · rw [ih, zpow_add_one₀ (by norm_num)]
      have hten : (d.digits : ℚ) = (d.digits / 10 : Nat) * 10 := by
        exact_mod_cast (Nat.div_mul_cancel (Nat.dvd_of_mod_eq_zero hzero)).symm
      rw [hten]
      push_cast
      ring
    · rfl

/-- Where the sixteenth digit after the leading one stands, the interval is wider than a unit. -/
theorem exists_seventeen (hcanonical : Canonical m e) (hm : 0 < m) (tie : Tie) :
    ∃ n, ((interval m e).inUnits (leadingExponent (interval m e) - 16)).nearest? tie = some n := by
  have hlead := pow_leadingExponent_le hm hcanonical.le
  generalize leadingExponent (interval m e) = lead at hlead ⊢
  have hpos : (0 : ℚ) < 2 ^ (e - 2) := by positivity
  have hunit : (10 : ℚ) ^ (lead - 16) * 10 ^ 16 ≤ 4 * m * 2 ^ (e - 2) := by
    rw [← zpow_natCast, ← zpow_add₀ (by norm_num), mul_right_comm, ← two_zpow_eq_quarters,
      mul_comm ((2 : ℚ) ^ e)]
    simpa using hlead
  -- a unit of the seventeenth digit is smaller than the interval
  have hwide : (10 : ℚ) ^ (lead - 16) < (quartersBelow m e + 2 : Nat) * 2 ^ (e - 2) := by
    unfold quartersBelow
    split_ifs with hpower
    · rw [hpower.1] at hunit
      push_cast at hunit ⊢
      linarith
    · have hcast : (m : ℚ) ≤ 2 ^ 53 := by exact_mod_cast hcanonical.lt.le
      have := mul_le_mul_of_nonneg_right hcast hpos.le
      push_cast
      linarith
  have hquarters : quartersBelow m e ≤ 4 * m := (quartersBelow_le m e).trans (by omega)
  have hbelow : 0 < quartersBelow m e := by
    unfold quartersBelow
    split <;> decide
  -- the same over the common denominator
  have hgap : (2 ^ (2 - e).toNat * 10 ^ (lead - 16).toNat) <
      (quartersBelow m e + 2) * 2 ^ (e - 2).toNat * 10 ^ (-(lead - 16)).toNat := by
    by_contra hle
    have := quarters_le_units_iff (n := 1).mp ((Nat.le_of_not_lt hle).trans_eq (Nat.one_mul _).symm)
    rw [Nat.cast_one, one_mul] at this
    exact hwide.not_ge this
  rw [interval_eq]
  unfold Interval.inUnits
  have htwo : 0 < 2 ^ (e - 2).toNat * 10 ^ (-(lead - 16)).toNat := by positivity
  dsimp only
  -- every end of the interval is a number of quarters times the same factor
  simp only [Nat.mul_assoc _ (2 ^ (e - 2).toNat)] at hgap ⊢
  generalize 2 ^ (e - 2).toNat * 10 ^ (-(lead - 16)).toNat = scale at htwo hgap ⊢
  have hden : 0 < Nat.pow 2 (2 - e).toNat * Nat.pow 10 (lead - 16).toNat :=
    Nat.mul_pos (Nat.pow_pos (by decide)) (Nat.pow_pos (by decide))
  refine Interval.exists_nearest? ?_ ?_ ?_ hden tie
  · exact Nat.mul_lt_mul_of_pos_right (by omega) htwo
  · exact Nat.mul_lt_mul_of_pos_right (by omega) htwo
  · calc _ < (4 * m - quartersBelow m e) * scale + (quartersBelow m e + 2) * scale :=
          Nat.add_lt_add_left hgap _
      _ = (4 * m + 2) * scale := by rw [← Nat.add_mul]; congr 1; omega

/-- **The shortest digits** of a float are rounded to it. -/
theorem roundsTo_shortest (tie : Tie) (hcanonical : Canonical m e) (hm : 0 < m) :
    RoundsTo m e ((shortest tie m e).digits * 10 ^ (shortest tie m e).exponent) := by
  unfold shortest
  dsimp only
  generalize hlead : leadingExponent (interval m e) = lead
  cases hfound : (List.range 17).findSome? fun (n : Nat) =>
      (((interval m e).inUnits (lead - n)).nearest? tie).map fun digits =>
        stripZeros 17 ⟨digits, lead - n⟩ with
  -- seventeen digits are always found
  | none =>
    obtain ⟨n, hn⟩ := exists_seventeen hcanonical hm tie
    have hnone := List.findSome?_eq_none_iff.mp hfound 16 (by simp)
    rw [hlead] at hn
    rw [Option.map_eq_none_iff] at hnone
    exact absurd (hn.symm.trans hnone) (by simp)
  -- the digits that are found lie in the interval, and so do they without their zeros
  | some d =>
    obtain ⟨n, -, hd⟩ := List.exists_of_findSome?_eq_some hfound
    obtain ⟨digits, hdigits, rfl⟩ := Option.map_eq_some_iff.mp hd
    rw [Option.getD_some, stripZeros_value]
    exact roundsTo_of_holds hm (Interval.holds_of_nearest? hdigits)

/-! ## Texts that are read back -/

open Text
open Decimal (Spelling Exponent exists_spelling_fullDigits abs_toRat writtenExponent
  value_writtenExponent)

/-- Floats with the same parts are the same. -/
theorem eq_of_unpack {x y : Float} (h : x.toModel.unpack = y.toModel.unpack) : x = y := by
  obtain ⟨⟨a, ha⟩⟩ := x
  obtain ⟨⟨b, hb⟩⟩ := y
  have hbits : a.toBitVec = b.toBitVec := by
    rw [← Float.Model.UnpackedFloat.pack_unpack_of_valid ha,
      ← Float.Model.UnpackedFloat.pack_unpack_of_valid hb]
    exact congrArg _ h
  obtain rfl := UInt64.toBitVec_inj.mp hbits
  rfl

/-- The digits of a number with a sign in front, written in some form. -/
def Spelt (negative : Bool) (d : DecimalDigits) (cs : List Char) : Prop :=
  ∃ s : Spelling, s.sign = sign negative ∧ s.chars = (sign negative).chars ++ cs ∧
    (digitsValue s.digits : ℚ) * 10 ^ (-s.decimal.scale) = d.digits * 10 ^ d.exponent

variable {d : DecimalDigits} {cs : List Char} {x : Float}
variable {sgn : Float.Model.UnpackedFloat.Sign}

theorem spelt_positional (negative : Bool) (d : DecimalDigits) :
    Spelt negative d (positional d) := by
  obtain ⟨s, hsign, -, hchars, -, hvalue⟩ :=
    exists_spelling_fullDigits (sign negative) ⟨d.digits, -d.exponent⟩
  refine ⟨s, hsign, hchars.trans (by rw [positional_eq]), ?_⟩
  have habs := congrArg (|·|) hvalue
  have hdigits : ((sign negative).apply (Int.natAbs d.digits)).natAbs = d.digits := by
    cases negative <;> simp [sign, Sign.apply]
  rwa [abs_toRat, abs_toRat, coefficient_natAbs, hdigits, neg_neg] at habs

/-- Where there is no fraction a zero is written after the point. -/
theorem spelt_point (negative : Bool) (h : 0 ≤ d.exponent) :
    Spelt negative d (positional d ++ ['.', '0']) := by
  obtain ⟨digits, exponent⟩ := d
  obtain ⟨n, rfl⟩ := Int.eq_ofNat_of_zero_le h
  refine ⟨⟨sign negative, ofNat digits ++ List.replicate n '0', some ['0'], none,
    (digits_ofNat _).append (digits_replicate_zero n), digits_replicate_zero 1, by simp⟩, rfl,
    ?_, ?_⟩
  · simp [Spelling.chars, Spelling.base, positional]
  · simp [Spelling.digits, Spelling.decimal, Spelling.exponentValue, digitsValue_append]
    ring

/-- The sign of an exponent as a style writes it. -/
def exponentSign (style : ExponentStyle) (e : Int) : Sign :=
  if e < 0 then .minus else if style.plus then .plus else .none

theorem exponentSign_apply (style : ExponentStyle) (e : Int) :
    (exponentSign style e).apply e.natAbs = e := by
  unfold exponentSign
  split_ifs <;> simp only [Sign.apply] <;> omega

/-- The digits after the first one; a single digit has no point after it. -/
def fractionDigits (rest : List Char) : Option (List Char) := if rest = [] then none else some rest

theorem fractionDigits_getD (rest : List Char) : (fractionDigits rest).getD [] = rest := by
  unfold fractionDigits
  split_ifs with hnil
  · exact hnil.symm
  · rfl

theorem scientific_eq (style : ExponentStyle) {c : Char} {rest : List Char}
    (hds : ofNat d.digits = c :: rest) :
    scientific style d = [c] ++ Spelling.fractionText (fractionDigits rest) ++
      'e' :: ((exponentSign style (d.exponent + rest.length)).chars ++
        ofNat (d.exponent + rest.length).natAbs) := by
  have hexponent : d.exponent + (ofNat d.digits).length - 1 = d.exponent + rest.length := by
    rw [hds, List.length_cons]
    omega
  have hsign : (exponentSign style (d.exponent + rest.length)).chars =
      if d.exponent + rest.length < 0 then ['-'] else if style.plus then ['+'] else [] := by
    unfold exponentSign
    split_ifs <;> rfl
  unfold scientific
  dsimp only
  rw [hexponent, hds, ← hsign]
  cases rest <;> simp [fractionDigits]

/-- With an exponent the point stands after the first digit. -/
theorem spelt_scientific (style : ExponentStyle) (negative : Bool) (d : DecimalDigits) :
    Spelt negative d (scientific style d) := by
  obtain ⟨c, rest, hds⟩ := List.exists_cons_of_ne_nil (ofNat_ne_nil d.digits)
  have hdigits := digits_ofNat d.digits
  have hvalue := digitsValue_ofNat d.digits
  rw [hds] at hdigits hvalue
  obtain ⟨hfirst, hrest⟩ := List.forall_mem_cons.mp hdigits
  have hfraction := fractionDigits_getD rest
  -- the exponent counts the places behind the first digit
  let exponent : Exponent := writtenExponent 'e' (.inl rfl)
    (exponentSign style (d.exponent + rest.length)) (d.exponent + rest.length).natAbs
  have hexponent : exponent.value = d.exponent + rest.length := by
    rw [value_writtenExponent, exponentSign_apply]
  refine ⟨⟨sign negative, [c], fractionDigits rest, some exponent, by simpa using hfirst,
    hfraction.symm ▸ hrest, by simp⟩, rfl, ?_, ?_⟩
  · rw [scientific_eq style hds]
    simp [Spelling.chars, Spelling.base, exponent, writtenExponent, Exponent.chars]
  · show (digitsValue ([c] ++ (fractionDigits rest).getD []) : ℚ) *
      10 ^ (-(((fractionDigits rest).getD []).length - exponent.value : Int)) = _
    rw [hfraction, hexponent, List.singleton_append, hvalue, sub_add_cancel_right, neg_neg]

/-- **Digits that are rounded to a float** are read as the float. -/
theorem parse?_signed (hx : x.toModel.unpack = ofParts sgn m e) (hcanonical : Canonical m e)
    (he : e ≤ 971) (hspelt : Spelt (sgn == .negative) d cs)
    (hrounds : 0 < m → RoundsTo m e (d.digits * 10 ^ d.exponent)) (hzero : m = 0 → d.digits = 0) :
    parse? (signed (sgn == .negative) cs) = some x := by
  obtain ⟨s, hsign, hchars, hvalue⟩ := hspelt
  have hmagnitude : (ofDecimal (digitsValue s.digits) (-s.decimal.scale)).toModel.unpack =
      ofParts .positive m e := by
    rcases Nat.eq_zero_or_pos m with rfl | hm
    · -- zero has digits that are all zero
      rw [hzero rfl, Nat.cast_zero, zero_mul] at hvalue
      have hnone : digitsValue s.digits = 0 := by
        exact_mod_cast (mul_eq_zero.mp hvalue).resolve_right (by positivity)
      rw [hnone, ofDecimal_zero]
      rfl
    · exact ofDecimal_unpack_of_roundsTo hcanonical he hm (hvalue ▸ hrounds hm)
  rw [signed_eq, ← hchars, parse?_chars, hsign]
  refine congrArg some (eq_of_unpack ?_)
  rw [hx]
  cases sgn with
  | negative => exact unpack_neg hmagnitude hcanonical he
  | positive => exact hmagnitude

/-- **The text of a finite float** is read back. -/
theorem parse?_text (h : x.isFinite = true) : parse? (text x) = some x := by
  obtain ⟨sgn, m, e, hunpack, hcanonical, he, -⟩ := exists_unpack_eq h
  rcases Nat.eq_zero_or_pos m with rfl | hm
  · have hx : ofFloat x = finite (sgn == .negative) 0 0 := by rw [ofFloat, hunpack, ofParts_zero]
    rw [text, hx]
    exact parse?_signed hunpack hcanonical he (spelt_positional _ ⟨0, 0⟩) (by omega) fun _ => rfl
  · have hx : ofFloat x = finite (sgn == .negative) m e := by
      rw [ofFloat, hunpack, ofParts_of_pos sgn hm]
    rw [text_of_pos hx hm]
    exact parse?_signed hunpack hcanonical he (spelt_positional _ _)
      (roundsTo_shortest .up hcanonical) (by omega)

theorem marked_of_pos {style : ExponentStyle} {negative : Bool}
    (hx : ofFloat x = finite negative m e) (hm : 0 < m) :
    marked style x = signed negative
      (if (shortest .even m e).exponent + (ofNat (shortest .even m e).digits).length - 1 < -5 ∨
          16 ≤ (shortest .even m e).exponent + (ofNat (shortest .even m e).digits).length - 1 then
        scientific style (shortest .even m e)
      else if 0 ≤ (shortest .even m e).exponent then
        positional (shortest .even m e) ++ ['.', '0']
      else positional (shortest .even m e)) := by
  obtain ⟨n, rfl⟩ := Nat.exists_eq_add_of_lt hm
  rw [marked, hx]
  simp

/-- **The marked text of a finite float** is read back. -/
theorem parse?_marked (style : ExponentStyle) (h : x.isFinite = true) :
    parse? (marked style x) = some x := by
  obtain ⟨sgn, m, e, hunpack, hcanonical, he, -⟩ := exists_unpack_eq h
  rcases Nat.eq_zero_or_pos m with rfl | hm
  · have hx : ofFloat x = finite (sgn == .negative) 0 0 := by rw [ofFloat, hunpack, ofParts_zero]
    rw [marked, hx]
    exact parse?_signed hunpack hcanonical he (spelt_point _ (d := ⟨0, 0⟩) le_rfl) (by omega)
      fun _ => rfl
  · have hx : ofFloat x = finite (sgn == .negative) m e := by
      rw [ofFloat, hunpack, ofParts_of_pos sgn hm]
    rw [marked_of_pos hx hm]
    refine parse?_signed hunpack hcanonical he ?_ (roundsTo_shortest .even hcanonical) (by omega)
    -- with an exponent, as a whole number with a point, or with the point among the digits
    split_ifs with hfar hwhole
    · exact spelt_scientific style _ _
    · exact spelt_point _ hwhole
    · exact spelt_positional _ _

end Binary64

end ColumnMask
