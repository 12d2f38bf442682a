import Mathlib
import ColumnMask.Proofs.Instant
import ColumnMask.Proofs.IntegerWindow
import ColumnMask.Window

/-!
# Laws of windows of instants

Folding a pair of seconds and nanoseconds into a window counts the seconds up from the lower bound
and brings the nanoseconds into bounds on the first and on the last second.

- `Window.InParts`: the parts that folding can give, which are those of no leap second.
- `Window.foldParts_inParts`, `Window.exists_foldParts`: it gives these parts, and all of them.
- `Window.checkedCount_eq`, `Window.checkedParts_eq`: nothing overflows on the way.
- `Window.foldTime_ok`: folding never fails. `Window.InParts.le_max`, `Window.InParts.min_le_iff`:
  the instant lies up to the upper bound, and from the lower bound on unless that is in a leap
  second and the instant in the same one.
- `Window.exists_foldTime`: every instant of the window outside leap seconds comes out.
- `Window.fold_fits_words`: all this for words of any value.
- `Window.foldTime_mem_iff`: when what is folded lies in the window.
-/

namespace ColumnMask

namespace Window

variable (w : Window Instant)

/-! ## Edges -/

theorem edgeNanos_lt (t : Instant) : edgeNanos t < 1000000000 := by
  unfold edgeNanos
  omega

theorem edgeNanos_le (t : Instant) : edgeNanos t ≤ t.nanos := Nat.min_le_left ..

theorem edgeNanos_of_not_leap {t : Instant} (h : t.inLeapSecond = false) :
    edgeNanos t = t.nanos := by
  rw [Instant.inLeapSecond_eq_false_iff] at h
  unfold edgeNanos
  omega

theorem min_seconds_le : w.min.seconds ≤ w.max.seconds := by
  have h := Instant.lt_iff.mp w.min_lt_max
  omega

theorem secondCount_pos : 0 < w.secondCount := by
  have h := w.min_seconds_le
  unfold secondCount
  omega

/-- The seconds of all instants fit a signed word, with room to spare. -/
theorem seconds_bounds (t : Instant) : -2 ^ 61 ≤ t.seconds ∧ t.seconds < 2 ^ 61 := by
  have hrange := t.inRange
  have hfirst : -2 ^ 61 ≤ 86400 * Calendar.firstDay := by decide +kernel
  have hlast : 86400 * (Calendar.lastDay + 1) < 2 ^ 61 := by decide +kernel
  omega

theorem secondCount_lt : w.secondCount < 2 ^ 63 := by
  have hmin := seconds_bounds w.min
  have hmax := seconds_bounds w.max
  unfold secondCount
  omega

/-- The first nanosecond of the window in a second. -/
def lowNanos (second : Int) : Nat :=
  if second = w.min.seconds then edgeNanos w.min else 0

/-- The last nanosecond of the window in a second. -/
def highNanos (second : Int) : Nat :=
  if second = w.max.seconds then edgeNanos w.max else 999999999

/-- The window leaves something of each of its seconds. -/
theorem lowNanos_le (second : Int) :
    w.lowNanos second ≤ w.highNanos second ∧ w.highNanos second < 1000000000 := by
  have hlt := Instant.lt_iff.mp w.min_lt_max
  unfold lowNanos highNanos edgeNanos
  by_cases hmin : second = w.min.seconds <;> by_cases hmax : second = w.max.seconds
  · rw [if_pos hmin, if_pos hmax]
    omega
  · rw [if_pos hmin, if_neg hmax]
    omega
  · rw [if_neg hmin, if_pos hmax]
    omega
  · rw [if_neg hmin, if_neg hmax]
    omega

/-! ## Folding -/

/-- The second that a number of seconds is folded to. -/
def foldSecond (seconds : UInt64) : Int :=
  w.min.seconds + (seconds.toNat : Int) % w.secondCount

theorem foldSecond_eq_min_iff (seconds : UInt64) :
    w.foldSecond seconds = w.min.seconds ↔ (seconds.toNat : Int) % w.secondCount = 0 := by
  unfold foldSecond
  omega

theorem foldSecond_mem (seconds : UInt64) :
    w.min.seconds ≤ w.foldSecond seconds ∧ w.foldSecond seconds ≤ w.max.seconds := by
  have hcount := w.secondCount_pos
  have hrest := Int.emod_nonneg (seconds.toNat : Int) hcount.ne'
  have hlt := Int.emod_lt_of_pos (seconds.toNat : Int) hcount
  unfold foldSecond
  unfold secondCount at *
  omega

/-- The four cases of an edge are one: nanoseconds are counted up from the first one of the window
and start over after the last one. -/
theorem foldParts_eq (seconds : UInt64) (nanos : Nat) :
    w.foldParts seconds nanos =
      (w.foldSecond seconds, w.lowNanos (w.foldSecond seconds) + nanos % 1000000000 %
        (w.highNanos (w.foldSecond seconds) - w.lowNanos (w.foldSecond seconds) + 1)) := by
  have hlow := edgeNanos_lt w.min
  unfold foldParts lowNanos highNanos foldSecond
  generalize w.min.seconds + (seconds.toNat : Int) % w.secondCount = second
  by_cases hmin : second = w.min.seconds <;> by_cases hmax : second = w.max.seconds
  · simp only [decide_eq_true hmin, decide_eq_true hmax, if_pos hmin, if_pos hmax]
  · simp only [decide_eq_true hmin, decide_eq_false hmax, if_pos hmin, if_neg hmax]
    rw [show 1000000000 - edgeNanos w.min = 999999999 - edgeNanos w.min + 1 by omega]
  · simp only [decide_eq_false hmin, decide_eq_true hmax, if_neg hmin, if_pos hmax,
      Nat.zero_add, Nat.sub_zero]
  · simp only [decide_eq_false hmin, decide_eq_false hmax, if_neg hmin, if_neg hmax,
      Nat.zero_add, Nat.sub_zero, Nat.mod_mod]

/-- A second that the window touches, with nanoseconds within the edges. -/
structure InParts (second : Int) (nano : Nat) : Prop where
  second_mem : w.min.seconds ≤ second ∧ second ≤ w.max.seconds
  nano_mem : w.lowNanos second ≤ nano ∧ nano ≤ w.highNanos second

/-- Whatever is folded, the parts are those of the window. -/
theorem foldParts_inParts (seconds : UInt64) (nanos : Nat) :
    w.InParts (w.foldParts seconds nanos).1 (w.foldParts seconds nanos).2 := by
  rw [foldParts_eq]
  refine ⟨w.foldSecond_mem seconds, ?_⟩
  show w.lowNanos (w.foldSecond seconds) ≤ w.lowNanos (w.foldSecond seconds) + _ ∧
    w.lowNanos (w.foldSecond seconds) + _ ≤ w.highNanos (w.foldSecond seconds)
  generalize w.foldSecond seconds = second
  have hle := (w.lowNanos_le second).1
  have hmod := Nat.mod_lt (nanos % 1000000000)
    (by omega : 0 < w.highNanos second - w.lowNanos second + 1)
  omega

/-- All parts of the window can be folded to. -/
theorem exists_foldParts {second : Int} {nano : Nat} (h : w.InParts second nano) :
    ∃ seconds nanos, seconds < 2 ^ 63 ∧ nanos < 1000000000 ∧
      w.foldParts (UInt64.ofNat seconds) nanos = (second, nano) := by
  obtain ⟨⟨hfirst, hlast⟩, hlow, hhigh⟩ := h
  have hcount := w.secondCount_lt
  have hnano := (w.lowNanos_le second).2
  have hoffset : second - w.min.seconds < w.secondCount := by
    unfold secondCount
    omega
  -- the offset is below the number of seconds, so nothing is taken off
  have hsecond : w.foldSecond (UInt64.ofNat (second - w.min.seconds).toNat) = second := by
    rw [foldSecond, UInt64.toNat_ofNat', Nat.mod_eq_of_lt (by omega),
      Int.emod_eq_of_lt (by omega) (by omega)]
    omega
  refine ⟨(second - w.min.seconds).toNat, nano - w.lowNanos second, by omega, by omega, ?_⟩
  rw [foldParts_eq, hsecond]
  -- nothing is taken off the nanoseconds either
  have hrest : nano - w.lowNanos second < w.highNanos second - w.lowNanos second + 1 := by omega
  rw [Nat.mod_eq_of_lt (by omega : nano - w.lowNanos second < 1000000000), Nat.mod_eq_of_lt hrest,
    Nat.add_sub_cancel' hlow]

/-! ## Folding with checks -/

/-- The number of seconds with every operation on words of 64 bits checked, and with the change to a
word without a sign. -/
def checkedCount : Option Int := do
  let distance ← Checked.signed 64 (w.max.seconds - w.min.seconds)
  let distance ← Checked.unsigned 64 distance
  Checked.unsigned 64 (distance + 1)

/-- The nanoseconds that are left in a second, with every operation on words of 32 bits checked. -/
def checkedNano (second nano : Int) : Option Int := do
  let low := edgeNanos w.min
  let high := edgeNanos w.max
  if second = w.min.seconds then
    if second = w.max.seconds then
      let distance ← Checked.unsigned 32 (high - low)
      let span ← Checked.unsigned 32 (distance + 1)
      let rest ← Checked.rem nano span
      Checked.unsigned 32 (low + rest)
    else
      let span ← Checked.unsigned 32 (1000000000 - low)
      let rest ← Checked.rem nano span
      Checked.unsigned 32 (low + rest)
  else if second = w.max.seconds then
    let span ← Checked.unsigned 32 (high + 1)
    Checked.rem nano span
  else return nano

/-- Folding with every operation on words of 64 bits checked. -/
def checkedParts (seconds : UInt64) (nanos : Nat) : Option (Int × Nat) := do
  let distance ← Checked.signed 64 (w.max.seconds - w.min.seconds)
  let width ← Checked.unsigned 64 (distance + 1)
  let offset ← Checked.rem seconds.toNat width
  let offset ← Checked.signed 64 offset
  let second ← Checked.signed 64 (w.min.seconds + offset)
  let nano ← Checked.rem nanos 1000000000
  let nano ← w.checkedNano second nano
  return (second, nano.toNat)

theorem checkedCount_eq : w.checkedCount = some w.secondCount := by
  have hmin := seconds_bounds w.min
  have hmax := seconds_bounds w.max
  have hle := w.min_seconds_le
  simp only [checkedCount, Option.bind_eq_bind]
  rw [Checked.signed_eq ⟨by omega, by omega⟩, Option.bind_some,
    Checked.unsigned_eq ⟨by omega, by omega⟩, Option.bind_some,
    Checked.unsigned_eq ⟨by omega, by omega⟩]
  rfl

/-- In all four cases the nanoseconds are those of the fold. -/
theorem checkedNano_eq (second : Int) {nano : Nat} (h : nano < 1000000000) :
    w.checkedNano second nano =
      some (((w.lowNanos second + nano % (w.highNanos second - w.lowNanos second + 1) : Nat)) :
        Int) := by
  obtain ⟨hle, hhigh⟩ := w.lowNanos_le second
  have hrest := Nat.mod_lt nano (by omega : 0 < w.highNanos second - w.lowNanos second + 1)
  have hspan : ((w.highNanos second - w.lowNanos second + 1 : Nat) : Int) =
      (w.highNanos second : Int) - w.lowNanos second + 1 := by omega
  have hsum : ((w.lowNanos second + nano % (w.highNanos second - w.lowNanos second + 1) : Nat) :
      Int) = (w.lowNanos second : Int) +
        nano % ((w.highNanos second : Int) - w.lowNanos second + 1) := by
    rw [← hspan, ← Int.natCast_emod, ← Nat.cast_add]
  simp only [checkedNano, Option.bind_eq_bind]
  unfold lowNanos highNanos at *
  by_cases hmin : second = w.min.seconds <;> by_cases hmax : second = w.max.seconds
  · -- the only second of the window
    simp only [if_pos hmin, if_pos hmax] at *
    rw [hsum, Checked.unsigned_eq ⟨by omega, by omega⟩, Option.bind_some,
      Checked.unsigned_eq ⟨by omega, by omega⟩, Option.bind_some,
      Checked.rem_eq _ (by omega), Option.bind_some, Checked.unsigned_eq ⟨by omega, by omega⟩]
  · -- the first second, up to its end
    simp only [if_pos hmin, if_neg hmax, Nat.cast_ofNat] at *
    have hend : (1000000000 : Int) - edgeNanos w.min = 999999999 - edgeNanos w.min + 1 := by ring
    rw [hsum, Checked.unsigned_eq ⟨by omega, by omega⟩, Option.bind_some, hend,
      Checked.rem_eq _ (by omega), Option.bind_some, Checked.unsigned_eq ⟨by omega, by omega⟩]
  · -- the last second, from its beginning on
    simp only [if_neg hmin, if_pos hmax, Nat.cast_zero, sub_zero, zero_add] at *
    rw [hsum, Checked.unsigned_eq ⟨by omega, by omega⟩, Option.bind_some,
      Checked.rem_eq _ (by omega)]
  · -- a whole second, where nothing is folded
    simp only [if_neg hmin, if_neg hmax] at *
    rw [Nat.mod_eq_of_lt (by omega), Nat.zero_add]
    rfl

/-- Nothing overflows and no divisor is zero while parts are folded. -/
theorem checkedParts_eq (seconds : UInt64) (nanos : Nat) :
    w.checkedParts seconds nanos = some (w.foldParts seconds nanos) := by
  have hmin := seconds_bounds w.min
  have hmax := seconds_bounds w.max
  have hle := w.min_seconds_le
  have hmem := w.foldSecond_mem seconds
  have hoffset : (seconds.toNat : Int) % (w.max.seconds - w.min.seconds + 1) =
      w.foldSecond seconds - w.min.seconds := by
    show _ = w.min.seconds + _ % w.secondCount - w.min.seconds
    rw [add_sub_cancel_left]
    rfl
  have hnano : nanos % 1000000000 < 1000000000 := Nat.mod_lt _ (by decide)
  -- the bounds are seconds of instants, far from the ends of a word
  simp only [checkedParts, Option.bind_eq_bind]
  rw [Checked.signed_eq ⟨by omega, by omega⟩, Option.bind_some,
    Checked.unsigned_eq ⟨by omega, by omega⟩, Option.bind_some,
    Checked.rem_eq _ (by omega), Option.bind_some, hoffset,
    Checked.signed_eq ⟨by omega, by omega⟩, Option.bind_some, add_sub_cancel,
    Checked.signed_eq ⟨by omega, by omega⟩, Option.bind_some,
    Checked.rem_eq _ (by decide), Option.bind_some]
  rw [show (nanos : Int) % 1000000000 = (nanos % 1000000000 : Nat) from rfl,
    w.checkedNano_eq _ hnano, Option.bind_some, Int.toNat_natCast, foldParts_eq]
  rfl

/-! ## Instants -/

variable {w} {t : Instant}

theorem InParts.nano_lt {second : Int} {nano : Nat} (h : w.InParts second nano) :
    nano < 1000000000 :=
  lt_of_le_of_lt h.nano_mem.2 (w.lowNanos_le second).2

theorem InParts.not_leap (h : w.InParts t.seconds t.nanos) : t.inLeapSecond = false :=
  Instant.inLeapSecond_eq_false_iff.mpr h.nano_lt

theorem InParts.le_max (h : w.InParts t.seconds t.nanos) : t ≤ w.max := by
  obtain ⟨⟨-, hlast⟩, -, hhigh⟩ := h
  rw [Instant.le_iff]
  rcases lt_or_eq_of_le hlast with hlt | heq
  · exact Or.inl hlt
  · rw [highNanos, if_pos heq] at hhigh
    exact Or.inr ⟨heq, le_trans hhigh (edgeNanos_le w.max)⟩

/-- A lower bound in a leap second lies above the end of the second before, where its window
begins. -/
theorem InParts.min_le (h : w.InParts t.seconds t.nanos) (hmin : w.min.inLeapSecond = false) :
    w.min ≤ t := by
  obtain ⟨⟨hfirst, -⟩, hlow, -⟩ := h
  rw [Instant.le_iff]
  rcases lt_or_eq_of_le hfirst with hlt | heq
  · exact Or.inl hlt
  · rw [lowNanos, if_pos heq.symm, edgeNanos_of_not_leap hmin] at hlow
    exact Or.inr ⟨heq, hlow⟩

/-- An instant below the lower bound is the last one before the leap second that this lies in. -/
theorem InParts.of_lt_min (h : w.InParts t.seconds t.nanos) (hlt : t < w.min) :
    w.min.inLeapSecond = true ∧ t.seconds = w.min.seconds ∧ t.nanos = 999999999 := by
  have hmin : w.min.inLeapSecond = true := by
    by_contra hmin
    exact absurd (h.min_le (Bool.eq_false_of_not_eq_true hmin)) (not_le.mpr hlt)
  have hfirst := h.second_mem.1
  obtain ⟨hlow, hhigh⟩ := h.nano_mem
  have hlast := (w.lowNanos_le t.seconds).2
  have hnanos : 1000000000 ≤ w.min.nanos := of_decide_eq_true hmin
  rw [Instant.lt_iff] at hlt
  have hsecond : t.seconds = w.min.seconds := by omega
  rw [lowNanos, if_pos hsecond, edgeNanos] at hlow
  exact ⟨hmin, hsecond, by omega⟩

theorem InParts.min_le_iff (h : w.InParts t.seconds t.nanos) :
    w.min ≤ t ↔ w.min.inLeapSecond = false ∨ t.seconds ≠ w.min.seconds := by
  constructor
  · intro hle
    by_cases hmin : w.min.inLeapSecond = false
    · exact .inl hmin
    · have ht := Instant.inLeapSecond_eq_false_iff.mp h.not_leap
      have hnanos : ¬ w.min.nanos < 1000000000 := mt Instant.inLeapSecond_eq_false_iff.mpr hmin
      rw [Instant.le_iff] at hle
      exact .inr (by omega)
  · rintro (hmin | hne)
    · exact h.min_le hmin
    · exact Or.inl (lt_of_le_of_ne h.second_mem.1 (Ne.symm hne))

theorem inParts_of_mem (ht : t.inLeapSecond = false) (hmin : w.min ≤ t) (hmax : t ≤ w.max) :
    w.InParts t.seconds t.nanos := by
  rw [Instant.inLeapSecond_eq_false_iff] at ht
  rw [Instant.le_iff] at hmin hmax
  refine ⟨by omega, ?_, ?_⟩
  · -- only the first second has a lower limit
    unfold lowNanos edgeNanos
    by_cases h : t.seconds = w.min.seconds
    · rw [if_pos h]
      omega
    · rw [if_neg h]
      omega
  · -- only the last second has an upper limit
    unfold highNanos edgeNanos
    by_cases h : t.seconds = w.max.seconds
    · rw [if_pos h]
      omega
    · rw [if_neg h]
      omega

/-- The parts of a window are those of an instant. -/
theorem InParts.exists_make? {second : Int} {nano : Nat} (h : w.InParts second nano) :
    ∃ t, Instant.make? second nano = some t ∧ t.seconds = second ∧ t.nanos = nano :=
  Instant.exists_of_inRange
    ⟨le_trans w.min.inRange.1 h.second_mem.1, lt_of_le_of_lt h.second_mem.2 w.max.inRange.2⟩
    h.nano_lt

/-- Folding never fails: the parts are those of an instant. -/
theorem exists_foldTime_parts (w : Window Instant) (seconds : UInt64) (nanos : Nat) :
    ∃ t, w.foldTime seconds nanos = .ok t ∧ t.seconds = w.foldSecond seconds ∧
      w.InParts t.seconds t.nanos := by
  have h := w.foldParts_inParts seconds nanos
  have hsecond : (w.foldParts seconds nanos).1 = w.foldSecond seconds := by rw [foldParts_eq]
  obtain ⟨t, hmake, hs, hn⟩ := h.exists_make?
  refine ⟨t, ?_, ?_, ?_⟩
  · simp only [foldTime, hmake]
  · rw [hs, hsecond]
  · rw [hs, hn]
    exact h

/-- Folding gives an instant of the window, whatever is folded. -/
theorem foldTime_ok (w : Window Instant) (seconds : UInt64) (nanos : Nat) :
    ∃ t, w.foldTime seconds nanos = .ok t ∧ w.InParts t.seconds t.nanos := by
  obtain ⟨t, hfold, -, hparts⟩ := w.exists_foldTime_parts seconds nanos
  exact ⟨t, hfold, hparts⟩

/-- **Folding in words.** Whatever the bounds, leap seconds included, the seconds of a window are
counted without an overflow, and every pair of words is folded without one. No divisor is zero, as
bounds in one second leave something of it. The parts that come out are a second of the window and
nanoseconds below a whole second, so they are always those of an instant. -/
theorem fold_fits_words (w : Window Instant) (seconds : UInt64) (nanos : UInt32) :
    w.checkedCount = some w.secondCount ∧ 1 ≤ w.secondCount ∧
    (w.min.seconds = w.max.seconds → 1 ≤ (edgeNanos w.max : Int) - edgeNanos w.min + 1) ∧
    ∃ second nano, w.checkedParts seconds nanos.toNat = some (second, nano) ∧
      w.foldParts seconds nanos.toNat = (second, nano) ∧
      (w.min.seconds ≤ second ∧ second ≤ w.max.seconds) ∧ nano < 1000000000 ∧
      ∃ t, Instant.make? second nano = some t ∧ w.foldTime seconds nanos.toNat = .ok t := by
  have hparts := w.foldParts_inParts seconds nanos.toNat
  obtain ⟨t, hmake, -, -⟩ := hparts.exists_make?
  refine ⟨w.checkedCount_eq, w.secondCount_pos, ?_, _, _, w.checkedParts_eq seconds nanos.toNat,
    rfl, hparts.second_mem, hparts.nano_lt, t, hmake, ?_⟩
  · intro hsecond
    have hle := (w.lowNanos_le w.min.seconds).1
    rw [lowNanos, highNanos, if_pos rfl, if_pos hsecond] at hle
    omega
  · simp only [foldTime, hmake]

/-- Every instant of the window outside leap seconds comes out. -/
theorem exists_foldTime (ht : t.inLeapSecond = false) (hmin : w.min ≤ t) (hmax : t ≤ w.max) :
    ∃ seconds nanos, seconds < 2 ^ 63 ∧ nanos < 1000000000 ∧
      w.foldTime (UInt64.ofNat seconds) nanos = .ok t := by
  obtain ⟨seconds, nanos, hs, hn, hparts⟩ := exists_foldParts w (inParts_of_mem ht hmin hmax)
  refine ⟨seconds, nanos, hs, hn, ?_⟩
  simp only [foldTime, hparts, Instant.make?_eq_some_iff.mpr ⟨rfl, rfl⟩]

/-- **What is folded** is always an instant, and never above the upper bound. It is below the lower
bound exactly if that lies in a leap second and the seconds come round to it, and then it is the
last instant before the leap second. -/
theorem foldTime_mem_iff (w : Window Instant) (seconds : UInt64) (nanos : Nat) :
    ∃ t, w.foldTime seconds nanos = .ok t ∧ t ≤ w.max ∧
      (w.min ≤ t ↔ w.min.inLeapSecond = false ∨ (seconds.toNat : Int) % w.secondCount ≠ 0) ∧
      (t < w.min → t.seconds = w.min.seconds ∧ t.nanos = 999999999) := by
  obtain ⟨t, hfold, hsecond, hparts⟩ := w.exists_foldTime_parts seconds nanos
  refine ⟨t, hfold, hparts.le_max, ?_, fun hlt => (hparts.of_lt_min hlt).2⟩
  rw [hparts.min_le_iff, hsecond, ne_eq, foldSecond_eq_min_iff]

/-- A window that begins in the leap second at the end of 2016. -/
def newYear : Window Instant where
  min := (Instant.parse? "2016-12-31T23:59:60.25Z").get (by decide +kernel)
  max := (Instant.parse? "2017-01-01T00:00:01Z").get (by decide +kernel)
  min_lt_max := by decide +kernel

/-- Zero seconds are folded to an instant before this window. -/
theorem foldTime_newYear_lt_min :
    ∃ t, newYear.foldTime 0 0 = .ok t ∧ ¬ (newYear.min ≤ t ∧ t ≤ newYear.max) := by
  let last := (Instant.parse? "2016-12-31T23:59:59.999999999Z").get (by decide +kernel)
  exact ⟨last, by decide +kernel, by decide +kernel⟩

end Window

end ColumnMask
