import Mathlib
import ColumnMask.CalendarUnit
import ColumnMask.Proofs.Instant

/-!
# Laws of truncation

Truncation takes an instant down to the beginning of its year, month and so on, down to its
nanosecond.

- `FloorMap`: what all units have in common. Such a map is monotone and idempotent, and its value
  is the greatest fixed point that is not above the argument.
- `CalendarUnit.truncate_floorMap`: truncation to any unit is one, leap seconds included.
- `CalendarUnit.lt_next`, `CalendarUnit.truncate_of_next`, `CalendarUnit.truncate_eq_of_before`:
  where the next unit begins.
-/

namespace ColumnMask

/-! ## Maps that round down -/

/-- The map takes every point down to the beginning of its cell. -/
structure FloorMap {α : Type} [LinearOrder α] (f : α → α) : Prop where
  le : ∀ x, f x ≤ x
  eq_of_between : ∀ {x y}, f x ≤ y → y ≤ x → f y = f x

namespace FloorMap

variable {α : Type} [LinearOrder α] {f : α → α}

theorem idem (h : FloorMap f) (x : α) : f (f x) = f x :=
  h.eq_of_between (le_refl _) (h.le x)

/-- A fixed point below a point is below its cell. -/
theorem le_of_fixed (h : FloorMap f) {x y : α} (hy : f y = y) (hyx : y ≤ x) : y ≤ f x := by
  rcases le_total (f x) y with hle | hle
  · rw [← hy, h.eq_of_between hle hyx]
  · exact hle

/-- The value is the greatest fixed point that is not above the argument. -/
theorem isGreatest (h : FloorMap f) (x : α) : IsGreatest {y | y ≤ x ∧ f y = y} (f x) :=
  ⟨⟨h.le x, h.idem x⟩, fun _ hy => h.le_of_fixed hy.2 hy.1⟩

theorem mono (h : FloorMap f) : Monotone f := fun x _ hxy =>
  h.le_of_fixed (h.idem x) (le_trans (h.le x) hxy)

end FloorMap

namespace CalendarUnit

open Calendar

variable {unit : CalendarUnit}

/-! ## Seconds -/

/-- The end of the unit that a second falls into. Units below a second end with it. -/
def cellEnd (unit : CalendarUnit) (seconds : Int) : Int :=
  let date := dateOf (seconds / 86400)
  match unit with
  | year => 86400 * yearStart (date.year + 1)
  | month => 86400 * dayNumber date.year (date.month + 1) 1
  | day => 86400 * (seconds / 86400 + 1)
  | hour => seconds - seconds % 3600 + 3600
  | minute => seconds - seconds % 60 + 60
  | _ => seconds + 1

/-- A second lies in its unit. -/
theorem floorSeconds_le_lt (unit : CalendarUnit) (seconds : Int) :
    unit.floorSeconds seconds ≤ seconds ∧ seconds < unit.cellEnd seconds := by
  have hyear := yearOf_spec (seconds / 86400)
  have hmonth := dateOf_spec (seconds / 86400)
  cases unit <;> simp only [floorSeconds, cellEnd, dateOf_year] at * <;> omega

/-- All seconds of a unit have the same beginning. -/
theorem floorSeconds_eq_of_mem {s r : Int} (hbegun : unit.floorSeconds s ≤ r)
    (hlasts : r < unit.cellEnd s) : unit.floorSeconds r = unit.floorSeconds s := by
  -- years and months are compared by their dates, and shorter cells by their lengths
  cases unit with
  | year =>
    simp only [floorSeconds, cellEnd, dateOf_year] at *
    have hy : yearOf (r / 86400) = yearOf (s / 86400) := yearOf_eq_iff.mpr (by omega)
    rw [hy]
  | month =>
    simp only [floorSeconds, cellEnd] at *
    have hdate : (dateOf (r / 86400)).year = (dateOf (s / 86400)).year ∧
        (dateOf (r / 86400)).month = (dateOf (s / 86400)).month :=
      (dateOf_eq_iff (dateOf_month_range (s / 86400))).mpr (by omega)
    rw [hdate.1, hdate.2]
  | _ =>
    simp only [floorSeconds, cellEnd] at *
    omega

theorem floorSeconds_floorMap : FloorMap unit.floorSeconds where
  le s := (floorSeconds_le_lt unit s).1
  eq_of_between {s _} hbegun hle :=
    floorSeconds_eq_of_mem hbegun (lt_of_le_of_lt hle (floorSeconds_le_lt unit s).2)

/-- Where a unit ends another one begins. -/
theorem floorSeconds_cellEnd (unit : CalendarUnit) (s : Int) :
    unit.floorSeconds (unit.cellEnd s) = unit.cellEnd s := by
  cases unit with
  | year =>
    simp only [floorSeconds, cellEnd]
    rw [Int.mul_ediv_cancel_left _ (by decide), yearOf_yearStart]
  | month =>
    obtain ⟨hone, htwelve⟩ := dateOf_month_range (s / 86400)
    generalize hdate : dateOf (s / 86400) = date at hone htwelve
    simp only [floorSeconds, cellEnd, hdate]
    rw [Int.mul_ediv_cancel_left _ (by decide)]
    rcases Nat.eq_or_lt_of_le htwelve with h | h
    · -- the month after December is January of the next year
      rw [h, dayNumber_thirteen]
      obtain ⟨hy, hm⟩ := dateOf_first (date.year + 1) (⟨by decide, by decide⟩ : 1 ≤ 1 ∧ 1 ≤ 12)
      rw [hy, hm]
    · have hnext : 1 ≤ date.month + 1 ∧ date.month + 1 ≤ 12 := ⟨by omega, h⟩
      obtain ⟨hy, hm⟩ := dateOf_first date.year hnext
      rw [hy, hm]
  | _ =>
    simp only [floorSeconds, cellEnd]
    try omega

/-- Beginnings of units are as representable as the seconds inside. -/
theorem firstDay_le_floorSeconds {s : Int} (h : 86400 * firstDay ≤ s) :
    86400 * firstDay ≤ unit.floorSeconds s := by
  have hfirst : unit.floorSeconds (86400 * firstDay) = 86400 * firstDay := by
    cases unit <;> decide +kernel
  exact floorSeconds_floorMap.le_of_fixed hfirst h

/-! ## Truncated instants -/

/-- Truncation sets the parts one by one; the result can always be represented. -/
theorem truncate_parts (unit : CalendarUnit) (t : Instant) :
    (unit.truncate t).seconds = unit.floorSeconds t.seconds ∧
      (unit.truncate t).nanos = unit.floorNanos t.nanos := by
  obtain ⟨hfirst, hlast⟩ := t.inRange
  have hbegun := (floorSeconds_le_lt unit t.seconds).1
  -- what is left is in range, and in a leap second only if the instant is in it
  have hvalid : (86400 * firstDay ≤ unit.floorSeconds t.seconds ∧
      unit.floorSeconds t.seconds < 86400 * (lastDay + 1)) ∧
      unit.floorNanos t.nanos < 2000000000 ∧
      (1000000000 ≤ unit.floorNanos t.nanos → unit.floorSeconds t.seconds % 60 = 59) := by
    refine ⟨⟨firstDay_le_floorSeconds hfirst, by omega⟩, ?_⟩
    have hnanos := t.nanos_lt
    have hleap := t.leap
    cases unit <;> simp only [floorNanos, floorSeconds] <;> omega
  unfold truncate Instant.make?
  rw [dif_pos hvalid]
  exact ⟨rfl, rfl⟩

/-- The nanoseconds that truncation leaves stay in the second or go to its beginning. -/
theorem floorNanos_le (unit : CalendarUnit) (nanos : Nat) : unit.floorNanos nanos ≤ nanos := by
  cases unit <;> simp only [floorNanos] <;> omega

theorem truncate_floorMap : FloorMap unit.truncate where
  le t := by
    obtain ⟨hs, hn⟩ := truncate_parts unit t
    have hle := (floorSeconds_le_lt unit t.seconds).1
    have hle' := floorNanos_le unit t.nanos
    rw [Instant.le_iff]
    omega
  eq_of_between {t u} hbegun hle := by
    obtain ⟨hs, hn⟩ := truncate_parts unit t
    obtain ⟨hs', hn'⟩ := truncate_parts unit u
    rw [Instant.le_iff] at hbegun hle
    have hfloor : unit.floorSeconds u.seconds = unit.floorSeconds t.seconds :=
      floorSeconds_floorMap.eq_of_between (by omega) (by omega)
    refine Instant.eq_of_parts (by rw [hs, hs', hfloor]) ?_
    rw [hn, hn']
    -- units below a second leave the second alone, all others clear its nanoseconds
    cases unit <;> simp only [floorNanos, floorSeconds] at * <;> omega

/-! ## The next unit -/

/-- The length of a unit below a second, and a whole second for all others. -/
def step : CalendarUnit → Nat
  | millisecond => 1000000
  | microsecond => 1000
  | nanosecond => 1
  | _ => 1000000000

/-- The second of the first instant after the unit that an instant falls into. -/
def nextSecond (unit : CalendarUnit) (t : Instant) : Int :=
  if unit.floorNanos t.nanos + unit.step < Instant.nanosEnd (unit.floorNanos t.nanos) then
    t.seconds
  else unit.cellEnd t.seconds

/-- The nanoseconds of that instant. -/
def nextNanos (unit : CalendarUnit) (t : Instant) : Nat :=
  if unit.floorNanos t.nanos + unit.step < Instant.nanosEnd (unit.floorNanos t.nanos) then
    unit.floorNanos t.nanos + unit.step
  else 0

/-- The next unit begins in the same second, or with the first second after this unit. -/
theorem next_cases (unit : CalendarUnit) (t : Instant) :
    (unit.floorNanos t.nanos + unit.step < Instant.nanosEnd (unit.floorNanos t.nanos) ∧
      unit.nextSecond t = t.seconds ∧
      unit.nextNanos t = unit.floorNanos t.nanos + unit.step) ∨
    (Instant.nanosEnd (unit.floorNanos t.nanos) ≤ unit.floorNanos t.nanos + unit.step ∧
      unit.nextSecond t = unit.cellEnd t.seconds ∧ unit.nextNanos t = 0) := by
  unfold nextSecond nextNanos
  by_cases h : unit.floorNanos t.nanos + unit.step <
      Instant.nanosEnd (unit.floorNanos t.nanos)
  · rw [if_pos h, if_pos h]
    exact Or.inl ⟨h, rfl, rfl⟩
  · rw [if_neg h, if_neg h]
    exact Or.inr ⟨Nat.not_lt.mp h, rfl, rfl⟩

/-- The unit that the nanoseconds fall into ends with the second at the latest. -/
theorem floorNanos_add_step_le (unit : CalendarUnit) {nanos : Nat} (h : nanos < 2000000000) :
    unit.floorNanos nanos + unit.step ≤ Instant.nanosEnd (unit.floorNanos nanos) := by
  rcases Instant.nanosEnd_cases (unit.floorNanos nanos) with ⟨hpart, hend⟩ | ⟨hpart, hend⟩ <;>
    rw [hend] <;> cases unit <;> simp only [floorNanos, step] at * <;> omega

/-- A unit that ends before its second does leaves the second alone. -/
theorem floorSeconds_eq_self_of_lt {nanos : Nat} (s : Int)
    (h : unit.floorNanos nanos + unit.step < Instant.nanosEnd (unit.floorNanos nanos)) :
    unit.floorSeconds s = s := by
  cases unit <;> simp only [floorNanos, step, floorSeconds, Instant.nanosEnd_zero] at * <;> omega

/-- The unit after the one that an instant falls into begins where `nextSecond` and `nextNanos`
say. -/
theorem next?_truncate (t : Instant) (hunit : unit ≠ nanosecond) :
    unit.next? (unit.truncate t) = Instant.make? (unit.nextSecond t) (unit.nextNanos t) := by
  obtain ⟨hs, hn⟩ := truncate_parts unit t
  have hle := floorNanos_add_step_le unit t.nanos_lt
  have hnext := next_cases unit t
  generalize unit.nextSecond t = second at hnext ⊢
  generalize unit.nextNanos t = nanos at hnext ⊢
  generalize unit.truncate t = floor at *
  -- the next year or month starts on its first day, any other unit after a fixed time
  cases unit with
  | year =>
    simp only [next?, cellEnd, floorNanos, step, floorSeconds, dateOf_year, dayNumber,
      daysBeforeMonth_one, Instant.nanosEnd_zero] at *
    rw [hs, Int.mul_ediv_cancel_left _ (by decide), yearOf_yearStart]
    exact congrArg₂ Instant.make? (by omega) (by omega)
  | month =>
    simp only [next?, cellEnd, floorNanos, step, floorSeconds, Instant.nanosEnd_zero] at *
    have hdate := dateOf_first (dateOf (t.seconds / 86400)).year
      (dateOf_month_range (t.seconds / 86400))
    rw [hs, Int.mul_ediv_cancel_left _ (by decide), hdate.1, hdate.2]
    exact congrArg₂ Instant.make? (by omega) (by omega)
  | millisecond =>
    simp only [next?, cellEnd, step, floorSeconds] at *
    rw [← hn] at hle
    rw [← hn, ← hs] at hnext
    exact Instant.shift?_of_le_nanosEnd ⟨by decide, by decide⟩ hle hnext
  | microsecond =>
    simp only [next?, cellEnd, step, floorSeconds] at *
    rw [← hn] at hle
    rw [← hn, ← hs] at hnext
    exact Instant.shift?_of_le_nanosEnd ⟨by decide, by decide⟩ hle hnext
  | nanosecond => exact absurd rfl hunit
  | _ =>
    have hzero : floor.nanos = 0 := hn
    simp only [next?, Instant.shift?_of_not_leap (by omega : floor.nanos < 1000000000), hzero,
      Duration.second, Nat.cast_ofNat, cellEnd, step, floorNanos, floorSeconds,
      Instant.nanosEnd_zero] at *
    exact congrArg₂ Instant.make? (by omega) (by omega)

/-- The next unit begins after the instant. -/
theorem lt_next (unit : CalendarUnit) (t : Instant) :
    t.seconds < unit.nextSecond t ∨
      t.seconds = unit.nextSecond t ∧ t.nanos < unit.nextNanos t := by
  have hend := (floorSeconds_le_lt unit t.seconds).2
  rcases next_cases unit t with ⟨hlt, hsecond, hnanos⟩ | ⟨-, hsecond, -⟩
  · refine Or.inr ⟨hsecond.symm, ?_⟩
    rw [hnanos]
    cases unit <;> simp only [floorNanos, step, Instant.nanosEnd_zero] at * <;> omega
  · rw [hsecond]
    exact Or.inl hend

/-- The next unit is a whole one. -/
theorem truncate_of_next {t u : Instant} (hseconds : u.seconds = unit.nextSecond t)
    (hnanos : u.nanos = unit.nextNanos t) : unit.truncate u = u := by
  obtain ⟨hs, hn⟩ := truncate_parts unit u
  rcases next_cases unit t with ⟨hlt, hsecond, hnano⟩ | ⟨-, hsecond, hnano⟩
  · refine Instant.eq_of_parts ?_ ?_
    · rw [hs, hseconds, hsecond, floorSeconds_eq_self_of_lt t.seconds hlt]
    · rw [hn, hnanos, hnano]
      cases unit <;> simp only [floorNanos, step, Instant.nanosEnd_zero] at * <;> omega
  · refine Instant.eq_of_parts ?_ ?_
    · rw [hs, hseconds, hsecond, floorSeconds_cellEnd]
    · rw [hn, hnanos, hnano]
      cases unit <;> rfl

/-- Outside leap seconds a unit lasts until the next one begins. -/
theorem truncate_eq_of_before {t u : Instant} (ht : t.nanos < 1000000000)
    (hu : u.nanos < 1000000000) (hbegun : unit.truncate t ≤ u)
    (hbefore : u.seconds < unit.nextSecond t ∨
      u.seconds = unit.nextSecond t ∧ u.nanos < unit.nextNanos t) :
    unit.truncate u = unit.truncate t := by
  obtain ⟨hs, hn⟩ := truncate_parts unit t
  obtain ⟨hs', hn'⟩ := truncate_parts unit u
  have hnext := next_cases unit t
  have hend := (floorSeconds_le_lt unit t.seconds).2
  have hfloor := floorNanos_le unit t.nanos
  rw [Instant.le_iff] at hbegun
  rw [Instant.nanosEnd, if_pos (by omega)] at hnext
  generalize unit.nextSecond t = second at *
  generalize unit.nextNanos t = nanos at *
  -- the second of `u` lies in the cell of `t`
  have hlasts : u.seconds < unit.cellEnd t.seconds := by omega
  have hsame : unit.floorSeconds u.seconds = unit.floorSeconds t.seconds :=
    floorSeconds_eq_of_mem (by omega) hlasts
  refine Instant.eq_of_parts (by rw [hs, hs', hsame]) ?_
  rw [hn, hn']
  cases unit <;> simp only [floorNanos, floorSeconds, cellEnd, step] at * <;> omega

end CalendarUnit

end ColumnMask
