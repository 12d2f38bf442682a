import Mathlib
import ColumnMask.Proofs.Truncation

/-!
# Whole units of the calendar

What truncating to a unit finds, and how units of different size belong together.
-/

namespace ColumnMask

/-!
## Whole units in a window

An instant is a whole unit if truncation leaves it alone. `CalendarUnit.ceil?` looks for the next
one, and `CalendarUnit.truncateWithin` for one inside a window.

- `CalendarUnit.ceil?_isLeast`, `CalendarUnit.ceil?_eq_none_iff`: outside leap seconds `ceil?` gives
  the least whole unit that is not before an instant, and nothing only if there is none.
- `CalendarUnit.truncateWithin_ok`: what comes out is a whole unit inside the window.
- `CalendarUnit.truncateWithin_eq_error_iff`: from an instant of the window it fails exactly when
  the window has no whole unit.
- `CalendarUnit.truncateWithin_finds_whole`: what it gives for all instants, and which whole unit of
  the window it is for an instant inside.
-/

namespace CalendarUnit

variable {unit : CalendarUnit} {t u : Instant}

/-! ### The next whole unit -/

/-- The whole units outside leap seconds. -/
def Whole (unit : CalendarUnit) (t : Instant) : Prop :=
  t.inLeapSecond = false ∧ unit.truncate t = t

theorem truncate_whole (h : t.inLeapSecond = false) : unit.Whole (unit.truncate t) := by
  refine ⟨?_, truncate_floorMap.idem t⟩
  rw [Instant.inLeapSecond_eq_false_iff] at *
  rw [(truncate_parts unit t).2]
  exact lt_of_le_of_lt (floorNanos_le unit t.nanos) h

@[simp] theorem truncate_nanosecond (t : Instant) : nanosecond.truncate t = t :=
  Instant.eq_of_parts (truncate_parts nanosecond t).1 (truncate_parts nanosecond t).2

/-- An instant that is no whole unit has the next unit above it. -/
theorem ceil?_of_ne (h : unit.truncate t ≠ t) :
    unit.ceil? t = Instant.make? (unit.nextSecond t) (unit.nextNanos t) := by
  have hunit : unit ≠ nanosecond := by
    rintro rfl
    exact h (truncate_nanosecond t)
  unfold ceil?
  rw [if_neg h, next?_truncate t hunit]

theorem ceil?_of_eq (h : unit.truncate t = t) : unit.ceil? t = some t := if_pos h

/-- What is above an instant is a whole unit, in a leap second too. -/
theorem le_and_truncate_of_ceil? (h : unit.ceil? t = some u) : t ≤ u ∧ unit.truncate u = u := by
  by_cases hfloor : unit.truncate t = t
  · rw [ceil?_of_eq hfloor, Option.some_inj] at h
    subst h
    exact ⟨le_refl _, hfloor⟩
  · rw [ceil?_of_ne hfloor, Instant.make?_eq_some_iff] at h
    have hlt := lt_next unit t
    refine ⟨le_of_lt ?_, truncate_of_next h.1 h.2⟩
    rw [Instant.lt_iff, h.1, h.2]
    exact hlt

/-- Every whole unit that is not before an instant is the instant or not before the next unit. -/
theorem Whole.next_le (ht : t.inLeapSecond = false) (hfloor : unit.truncate t ≠ t)
    (hu : unit.Whole u) (hle : t ≤ u) :
    unit.nextSecond t < u.seconds ∨
      unit.nextSecond t = u.seconds ∧ unit.nextNanos t ≤ u.nanos := by
  by_contra hbefore
  rw [Instant.inLeapSecond_eq_false_iff] at ht
  have hsame : unit.truncate u = unit.truncate t :=
    truncate_eq_of_before ht (Instant.inLeapSecond_eq_false_iff.mp hu.1)
      (le_trans (truncate_floorMap.le t) hle) (by omega)
  rw [hu.2] at hsame
  rw [hsame] at hle
  exact hfloor (le_antisymm (truncate_floorMap.le t) hle)

/-- The nanoseconds of the next unit are those of no leap second. -/
theorem nextNanos_lt (unit : CalendarUnit) (ht : t.inLeapSecond = false) :
    unit.nextNanos t < 1000000000 := by
  rw [Instant.inLeapSecond_eq_false_iff] at ht
  have hfloor := floorNanos_le unit t.nanos
  have hnext := next_cases unit t
  rw [Instant.nanosEnd, if_pos (by omega)] at hnext
  omega

/-- Outside leap seconds `ceil?` gives the least whole unit that is not before an instant. -/
theorem ceil?_isLeast (ht : t.inLeapSecond = false) (h : unit.ceil? t = some u) :
    IsLeast {v | unit.Whole v ∧ t ≤ v} u := by
  obtain ⟨hle, hwhole⟩ := le_and_truncate_of_ceil? h
  by_cases hfloor : unit.truncate t = t
  · rw [ceil?_of_eq hfloor, Option.some_inj] at h
    subst h
    exact ⟨⟨⟨ht, hwhole⟩, hle⟩, fun v hv => hv.2⟩
  · rw [ceil?_of_ne hfloor, Instant.make?_eq_some_iff] at h
    have hlt := nextNanos_lt unit ht
    refine ⟨⟨⟨?_, hwhole⟩, hle⟩, fun v hv => ?_⟩
    · rw [Instant.inLeapSecond_eq_false_iff, h.2]
      exact hlt
    · rw [Instant.le_iff, h.1, h.2]
      exact hv.1.next_le ht hfloor hv.2

/-- Nothing is above an instant only if all later whole units are beyond the representable range. -/
theorem ceil?_eq_none_iff (ht : t.inLeapSecond = false) :
    unit.ceil? t = none ↔ ∀ v, unit.Whole v → ¬ t ≤ v := by
  constructor
  · intro hnone v hv hle
    by_cases hfloor : unit.truncate t = t
    · rw [ceil?_of_eq hfloor] at hnone
      cases hnone
    · rw [ceil?_of_ne hfloor] at hnone
      have hnext := hv.next_le ht hfloor hle
      have hfirst : t.seconds ≤ unit.nextSecond t := by
        have hlt := lt_next unit t
        omega
      -- the next unit lies between two instants, so it can be represented
      have hrange : 86400 * Calendar.firstDay ≤ unit.nextSecond t ∧
          unit.nextSecond t < 86400 * (Calendar.lastDay + 1) :=
        ⟨le_trans t.inRange.1 hfirst, lt_of_le_of_lt (by omega) v.inRange.2⟩
      obtain ⟨w, hw, -⟩ := Instant.exists_of_inRange hrange (nextNanos_lt unit ht)
      rw [hw] at hnone
      cases hnone
  · -- a unit that is found is whole and does not lie before the instant
    intro hall
    cases h : unit.ceil? t with
    | none => rfl
    | some u => exact absurd (ceil?_isLeast ht h).1.2 (hall u (ceil?_isLeast ht h).1.1)

/-! ### Inside a window -/

/-- What truncation to a unit gives once it is moved up to a bound that may be missing. -/
def Raised (unit : CalendarUnit) (t : Instant) (min : Option Instant) (v : Instant) : Prop :=
  (v = unit.truncate t ∧ ∀ low ∈ min, low ≤ v) ∨
    ∃ low ∈ min, unit.truncate t < low ∧ unit.ceil? low = some v

/-- Truncation inside a window moves up to the lower bound first and then looks at the upper one. -/
theorem truncateWithin_cases (unit : CalendarUnit) (t : Instant) (min max : Option Instant) :
    (∃ v, unit.Raised t min v ∧
      unit.truncateWithin t min max =
        if ∃ high ∈ max, high < v then .error (unit.emptyWindow min max) else .ok v) ∨
    (∃ low ∈ min, unit.ceil? low = none) ∧
      unit.truncateWithin t min max = .error (unit.emptyWindow min max) := by
  unfold truncateWithin Raised
  cases min with
  | none =>
    refine Or.inl ⟨unit.truncate t, Or.inl ⟨rfl, by simp⟩, ?_⟩
    cases max <;> simp [bind, Except.bind]
  | some low =>
    -- the floor is raised if it lies below the lower bound, as far as there are instants
    by_cases hlow : unit.truncate t < low
    · cases hup : unit.ceil? low with
      | none => exact Or.inr ⟨⟨low, rfl, hup⟩, by simp [hlow, hup, bind, Except.bind]⟩
      | some up =>
        refine Or.inl ⟨up, Or.inr ⟨low, rfl, hlow, hup⟩, ?_⟩
        cases max <;> simp [hlow, hup, bind, Except.bind]
    · refine Or.inl ⟨unit.truncate t, Or.inl ⟨rfl, by simpa using hlow⟩, ?_⟩
      cases max <;> simp [hlow, bind, Except.bind]

theorem Raised.truncate_eq {min : Option Instant} (h : unit.Raised t min u) :
    unit.truncate u = u := by
  rcases h with ⟨rfl, -⟩ | ⟨low, -, -, hup⟩
  · exact truncate_floorMap.idem t
  · exact (le_and_truncate_of_ceil? hup).2

theorem Raised.min_le {min : Option Instant} (h : unit.Raised t min u) : ∀ low ∈ min, low ≤ u := by
  rcases h with ⟨-, hlow⟩ | ⟨low, hmem, -, hup⟩
  · exact hlow
  · intro low' hmem'
    obtain rfl := Option.mem_unique hmem hmem'
    exact (le_and_truncate_of_ceil? hup).1

/-- Outside leap seconds nothing whole lies between the bound and what is moved up to it. -/
theorem Raised.whole {min : Option Instant} (h : unit.Raised t min u)
    (ht : t.inLeapSecond = false) (hmin : ∀ low ∈ min, low.inLeapSecond = false) :
    unit.Whole u := by
  rcases h with ⟨rfl, -⟩ | ⟨low, hmem, -, hup⟩
  · exact truncate_whole ht
  · exact (ceil?_isLeast (hmin low hmem) hup).1.1

theorem raised_of_truncateWithin {min max : Option Instant}
    (h : unit.truncateWithin t min max = .ok u) :
    unit.Raised t min u ∧ ∀ high ∈ max, u ≤ high := by
  rcases truncateWithin_cases unit t min max with ⟨v, hv, hrun⟩ | ⟨-, hrun⟩
  · rw [hrun] at h
    by_cases hhigh : ∃ high ∈ max, high < v
    · rw [if_pos hhigh] at h
      cases h
    · rw [if_neg hhigh] at h
      cases h
      exact ⟨hv, fun high hmem => le_of_not_gt fun hlt => hhigh ⟨high, hmem, hlt⟩⟩
  · rw [hrun] at h
    cases h

/-- **What comes out is a whole unit inside the window**, whatever went in. -/
theorem truncateWithin_ok {min max : Option Instant} (h : unit.truncateWithin t min max = .ok u) :
    unit.truncate u = u ∧ (∀ low ∈ min, low ≤ u) ∧ ∀ high ∈ max, u ≤ high := by
  obtain ⟨hraised, hhigh⟩ := raised_of_truncateWithin h
  exact ⟨hraised.truncate_eq, hraised.min_le, hhigh⟩

/-- There is only one way to fail. -/
theorem truncateWithin_error {min max : Option Instant} {e : ConfigError}
    (h : unit.truncateWithin t min max = .error e) : e = unit.emptyWindow min max := by
  rcases truncateWithin_cases unit t min max with ⟨v, -, hrun⟩ | ⟨-, hrun⟩
  · rw [hrun] at h
    by_cases hhigh : ∃ high ∈ max, high < v
    · rw [if_pos hhigh] at h
      cases h
      rfl
    · rw [if_neg hhigh] at h
      cases h
  · rw [hrun] at h
    cases h
    rfl

/-- From an instant of the window, truncation inside it fails exactly when the window has no whole
unit. The upper bound may lie in a leap second. -/
theorem truncateWithin_eq_error_iff {min max : Option Instant} (ht : t.inLeapSecond = false)
    (hmin : ∀ low ∈ min, low.inLeapSecond = false) (hmax : ∀ high ∈ max, t ≤ high) :
    unit.truncateWithin t min max = .error (unit.emptyWindow min max) ↔
      ∀ v, unit.Whole v → (∀ low ∈ min, low ≤ v) → ¬ ∀ high ∈ max, v ≤ high := by
  rcases truncateWithin_cases unit t min max with ⟨u, hu, hrun⟩ | ⟨⟨low, hmem, hnone⟩, hrun⟩
  · -- the floor or what it is raised to, which may lie above the upper bound
    rw [hrun]
    by_cases hhigh : ∃ high ∈ max, high < u
    · refine iff_of_true (by rw [if_pos hhigh]) fun v hv hlow hle => ?_
      obtain ⟨high, hmem, hlt⟩ := hhigh
      rcases hu with ⟨rfl, -⟩ | ⟨low, hmem', -, hup⟩
      · exact absurd (hmax high hmem) (not_le_of_gt (lt_of_lt_of_le hlt (truncate_floorMap.le t)))
      · have hleast := (ceil?_isLeast (hmin low hmem') hup).2 ⟨hv, hlow low hmem'⟩
        exact absurd (hle high hmem) (not_le_of_gt (lt_of_lt_of_le hlt hleast))
    · refine iff_of_false (by rw [if_neg hhigh]; simp) fun hall => ?_
      refine hall u (hu.whole ht hmin) hu.min_le fun high hmem => ?_
      exact le_of_not_gt fun hlt => hhigh ⟨high, hmem, hlt⟩
  · -- no whole unit follows the lower bound
    refine iff_of_true hrun fun v hv hlow _ => ?_
    exact (ceil?_eq_none_iff (hmin low hmem)).mp hnone v hv (hlow low hmem)

/-- Truncation inside a window that succeeds at the lower bound leads from any instant up to the
upper bound, if there is one, to an instant of the window, leap seconds included. -/
theorem truncateWithin_ok_of_min {low : Instant} {max : Option Instant}
    (hlt : ∀ high ∈ max, low < high) (ht : ∀ high ∈ max, t ≤ high)
    (h : unit.truncateWithin low (some low) max = .ok u) :
    ∃ v, unit.truncateWithin t (some low) max = .ok v := by
  obtain ⟨hraised, hhigh⟩ := raised_of_truncateWithin h
  -- the first whole unit above the lower bound is in the window
  have hup : ∃ up, unit.ceil? low = some up ∧ ∀ high ∈ max, up ≤ high := by
    rcases hraised with ⟨rfl, hlow⟩ | ⟨low', hmem, -, hceil⟩
    · have hfixed := le_antisymm (truncate_floorMap.le low) (hlow low rfl)
      exact ⟨low, ceil?_of_eq hfixed, fun high hmem => (hlt high hmem).le⟩
    · obtain rfl := Option.mem_some.mp hmem
      exact ⟨u, hceil, hhigh⟩
  obtain ⟨up, hceil, hup⟩ := hup
  rcases truncateWithin_cases unit t (some low) max with ⟨v, hv, hrun⟩ | ⟨⟨low', hmem, hnone⟩, -⟩
  · refine ⟨v, ?_⟩
    rw [hrun, if_neg]
    rintro ⟨high, hmem, hover⟩
    -- neither the floor of `t` nor the unit that is found is above the upper bound
    rcases hv with ⟨rfl, -⟩ | ⟨low', hmem', -, hceil'⟩
    · exact absurd (le_trans (truncate_floorMap.le t) (ht high hmem)) (not_le_of_gt hover)
    · obtain rfl := Option.mem_some.mp hmem'
      obtain rfl := Option.some.inj (hceil.symm.trans hceil')
      exact absurd (hup high hmem) (not_le_of_gt hover)
  · obtain rfl := Option.mem_some.mp hmem
    rw [hceil] at hnone
    cases hnone

/-- Without a lower bound truncation never leaves a window. -/
theorem truncateWithin_ok_of_open {max : Option Instant} (ht : ∀ high ∈ max, t ≤ high) :
    unit.truncateWithin t none max = .ok (unit.truncate t) := by
  rcases truncateWithin_cases unit t none max with ⟨v, hv, hrun⟩ | ⟨⟨low, hmem, -⟩, -⟩
  · rcases hv with ⟨rfl, -⟩ | ⟨low, hmem, -⟩
    · rw [hrun, if_neg]
      rintro ⟨high, hmem, hover⟩
      exact absurd (le_trans (truncate_floorMap.le t) (ht high hmem)) (not_le_of_gt hover)
    · contradiction
  · contradiction

/-- A whole unit of the window comes out as it is. -/
theorem truncateWithin_of_whole {min max : Option Instant} (hwhole : unit.truncate t = t)
    (hmin : ∀ low ∈ min, low ≤ t) (hmax : ∀ high ∈ max, t ≤ high) :
    unit.truncateWithin t min max = .ok t := by
  unfold truncateWithin
  rw [hwhole]
  cases min with
  | none =>
    cases max with
    | none => rfl
    | some high => exact if_neg (not_lt_of_ge (hmax high rfl))
  | some low =>
    simp only [if_neg (not_lt_of_ge (hmin low rfl))]
    cases max with
    | none => rfl
    | some high => exact if_neg (not_lt_of_ge (hmax high rfl))

/-! ### The whole units of a window -/

/-- The whole units outside leap seconds between two bounds that may be missing. -/
def wholeWithin (unit : CalendarUnit) (min max : Option Instant) : Set Instant :=
  {v | unit.Whole v ∧ (∀ low ∈ min, low ≤ v) ∧ ∀ high ∈ max, v ≤ high}

/-- From an instant of the window, truncation inside it fails exactly when nothing there is
whole. -/
theorem truncateWithin_eq_error_iff_empty {min max : Option Instant} (ht : t.inLeapSecond = false)
    (hmin : ∀ low ∈ min, low.inLeapSecond = false) (hmax : ∀ high ∈ max, t ≤ high) :
    unit.truncateWithin t min max = .error (unit.emptyWindow min max) ↔
      unit.wholeWithin min max = ∅ := by
  rw [truncateWithin_eq_error_iff ht hmin hmax, Set.eq_empty_iff_forall_notMem]
  constructor
  · rintro hnone v ⟨hv, hlow, hhigh⟩
    exact hnone v hv hlow hhigh
  · intro hempty v hv hlow hhigh
    exact hempty v ⟨hv, hlow, hhigh⟩

/-- What is moved up is the truncated instant itself, unless that is below the window. -/
theorem Raised.eq_truncate {min : Option Instant} (h : unit.Raised t min u)
    (hlow : ∀ low ∈ min, low ≤ unit.truncate t) : u = unit.truncate t := by
  rcases h with ⟨heq, -⟩ | ⟨low, hmem, hbelow, -⟩
  · exact heq
  · exact absurd (hlow low hmem) (not_le_of_gt hbelow)

/-- Below the window it is the least whole unit that is not before the bound. -/
theorem Raised.isLeast {min : Option Instant} {low : Instant} (h : unit.Raised t min u)
    (hmem : low ∈ min) (hleap : low.inLeapSecond = false) (hbelow : unit.truncate t < low) :
    IsLeast {v | unit.Whole v ∧ low ≤ v} u := by
  rcases h with ⟨rfl, hlow⟩ | ⟨low', hmem', -, hup⟩
  · exact absurd (hlow low hmem) (not_le_of_gt hbelow)
  · obtain rfl := Option.mem_unique hmem hmem'
    exact ceil?_isLeast hleap hup

/-- **Truncation inside a window gives a whole unit of the window**, wherever the instant and the
bounds lie. From an instant of the window, all of it outside leap seconds, it fails with the error
for an empty window exactly if nothing in the window is whole; otherwise it gives the truncated
instant, or where that is below the window the least whole unit that is not before the bound. -/
theorem truncateWithin_finds_whole (unit : CalendarUnit) (t : Instant) (min max : Option Instant) :
    (∀ v, unit.truncateWithin t min max = .ok v →
      unit.truncate v = v ∧ (∀ low ∈ min, low ≤ v) ∧ ∀ high ∈ max, v ≤ high) ∧
    (t.inLeapSecond = false →
      (∀ low ∈ min, low.inLeapSecond = false ∧ low ≤ t) →
      (∀ high ∈ max, high.inLeapSecond = false ∧ t ≤ high) →
      (unit.truncateWithin t min max = .error (unit.emptyWindow min max) ↔
        unit.wholeWithin min max = ∅) ∧
      ((unit.wholeWithin min max).Nonempty → ∃ v, unit.truncateWithin t min max = .ok v ∧
        ((∀ low ∈ min, low ≤ unit.truncate t) → v = unit.truncate t) ∧
        ∀ low ∈ min, unit.truncate t < low → IsLeast {u | unit.Whole u ∧ low ≤ u} v)) := by
  constructor
  · intro v hv
    exact truncateWithin_ok hv
  · intro ht hmin hmax
    have hempty : unit.truncateWithin t min max = .error (unit.emptyWindow min max) ↔
        unit.wholeWithin min max = ∅ :=
      truncateWithin_eq_error_iff_empty ht (fun low hmem => (hmin low hmem).1)
        (fun high hmem => (hmax high hmem).2)
    constructor
    · exact hempty
    · intro hsome
      cases hrun : unit.truncateWithin t min max with
      | error e =>
        obtain rfl := truncateWithin_error hrun
        exact absurd (hempty.mp hrun) hsome.ne_empty
      | ok v =>
        obtain ⟨hraised, -⟩ := raised_of_truncateWithin hrun
        refine ⟨v, rfl, hraised.eq_truncate, ?_⟩
        intro low hmem hbelow
        exact hraised.isLeast hmem (hmin low hmem).1 hbelow

/-- From noon of the first day of January 2003 to noon of the first day of February. -/
def noonToNoon : Option Instant × Option Instant :=
  (Instant.parse? "2003-01-01T12:00:00Z", Instant.parse? "2003-02-01T12:00:00Z")

def evening : Instant := (Instant.parse? "2003-01-01T18:00:00.000000005Z").get (by decide +kernel)

def february : Instant := (Instant.parse? "2003-02-01T00:00:00Z").get (by decide +kernel)

/-- From the evening of the first day of January 2003 the first of February is found, which is the
only beginning of a month between the two noons. -/
theorem truncateWithin_finds_whole_february :
    evening.inLeapSecond = false ∧
      (∀ low ∈ noonToNoon.1, low.inLeapSecond = false ∧ low ≤ evening) ∧
      (∀ high ∈ noonToNoon.2, high.inLeapSecond = false ∧ evening ≤ high) ∧
      month.truncateWithin evening noonToNoon.1 noonToNoon.2 = .ok february ∧
      ∀ low ∈ noonToNoon.1, IsLeast {u | month.Whole u ∧ low ≤ u} february := by
  have hmin : ∀ low ∈ noonToNoon.1, low.inLeapSecond = false ∧ low ≤ evening := by decide
  have hmax : ∀ high ∈ noonToNoon.2, high.inLeapSecond = false ∧ evening ≤ high := by decide
  have hbelow : ∀ low ∈ noonToNoon.1, month.truncate evening < low := by decide +kernel
  have hrun : month.truncateWithin evening noonToNoon.1 noonToNoon.2 = .ok february := by
    decide +kernel
  obtain ⟨hsound, hcomplete⟩ :=
    truncateWithin_finds_whole month evening noonToNoon.1 noonToNoon.2
  obtain ⟨hwhole, hlow, hhigh⟩ := hsound february hrun
  obtain ⟨-, hfound⟩ := hcomplete (by decide) hmin hmax
  obtain ⟨v, hv, -, hleast⟩ := hfound ⟨february, ⟨by decide, hwhole⟩, hlow, hhigh⟩
  obtain rfl : february = v := Except.ok.inj (hrun.symm.trans hv)
  exact ⟨by decide, hmin, hmax, hrun, fun low hmem => hleast low hmem (hbelow low hmem)⟩

end CalendarUnit

/-!
## Coarse and fine units

Every unit is made of whole finer ones: a year begins with a month, a month with a day, and so on
down to the nanosecond. So truncation to a unit does not notice whether the instant was truncated to
a finer unit before, and leaves nothing for the finer unit to cut off.

- `CalendarUnit.Coarser`: the order in which the units are listed.
- `CalendarUnit.Coarser.splits`: what a coarse unit leaves alone, a finer one leaves alone.
- `FloorMap.absorbs`: of two maps that round down, the coarser one decides in either order.
- `CalendarUnit.truncate_isGreatest_ceil?_isLeast`: the laws of truncation and of its counterpart
  `ceil?`, for all units and over the whole range of instants.
-/

/-! ### Two maps that round down -/

/-- Of two maps that round down, the one with fewer fixed points decides in either order. -/
theorem FloorMap.absorbs {α : Type} [LinearOrder α] {coarse fine : α → α}
    (hcoarse : FloorMap coarse) (hfine : FloorMap fine)
    (hfixed : ∀ x, coarse x = x → fine x = x) (x : α) :
    coarse (fine x) = coarse x ∧ fine (coarse x) = coarse x := by
  have hstays : fine (coarse x) = coarse x := hfixed _ (hcoarse.idem x)
  -- the coarse cell begins no later than the fine one, so it holds both points
  have hbegun : coarse x ≤ fine x := hfine.le_of_fixed hstays (hcoarse.le x)
  constructor
  · exact hcoarse.eq_of_between hbegun (hfine.le x)
  · exact hstays

namespace CalendarUnit

open Calendar

variable {unit coarse fine : CalendarUnit} {t : Instant}

/-! ### The order of the units -/

/-- The first unit is not listed behind the second one. -/
def Coarser (coarse fine : CalendarUnit) : Prop := all.idxOf coarse ≤ all.idxOf fine

instance (coarse fine : CalendarUnit) : Decidable (Coarser coarse fine) :=
  inferInstanceAs (Decidable (all.idxOf coarse ≤ all.idxOf fine))

example : Coarser year day ∧ ¬ Coarser second minute ∧ Coarser month month := by decide

/-- An instant is a whole unit if neither its second nor its nanoseconds are changed. -/
theorem truncate_eq_iff :
    unit.truncate t = t ↔
      unit.floorSeconds t.seconds = t.seconds ∧ unit.floorNanos t.nanos = t.nanos := by
  obtain ⟨hs, hn⟩ := truncate_parts unit t
  constructor
  · intro h
    rw [h] at hs hn
    exact ⟨hs.symm, hn.symm⟩
  · rintro ⟨hseconds, hnanos⟩
    exact Instant.eq_of_parts (hs.trans hseconds) (hn.trans hnanos)

/-- A year begins with a month. -/
theorem floorSeconds_month_of_year {s : Int} (h : year.floorSeconds s = s) :
    month.floorSeconds s = s := by
  -- the first day of a year is that of its January
  obtain ⟨hyear, hmonth⟩ :=
    dateOf_first (yearOf (s / 86400)) (⟨by decide, by decide⟩ : 1 ≤ 1 ∧ 1 ≤ 12)
  have hfirst : dayNumber (yearOf (s / 86400)) 1 1 = yearStart (yearOf (s / 86400)) := by
    simp only [dayNumber, daysBeforeMonth_one]
    omega
  have hday : s / 86400 = dayNumber (yearOf (s / 86400)) 1 1 := by
    simp only [floorSeconds] at h
    omega
  simp only [floorSeconds]
  rw [← hday] at hyear hmonth
  rw [hyear, hmonth, ← hday]
  simp only [floorSeconds] at h
  omega

/-- A month begins with a day. -/
theorem floorSeconds_day_of_month {s : Int} (h : month.floorSeconds s = s) :
    CalendarUnit.day.floorSeconds s = s := by
  simp only [floorSeconds] at h ⊢
  generalize dayNumber _ _ 1 = first at h
  omega

/-- A day begins with an hour. -/
theorem floorSeconds_hour_of_day {s : Int} (h : CalendarUnit.day.floorSeconds s = s) :
    hour.floorSeconds s = s := by
  simp only [floorSeconds] at h ⊢
  omega

/-- An hour begins with a minute. -/
theorem floorSeconds_minute_of_hour {s : Int} (h : hour.floorSeconds s = s) :
    minute.floorSeconds s = s := by
  simp only [floorSeconds] at h ⊢
  omega

/-- A millisecond begins with a microsecond. -/
theorem floorNanos_microsecond_of_millisecond {n : Nat} (h : millisecond.floorNanos n = n) :
    microsecond.floorNanos n = n := by
  have hthousand : 1000 ∣ n := dvd_trans (by norm_num : 1000 ∣ 1000000) (Dvd.intro_left _ h)
  exact Nat.div_mul_cancel hthousand

/-- What the first unit leaves alone, the second one leaves alone. -/
def Splits (coarse fine : CalendarUnit) : Prop :=
  ∀ t : Instant, coarse.truncate t = t → fine.truncate t = t

instance : Trans Splits Splits Splits where
  trans hab hbc t ht := hbc t (hab t ht)

/-- Each unit is made of whole units of the next finer kind. -/
theorem isChain_splits : all.IsChain Splits := by
  simp only [all, List.isChain_cons_cons, List.isChain_singleton, and_true, Splits, truncate_eq_iff]
  refine ⟨?_, ?_, ?_, ?_, ?_, ?_, ?_, ?_⟩ <;> rintro t ⟨hs, hn⟩
  · exact ⟨floorSeconds_month_of_year hs, hn⟩
  · exact ⟨floorSeconds_day_of_month hs, hn⟩
  · exact ⟨floorSeconds_hour_of_day hs, hn⟩
  · exact ⟨floorSeconds_minute_of_hour hs, hn⟩
  · exact ⟨rfl, hn⟩
  · have hzero : t.nanos = 0 := hn.symm
    rw [hzero]
    exact ⟨rfl, rfl⟩
  · exact ⟨rfl, floorNanos_microsecond_of_millisecond hn⟩
  · exact ⟨rfl, rfl⟩

/-- What a coarse unit leaves alone, a finer one leaves alone. -/
theorem Coarser.splits (h : coarse.Coarser fine) : coarse.Splits fine := by
  have hlisted (u : CalendarUnit) : all.idxOf u < all.length := by
    cases u <;> decide
  rcases Nat.lt_or_eq_of_le h with hlt | heq
  · have hlater := List.pairwise_iff_getElem.mp (List.isChain_iff_pairwise.mp isChain_splits) _ _
      (hlisted coarse) (hlisted fine) hlt
    rwa [List.getElem_idxOf, List.getElem_idxOf] at hlater
  · have hsame : coarse = fine := by
      rw [← List.getElem_idxOf (hlisted coarse), ← List.getElem_idxOf (hlisted fine)]
      simp only [heq]
    rw [hsame]
    intro t ht
    exact ht

/-! ### The laws together -/

/-- Outside leap seconds `ceil?` finds the least whole unit that is not before an instant wherever
there is one. -/
theorem ceil?_eq_some_iff (ht : t.inLeapSecond = false) {u : Instant} :
    unit.ceil? t = some u ↔ IsLeast {v | unit.Whole v ∧ t ≤ v} u := by
  constructor
  · intro h
    exact ceil?_isLeast ht h
  · intro hu
    cases h : unit.ceil? t with
    | none => exact absurd hu.1.2 ((ceil?_eq_none_iff ht).mp h u hu.1.1)
    | some v => rw [(ceil?_isLeast ht h).unique hu]

/-- **Truncation gives the greatest whole unit that is not after an instant**, leap seconds
included. It keeps the order, has nothing to do a second time, and takes no notice of a finer unit
that comes before or after it. Outside leap seconds `ceil?` gives the least whole unit that is not
before an instant, and nothing exactly if none can be represented. -/
theorem truncate_isGreatest_ceil?_isLeast (unit : CalendarUnit) :
    (∀ t, unit.truncate t ≤ t ∧
      IsGreatest {u | u ≤ t ∧ unit.truncate u = u} (unit.truncate t) ∧
      unit.truncate (unit.truncate t) = unit.truncate t) ∧
    Monotone unit.truncate ∧
    (∀ fine, unit.Coarser fine → ∀ t,
      unit.truncate (fine.truncate t) = unit.truncate t ∧
      fine.truncate (unit.truncate t) = unit.truncate t) ∧
    ∀ t : Instant, t.inLeapSecond = false →
      (∀ u, unit.ceil? t = some u ↔ IsLeast {v | unit.Whole v ∧ t ≤ v} u) ∧
      (unit.ceil? t = none ↔ ∀ v, unit.Whole v → ¬ t ≤ v) := by
  have hfloor := @truncate_floorMap unit
  refine ⟨?_, hfloor.mono, ?_, ?_⟩
  · intro t
    exact ⟨hfloor.le t, hfloor.isGreatest t, hfloor.idem t⟩
  · intro fine hcoarser t
    exact hfloor.absorbs truncate_floorMap hcoarser.splits t
  · intro t ht
    constructor
    · intro u
      exact ceil?_eq_some_iff ht
    · exact ceil?_eq_none_iff ht

/-- Within the leap second at the end of 2016. -/
def leapSecond : Instant := (Instant.parse? "2016-12-31T23:59:60.5Z").get (by decide +kernel)

/-- Noon of the last day that can be represented. -/
def lastNoon : Instant := (Instant.make? (86400 * lastDay + 43200) 0).get (by decide +kernel)

/-- Milliseconds of a leap second are not noticed by months, and no year begins after the last
noon. -/
theorem truncate_isGreatest_ceil?_isLeast_edges :
    leapSecond.inLeapSecond = true ∧ month.Coarser millisecond ∧
      month.truncate (millisecond.truncate leapSecond) = month.truncate leapSecond ∧
      lastNoon.inLeapSecond = false ∧ year.ceil? lastNoon = none ∧
      ∀ v, year.Whole v → ¬ lastNoon ≤ v := by
  obtain ⟨-, -, hmonth, -⟩ := truncate_isGreatest_ceil?_isLeast month
  obtain ⟨-, -, -, hyear⟩ := truncate_isGreatest_ceil?_isLeast year
  have hcoarser : month.Coarser millisecond := by decide
  have hnoon : lastNoon.inLeapSecond = false := by decide +kernel
  have hnone : year.ceil? lastNoon = none := by decide +kernel
  refine ⟨by decide, hcoarser, (hmonth _ hcoarser leapSecond).1, hnoon, hnone, ?_⟩
  exact (hyear lastNoon hnoon).2.mp hnone

end CalendarUnit

end ColumnMask
