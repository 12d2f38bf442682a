import Mathlib
import ColumnMask.Instant

/-!
# Dates, instants and the time between them

The calendar and the clock count without gaps, but for leap seconds.
-/

namespace ColumnMask

/-!
## Laws of the calendar

The years cut the days into intervals, and the months cut each year; `Calendar.dateOf` names the
interval that a day falls into.

- `Calendar.yearOf_eq_iff`: a day falls into the one year that has begun and not ended.
- `Calendar.monthOf_eq_iff`: the same for the months of a year.
- `Calendar.dayNumber_dateOf`, `Calendar.dateOf_dayNumber`: day numbers and dates name the same
  days.
-/

namespace Calendar

/-! ### Years -/

/-- The length of a year as month 13 gives it. -/
theorem daysBeforeMonth_thirteen (leap : Bool) :
    daysBeforeMonth leap 13 = if leap then 366 else 365 := by
  cases leap <;> rfl

@[simp] theorem daysBeforeMonth_one (leap : Bool) : daysBeforeMonth leap 1 = 0 := by
  cases leap <;> rfl

/-- A year begins where the one before it ends. -/
theorem yearStart_add_one (year : Int) :
    yearStart (year + 1) = yearStart year + daysBeforeMonth (isLeapYear year) 13 := by
  rw [daysBeforeMonth_thirteen]
  simp only [isLeapYear, yearStart, Bool.and_eq_true, Bool.or_eq_true, beq_iff_eq, bne_iff_ne]
  split <;> omega

theorem yearStart_strictMono : StrictMono yearStart := by
  refine strictMono_int_of_lt_succ fun year => ?_
  rw [yearStart_add_one, daysBeforeMonth_thirteen]
  split <;> omega

/-- The year of a day has begun and has not ended. The guess by the mean length of a year is off by
one at most. -/
theorem yearOf_spec (day : Int) :
    yearStart (yearOf day) ≤ day ∧ day < yearStart (yearOf day + 1) := by
  unfold yearOf
  simp only []
  -- the guess is the year itself, the one before or the one after
  generalize hguess : (day + 719162) * 400 / 146097 + 1 = guess
  have hlow : yearStart (guess - 1) ≤ day := by
    simp only [yearStart]
    omega
  have hhigh : day < yearStart (guess + 2) := by
    simp only [yearStart]
    omega
  split
  case isTrue h => exact ⟨hlow, by rwa [Int.sub_add_cancel]⟩
  case isFalse h =>
    split
    case isTrue h' => exact ⟨h', by rwa [Int.add_assoc]⟩
    case isFalse h' => exact ⟨Int.not_lt.mp h, Int.not_le.mp h'⟩

/-- **The year of a day** is the one that has begun and has not ended. -/
theorem yearOf_eq_iff {day year : Int} :
    yearOf day = year ↔ yearStart year ≤ day ∧ day < yearStart (year + 1) := by
  constructor
  · rintro rfl
    exact yearOf_spec day
  · rintro ⟨hbegun, hlasts⟩
    obtain ⟨hbegun', hlasts'⟩ := yearOf_spec day
    have h1 : yearOf day < year + 1 :=
      yearStart_strictMono.lt_iff_lt.mp (Int.lt_of_le_of_lt hbegun' hlasts)
    have h2 : year < yearOf day + 1 :=
      yearStart_strictMono.lt_iff_lt.mp (Int.lt_of_le_of_lt hbegun hlasts')
    omega

@[simp] theorem yearOf_yearStart (year : Int) : yearOf (yearStart year) = year :=
  yearOf_eq_iff.mpr ⟨Int.le_refl _, yearStart_strictMono (Int.lt_succ year)⟩

/-! ### Months -/

/-- Later months have more days before them. -/
theorem daysBeforeMonth_mono : ∀ (leap : Bool), ∀ n ≤ 13, ∀ m ≤ n, 1 ≤ m →
    daysBeforeMonth leap m ≤ daysBeforeMonth leap n := by
  decide

/-- Every month has a day. -/
theorem daysInMonth_pos : ∀ (leap : Bool), ∀ m ≤ 12, 1 ≤ m → 1 ≤ daysInMonth leap m := by
  decide

/-- The month of a day of the year has begun and has not ended. -/
theorem monthOf_spec : ∀ (leap : Bool), ∀ day < daysBeforeMonth leap 13,
    (1 ≤ monthOf leap day ∧ monthOf leap day ≤ 12) ∧
      daysBeforeMonth leap (monthOf leap day) ≤ day ∧
      day < daysBeforeMonth leap (monthOf leap day + 1) := by
  decide +kernel

/-- **The month of a day** of the year is the one that has begun and has not ended. -/
theorem monthOf_eq_iff {leap : Bool} {day month : Nat} (hday : day < daysBeforeMonth leap 13)
    (hmonth : 1 ≤ month ∧ month ≤ 12) :
    monthOf leap day = month ↔
      daysBeforeMonth leap month ≤ day ∧ day < daysBeforeMonth leap (month + 1) := by
  obtain ⟨hrange, hbegun', hlasts'⟩ := monthOf_spec leap day hday
  constructor
  · rintro rfl
    exact ⟨hbegun', hlasts'⟩
  · rintro ⟨hbegun, hlasts⟩
    -- of two different months the earlier one has ended when the later one begins
    rcases Nat.lt_trichotomy (monthOf leap day) month with h | h | h
    · have hend := daysBeforeMonth_mono leap month (by omega) (monthOf leap day + 1) h (by omega)
      omega
    · exact h
    · have hend := daysBeforeMonth_mono leap (monthOf leap day) (by omega) (month + 1) h (by omega)
      omega

/-! ### Dates -/

/-- The days of the year before a day are fewer than the year has. -/
theorem dayOfYear_lt (day : Int) :
    ((day - yearStart (yearOf day)).toNat : Int) = day - yearStart (yearOf day) ∧
      (day - yearStart (yearOf day)).toNat < daysBeforeMonth (isLeapYear (yearOf day)) 13 := by
  obtain ⟨hbegun, hlasts⟩ := yearOf_spec day
  rw [yearStart_add_one] at hlasts
  omega

@[simp] theorem dateOf_year (day : Int) : (dateOf day).year = yearOf day := rfl

theorem dateOf_month_range (day : Int) : 1 ≤ (dateOf day).month ∧ (dateOf day).month ≤ 12 :=
  (monthOf_spec _ _ (dayOfYear_lt day).2).1

/-- The month of a day has begun and has not ended. -/
theorem dateOf_spec (day : Int) :
    dayNumber (dateOf day).year (dateOf day).month 1 ≤ day ∧
      day < dayNumber (dateOf day).year ((dateOf day).month + 1) 1 := by
  obtain ⟨hcast, hlt⟩ := dayOfYear_lt day
  obtain ⟨-, hbegun, hlasts⟩ := monthOf_spec _ _ hlt
  simp only [dayNumber, dateOf]
  omega

/-- The first of a month is the day after the last of the month before, also in January. -/
theorem dayNumber_thirteen (year : Int) : dayNumber year 13 1 = dayNumber (year + 1) 1 1 := by
  simp only [dayNumber, daysBeforeMonth_one, yearStart_add_one]
  omega

/-- The days of a month lie within its year. -/
theorem dayNumber_le_yearStart (year : Int) {month : Nat} (hmonth : 1 ≤ month ∧ month ≤ 12) :
    yearStart year ≤ dayNumber year month 1 ∧
      dayNumber year (month + 1) 1 ≤ yearStart (year + 1) := by
  have hend := daysBeforeMonth_mono (isLeapYear year) 13 (Nat.le_refl 13) (month + 1)
    (Nat.succ_le_succ hmonth.2) (Nat.le_add_left 1 month)
  simp only [dayNumber, yearStart_add_one]
  omega

/-- **The month of a date** is the one that has begun and has not ended. -/
theorem dateOf_eq_iff {day year : Int} {month : Nat} (hmonth : 1 ≤ month ∧ month ≤ 12) :
    ((dateOf day).year = year ∧ (dateOf day).month = month) ↔
      dayNumber year month 1 ≤ day ∧ day < dayNumber year (month + 1) 1 := by
  -- the year cannot begin after the day and end before it
  constructor
  · rintro ⟨rfl, rfl⟩
    exact dateOf_spec day
  · rintro ⟨hbegun, hlasts⟩
    -- a month lies within its year, and the year is found first
    obtain ⟨hyear, hyear'⟩ := dayNumber_le_yearStart year hmonth
    have hy : yearOf day = year :=
      yearOf_eq_iff.mpr ⟨Int.le_trans hyear hbegun, Int.lt_of_lt_of_le hlasts hyear'⟩
    refine ⟨hy, ?_⟩
    subst hy
    obtain ⟨hcast, hlt⟩ := dayOfYear_lt day
    refine (monthOf_eq_iff hlt hmonth).mpr ?_
    simp only [dayNumber] at hbegun hlasts
    omega

/-- The date of a day has the number of that day. -/
theorem dayNumber_dateOf (day : Int) :
    dayNumber (dateOf day).year (dateOf day).month (dateOf day).day = day := by
  obtain ⟨hcast, hlt⟩ := dayOfYear_lt day
  obtain ⟨-, hbegun, -⟩ := monthOf_spec _ _ hlt
  simp only [dayNumber, dateOf]
  omega

/-- The number of a day leads back to its date. -/
theorem dateOf_dayNumber {year : Int} {month day : Nat} (hmonth : 1 ≤ month ∧ month ≤ 12)
    (hday : 1 ≤ day ∧ day ≤ daysInMonth (isLeapYear year) month) :
    dateOf (dayNumber year month day) = ⟨year, month, day⟩ := by
  -- the day lies between the first of its month and the first of the next one
  have hin : dayNumber year month 1 ≤ dayNumber year month day ∧
      dayNumber year month day < dayNumber year (month + 1) 1 := by
    simp only [dayNumber, daysInMonth] at *
    omega
  obtain ⟨hy, hm⟩ := (dateOf_eq_iff hmonth).mpr hin
  have hback := dayNumber_dateOf (dayNumber year month day)
  rw [hy, hm] at hback
  have hd : (dateOf (dayNumber year month day)).day = day := by
    simp only [dayNumber] at hback ⊢
    omega
  calc dateOf (dayNumber year month day)
      = ⟨(dateOf (dayNumber year month day)).year, (dateOf (dayNumber year month day)).month,
          (dateOf (dayNumber year month day)).day⟩ := rfl
    _ = ⟨year, month, day⟩ := by rw [hy, hm, hd]

/-- The first of a month lies in that month. -/
theorem dateOf_first (year : Int) {month : Nat} (hmonth : 1 ≤ month ∧ month ≤ 12) :
    (dateOf (dayNumber year month 1)).year = year ∧
      (dateOf (dayNumber year month 1)).month = month := by
  rw [dateOf_dayNumber hmonth ⟨Nat.le_refl 1, daysInMonth_pos _ month hmonth.2 hmonth.1⟩]
  exact ⟨rfl, rfl⟩

end Calendar

/-!
## Laws of instants

Instants are totally ordered by their seconds and then by their nanoseconds, leap seconds included.

- `Instant.make?_eq_some_iff`: the instants that have given parts.
- `Instant.shift?_of_not_leap`: outside a leap second a duration is added to the nanoseconds, and
  whole seconds are carried over.
- `Instant.shift?_of_lt_second`: a duration of less than a second does not leave a leap second
  before its end.
-/

namespace Instant

/-! ### Parts -/

theorem eq_of_parts {a b : Instant} (hseconds : a.seconds = b.seconds)
    (hnanos : a.nanos = b.nanos) : a = b := by
  cases a
  cases b
  simp_all

theorem make?_eq_some_iff {seconds : Int} {nanos : Nat} {t : Instant} :
    make? seconds nanos = some t ↔ t.seconds = seconds ∧ t.nanos = nanos := by
  constructor
  · exact make?_eq_some
  · rintro ⟨rfl, rfl⟩
    exact dif_pos ⟨t.inRange, t.nanos_lt, t.leap⟩

/-- The parts of an instant outside a leap second can be anything in range. -/
theorem exists_of_inRange {seconds : Int} {nanos : Nat}
    (hrange : 86400 * Calendar.firstDay ≤ seconds ∧ seconds < 86400 * (Calendar.lastDay + 1))
    (hnanos : nanos < 1000000000) :
    ∃ t, make? seconds nanos = some t ∧ t.seconds = seconds ∧ t.nanos = nanos :=
  ⟨⟨seconds, nanos, hrange, by omega, by omega⟩,
    dif_pos ⟨hrange, by omega, by omega⟩, rfl, rfl⟩

@[simp] theorem inLeapSecond_eq_false_iff {t : Instant} :
    t.inLeapSecond = false ↔ t.nanos < 1000000000 := by
  simp [inLeapSecond]

/-! ### Order -/

theorem lt_iff {a b : Instant} :
    a < b ↔ a.seconds < b.seconds ∨ a.seconds = b.seconds ∧ a.nanos < b.nanos := Iff.rfl

theorem le_iff {a b : Instant} :
    a ≤ b ↔ a.seconds < b.seconds ∨ a.seconds = b.seconds ∧ a.nanos ≤ b.nanos := Iff.rfl

instance : LinearOrder Instant where
  le_refl a := Or.inr ⟨rfl, Nat.le_refl _⟩
  le_trans a b c hab hbc := by
    rw [le_iff] at *
    omega
  le_antisymm a b hab hba := by
    rw [le_iff] at *
    exact eq_of_parts (by omega) (by omega)
  le_total a b := by
    rw [le_iff, le_iff]
    omega
  lt_iff_le_not_ge a b := by
    rw [le_iff, le_iff, lt_iff]
    omega
  toDecidableLE := inferInstance
  toDecidableEq := inferInstance
  toDecidableLT := inferInstance

/-! ### Adding a duration -/

/-- Outside a leap second the nanoseconds take the duration up, and whole seconds are carried. -/
theorem shift?_of_not_leap {t : Instant} (h : t.nanos < 1000000000) (d : Duration) :
    t.shift? d =
      make? (t.seconds + (t.nanos + d) / 1000000000) ((t.nanos + d) % 1000000000).toNat := by
  unfold shift?
  simp only [if_pos h, ofNanosAfter?]

/-- Where the nanoseconds of a second end: those of a leap second count on from ordinary ones. -/
def nanosEnd (nanos : Nat) : Nat :=
  if nanos < 1000000000 then 1000000000 else 2000000000

@[simp] theorem nanosEnd_zero : nanosEnd 0 = 1000000000 := rfl

theorem nanosEnd_cases (nanos : Nat) :
    (nanos < 1000000000 ∧ nanosEnd nanos = 1000000000) ∨
      (1000000000 ≤ nanos ∧ nanosEnd nanos = 2000000000) := by
  unfold nanosEnd
  by_cases h : nanos < 1000000000
  · exact Or.inl ⟨h, if_pos h⟩
  · exact Or.inr ⟨Nat.not_lt.mp h, if_neg h⟩

/-- Less than a second after an instant it is the same second, leap or not, or the next one. -/
theorem shift?_of_lt_second (t : Instant) {d : Nat} (hd : 0 < d ∧ d < 1000000000) :
    t.shift? d =
      if t.nanos + d < nanosEnd t.nanos then make? t.seconds (t.nanos + d)
      else make? (t.seconds + 1) (t.nanos + d - nanosEnd t.nanos) := by
  have hlt := t.nanos_lt
  -- in a plain second the sum goes into the next second or not
  rcases nanosEnd_cases t.nanos with ⟨h, hend⟩ | ⟨h, hend⟩
  · rw [shift?_of_not_leap h, hend]
    by_cases hstay : t.nanos + d < 1000000000
    · rw [if_pos hstay]
      exact congrArg₂ make? (by omega) (by omega)
    · rw [if_neg hstay]
      exact congrArg₂ make? (by omega) (by omega)
  · -- a leap second lasts two seconds of nanoseconds, and the sum leaves it or not
    have hwhole : Int.tdiv d 1000000000 = 0 := Int.tdiv_eq_zero_of_lt (by omega) (by omega)
    have hpart : Int.tmod d 1000000000 = d := Int.tmod_eq_of_lt (by omega) (by omega)
    unfold shift?
    simp only [hwhole, hpart, if_neg (Nat.not_lt.mpr h), lt_irrefl, false_or, if_false, hend]
    by_cases hstay : t.nanos + d < 2000000000
    · rw [if_pos hstay, if_neg (by omega)]
      exact congrArg₂ make? rfl (by omega)
    · rw [if_neg hstay, if_pos (by omega), ofNanosAfter?]
      exact congrArg₂ make? (by omega) (by omega)

/-- A step that does not go beyond the end of the second stays in it, or leads to the beginning of
the next one. -/
theorem shift?_of_le_nanosEnd {t : Instant} {d nanos : Nat} {second : Int}
    (hd : 0 < d ∧ d < 1000000000) (hle : t.nanos + d ≤ nanosEnd t.nanos)
    (h : (t.nanos + d < nanosEnd t.nanos ∧ second = t.seconds ∧ nanos = t.nanos + d) ∨
      (nanosEnd t.nanos ≤ t.nanos + d ∧ second = t.seconds + 1 ∧ nanos = 0)) :
    t.shift? d = make? second nanos := by
  rw [shift?_of_lt_second t hd]
  rcases h with ⟨hstay, rfl, rfl⟩ | ⟨hend, rfl, rfl⟩
  · rw [if_pos hstay]
  · rw [if_neg (Nat.not_lt.mpr hend), Nat.sub_eq_zero_of_le hle]

/-!
## Elapsed time

A duration that is added to an instant can be read off a clock that counts nanoseconds. Such a clock
knows of the leap second that it is started in, if it is, and of no other one; so the time that has
elapsed between two instants depends on the first of them.

- `Instant.clock`: what a clock that was started in one instant shows in another.
- `Instant.Reaches`: the instant in which a clock has gone on by a duration.
- `Instant.shift?_eq_some_iff`: `shift?` gives this instant.
- `Instant.shift?_eq_none_iff`: it gives nothing exactly if there is no such instant in the
  representable range.
-/

variable {t u : Instant} {d : Duration}

theorem inLeapSecond_eq_true_iff : t.inLeapSecond = true ↔ 1000000000 ≤ t.nanos := by
  simp [inLeapSecond]

/-! ### The clock -/

/-- The nanoseconds that a clock shows in `u` if it was started in `t`: those since the beginning of
1970, and one second more once the leap second that `t` lies in is over. -/
def clock (t u : Instant) : Int :=
  u.seconds * 1000000000 + u.nanos +
    if t.inLeapSecond = true ∧ t.seconds < u.seconds then 1000000000 else 0

/-- In `u` the clock that was started in `t` has gone on by `d`. A leap second that the clock was
not started in is never reached. -/
structure Reaches (t : Instant) (d : Duration) (u : Instant) : Prop where
  clock_eq : t.clock u = t.clock t + d
  leap : u.inLeapSecond = true → t.inLeapSecond = true ∧ u.seconds = t.seconds

theorem reaches_iff : t.Reaches d u ↔ t.clock u = t.clock t + d ∧
    (1000000000 ≤ u.nanos → 1000000000 ≤ t.nanos ∧ u.seconds = t.seconds) := by
  rw [← inLeapSecond_eq_true_iff, ← inLeapSecond_eq_true_iff]
  constructor
  · rintro ⟨hclock, hleap⟩
    exact ⟨hclock, hleap⟩
  · rintro ⟨hclock, hleap⟩
    exact ⟨hclock, hleap⟩

/-- Outside leap seconds the clock shows plain nanoseconds. -/
theorem clock_of_not_leap (h : t.nanos < 1000000000) (u : Instant) :
    t.clock u = u.seconds * 1000000000 + u.nanos := by
  rw [clock, if_neg, Int.add_zero]
  rintro ⟨hleap, -⟩
  rw [inLeapSecond_eq_true_iff] at hleap
  omega

/-- The clock starts with plain nanoseconds, in a leap second too. -/
theorem clock_self (t : Instant) : t.clock t = t.seconds * 1000000000 + t.nanos := by
  rw [clock, if_neg, Int.add_zero]
  rintro ⟨-, hlt⟩
  exact lt_irrefl _ hlt

/-! ### Reaching an instant -/

/-- The instant that many nanoseconds after the beginning of a second is no leap second. -/
theorem ofNanosAfter?_eq_some_iff {seconds nanos : Int} :
    ofNanosAfter? seconds nanos = some u ↔
      u.seconds * 1000000000 + u.nanos = seconds * 1000000000 + nanos ∧ u.nanos < 1000000000 := by
  rw [ofNanosAfter?, make?_eq_some_iff]
  omega

/-- Whole seconds and the remainder of a duration have its sign. -/
theorem tdiv_tmod_second (d : Int) :
    d = 1000000000 * d.tdiv 1000000000 + d.tmod 1000000000 ∧
      (0 ≤ d → 0 ≤ d.tmod 1000000000 ∧ d.tmod 1000000000 < 1000000000) ∧
      (d ≤ 0 → -1000000000 < d.tmod 1000000000 ∧ d.tmod 1000000000 ≤ 0) := by
  refine ⟨(Int.mul_tdiv_add_tmod d 1000000000).symm, ?_, ?_⟩
  · intro hd
    exact ⟨Int.tmod_nonneg _ hd, Int.tmod_lt_of_pos d (by decide)⟩
  · intro hd
    have hneg := Int.tmod_lt_of_pos (-d) (by decide : (0 : Int) < 1000000000)
    have hnonneg := Int.tmod_nonneg 1000000000 (by omega : 0 ≤ -d)
    rw [Int.neg_tmod] at hneg hnonneg
    constructor <;> omega

/-- In a leap second there are three cases: the duration leads beyond its end, or it takes a second
or more off, or neither. -/
theorem shift?_of_leap (ht : 1000000000 ≤ t.nanos) (d : Int) :
    t.shift? d =
      if 2000000000 ≤ t.nanos + d then ofNanosAfter? t.seconds (t.nanos - 1000000000 + d)
      else if d ≤ -1000000000 then ofNanosAfter? (t.seconds + 1) (t.nanos - 1000000000 + d)
      else make? t.seconds (t.nanos + d).toNat := by
  have hlt := t.nanos_lt
  -- the sum of seconds and nanoseconds gives back what is added
  obtain ⟨hsum, hup, hdown⟩ := tdiv_tmod_second d
  unfold shift?
  simp only
  generalize d.tdiv 1000000000 = whole at *
  generalize d.tmod 1000000000 = part at *
  rw [if_neg (Nat.not_lt.mpr ht)]
  -- past its end, before its beginning, or still within the leap second
  by_cases hover : 2000000000 ≤ t.nanos + d
  · rw [if_pos hover, if_pos (by omega)]
  · rw [if_neg hover, if_neg (by omega)]
    by_cases hback : d ≤ -1000000000
    · rw [if_pos hback, if_pos (by omega)]
    · rw [if_neg hback, if_neg (by omega), show part = d by omega]

/-- **`shift?` gives the instant that a clock reaches.** -/
theorem shift?_eq_some_iff {d : Int} : t.shift? d = some u ↔ t.Reaches d u := by
  have ht := t.nanos_lt
  have hu := u.nanos_lt
  rw [reaches_iff]
  rcases Nat.lt_or_ge t.nanos 1000000000 with hplain | hleap
  · -- away from a leap second the clock is the number of nanoseconds
    rw [clock_of_not_leap hplain, clock_self, shift?_of_not_leap hplain, make?_eq_some_iff]
    constructor
    · rintro ⟨hs, hn⟩
      omega
    · rintro ⟨hclock, hnone⟩
      omega
  · -- the clock counts the leap second once it has left it for a later second
    have hclock : t.clock u = u.seconds * 1000000000 + u.nanos +
        if t.seconds < u.seconds then 1000000000 else 0 := by
      simp only [clock, inLeapSecond_eq_true_iff, hleap, true_and]
    rw [shift?_of_leap hleap, clock_self, hclock]
    by_cases hover : 2000000000 ≤ t.nanos + d
    · rw [if_pos hover, ofNanosAfter?_eq_some_iff]
      split_ifs <;> omega
    · by_cases hback : d ≤ -1000000000
      · rw [if_neg hover, if_pos hback, ofNanosAfter?_eq_some_iff]
        split_ifs <;> omega
      · rw [if_neg hover, if_neg hback, make?_eq_some_iff]
        split_ifs <;> omega

/-- A clock reaches one instant at most. -/
theorem Reaches.unique {u' : Instant} (h : t.Reaches d u) (h' : t.Reaches d u') : u = u' := by
  rw [← shift?_eq_some_iff] at h h'
  exact Option.some.inj (h.symm.trans h')

/-- **It gives nothing exactly if the clock reaches nothing** that can be represented. -/
theorem shift?_eq_none_iff {d : Int} : t.shift? d = none ↔ ∀ u, ¬ t.Reaches d u := by
  simp only [Option.eq_none_iff_forall_ne_some, ne_eq, shift?_eq_some_iff]

/-- Half a second after the middle of the leap second of 1998 the next year begins. -/
example :
    let middle := (make? 915148799 1500000000).get (by decide +kernel)
    (middle.shift? 500000000).map (fun u => (u.seconds, u.nanos)) = some (915148800, 0) := by
  decide +kernel

end Instant

end ColumnMask
