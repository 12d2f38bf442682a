import ColumnMask.Instant

/-!
# Truncation to calendar units

- `CalendarUnit.truncate`: sets every field below a unit to its least value. Seconds and coarser
  units leave a leap second, finer ones stay in it.
- `CalendarUnit.ceil?`: the instant itself if truncation leaves it alone, else the beginning of the
  next unit, if that can be represented.
- `CalendarUnit.truncateWithin`: truncates without leaving a window either side of which may be
  open. A result below the window moves up to the first whole unit that is not below it.
-/

namespace ColumnMask

/-- A unit of date and time. -/
inductive CalendarUnit where
  | year
  | month
  | day
  | hour
  | minute
  | second
  | millisecond
  | microsecond
  | nanosecond
  deriving DecidableEq, Repr

namespace CalendarUnit

/-- The name of the unit. -/
def name : CalendarUnit → String
  | year => "year"
  | month => "month"
  | day => "day"
  | hour => "hour"
  | minute => "minute"
  | second => "second"
  | millisecond => "millisecond"
  | microsecond => "microsecond"
  | nanosecond => "nanosecond"

/-- All units, from the coarsest to the finest. -/
def all : List CalendarUnit :=
  [year, month, day, hour, minute, second, millisecond, microsecond, nanosecond]

/-- The unit with exactly this name. -/
def ofExactName? (text : String) : Option CalendarUnit :=
  all.find? fun unit => unit.name == text

/-- Reads a name in any case. -/
def ofName (text : String) : Except ConfigError CalendarUnit :=
  match ofExactName? (Text.lowercase text) with
  | some unit => .ok unit
  | none => .error (.unknownTruncatePart text)

/-- The beginning of the second, minute or longer unit that a second falls into. -/
def floorSeconds (unit : CalendarUnit) (seconds : Int) : Int :=
  let day := seconds / 86400
  match unit with
  | year => 86400 * Calendar.yearStart (Calendar.yearOf day)
  | month =>
    let date := Calendar.dateOf day
    86400 * Calendar.dayNumber date.year date.month 1
  | CalendarUnit.day => 86400 * day
  | hour => seconds - seconds % 3600
  | minute => seconds - seconds % 60
  | _ => seconds

/-- The nanoseconds that truncation leaves. -/
def floorNanos (unit : CalendarUnit) (nanos : Nat) : Nat :=
  match unit with
  | millisecond => nanos / 1000000 * 1000000
  | microsecond => nanos / 1000 * 1000
  | nanosecond => nanos
  | _ => 0

/-- Sets every field below the unit to its least value. -/
def truncate (unit : CalendarUnit) (t : Instant) : Instant :=
  (Instant.make? (unit.floorSeconds t.seconds) (unit.floorNanos t.nanos)).getD t

/-- The beginning of the unit after a truncated instant, if it can be represented. -/
def next? (unit : CalendarUnit) (floor : Instant) : Option Instant :=
  match unit with
  | year =>
    let date := Calendar.dateOf (floor.seconds / 86400)
    Instant.make? (86400 * Calendar.dayNumber (date.year + 1) 1 1) 0
  | month =>
    let date := Calendar.dateOf (floor.seconds / 86400)
    Instant.make? (86400 * Calendar.dayNumber date.year (date.month + 1) 1) 0
  | day => floor.shift? (86400 * Duration.second)
  | hour => floor.shift? (3600 * Duration.second)
  | minute => floor.shift? (60 * Duration.second)
  | second => floor.shift? Duration.second
  | millisecond => floor.shift? 1000000
  | microsecond => floor.shift? 1000
  | nanosecond => some floor

/-- The first whole unit that is not before an instant, if it can be represented. -/
def ceil? (unit : CalendarUnit) (t : Instant) : Option Instant :=
  let floor := unit.truncate t
  if floor = t then some t else unit.next? floor

/-- The error for a window without a whole unit. -/
def emptyWindow (unit : CalendarUnit) (min max : Option Instant) : ConfigError :=
  let write (bound : Option Instant) : String :=
    match bound with
    | some t => t.offsetText
    | none => ""
  .emptyTruncatedWindow unit.name (write min) (write max)

/-- Truncates without leaving a window. -/
def truncateWithin (unit : CalendarUnit) (t : Instant) (min max : Option Instant) :
    Except ConfigError Instant := do
  let floor := unit.truncate t
  let out ← match min with
    | some low =>
      if floor < low then
        match unit.ceil? low with
        | some up => .ok up
        | none => .error (unit.emptyWindow min max)
      else .ok floor
    | none => .ok floor
  match max with
  | some high => if high < out then .error (unit.emptyWindow min max) else .ok out
  | none => .ok out

end CalendarUnit

end ColumnMask
