import ColumnMask.Error
import ColumnMask.Text

/-!
# Calendar and time

The calendar, durations, and instants with the texts that tell them.
-/

namespace ColumnMask

/-!
## The Gregorian calendar

Days are numbered from the first of January 1970, and the calendar runs on in both directions with
the rules of today.

- `Calendar.dayNumber`: the number of a date.
- `Calendar.dateOf`: the date of a day number.
-/

namespace Calendar

/-- A day of the calendar. -/
structure Date where
  year : Int
  month : Nat
  day : Nat
  deriving DecidableEq, Repr

/-- Every fourth year, save the full centuries that are no multiples of 400. -/
def isLeapYear (year : Int) : Bool :=
  year % 4 == 0 && (year % 100 != 0 || year % 400 == 0)

/-- The days of a year before the first of a month; month 13 gives the length of the year. -/
def daysBeforeMonth (leap : Bool) (month : Nat) : Nat :=
  let common := [0, 0, 31, 59, 90, 120, 151, 181, 212, 243, 273, 304, 334, 365].getD month 365
  if leap && 2 < month then common + 1 else common

/-- The length of a month. -/
def daysInMonth (leap : Bool) (month : Nat) : Nat :=
  daysBeforeMonth leap (month + 1) - daysBeforeMonth leap month

/-- The number of the first of January. -/
def yearStart (year : Int) : Int :=
  let past := year - 1
  365 * past + past / 4 - past / 100 + past / 400 - 719162

/-- The number of a date. -/
def dayNumber (year : Int) (month day : Nat) : Int :=
  yearStart year + daysBeforeMonth (isLeapYear year) month + day - 1

/-- The year that a day falls into. The mean length of a year leads to it or to a neighbour. -/
def yearOf (day : Int) : Int :=
  let guess := (day + 719162) * 400 / 146097 + 1
  if day < yearStart guess then guess - 1
  else if yearStart (guess + 1) ≤ day then guess + 1
  else guess

/-- The month that a day of the year falls into; days of the year are numbered from zero. -/
def monthOf (leap : Bool) (dayOfYear : Nat) : Nat :=
  1 + (List.range 11).countP fun i => daysBeforeMonth leap (i + 2) ≤ dayOfYear

/-- The date of a day number. -/
def dateOf (day : Int) : Date :=
  let year := yearOf day
  let leap := isLeapYear year
  let dayOfYear := (day - yearStart year).toNat
  let month := monthOf leap dayOfYear
  ⟨year, month, dayOfYear - daysBeforeMonth leap month + 1⟩

/-- The first day that can be represented. -/
def firstDay : Int := dayNumber (-262143) 1 1

/-- The last day that can be represented. -/
def lastDay : Int := dayNumber 262142 12 31

end Calendar

/-!
## Durations

A duration is a whole number of nanoseconds. No duration may be longer than the largest signed
64-bit number of milliseconds.

- `Duration.parse?`: a sum of terms such as `2d12h`, with an optional sign in front of all of them.
- `Duration.isoText`: `PT` with seconds and a fraction, or `P0D`.
-/

/-- A signed number of nanoseconds. -/
abbrev Duration := Int

namespace Duration

/-- The nanoseconds of a second. -/
def second : Nat := 1000000000

/-- The longest duration, in nanoseconds. -/
def longest : Nat := 9223372036854775807 * 1000000

/-- The nanoseconds of a unit. -/
def unit? : String → Option Nat
  | "ns" => some 1
  | "us" => some 1000
  | "ms" => some 1000000
  | "s" => some second
  | "m" => some (60 * second)
  | "h" => some (3600 * second)
  | "d" => some (86400 * second)
  | _ => none

/-- One term: a number of at most 63 bits and the unit that follows it, which is everything up to
the next digit. Gives the nanoseconds and what is left of the text. -/
def term? (cs : List Char) : Option (Nat × List Char) := do
  let digits := cs.takeWhile Text.isDigit
  let rest := cs.dropWhile Text.isDigit
  let n := Text.digitsValue digits
  let unit ← unit? (String.ofList (rest.takeWhile fun c => !Text.isDigit c))
  if digits.isEmpty ∨ ¬ SignedWord n then none
  else some (n * unit, rest.dropWhile fun c => !Text.isDigit c)

/-- The sum of one or more terms; `fuel` bounds their number. -/
def terms? : (fuel : Nat) → List Char → Option Nat
  | 0, _ => none
  | fuel + 1, cs => do
    let (first, rest) ← term? cs
    if rest.isEmpty then return first
    else return first + (← terms? fuel rest)

/-- Reads a text with blanks around it. -/
def parse? (text : String) : Option Duration := do
  let cs := Text.trimChars text.toList
  let (negative, body) := match cs with
    | '-' :: rest => (true, rest)
    | _ => (false, cs)
  let total ← terms? body.length body
  if longest < total then none
  else some (if negative then -(total : Int) else total)

/-- Reads a duration; the error shows the whole text. -/
def parse (text : String) : Except ConfigError Duration :=
  match parse? text with
  | some d => .ok d
  | none => .error (.invalidDuration text)

/-- The digits of a fraction without zeros at the end. -/
def fractionDigits (nanos : Nat) : List Char :=
  ((Text.padded 9 nanos).reverse.dropWhile (· == '0')).reverse

/-- The duration in the notation of ISO 8601, in seconds. -/
def isoText (d : Duration) : String :=
  let n := d.natAbs
  let sign := if d < 0 then "-" else ""
  if n = 0 then "P0D"
  else
    let fraction := if n % second = 0 then [] else '.' :: fractionDigits (n % second)
    sign ++ "PT" ++ String.ofList (Text.ofNat (n / second) ++ fraction) ++ "S"

end Duration

/-!
## Instants

An instant is a second and a number of nanoseconds into it. Seconds are counted from the beginning
of 1970 without leap seconds. A leap second has no number of its own: it is told as the second
before it, with nanoseconds from 1000000000 on, so only the last second of a minute can hold one.

- `Instant.make?`: an instant from its parts, if it can be represented.
- The order compares the seconds first and then the nanoseconds, so a leap second lies after the
  second that it shares its number with and before the next one.
- `Instant.shift?`: the instant a duration later. A leap second is left before anything is added,
  unless the sum stays in it or falls back into the second before.
-/

/-- A second and the nanoseconds into it. -/
structure Instant where
  /-- Seconds from the beginning of 1970. -/
  seconds : Int
  nanos : Nat
  inRange : 86400 * Calendar.firstDay ≤ seconds ∧ seconds < 86400 * (Calendar.lastDay + 1)
  nanos_lt : nanos < 2000000000
  leap : 1000000000 ≤ nanos → seconds % 60 = 59
  deriving DecidableEq

namespace Instant

/-- The instant with these parts, if there is one. -/
def make? (seconds : Int) (nanos : Nat) : Option Instant :=
  if h : (86400 * Calendar.firstDay ≤ seconds ∧ seconds < 86400 * (Calendar.lastDay + 1)) ∧
      nanos < 2000000000 ∧ (1000000000 ≤ nanos → seconds % 60 = 59) then
    some ⟨seconds, nanos, h.1, h.2.1, h.2.2⟩
  else none

theorem make?_eq_some {seconds : Int} {nanos : Nat} {t : Instant}
    (h : make? seconds nanos = some t) :
    t.seconds = seconds ∧ t.nanos = nanos := by
  unfold make? at h
  split at h
  · cases h; exact ⟨rfl, rfl⟩
  · cases h

/-- Whether the instant lies in a leap second. -/
def inLeapSecond (t : Instant) : Bool := decide (1000000000 ≤ t.nanos)

/-! ### Order -/

instance : LT Instant where
  lt a b := a.seconds < b.seconds ∨ a.seconds = b.seconds ∧ a.nanos < b.nanos

instance : LE Instant where
  le a b := a.seconds < b.seconds ∨ a.seconds = b.seconds ∧ a.nanos ≤ b.nanos

instance (a b : Instant) : Decidable (a < b) :=
  inferInstanceAs (Decidable (a.seconds < b.seconds ∨ a.seconds = b.seconds ∧ a.nanos < b.nanos))

instance (a b : Instant) : Decidable (a ≤ b) :=
  inferInstanceAs (Decidable (a.seconds < b.seconds ∨ a.seconds = b.seconds ∧ a.nanos ≤ b.nanos))

/-! ### Adding a duration -/

/-- The instant that lies this many nanoseconds after the beginning of a second, if it can be
represented. -/
def ofNanosAfter? (seconds : Int) (nanos : Int) : Option Instant :=
  make? (seconds + nanos / 1000000000) (nanos % 1000000000).toNat

/-- The instant a duration later, if it can be represented. Whole seconds and the remainder have the
sign of the duration. -/
def shift? (t : Instant) (d : Duration) : Option Instant :=
  let whole := d.tdiv 1000000000
  let part := d.tmod 1000000000
  if t.nanos < 1000000000 then ofNanosAfter? t.seconds (t.nanos + d)
  else if 0 < whole ∨ (0 < part ∧ 2000000000 ≤ t.nanos + part) then
    ofNanosAfter? t.seconds (t.nanos - 1000000000 + d)
  else if whole < 0 then
    ofNanosAfter? (t.seconds + 1) (t.nanos - 1000000000 + d)
  else make? t.seconds (t.nanos + part).toNat

/-!
## Time text

- `Instant.text`: date and time in UTC with as few of 0, 3, 6 or 9 digits of a fraction as are
  exact, and `Z`. `Instant.offsetText` ends in `+00:00` instead.
- `Instant.parse?`: the strict notation of RFC 3339.
- `Instant.parseRelaxed?`: the notation of configurations, with years of any size and blanks between
  the parts.

A leap second is written and read as second 60.
-/

/-! ### Writing -/

/-- Four digits; outside of the years 0 to 9999 with a sign. -/
def yearText (year : Int) : List Char :=
  if 0 ≤ year ∧ year ≤ 9999 then Text.padded 4 year.toNat
  else (if year < 0 then '-' else '+') :: Text.padded 4 year.natAbs

/-- The shortest of 0, 3, 6 and 9 digits that shows a fraction exactly. -/
def fractionText (nanos : Nat) : List Char :=
  if nanos = 0 then []
  else if nanos % 1000000 = 0 then '.' :: Text.padded 3 (nanos / 1000000)
  else if nanos % 1000 = 0 then '.' :: Text.padded 6 (nanos / 1000)
  else '.' :: Text.padded 9 nanos

/-- Date and time without an offset. -/
def localText (t : Instant) : List Char :=
  let date := Calendar.dateOf (t.seconds / 86400)
  let ofDay := (t.seconds % 86400).toNat
  let second := ofDay % 60 + (if t.inLeapSecond then 1 else 0)
  yearText date.year ++ '-' :: Text.padded 2 date.month ++ '-' :: Text.padded 2 date.day ++
    'T' :: Text.padded 2 (ofDay / 3600) ++ ':' :: Text.padded 2 (ofDay / 60 % 60) ++
    ':' :: Text.padded 2 second ++ fractionText (t.nanos % 1000000000)

/-- Date and time with `Z`. -/
def text (t : Instant) : String :=
  String.ofList (t.localText ++ ['Z'])

/-- Date and time with the offset written out. -/
def offsetText (t : Instant) : String :=
  String.ofList (t.localText ++ "+00:00".toList)

/-! ### Reading -/

/-- The parts of a date and time with the seconds that it is ahead of UTC. -/
structure Fields where
  year : Int
  month : Nat
  day : Nat
  hour : Nat
  minute : Nat
  /-- Up to sixty, which stands for a leap second. -/
  second : Nat
  nanos : Nat
  offset : Int

/-- The instant of valid parts. The date and the instant both have to be representable. -/
def ofFields? (f : Fields) : Option Instant :=
  let leapYear := Calendar.isLeapYear f.year
  if -262143 ≤ f.year ∧ f.year ≤ 262142 ∧ 1 ≤ f.month ∧ f.month ≤ 12 ∧ 1 ≤ f.day ∧
      f.day ≤ Calendar.daysInMonth leapYear f.month ∧ f.hour < 24 ∧ f.minute < 60 ∧
      f.second ≤ 60 ∧ f.offset.natAbs < 86400 then
    let second := if f.second = 60 then 59 else f.second
    let nanos := if f.second = 60 then f.nanos + 1000000000 else f.nanos
    let ofDay : Int := 3600 * f.hour + 60 * f.minute + second
    make? (86400 * Calendar.dayNumber f.year f.month f.day + ofDay - f.offset) nanos
  else none

/-- A number of at least one and at most `most` digits. -/
def number? (most : Nat) (cs : List Char) : Option (Nat × List Char) :=
  let digits := (cs.take most).takeWhile Text.isDigit
  if digits.isEmpty then none else some (Text.digitsValue digits, cs.drop digits.length)

/-- A number of exactly `width` digits. -/
def fixed? (width : Nat) (cs : List Char) : Option (Nat × List Char) :=
  let digits := (cs.take width).takeWhile Text.isDigit
  if digits.length < width then none else some (Text.digitsValue digits, cs.drop width)

/-- What follows a given character. -/
def char? (c : Char) : List Char → Option (List Char)
  | c' :: rest => if c = c' then some rest else none
  | [] => none

/-- What follows the separator of date and time. -/
def separator? : List Char → Option (List Char)
  | c :: rest => if c = 'T' ∨ c = 't' ∨ c = ' ' then some rest else none
  | [] => none

/-- The nanoseconds of an optional fraction; digits after the ninth are passed over. -/
def fraction? : List Char → Option (Nat × List Char)
  | '.' :: rest => do
    let digits := (rest.take 9).takeWhile Text.isDigit
    if digits.isEmpty then none
    else some (Text.digitsValue digits * Nat.pow 10 (9 - digits.length),
      (rest.drop digits.length).dropWhile Text.isDigit)
  | cs => some (0, cs)

/-- The seconds of an offset: `Z`, or a sign with hours and minutes of two digits each, and what
`between` takes off the text between them. The sign may be a typographic minus. -/
def offset? (between : List Char → Option (List Char)) (cs : List Char) :
    Option (Int × List Char) := do
  let signed (negative : Bool) (cs : List Char) : Option (Int × List Char) := do
    let (hours, cs) ← fixed? 2 cs
    let cs ← between cs
    let (minutes, cs) ← fixed? 2 cs
    if 60 ≤ minutes then none
    else
      let seconds : Int := hours * 3600 + minutes * 60
      some (if negative then -seconds else seconds, cs)
  match cs with
  | 'Z' :: rest | 'z' :: rest => some (0, rest)
  | '+' :: rest => signed false rest
  | '-' :: rest | '\u2212' :: rest => signed true rest
  | _ => none

/-- Reads the strict notation; there is nothing around it. -/
def parse? (s : String) : Option Instant := do
  let (year, cs) ← fixed? 4 s.toList
  let (month, cs) ← fixed? 2 (← char? '-' cs)
  let (day, cs) ← fixed? 2 (← char? '-' cs)
  let (hour, cs) ← fixed? 2 (← separator? cs)
  let (minute, cs) ← fixed? 2 (← char? ':' cs)
  let (second, cs) ← fixed? 2 (← char? ':' cs)
  let (nanos, cs) ← fraction? cs
  let (offset, cs) ← offset? (char? ':') cs
  if cs.isEmpty then ofFields? { year, month, day, hour, minute, second, nanos, offset } else none

/-- A year after blanks: up to four digits, or any number of them after a sign. -/
def relaxedYear? (cs : List Char) : Option (Int × List Char) :=
  match Text.trimStart cs with
  | '-' :: rest => (number? rest.length rest).map fun (n, rest) => (-(n : Int), rest)
  | '+' :: rest => (number? rest.length rest).map fun (n, rest) => ((n : Int), rest)
  | cs => (number? 4 cs).map fun (n, rest) => ((n : Int), rest)

/-- A number of one or two digits after blanks. -/
def relaxedNumber? (cs : List Char) : Option (Nat × List Char) :=
  number? 2 (Text.trimStart cs)

/-- What follows a given character after blanks. -/
def relaxedChar? (c : Char) (cs : List Char) : Option (List Char) :=
  char? c (Text.trimStart cs)

/-- Offsets of the relaxed notation: `UTC` in any case, or hours and minutes with colons and blanks
between them. -/
def relaxedOffset? (cs : List Char) : Option (Int × List Char) :=
  match cs with
  | c₁ :: c₂ :: c₃ :: rest =>
    if c₁.toUpper = 'U' ∧ c₂.toUpper = 'T' ∧ c₃.toUpper = 'C' then some (0, rest)
    else offset? (fun cs => some (cs.dropWhile fun c => c == ':' || Text.isBlank c)) cs
  | _ => offset? (fun cs => some (cs.dropWhile fun c => c == ':' || Text.isBlank c)) cs

/-- Reads the relaxed notation; blanks may follow it. -/
def parseRelaxed? (s : String) : Option Instant := do
  let (year, cs) ← relaxedYear? s.toList
  let (month, cs) ← relaxedNumber? (← relaxedChar? '-' cs)
  let (day, cs) ← relaxedNumber? (← relaxedChar? '-' cs)
  let (hour, cs) ← relaxedNumber? (← separator? cs)
  let (minute, cs) ← relaxedNumber? (← relaxedChar? ':' cs)
  let (second, cs) ← relaxedNumber? (← relaxedChar? ':' cs)
  let (nanos, cs) ← fraction? cs
  let (offset, cs) ← relaxedOffset? (Text.trimStart cs)
  if (Text.trimStart cs).isEmpty then
    ofFields? { year, month, day, hour, minute, second, nanos, offset }
  else none

end Instant

end ColumnMask
