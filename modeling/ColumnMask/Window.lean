import ColumnMask.Binary64
import ColumnMask.Decimal
import ColumnMask.Error
import ColumnMask.Instant

/-!
# Windows

A window is what results are brought into. There are windows of integers, floats, decimals and
instants.
-/

namespace ColumnMask

/-!
## Windows

A window is a pair of bounds of which the lower one is below the upper one. `Window.make?` checks
that and reports both bounds as they are written. A value can be brought into a window in two ways:
`Window.clamp` takes the nearer bound for a value outside; folding, which depends on the type,
counts round and round from the lower bound.

- `Window.foldWord`, `Window.foldInteger`: folding for 64-bit integers and for integers of any size.
- `Window.ofTypeSize?`, `Window.ofDigits?`: the windows of integer column types.
- `Window.byteLength`: the bytes needed to reach every integer of a window.
- `byteCount`: the bytes needed to write a number in base 256.
-/

/-- A lower and an upper bound. -/
structure Window (α : Type) [LT α] where
  min : α
  max : α
  min_lt_max : min < max

namespace Window

variable {α : Type} [LT α] [DecidableLT α]

/-- Checks the bounds; `write` puts them into the message. -/
def make? (write : α → String) (min max : α) : Except ConfigError (Window α) :=
  if h : min < max then .ok ⟨min, max, h⟩ else .error (.wrongLimits (write min) (write max))

/-- The nearer bound for a value outside the window. -/
def clamp (w : Window α) (v : α) : α :=
  if v < w.min then w.min else if w.max < v then w.max else v

end Window

/-- The bytes needed to write a number in base 256, at least one. -/
def byteCount (n : Nat) : Nat :=
  max 1 (((if n = 0 then 0 else n.log2 + 1) + 7) / 8)

namespace Window

/-! ### 64-bit integers -/

/-- A window of 64-bit integers. -/
def ofWords? (min max : Int64) : Except ConfigError (Window Int64) :=
  make? (fun v => toString v.toInt) min max

/-- The range of an integer column type of two, four or eight bytes. -/
def typeSizeBounds? : (size : Nat) → Except ConfigError (Int64 × Int64)
  | 2 => .ok (-32768, 32767)
  | 4 => .ok (-2147483648, 2147483647)
  | 8 => .ok (Int64.minValue, Int64.maxValue)
  | size => .error (.unsupportedTypeSize size)

/-- The number of integers in a window. -/
def wordCount (w : Window Int64) : Int :=
  w.max.toInt - w.min.toInt + 1

/-- Counts `v` steps up from the lower bound, starting over after the upper one. -/
def foldWord (w : Window Int64) (v : UInt64) : Int64 :=
  Int64.ofInt (w.min.toInt + (v.toNat : Int) % w.wordCount)

/-! ### Integers of any size -/

/-- A window of integers. -/
def ofIntegers? (min max : Int) : Except ConfigError (Window Int) :=
  make? toString min max

/-- The largest number of digits before the point. -/
def maxDigits : Nat := 131072

/-- The number of digits before the point where nothing is said about it. -/
def defaultDigits : Nat := 38

/-- The range of a column with this many digits before the point. -/
def digitBounds? (digits : Nat) : Except ConfigError (Int × Int) :=
  if digits = 0 ∨ maxDigits < digits then .error (.unsupportedTypeSize digits)
  else
    let max : Int := Int.pow 10 digits - 1
    .ok (-max, max)

/-- The number of integers in a window. -/
def count (w : Window Int) : Int :=
  w.max - w.min + 1

/-- The bytes of generator output needed to reach every integer of the window. -/
def byteLength (w : Window Int) : Nat :=
  byteCount (Max.max (Max.max w.min.natAbs w.max.natAbs) w.count.natAbs)

/-- Counts `units` steps up from the lower bound, starting over after the upper one. -/
def foldInteger (w : Window Int) (units : Int) : Int :=
  w.min + units % w.count

end Window

/-!
## Windows of floats

`FloatWindow` has finite bounds and, if wanted, a number of digits to which results are rounded.

- `FloatWindow.interpolate`: the point that divides the window in a given ratio.
- `FloatWindow.confine`: the nearer bound for a value outside; the lower bound for what is no
  number.
-/

/-- Finite bounds, and the digits after the point that results are rounded to. -/
structure FloatWindow where
  min : Float
  max : Float
  precision : Option UInt32
  finite : min.isFinite = true ∧ max.isFinite = true
  min_lt_max : min < max

namespace FloatWindow

/-- Checks the bounds. -/
def make? (min max : Float) (precision : Option UInt32) : Except ConfigError FloatWindow :=
  if h : (min.isFinite = true ∧ max.isFinite = true) ∧ min < max then
    .ok ⟨min, max, precision, h.1, h.2⟩
  else .error (.wrongLimits (Binary64.text min) (Binary64.text max))

/-- The range of a float column type of four or eight bytes. -/
def typeSizeBounds? : (size : Nat) → Except ConfigError (Float × Float)
  | 4 => .ok (-Binary64.largestSingle, Binary64.largestSingle)
  | 8 => .ok (-Binary64.largest, Binary64.largest)
  | size => .error (.unsupportedTypeSize size)

/-- Rounds if digits are set. -/
def round (w : FloatWindow) (x : Float) : Float :=
  match w.precision with
  | some digits => Binary64.roundDigits digits x
  | none => x

/-- The point that divides the window in a ratio, taken into zero to one. Both bounds are weighted
on their own, so the widest window does not overflow. -/
def interpolate (w : FloatWindow) (ratio : Float) : Float :=
  let r := Binary64.clamp 0 1 ratio
  Binary64.clamp w.min w.max (w.round (w.min * (1 - r) + w.max * r))

/-- The nearer bound for a value outside; a value inside is rounded without leaving the window. -/
def confine (w : FloatWindow) (x : Float) : Float :=
  if x.isNaN then w.min
  else if x < w.min then w.min
  else if w.max < x then w.max
  else match w.precision with
    | some digits => Binary64.clamp w.min w.max (Binary64.roundDigits digits x)
    | none => x

end FloatWindow

/-!
## Windows of decimals

`DecimalWindow` is a window of decimals with, if wanted, a number of digits after the point.

- `DecimalWindow.width`: how far the fold counts before it starts over. With digits set it is one
  step longer than the distance of the bounds, so that the upper bound is reached too.
- `DecimalWindow.fold`: counts up from the lower bound, then rounds and clamps.
- `DecimalWindow.confine`: clamps, then rounds without leaving the window.
- `DecimalWindow.byteLength`: the bytes needed to reach every number of the window at a precision.
-/

/-- Bounds, and the digits after the point that results are rounded to. -/
structure DecimalWindow where
  window : Window Decimal
  precision : Option Nat
  precision_le : ∀ p ∈ precision, p ≤ DecimalWindow.maxPrecision

namespace DecimalWindow

/-- Checks the bounds. -/
def make? (min max : Decimal) : Except ConfigError DecimalWindow := do
  let window ← Window.make? Decimal.displayText min max
  return ⟨window, none, by simp⟩

theorem le_of_mem_some {precision : Nat} (h : precision ≤ maxPrecision) :
    ∀ p ∈ some precision, p ≤ maxPrecision := by
  simpa using h

/-- Sets the digits after the point. -/
def withPrecision? (w : DecimalWindow) (precision : Nat) : Except ConfigError DecimalWindow :=
  if h : precision ≤ maxPrecision then
    .ok ⟨w.window, some precision, le_of_mem_some h⟩
  else .error (.invalidPrecision precision)

/-- Checks the bounds and then the digits after the point, if any are set. -/
def makeWith? (min max : Decimal) (precision : Option Nat) : Except ConfigError DecimalWindow := do
  let w ← make? min max
  match precision with
  | some p => w.withPrecision? p
  | none => return w

/-- The range of a column with this many digits before the point. -/
def digitBounds? (digits : Nat) : Except ConfigError (Decimal × Decimal) := do
  let (min, max) ← Window.digitBounds? digits
  return (Decimal.ofInt min, Decimal.ofInt max)

/-- The lower bound. -/
def min (w : DecimalWindow) : Decimal := w.window.min

/-- The upper bound. -/
def max (w : DecimalWindow) : Decimal := w.window.max

/-- How far the fold counts before it starts over. -/
def width (w : DecimalWindow) : Decimal :=
  match w.precision with
  | some p => w.max - w.min + Decimal.step p
  | none => w.max - w.min

/-- Rounds if digits are set. -/
def round (w : DecimalWindow) (v : Decimal) : Decimal :=
  match w.precision with
  | some p => v.roundTo p
  | none => v

/-- Counts `v` up from the lower bound and starts over after the width. -/
def fold (w : DecimalWindow) (v : Decimal) : Decimal :=
  w.window.clamp (w.round (w.min + v % w.width))

/-- The nearer bound for a value outside; a value inside is rounded without leaving the window. -/
def confine (w : DecimalWindow) (v : Decimal) : Decimal :=
  if v < w.min then w.min
  else if w.max < v then w.max
  else match w.precision with
    | some p => w.window.clamp (v.roundTo p)
    | none => v

/-- The bytes needed to write the larger bound and the width in steps of the precision. -/
def byteLength (w : DecimalWindow) (precision : Nat) : Nat :=
  let units (d : Decimal) : Nat := (d.abs.truncatedUnits precision).natAbs
  byteCount (Max.max (Max.max (units w.min) (units w.max)) (units w.width))

end DecimalWindow

/-!
## Windows of instants

- `Window.foldTime`: brings a pair of seconds and nanoseconds into a window. The seconds are counted
  up from the lower bound; the nanoseconds are only brought into bounds on the first and the last
  second.
- `OpenWindow`: a window either side of which may be open; `OpenWindow.clamp` takes the nearer bound
  for an instant outside.
-/

namespace Window

/-- A window of instants. -/
def ofInstants? (min max : Instant) : Except ConfigError (Window Instant) :=
  make? Instant.offsetText min max

/-- The nanoseconds of a bound. A bound in a leap second counts as the end of the second before. -/
def edgeNanos (t : Instant) : Nat := Min.min t.nanos 999999999

/-- The number of seconds that a window touches. -/
def secondCount (w : Window Instant) : Int :=
  w.max.seconds - w.min.seconds + 1

/-- Brings seconds and nanoseconds into the window. -/
def foldParts (w : Window Instant) (seconds : UInt64) (nanos : Nat) : Int × Nat :=
  let second := w.min.seconds + (seconds.toNat : Int) % w.secondCount
  let nano := nanos % 1000000000
  let low := edgeNanos w.min
  let high := edgeNanos w.max
  let nano :=
    match decide (second = w.min.seconds), decide (second = w.max.seconds) with
    | true, true => low + nano % (high - low + 1)
    | true, false => low + nano % (1000000000 - low)
    | false, true => nano % (high + 1)
    | false, false => nano
  (second, nano)

/-- The instant that seconds and nanoseconds are folded to. -/
def foldTime (w : Window Instant) (seconds : UInt64) (nanos : Nat) : Except DecodeError Instant :=
  let (second, nano) := w.foldParts seconds nanos
  match Instant.make? second nano with
  | some t => .ok t
  | none => .error (.timestampOutOfRange second nano)

end Window

/-- Bounds that may be missing. -/
structure OpenWindow where
  min : Option Instant
  max : Option Instant
  min_lt_max : ∀ low ∈ min, ∀ high ∈ max, low < high

namespace OpenWindow

/-- Checks the bounds if there are two of them. -/
def make? : (min max : Option Instant) → Except ConfigError OpenWindow
  | some low, some high =>
    if h : low < high then .ok ⟨some low, some high, by simpa using h⟩
    else .error (.wrongLimits low.offsetText high.offsetText)
  | none, max => .ok ⟨none, max, by simp⟩
  | min, none => .ok ⟨min, none, by simp⟩

/-- The nearer bound for an instant outside the window. -/
def clamp (w : OpenWindow) (t : Instant) : Instant :=
  match w.min, w.max with
  | some low, max =>
    if t < low then low
    else match max with
      | some high => if high < t then high else t
      | none => t
  | none, some high => if high < t then high else t
  | none, none => t

end OpenWindow

end ColumnMask
