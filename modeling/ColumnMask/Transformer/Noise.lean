import ColumnMask.CalendarUnit
import ColumnMask.Value
import ColumnMask.Window

/-!
# Noise

The rules that add noise to a value.
-/

namespace ColumnMask

/-!
## Noise on numbers

A number is changed by a share of itself. Eight bytes choose the size of the share
between two ratios, and a ninth one its sign. The result is brought into a window, if there is one;
the window of a single call takes precedence.

- `NoiseRatio.multiplier`: the share for a block of nine bytes.
- `NoiseInteger.apply`, `NoiseFloat.apply`, `NoiseDecimal.apply`: the noised number.
-/

/-- The number of bytes that noise on a number takes. -/
def noiseLength : Nat := 9

/-- The least and the greatest share. -/
structure NoiseRatio where
  min : Float
  max : Float
  finite : min.isFinite = true ∧ max.isFinite = true
  min_lt_max : min < max

namespace NoiseRatio

/-- Checks the ratios. -/
def make? (min max : Float) : Except ConfigError NoiseRatio :=
  if h : min < max ∧ min.isFinite = true ∧ max.isFinite = true then .ok ⟨min, max, h.2, h.1⟩
  else .error (.wrongLimits (Binary64.text min) (Binary64.text max))

/-- The share for a block: an even ninth byte makes it negative. -/
def multiplier (ratio : NoiseRatio) (block : Bytes) : Float :=
  let r := Binary64.unitRatio (Bytes.readInt64 (block.take 8))
  let m := ratio.min + r * (ratio.max - ratio.min)
  let negative := (block.getD 8 0) % 2 == 0
  if decide (m < 0) != negative then -m else m

end NoiseRatio

/-! ### Integers -/

/-- Noise on 64-bit integers. -/
structure NoiseInteger where
  ratio : NoiseRatio
  window : Option (Window Int64)

namespace NoiseInteger

/-- The sum of two words, or the nearer end of their range. -/
def saturatingAdd (a b : Int64) : Int64 :=
  Int64.ofInt (max Int64.minValue.toInt (min Int64.maxValue.toInt (a.toInt + b.toInt)))

/-- The noised integer. The change is cut to a whole number and stays within 64 bits. -/
def apply (noise : NoiseInteger) (window : Option (Window Int64)) (v : Int64) (block : Bytes) :
    Int64 :=
  let delta := Binary64.truncate (Float.ofInt v.toInt * noise.ratio.multiplier block)
  let noised := saturatingAdd v delta
  match window.or noise.window with
  | some w => w.clamp noised
  | none => noised

/-- Asks with the digits of the integer. -/
def plan (noise : NoiseInteger) (window : Option (Window Int64)) (v : Int64) : Plan where
  input := Bytes.ofString (toString v.toInt)
  read block := .ok (.integer (noise.apply window v block))

end NoiseInteger

/-! ### Floats -/

/-- Noise on floats. -/
structure NoiseFloat where
  ratio : NoiseRatio
  window : Option FloatWindow

namespace NoiseFloat

/-- The noised float. -/
def apply (noise : NoiseFloat) (window : Option FloatWindow) (v : Float) (block : Bytes) : Float :=
  let noised := v + v * noise.ratio.multiplier block
  match window.or noise.window with
  | some w => w.confine noised
  | none => noised

/-- Asks with six digits after the point. -/
def plan (noise : NoiseFloat) (window : Option FloatWindow) (v : Float) : Plan where
  input := Bytes.ofString (Binary64.fixed 6 v)
  read block := .ok (.float (noise.apply window v block))

end NoiseFloat

/-! ### Decimals -/

/-- Noise on decimals. -/
structure NoiseDecimal where
  ratio : NoiseRatio
  window : Option DecimalWindow

namespace NoiseDecimal

/-- The noised decimal. The share enters with its shortest digits, after which all is exact. -/
def apply (noise : NoiseDecimal) (window : Option DecimalWindow) (v : Decimal) (block : Bytes) :
    Except DecodeError Decimal :=
  let share := Binary64.text (noise.ratio.multiplier block)
  match Decimal.parse? share with
  | none => .error (.parse .decimal share)
  | some m =>
    let noised := v + v * m
    match window.or noise.window with
    | some w => .ok (w.confine noised)
    | none => .ok noised

/-- Asks with the canonical text of the number. -/
def plan (noise : NoiseDecimal) (window : Option DecimalWindow) (v : Decimal) : Plan where
  input := Bytes.ofString v.plainText
  read block :=
    match noise.apply window v block with
    | .ok out => .ok (.decimal out)
    | .error e => .error (.failure (.decode e))

end NoiseDecimal

/-!
## Noise on instants

An instant is moved by a duration between a least one and a greatest one, which is not reached
itself. The first byte of seventeen chooses the direction and the next eight the duration. The
result is brought into a window, either side of which may be open, and truncated without leaving it.

- `NoiseTime.make?`: both durations and their distance have to fit into 64 bits of nanoseconds.
- `NoiseTime.apply`: the moved instant.
-/

/-- Noise on instants. -/
structure NoiseTime where
  /-- The least move, in nanoseconds. -/
  least : Int
  /-- The number of moves to choose from. -/
  distance : Int
  distance_pos : 0 < distance
  least_range : SignedWord least
  greatest_range : SignedWord (least + distance)
  distance_range : SignedWord distance
  window : Option OpenWindow
  unit : Option CalendarUnit

namespace NoiseTime

/-- The number of bytes that the noise takes. -/
def length : Nat := 17

/-- Checks the durations. -/
def make? (least greatest : Duration) (window : Option OpenWindow) (unit : Option CalendarUnit) :
    Except ConfigError NoiseTime :=
  if h : least < greatest then
    if hl : SignedWord least then
      if hg : SignedWord greatest then
        if hd : SignedWord (greatest - least) then
          .ok {
            least, distance := greatest - least, window, unit
            distance_pos := by simp only [Duration] at *; omega
            least_range := hl
            greatest_range := by simp only [Duration] at *; omega
            distance_range := hd }
        else .error (.invalidDuration greatest.isoText)
      else .error (.invalidDuration greatest.isoText)
    else .error (.invalidDuration least.isoText)
  else .error (.wrongLimits least.isoText greatest.isoText)

/-- The move that a block chooses. -/
def move (noise : NoiseTime) (block : Bytes) : Duration :=
  let offset := (Bytes.readInt64 ((block.drop 1).take 8)).toInt.tmod noise.distance
  let size := noise.least + offset.natAbs
  if (block.getD 0 0) % 2 == 0 then -size else size

/-- The moved instant. -/
def apply (noise : NoiseTime) (window : Option OpenWindow) (t : Instant) (block : Bytes) :
    Except DecodeError Instant := do
  let moved ← match t.shift? (noise.move block) with
    | some moved => .ok moved
    | none => .error (.timestampOutOfRange t.seconds t.nanos)
  let window := window.or noise.window
  let limited := match window with
    | some w => w.clamp moved
    | none => moved
  match noise.unit with
  | none => return limited
  | some unit =>
    match unit.truncateWithin limited (window.bind (·.min)) (window.bind (·.max)) with
    | .ok out => return out
    | .error e => .error (.runtimeLimiter e)

/-- Asks with the text of the instant. -/
def plan (noise : NoiseTime) (window : Option OpenWindow) (t : Instant) : Plan where
  input := Bytes.ofString t.text
  read block :=
    match noise.apply window t block with
    | .ok out => .ok (.timestamp out)
    | .error e => .error (.failure (.decode e))

end NoiseTime

end ColumnMask
