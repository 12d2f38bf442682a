import ColumnMask.Address
import ColumnMask.Binary64
import ColumnMask.Decimal
import ColumnMask.Generator
import ColumnMask.Instant
import ColumnMask.Text

/-!
# Values and plans

The values that are masked, and what masking one of them asks and reads.
-/

namespace ColumnMask

/-!
## Values

What goes into a transformer and comes out of it.

- `Value.text`: the canonical text of a value. `Value.input`, its encoding, is what a generator is
  asked with.
- `Value.json`: the value in JSON. Decimals are strings there and show their scale.
- `Value.integer?` and its like: the value as one of a given kind. Texts are read without the blanks
  around them; integers also serve as floats and decimals.
-/

/-- A value of one of the nine kinds. -/
inductive Value where
  | integer (v : Int64)
  | float (v : Float)
  | decimal (v : Decimal)
  | timestamp (v : Instant)
  | text (v : String)
  | uuid (v : Uuid)
  | bool (v : Bool)
  | ip (v : IpAddress)
  | mac (v : MacAddress)

namespace Value

/-- What the value is. -/
def kind : Value → ValueKind
  | integer _ => .integer
  | float _ => .float
  | decimal _ => .decimal
  | timestamp _ => .timestamp
  | text _ => .text
  | uuid _ => .uuid
  | bool _ => .bool
  | ip _ => .ip
  | mac _ => .mac

/-- The canonical text of the value. -/
def write : Value → String
  | integer v => toString v.toInt
  | float v => Binary64.text v
  | decimal v => v.plainText
  | timestamp v => v.text
  | text v => v
  | uuid v => v.text
  | bool v => if v then "true" else "false"
  | ip v => v.text
  | mac v => v.text

/-- What a generator is asked with for the value. -/
def input (v : Value) : Bytes := Bytes.ofString v.write

/-- Floats in JSON: a positive exponent has a sign, and what is not finite is null. -/
def jsonFloat : Binary64.ExponentStyle where
  plus := true
  infinite _ := "null"
  nan := "null"

/-- The value in JSON. -/
def json : Value → String
  | integer v => toString v.toInt
  | float v => Binary64.marked jsonFloat v
  | decimal v => Text.quoted v.displayText
  | timestamp v => Text.quoted v.text
  | text v => Text.quoted v
  | uuid v => Text.quoted v.text
  | bool v => if v then "true" else "false"
  | ip v => Text.quoted v.text
  | mac v => Text.quoted v.text

/-! ### As values of a kind -/

/-- The value that a text spells, without the blanks around it. -/
def parseText {α : Type} (kind : ValueKind) (parse? : String → Option α) (s : String) :
    Except DecodeError α :=
  match parse? (Text.trim s) with
  | some v => .ok v
  | none => .error (.parse kind s)

/-- The value as an integer. -/
def integer? : Value → Except DecodeError Int64
  | integer v => .ok v
  | text s => parseText .integer Text.int64? s
  | other => .error (.unexpectedValue .integer other.kind)

/-- The value as a float. -/
def float? : Value → Except DecodeError Float
  | float v => .ok v
  | integer v => .ok (Float.ofInt v.toInt)
  | text s => parseText .float Binary64.parse? s
  | other => .error (.unexpectedValue .float other.kind)

/-- The value as a decimal. -/
def decimal? : Value → Except DecodeError Decimal
  | decimal v => .ok v
  | integer v => .ok (Decimal.ofInt v.toInt)
  | text s => parseText .decimal Decimal.parse? s
  | other => .error (.unexpectedValue .decimal other.kind)

/-- The value as an instant. -/
def timestamp? : Value → Except DecodeError Instant
  | timestamp v => .ok v
  | text s => parseText .timestamp Instant.parse? s
  | other => .error (.unexpectedValue .timestamp other.kind)

/-- The value as a hardware address. -/
def mac? : Value → Except DecodeError MacAddress
  | mac v => .ok v
  | text s => MacAddress.parse (Text.trim s)
  | other => .error (.unexpectedValue .mac other.kind)

end Value

/-!
## Plans

A plan says how one value is masked: with what the generator is asked, and how the answer is read.
Whatever can be refused before the generator is asked is refused when the plan is made, so `run` is
the only place where bytes are drawn, and it draws once.

- `Plan`: the question and the reading of the answer.
- `Masking`: a computation that draws and may fail.
- `drawBlock`: asks a generator and takes exactly the needed bytes.
- `Plan.run`: asks and reads.
-/

/-- How one value is masked. -/
structure Plan where
  /-- What the generator is asked with. -/
  input : Bytes
  /-- The masked value for an answer. -/
  read : Bytes → Except (Stop TransformError) Value

/-- Masking values: extends the log of calls, and may fail. -/
abbrev Masking := ExceptT (Stop TransformError) (StateM Log)

/-- The first `required` bytes that a generator answers with. -/
def drawBlock (generator : Option Generator) (required : Nat) (input : Bytes) : Draw Bytes := do
  match generator with
  | none => throw (.failure .missingGenerator)
  | some g =>
    let out ← g.generate input
    Draw.ensureLength required out
    return out.take required

/-- Asks the generator once and reads its answer. -/
def Plan.run (plan : Plan) (generator : Option Generator) (required : Nat) : Masking Value := do
  let block ← (drawBlock generator required plan.input).adapt (Stop.map .generation)
  match plan.read block with
  | .ok v => return v
  | .error e => throw e

end ColumnMask
