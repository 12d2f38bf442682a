import ColumnMask.Bytes

/-!
# Kinds of values and errors

The names of the kinds of values, and all that can go wrong, with its wording.
-/

namespace ColumnMask

/-!
## Kinds of values

The nine kinds of values that a column can hold, with the names used in messages.
-/

/-- What a value is. -/
inductive ValueKind where
  | integer
  | float
  | decimal
  | timestamp
  | text
  | uuid
  | bool
  | ip
  | mac
  deriving DecidableEq, Repr

namespace ValueKind

/-- The name of the kind in messages. -/
def name : ValueKind → String
  | integer => "integer"
  | float => "float"
  | decimal => "decimal"
  | timestamp => "timestamp"
  | text => "text"
  | uuid => "uuid"
  | bool => "bool"
  | ip => "ip"
  | mac => "mac"

end ValueKind

/-!
## Errors

Each error names its cause; `message` gives the one wording of it.

- `ConfigError`: a window, generator or transformer cannot be built from these parameters.
- `InsufficientSize`: a generator produces fewer bytes than its user needs.
- `GenerationError`: drawing bytes failed.
- `DecodeError`: a value, or something given along with it, does not fit.
- `TransformError`: what can go wrong while one value is masked.

A panic is no error: its caller gets nothing to handle. `Stop` has it beside the errors.
-/

/-- Why a computation gives no result: an error that its caller can handle, or a panic, as when more
room is asked for than one allocation can have. -/
inductive Stop (ε : Type) where
  | failure (error : ε)
  | panic
  deriving DecidableEq, Repr

namespace Stop

variable {ε ε' ε'' : Type}

/-- Changes the error; a panic has none. -/
def map (f : ε → ε') : Stop ε → Stop ε'
  | failure e => failure (f e)
  | panic => panic

@[simp] theorem map_failure (f : ε → ε') (e : ε) : (failure e).map f = failure (f e) := rfl

@[simp] theorem map_panic (f : ε → ε') : (panic : Stop ε).map f = panic := rfl

@[simp] theorem map_id : map (id : ε → ε) = id := by
  funext s
  cases s with
  | failure e => rfl
  | panic => rfl

theorem map_map (f : ε → ε') (g : ε' → ε'') (s : Stop ε) : (s.map f).map g = s.map (g ∘ f) := by
  cases s with
  | failure e => rfl
  | panic => rfl

end Stop

/-- The largest number of digits after the point to which decimals are rounded. -/
def DecimalWindow.maxPrecision : Nat := 16383

/-- Parameters from which nothing can be built. -/
inductive ConfigError where
  /-- The lower bound is not below the upper one; both as they are written. -/
  | wrongLimits (min max : String)
  /-- The subnet leaves no address for a host. -/
  | subnetTooSmall (subnet : String)
  /-- The text is no subnet. -/
  | invalidSubnet (text : String)
  /-- No generator has this size. -/
  | unsupportedSize (size : Nat)
  /-- Folding cannot lengthen an output. -/
  | sizeIncrease (requested available : Nat)
  /-- A chain needs a stage. -/
  | emptyChain
  /-- No calendar unit has this name. -/
  | unknownTruncatePart (text : String)
  /-- The shortest length is above the longest. -/
  | invalidLength (min max : Nat)
  /-- A string needs characters to draw from. -/
  | emptyAlphabet
  /-- A choice needs something to choose from. -/
  | emptyChoices
  /-- No column type has this width. -/
  | unsupportedTypeSize (size : Nat)
  /-- Too many fractional digits. -/
  | invalidPrecision (precision : Nat)
  /-- The text is no duration, or the duration is too long. -/
  | invalidDuration (text : String)
  /-- The salt is no hexadecimal text. -/
  | invalidSalt (cause : HexError)
  /-- No instant of the window is a whole multiple of the unit. -/
  | emptyTruncatedWindow (part min max : String)
  /-- The bound has a fraction. -/
  | notAnInteger (text : String)
  deriving DecidableEq, Repr

namespace ConfigError

/-- The wording of the error. -/
def message : ConfigError → String
  | wrongLimits min max => s!"wrong limits: min ({min}) must be less than max ({max})"
  | subnetTooSmall subnet => s!"subnet {subnet} has no usable host addresses"
  | invalidSubnet text => "invalid subnet '" ++ text ++ "'"
  | unsupportedSize size => s!"unable to find a hash function producing {size} bytes"
  | sizeIncrease requested available =>
    s!"cannot increase generator size from {available} to {requested} bytes"
  | emptyChain => "generator chain must contain at least one stage"
  | unknownTruncatePart text => "unknown truncate part '" ++ text ++ "'"
  | invalidLength min max => s!"min length ({min}) is greater than max length ({max})"
  | emptyAlphabet => "character set cannot be empty"
  | emptyChoices => "choice list cannot be empty"
  | unsupportedTypeSize size => s!"unsupported type size {size}"
  | invalidPrecision precision =>
    s!"invalid precision {precision}: at most {DecimalWindow.maxPrecision} fractional digits are "
      ++ "supported"
  | invalidDuration text => "invalid duration '" ++ text ++ "'"
  | invalidSalt cause => "invalid salt: " ++ cause.message
  | emptyTruncatedWindow part min max => s!"no {part}-aligned instant between {min} and {max}"
  | notAnInteger text => s!"{text} is not an integer"

end ConfigError

/-- A generator of `available` bytes where `required` are needed. -/
structure InsufficientSize where
  required : Nat
  available : Nat
  deriving DecidableEq, Repr

namespace InsufficientSize

/-- The wording of the error. -/
def message (e : InsufficientSize) : String :=
  let required := e.required
  let available := e.available
  s!"requested byte length ({required}) higher than generator can produce ({available})"

end InsufficientSize

/-- Why no bytes were drawn. -/
inductive GenerationError where
  /-- There is no generator. -/
  | missingGenerator
  /-- The output is shorter than it has to be. -/
  | shortOutput (expected got : Nat)
  /-- A stage of a chain failed. -/
  | stage (index : Nat) (cause : GenerationError)
  deriving DecidableEq, Repr

namespace GenerationError

/-- The wording of the error. -/
def message : GenerationError → String
  | missingGenerator => "no generator attached to the transformer"
  | shortOutput expected got => s!"generator returned {got} bytes, expected {expected}"
  | stage index cause => s!"generator stage {index} failed: " ++ cause.message

end GenerationError

/-- Why a value, or something given along with it, does not fit. -/
inductive DecodeError where
  /-- The text is no hardware address. -/
  | invalidMac (text : String)
  /-- The instant cannot be represented. -/
  | timestampOutOfRange (seconds : Int) (nanos : Nat)
  /-- The value is of the wrong kind. -/
  | unexpectedValue (expected got : ValueKind)
  /-- The text does not spell a value of the kind. -/
  | parse (kind : ValueKind) (input : String)
  /-- The subnet given for one call cannot be used. -/
  | runtimeSubnet (cause : ConfigError)
  /-- The window of one call cannot be used. -/
  | runtimeLimiter (cause : ConfigError)
  deriving DecidableEq, Repr

namespace DecodeError

/-- The wording of the error. -/
def message : DecodeError → String
  | invalidMac text => "invalid MAC address '" ++ text ++ "'"
  | timestampOutOfRange seconds nanos =>
    s!"timestamp out of range: seconds={seconds}, nanos={nanos}"
  | unexpectedValue expected got => "expected " ++ expected.name ++ " value, got " ++ got.name
  | parse kind input => "cannot parse '" ++ input ++ "' as " ++ kind.name
  | runtimeSubnet cause => "runtime subnet rejected: " ++ cause.message
  | runtimeLimiter cause => "runtime limiter rejected: " ++ cause.message

end DecodeError

/-- Why one value was not masked. -/
inductive TransformError where
  | generation (cause : GenerationError)
  | decode (cause : DecodeError)
  /-- The window of this call needs more bytes than the transformer draws. -/
  | capacity (cause : InsufficientSize)
  deriving DecidableEq, Repr

namespace TransformError

/-- The wording of the error. -/
def message : TransformError → String
  | generation cause => cause.message
  | decode cause => cause.message
  | capacity cause => cause.message

end TransformError

end ColumnMask
