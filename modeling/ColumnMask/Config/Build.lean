import ColumnMask.Config
import ColumnMask.Transformer

/-!
# From configurations to transformers

- `RuleOptions.rule?`: checks the options of a rule and makes the rule.
- `Config.saltBytes?`: the bytes of the salt.
- `Config.check`: whether salt and options are in order, the salt first.
- `Config.build?`: a transformer with the generator that the engine makes for it.
-/

namespace ColumnMask

namespace RuleOptions

/-- The column width of integers and floats where nothing is said about it. -/
def defaultTypeSize : UInt64 := 8

/-- The digits before the point that a precision leaves to a default column, at least one. -/
def defaultDigits (precision : UInt32) : UInt32 :=
  UInt32.ofNat (Window.defaultDigits - min precision.toNat (Window.defaultDigits - 1))

/-- A bound that has to be a whole number. -/
def wholeNumber? (d : Decimal) : Except ConfigError Int :=
  if d.isWhole then .ok (d.truncatedUnits 0) else .error (.notAnInteger d.displayText)

/-- Bounds that have to be whole numbers, the lower one checked first. -/
def wholeBounds? (b : Bounds Decimal UInt32) : Except ConfigError (Bounds Int UInt32) := do
  let min ← b.min.mapM wholeNumber?
  let max ← b.max.mapM wholeNumber?
  return ⟨min, max, b.width⟩

/-- Integer bounds, missing ones supplied by the column type. -/
def integerWindow? (b : Bounds Int64 UInt64) : Except ConfigError (Window Int64) := do
  let (min, max) ← b.resolve defaultTypeSize fun size => Window.typeSizeBounds? size.toNat
  Window.ofWords? min max

/-- Float bounds, missing ones supplied by the column type. -/
def floatWindow? (b : Bounds Float UInt64) (precision : Option UInt32) :
    Except ConfigError FloatWindow := do
  let (min, max) ← b.resolve defaultTypeSize fun size => FloatWindow.typeSizeBounds? size.toNat
  FloatWindow.make? min max precision

/-- Decimal bounds, missing ones supplied by the digits before the point. -/
def decimalBounds? (b : Bounds Decimal UInt32) (precision : UInt32) :
    Except ConfigError (Decimal × Decimal) :=
  b.resolve (defaultDigits precision) fun digits => DecimalWindow.digitBounds? digits.toNat

/-- Makes a value only if it is wanted. -/
def ifWanted {α : Type} (wanted : Bool) (make : Except ConfigError α) :
    Except ConfigError (Option α) :=
  if wanted then make.map some else .ok none

/-- Checks the options and makes the rule. -/
def rule? : RuleOptions → Except ConfigError Rule
  | noiseInteger minRatio maxRatio bounds => do
    let ratio ← NoiseRatio.make? minRatio maxRatio
    let window ← ifWanted bounds.isGiven (integerWindow? bounds)
    return .noiseInteger { ratio, window }
  | noiseFloat minRatio maxRatio bounds precision => do
    let ratio ← NoiseRatio.make? minRatio maxRatio
    let window ← ifWanted (bounds.isGiven || precision.isSome) (floatWindow? bounds precision)
    return .noiseFloat { ratio, window }
  | noiseDecimal minRatio maxRatio bounds precision => do
    let ratio ← NoiseRatio.make? minRatio maxRatio
    let window ← ifWanted (bounds.isGiven || precision.isSome) do
      let (min, max) ← decimalBounds? bounds (precision.getD 0)
      DecimalWindow.makeWith? min max (precision.map UInt32.toNat)
    return .noiseDecimal { ratio, window }
  | noiseTime minRatio maxRatio min max truncate => do
    let least ← Duration.parse minRatio
    let greatest ← Duration.parse maxRatio
    let noise ← NoiseTime.make? least greatest none truncate
    let window ← ifWanted (min.isSome || max.isSome) (OpenWindow.make? min max)
    return .noiseTime { noise with window }
  | randomInteger bounds => do
    let window ← integerWindow? bounds
    return .randomInteger { window }
  | randomFloat bounds precision => do
    let window ← floatWindow? bounds precision
    return .randomFloat { window }
  | randomDecimal bounds precision => do
    let (min, max) ← decimalBounds? bounds precision
    let window ← DecimalWindow.make? min max
    let r ← RandomDecimal.make? window precision.toNat
    return .randomDecimal r
  | randomBigInteger bounds => do
    let bounds ← wholeBounds? bounds
    let (min, max) ← bounds.resolve (defaultDigits 0) fun digits => Window.digitBounds? digits.toNat
    let window ← Window.ofIntegers? min max
    return .randomBigInteger { window }
  | randomTime min max truncate => do
    let window ← Window.ofInstants? min max
    let r ← RandomTime.make? window truncate
    return .randomTime r
  | randomText symbols minLength maxLength => do
    let r ← RandomText.make? symbols minLength maxLength
    return .randomText r
  | randomUuid => return .randomUuid
  | randomBool => return .randomBool
  | randomChoice choices => do
    let r ← RandomChoice.make? (choices.map .text)
    return .randomChoice r
  | randomAddress subnet => do
    let subnet ← Subnet.parse subnet
    let r ← RandomAddress.make? subnet
    return .randomAddress r
  | randomMac cast management keepVendor => return .randomMac { cast, management, keepVendor }

end RuleOptions

/-- Why no transformer was built. -/
inductive BuildError where
  | config (cause : ConfigError)
  /-- The generator of the engine is too small for the rule. -/
  | capacity (cause : InsufficientSize)
  deriving DecidableEq, Repr

namespace BuildError

/-- The wording of the error. -/
def message : BuildError → String
  | config cause => cause.message
  | capacity cause => cause.message

end BuildError

namespace Config

/-- The bytes of the salt, none if there is no salt. -/
def saltBytes? (c : Config) : Except ConfigError Bytes :=
  match c.salt with
  | none => .ok []
  | some text =>
    match Bytes.ofHex (Text.trim text) with
    | .ok salt => .ok salt
    | .error cause => .error (.invalidSalt cause)

/-- Whether salt and options are in order. -/
def check (c : Config) : Except ConfigError Unit := do
  let _ ← c.saltBytes?
  let _ ← c.rule.rule?
  return ()

/-- A transformer with its generator. The random engine draws on `seed`; `number` tells the source
of the generator from others in a log. -/
def build? (c : Config) (number : Nat) (seed : UInt64) : Except BuildError Transformer := do
  let salt ← c.saltBytes?.mapError .config
  let rule ← c.rule.rule?.mapError .config
  let generator ← (c.engine.generator number seed salt rule.required).mapError .config
  ((Transformer.ofRule rule).attach? generator).mapError .capacity

end Config

end ColumnMask
