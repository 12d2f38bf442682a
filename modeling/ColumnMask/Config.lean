import ColumnMask.Address
import ColumnMask.CalendarUnit
import ColumnMask.Decimal
import ColumnMask.Document
import ColumnMask.Generator
import ColumnMask.Transformer
import ColumnMask.Yaml.Document

/-!
# Configurations

What a user writes down, as a document and as a text.
-/

namespace ColumnMask

/-!
## Configurations

What a user writes down: the engine, its salt, and the options of one rule. Nothing is checked here
beyond the types; `ColumnMask.Config.Build` makes transformers of configurations.

- `Bounds`: bounds that may be missing, and the width of a column that may supply them.
- `RuleOptions`: the options of each of the fifteen rules.
- `Config`: the whole.
-/

/-- Bounds of numbers, and the width of their column in bytes or digits. -/
structure Bounds (α ω : Type) where
  min : Option α
  max : Option α
  width : Option ω
  deriving DecidableEq

namespace Bounds

/-- Nothing is given. -/
def none {α ω : Type} : Bounds α ω := ⟨.none, .none, .none⟩

/-- Whether anything is given. -/
def isGiven {α ω : Type} (b : Bounds α ω) : Bool :=
  b.min.isSome || b.max.isSome || b.width.isSome

/-- The lower and the upper bound. What is missing is supplied by the width, which is not looked at
when both are given; `fallback` is the width of a column of which nothing is known. -/
def resolve {α ω : Type} (b : Bounds α ω) (fallback : ω)
    (range? : ω → Except ConfigError (α × α)) : Except ConfigError (α × α) :=
  match b.min, b.max with
  | some min, some max => .ok (min, max)
  | min, max => do
    let (low, high) ← range? (b.width.getD fallback)
    return (min.getD low, max.getD high)

end Bounds

/-- The options of a rule. -/
inductive RuleOptions where
  | noiseInteger (minRatio maxRatio : Float) (bounds : Bounds Int64 UInt64)
  | noiseFloat (minRatio maxRatio : Float) (bounds : Bounds Float UInt64)
    (precision : Option UInt32)
  | noiseDecimal (minRatio maxRatio : Float) (bounds : Bounds Decimal UInt32)
    (precision : Option UInt32)
  /-- The ratios are durations. -/
  | noiseTime (minRatio maxRatio : String) (min max : Option Instant)
    (truncate : Option CalendarUnit)
  | randomInteger (bounds : Bounds Int64 UInt64)
  | randomFloat (bounds : Bounds Float UInt64) (precision : Option UInt32)
  | randomDecimal (bounds : Bounds Decimal UInt32) (precision : UInt32)
  /-- The bounds have to be whole numbers. -/
  | randomBigInteger (bounds : Bounds Decimal UInt32)
  | randomTime (min max : Instant) (truncate : Option CalendarUnit)
  | randomText (symbols : String) (minLength maxLength : UInt64)
  | randomUuid
  | randomBool
  | randomChoice (choices : List String)
  | randomAddress (subnet : String)
  | randomMac (cast : CastType) (management : ManagementType) (keepVendor : Bool)

/-- A configuration. -/
structure Config where
  engine : Engine
  /-- Hexadecimal digits. -/
  salt : Option String
  rule : RuleOptions

namespace RuleOptions

/-- The alphabet of random texts where nothing is said about it. -/
def defaultSymbols : String := "abcdefghijklmnopqrstuvwxyzABCDEFGHIJKLMNOPQRSTUVWXYZ1234567890"

/-- The kind of the rule that options are for. -/
def kind : RuleOptions → RuleKind
  | noiseInteger .. => .noiseInteger
  | noiseFloat .. => .noiseFloat
  | noiseDecimal .. => .noiseDecimal
  | noiseTime .. => .noiseTime
  | randomInteger .. => .randomInteger
  | randomFloat .. => .randomFloat
  | randomDecimal .. => .randomDecimal
  | randomBigInteger .. => .randomBigInteger
  | randomTime .. => .randomTime
  | randomText .. => .randomText
  | randomUuid => .randomUuid
  | randomBool => .randomBool
  | randomChoice .. => .randomChoice
  | randomAddress .. => .randomAddress
  | randomMac .. => .randomMac

end RuleOptions

/-!
## Configurations as documents

- `Config.ofDocument?`: reads a configuration. Fields that the rule does not have are skipped.
- `Config.document`: writes one. Options that are not given are left out, decimals and instants are
  texts.
- `Config.same`: whether two configurations say the same. Decimals and floats count as numbers.
-/

/-! ### Reading -/

namespace Bounds

/-- The fields of bounds. -/
def ofFields? {α ω : Type} (fields : Fields) (bound? : Document → Option α) (widthKey : String)
    (width? : Document → Option ω) : Option (Bounds α ω) := do
  let min ← fields.optional? "min" bound?
  let max ← fields.optional? "max" bound?
  let width ← fields.optional? widthKey width?
  return ⟨min, max, width⟩

end Bounds

namespace RuleOptions

/-- A calendar unit. -/
def unit? : Document → Option CalendarUnit :=
  Document.oneOf? CalendarUnit.all CalendarUnit.name

/-- The options of a rule of a given kind. -/
def ofFields? (fields : Fields) : RuleKind → Option RuleOptions
  | .noiseInteger => do
    let minRatio ← fields.required? "min_ratio" Document.float?
    let maxRatio ← fields.required? "max_ratio" Document.float?
    let bounds ← Bounds.ofFields? fields Document.int64? "type_size" Document.uint64?
    return .noiseInteger minRatio maxRatio bounds
  | .noiseFloat => do
    let minRatio ← fields.required? "min_ratio" Document.float?
    let maxRatio ← fields.required? "max_ratio" Document.float?
    let bounds ← Bounds.ofFields? fields Document.float? "type_size" Document.uint64?
    let precision ← fields.optional? "precision" Document.uint32?
    return .noiseFloat minRatio maxRatio bounds precision
  | .noiseDecimal => do
    let minRatio ← fields.required? "min_ratio" Document.float?
    let maxRatio ← fields.required? "max_ratio" Document.float?
    let bounds ← Bounds.ofFields? fields Document.decimal? "digits" Document.uint32?
    let precision ← fields.optional? "precision" Document.uint32?
    return .noiseDecimal minRatio maxRatio bounds precision
  | .noiseTime => do
    let minRatio ← fields.required? "min_ratio" Document.text?
    let maxRatio ← fields.required? "max_ratio" Document.text?
    let min ← fields.optional? "min" Document.instant?
    let max ← fields.optional? "max" Document.instant?
    let truncate ← fields.optional? "truncate" unit?
    return .noiseTime minRatio maxRatio min max truncate
  | .randomInteger => do
    let bounds ← Bounds.ofFields? fields Document.int64? "type_size" Document.uint64?
    return .randomInteger bounds
  | .randomFloat => do
    let bounds ← Bounds.ofFields? fields Document.float? "type_size" Document.uint64?
    let precision ← fields.optional? "precision" Document.uint32?
    return .randomFloat bounds precision
  | .randomDecimal => do
    let bounds ← Bounds.ofFields? fields Document.decimal? "digits" Document.uint32?
    let precision ← fields.defaulted? "precision" 0 Document.uint32?
    return .randomDecimal bounds precision
  | .randomBigInteger => do
    let bounds ← Bounds.ofFields? fields Document.decimal? "digits" Document.uint32?
    return .randomBigInteger bounds
  | .randomTime => do
    let min ← fields.required? "min" Document.instant?
    let max ← fields.required? "max" Document.instant?
    let truncate ← fields.optional? "truncate" unit?
    return .randomTime min max truncate
  | .randomText => do
    let symbols ← fields.defaulted? "symbols" defaultSymbols Document.text?
    let minLength ← fields.required? "min_length" Document.uint64?
    let maxLength ← fields.required? "max_length" Document.uint64?
    return .randomText symbols minLength maxLength
  | .randomUuid => some .randomUuid
  | .randomBool => some .randomBool
  | .randomChoice => do
    let choices ← fields.required? "choices" Document.texts?
    return .randomChoice choices
  | .randomAddress => do
    let subnet ← fields.required? "subnet" Document.text?
    return .randomAddress subnet
  | .randomMac => do
    let cast ← fields.defaulted? "cast_type" .any (Document.oneOf? CastType.all CastType.name)
    let management ← fields.defaulted? "management_type" .any
      (Document.oneOf? ManagementType.all ManagementType.name)
    let keepVendor ← fields.defaulted? "keep_original_vendor" false Document.bool?
    return .randomMac cast management keepVendor

end RuleOptions

namespace Config

/-- Reads a configuration. -/
def ofDocument? (d : Document) : Option Config := do
  let fields ← Fields.ofDocument? d
  let engine ← fields.defaulted? "engine" .random (Document.named? Engine.all Engine.name)
  let salt ← fields.optional? "salt" Document.text?
  let kind ← fields.required? "transformer"
    (Document.ofNameOrIndex? RuleKind.all RuleKind.name)
  let rule ← RuleOptions.ofFields? fields kind
  return { engine, salt, rule }

end Config

/-! ### Writing -/

namespace RuleOptions

/-- A field that is left out where there is nothing. -/
def optionalField {α : Type} (key : String) (write : α → Document) : Option α → Fields
  | some a => [(key, write a)]
  | none => []

/-- A bound or another integer. -/
def ofInt64 (n : Int64) : Document := .integer (.ofInt n.toInt)

/-- A width or a length. -/
def ofUInt64 (n : UInt64) : Document := .integer (.ofInt n.toNat)

/-- A number of digits. -/
def ofUInt32 (n : UInt32) : Document := .integer (.ofInt n.toNat)

/-- A decimal as a text that shows its scale. -/
def ofDecimal (d : Decimal) : Document := .text d.displayText

/-- An instant as a text. -/
def ofInstant (t : Instant) : Document := .text t.text

/-- A calendar unit by its name. -/
def ofUnit (unit : CalendarUnit) : Document := .text unit.name

/-- The two ratios of noise on numbers. -/
def ratioFields (minRatio maxRatio : Float) : Fields :=
  [("min_ratio", .float minRatio), ("max_ratio", .float maxRatio)]

/-- Both bounds as far as they are given. -/
def limitFields {α : Type} (write : α → Document) (min max : Option α) : Fields :=
  optionalField "min" write min ++ optionalField "max" write max

/-- The options of a rule, in a fixed order. -/
def fields : RuleOptions → Fields
  | noiseInteger minRatio maxRatio b =>
    ratioFields minRatio maxRatio ++ limitFields ofInt64 b.min b.max ++
      optionalField "type_size" ofUInt64 b.width
  | noiseFloat minRatio maxRatio b precision =>
    ratioFields minRatio maxRatio ++ limitFields .float b.min b.max ++
      optionalField "precision" ofUInt32 precision ++ optionalField "type_size" ofUInt64 b.width
  | noiseDecimal minRatio maxRatio b precision =>
    ratioFields minRatio maxRatio ++ limitFields ofDecimal b.min b.max ++
      optionalField "precision" ofUInt32 precision ++ optionalField "digits" ofUInt32 b.width
  | noiseTime minRatio maxRatio min max truncate =>
    [("min_ratio", .text minRatio), ("max_ratio", .text maxRatio)] ++
      limitFields ofInstant min max ++ optionalField "truncate" ofUnit truncate
  | randomInteger b =>
    limitFields ofInt64 b.min b.max ++ optionalField "type_size" ofUInt64 b.width
  | randomFloat b precision =>
    limitFields .float b.min b.max ++ optionalField "precision" ofUInt32 precision ++
      optionalField "type_size" ofUInt64 b.width
  | randomDecimal b precision =>
    limitFields ofDecimal b.min b.max ++ ("precision", ofUInt32 precision) ::
      optionalField "digits" ofUInt32 b.width
  | randomBigInteger b =>
    limitFields ofDecimal b.min b.max ++ optionalField "digits" ofUInt32 b.width
  | randomTime min max truncate =>
    [("min", ofInstant min), ("max", ofInstant max)] ++ optionalField "truncate" ofUnit truncate
  | randomText symbols minLength maxLength =>
    [("symbols", .text symbols), ("min_length", ofUInt64 minLength),
      ("max_length", ofUInt64 maxLength)]
  | randomUuid => []
  | randomBool => []
  | randomChoice choices => [("choices", .sequence (choices.map .text))]
  | randomAddress subnet => [("subnet", .text subnet)]
  | randomMac cast management keepVendor =>
    [("cast_type", .text cast.name), ("management_type", .text management.name),
      ("keep_original_vendor", .bool keepVendor)]

end RuleOptions

namespace Config

/-- The fields of a configuration: engine, salt and kind of rule come first. -/
def fields (c : Config) : Fields :=
  ("engine", .text c.engine.name) :: RuleOptions.optionalField "salt" .text c.salt ++
    ("transformer", .text c.rule.kind.name) :: c.rule.fields

/-- Writes a configuration. -/
def document (c : Config) : Document := c.fields.document

end Config

/-! ### Comparing -/

/-- Whether both are absent, or both are there and related. -/
def sameOption {α : Type} (same : α → α → Bool) : Option α → Option α → Bool
  | some a, some b => same a b
  | none, none => true
  | _, _ => false

/-- Whether bounds are the same up to the relation of the numbers. -/
def Bounds.same {α ω : Type} [DecidableEq ω] (same : α → α → Bool) (a b : Bounds α ω) : Bool :=
  sameOption same a.min b.min && sameOption same a.max b.max && decide (a.width = b.width)

/-- Whether two decimals stand for the same number. -/
def sameDecimal (a b : Decimal) : Bool := decide (Decimal.Same a b)

namespace RuleOptions

/-- Whether options are the same, numbers compared as numbers. -/
def same : RuleOptions → RuleOptions → Bool
  | noiseInteger a b c, noiseInteger a' b' c' => a == a' && b == b' && decide (c = c')
  | noiseFloat a b c d, noiseFloat a' b' c' d' =>
    a == a' && b == b' && c.same (· == ·) c' && decide (d = d')
  | noiseDecimal a b c d, noiseDecimal a' b' c' d' =>
    a == a' && b == b' && c.same sameDecimal c' && decide (d = d')
  | noiseTime a b c d e, noiseTime a' b' c' d' e' =>
    decide (a = a' ∧ b = b' ∧ c = c' ∧ d = d' ∧ e = e')
  | randomInteger a, randomInteger a' => decide (a = a')
  | randomFloat a b, randomFloat a' b' => a.same (· == ·) a' && decide (b = b')
  | randomDecimal a b, randomDecimal a' b' => a.same sameDecimal a' && decide (b = b')
  | randomBigInteger a, randomBigInteger a' => a.same sameDecimal a'
  | randomTime a b c, randomTime a' b' c' => decide (a = a' ∧ b = b' ∧ c = c')
  | randomText a b c, randomText a' b' c' => decide (a = a' ∧ b = b' ∧ c = c')
  | randomUuid, randomUuid => true
  | randomBool, randomBool => true
  | randomChoice a, randomChoice a' => decide (a = a')
  | randomAddress a, randomAddress a' => decide (a = a')
  | randomMac a b c, randomMac a' b' c' => decide (a = a' ∧ b = b' ∧ c = c')
  | _, _ => false

end RuleOptions

/-- Whether two configurations say the same. -/
def Config.same (a b : Config) : Bool :=
  decide (a.engine = b.engine ∧ a.salt = b.salt) && a.rule.same b.rule

/-!
## Configurations as texts

`Config.parse?` reads a configuration from a YAML text, and `Config.text` writes one. The engine is
given as a name, and the salt as a text even where it looks like a number.
-/

namespace Config

/-- How the values of keys are meant. -/
def usage (key : String) : Yaml.Usage :=
  match key with
  | "engine" => .asName
  | "salt" => .asText
  | _ => .byForm

/-- Reads a configuration. -/
def parse? (text : String) : Option Config :=
  (Yaml.read? usage text).bind ofDocument?

/-- Writes a configuration. -/
def text (c : Config) : String := Yaml.write c.fields

end Config

end ColumnMask
