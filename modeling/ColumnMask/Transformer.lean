import ColumnMask.Transformer.Noise
import ColumnMask.Transformer.Random

/-!
# Rules and transformers

A rule says what is put in the place of a value, and a transformer does so with bytes of its
generator, one row of a column after another.
-/

namespace ColumnMask

/-!
## Kinds of rules

The fifteen kinds of rules with the names that configurations and messages use.
-/

/-- What a rule does with a value. -/
inductive RuleKind where
  | noiseInteger
  | noiseFloat
  | noiseDecimal
  | noiseTime
  | randomInteger
  | randomFloat
  | randomDecimal
  | randomBigInteger
  | randomTime
  | randomText
  | randomUuid
  | randomBool
  | randomChoice
  | randomAddress
  | randomMac
  deriving DecidableEq, Repr

namespace RuleKind

/-- The name of the kind. -/
def name : RuleKind → String
  | noiseInteger => "noise_int"
  | noiseFloat => "noise_float"
  | noiseDecimal => "noise_decimal"
  | noiseTime => "noise_timestamp"
  | randomInteger => "random_int"
  | randomFloat => "random_float"
  | randomDecimal => "random_decimal"
  | randomBigInteger => "random_bigint"
  | randomTime => "random_timestamp"
  | randomText => "random_string"
  | randomUuid => "random_uuid"
  | randomBool => "random_bool"
  | randomChoice => "random_choice"
  | randomAddress => "random_ip"
  | randomMac => "random_mac"

/-- All kinds, in the order in which they are counted. -/
def all : List RuleKind :=
  [noiseInteger, noiseFloat, noiseDecimal, noiseTime, randomInteger, randomFloat, randomDecimal,
    randomBigInteger, randomTime, randomText, randomUuid, randomBool, randomChoice, randomAddress,
    randomMac]

end RuleKind

/-!
## Rules

A rule says what is put in the place of a value. There are four that add noise to it and eleven that
draw something new.

- `Rule.kind`: the kind of a rule.
- `Rule.required`: the number of bytes that a rule takes for one value.
- `Request rule`: what one call hands to a rule. Its type depends on the rule, so that a window of
  the wrong kind cannot be handed over.
- `Request.plan`: the plan of a call.
- `Rule.request?`: the request for a value, with the windows of the rule itself.
-/

/-- What is put in the place of a value. -/
inductive Rule where
  | noiseInteger (noise : NoiseInteger)
  | noiseFloat (noise : NoiseFloat)
  | noiseDecimal (noise : NoiseDecimal)
  | noiseTime (noise : NoiseTime)
  | randomInteger (r : RandomInteger)
  | randomFloat (r : RandomFloat)
  | randomDecimal (r : RandomDecimal)
  | randomBigInteger (r : RandomBigInteger)
  | randomTime (r : RandomTime)
  | randomText (r : RandomText)
  | randomUuid
  | randomBool
  | randomChoice (r : RandomChoice)
  | randomAddress (r : RandomAddress)
  | randomMac (r : RandomMac)

namespace Rule

/-- The kind of the rule. -/
def kind : Rule → RuleKind
  | noiseInteger _ => .noiseInteger
  | noiseFloat _ => .noiseFloat
  | noiseDecimal _ => .noiseDecimal
  | noiseTime _ => .noiseTime
  | randomInteger _ => .randomInteger
  | randomFloat _ => .randomFloat
  | randomDecimal _ => .randomDecimal
  | randomBigInteger _ => .randomBigInteger
  | randomTime _ => .randomTime
  | randomText _ => .randomText
  | randomUuid => .randomUuid
  | randomBool => .randomBool
  | randomChoice _ => .randomChoice
  | randomAddress _ => .randomAddress
  | randomMac _ => .randomMac

/-- The number of bytes that the rule takes for one value. -/
def required : Rule → Nat
  | noiseInteger _ | noiseFloat _ | noiseDecimal _ => noiseLength
  | noiseTime _ => NoiseTime.length
  | randomInteger _ | randomFloat _ => 8
  | randomDecimal r => r.required
  | randomBigInteger r => r.required
  | randomTime _ => RandomTime.length
  | randomText r => r.required
  | randomUuid => 16
  | randomBool => 1
  | randomChoice _ => 4
  | randomAddress _ => 16
  | randomMac _ => 6

end Rule

/-- What one call hands to a rule: the value itself for noise, and for what is drawn anew the bytes
that the generator is asked with. Where the rule has a window, the call may bring another one. -/
inductive Request : Rule → Type where
  | noiseInteger {noise : NoiseInteger} (value : Int64) (window : Option (Window Int64)) :
    Request (.noiseInteger noise)
  | noiseFloat {noise : NoiseFloat} (value : Float) (window : Option FloatWindow) :
    Request (.noiseFloat noise)
  | noiseDecimal {noise : NoiseDecimal} (value : Decimal) (window : Option DecimalWindow) :
    Request (.noiseDecimal noise)
  | noiseTime {noise : NoiseTime} (value : Instant) (window : Option OpenWindow) :
    Request (.noiseTime noise)
  | randomInteger {r : RandomInteger} (input : Bytes) (window : Option (Window Int64)) :
    Request (.randomInteger r)
  | randomFloat {r : RandomFloat} (input : Bytes) (window : Option FloatWindow) :
    Request (.randomFloat r)
  | randomDecimal {r : RandomDecimal} (input : Bytes) (window : Option DecimalWindow) :
    Request (.randomDecimal r)
  | randomBigInteger {r : RandomBigInteger} (input : Bytes) (window : Option (Window Int)) :
    Request (.randomBigInteger r)
  | randomTime {r : RandomTime} (input : Bytes) (window : Option (Window Instant)) :
    Request (.randomTime r)
  | randomText {r : RandomText} (input : Bytes) : Request (.randomText r)
  | randomUuid (input : Bytes) : Request .randomUuid
  | randomBool (input : Bytes) : Request .randomBool
  | randomChoice {r : RandomChoice} (input : Bytes) : Request (.randomChoice r)
  | randomAddress {r : RandomAddress} (input : Bytes) (subnet : Option Subnet) :
    Request (.randomAddress r)
  /-- Draws an address whatever the value is. -/
  | randomMac {r : RandomMac} (input : Bytes) : Request (.randomMac r)
  /-- Draws an address in the place of another one, whose maker's share may be kept. -/
  | replaceMac {r : RandomMac} (value : MacAddress) : Request (.randomMac r)

namespace Request

/-- The plan of a call; a window that the rule cannot serve is refused. -/
def plan : {rule : Rule} → Request rule → Except TransformError Plan
  | .noiseInteger noise, noiseInteger v window => .ok (noise.plan window v)
  | .noiseFloat noise, noiseFloat v window => .ok (noise.plan window v)
  | .noiseDecimal noise, noiseDecimal v window => .ok (noise.plan window v)
  | .noiseTime noise, noiseTime t window => .ok (noise.plan window t)
  | .randomInteger r, randomInteger input window => .ok (r.plan window input)
  | .randomFloat r, randomFloat input window => .ok (r.plan window input)
  | .randomDecimal r, randomDecimal input window => r.plan window input
  | .randomBigInteger r, randomBigInteger input window => r.plan window input
  | .randomTime r, randomTime input window => .ok (r.plan window input)
  | .randomText r, randomText input => .ok (r.plan input)
  | .randomUuid, randomUuid input => .ok (RandomUuid.plan input)
  | .randomBool, randomBool input => .ok (RandomBool.plan input)
  | .randomChoice r, randomChoice input => .ok (r.plan input)
  | .randomAddress r, randomAddress input subnet => r.plan subnet input
  | .randomMac r, randomMac input => .ok (r.plan input)
  | .randomMac r, replaceMac a => .ok (r.planFor a)

end Request

namespace Rule

/-- The request for a value. Noise needs a value of its own kind, or a text that spells one; what is
drawn anew depends on the canonical text only. -/
def request? : (rule : Rule) → Value → Except DecodeError (Request rule)
  | noiseInteger _, v => v.integer?.map (.noiseInteger · none)
  | noiseFloat _, v => v.float?.map (.noiseFloat · none)
  | noiseDecimal _, v => v.decimal?.map (.noiseDecimal · none)
  | noiseTime _, v => v.timestamp?.map (.noiseTime · none)
  | randomInteger _, v => .ok (.randomInteger v.input none)
  | randomFloat _, v => .ok (.randomFloat v.input none)
  | randomDecimal _, v => .ok (.randomDecimal v.input none)
  | randomBigInteger _, v => .ok (.randomBigInteger v.input none)
  | randomTime _, v => .ok (.randomTime v.input none)
  | randomText _, v => .ok (.randomText v.input)
  | randomUuid, v => .ok (.randomUuid v.input)
  | randomBool, v => .ok (.randomBool v.input)
  | randomChoice _, v => .ok (.randomChoice v.input)
  | randomAddress _, v => .ok (.randomAddress v.input none)
  | randomMac r, v => if r.keepVendor then v.mac?.map .replaceMac else .ok (.randomMac v.input)

end Rule

/-!
## Transformers

A transformer is a rule together with the generator that serves it. A generator of too few bytes is
refused when it is attached, and the one attached before stays.

- `Transformer.attach?`: exchanges the generator.
- `Transformer.call`: masks what a request hands over.
- `Transformer.transform`: masks a value of any kind.

A transformer never changes by masking: all that a call leaves behind is in the log of its draws.
-/

/-- A rule and the generator that serves it. -/
structure Transformer where
  rule : Rule
  generator : Option Generator
  required_le : ∀ g ∈ generator, rule.required ≤ g.size

namespace Transformer

/-- A rule without a generator. -/
def ofRule (rule : Rule) : Transformer := ⟨rule, none, by simp⟩

/-- Exchanges the generator for one of enough bytes. -/
def attach? (t : Transformer) (g : Generator) : Except InsufficientSize Transformer :=
  if h : t.rule.required ≤ g.size then .ok ⟨t.rule, some g, by simpa using h⟩
  else .error { required := t.rule.required, available := g.size }

/-- Masks what a request hands over. -/
def call (t : Transformer) (request : Request t.rule) : Masking Value :=
  match request.plan with
  | .ok plan => plan.run t.generator t.rule.required
  | .error e => throw (.failure e)

/-- Masks a value. -/
def transform (t : Transformer) (v : Value) : Masking Value :=
  match t.rule.request? v with
  | .ok request => t.call request
  | .error e => throw (.failure (.decode e))

end Transformer

/-!
## Rows

A column is masked row by row, each row a text. Masking ends at the first row that fails.

- `Rows`: the masked values, and the failure that ended them, if there was one.
- `Transformer.maskRows`: masks rows in order.
-/

/-- What became of a list of rows. -/
structure Rows where
  /-- The masked values of all rows before the first failure. -/
  values : List Value
  /-- Why the row after them was not masked. -/
  failure : Option (Stop TransformError)

namespace Rows

/-- No rows. -/
def empty : Rows := ⟨[], none⟩

/-- Puts a masked value in front. -/
def cons (v : Value) (rows : Rows) : Rows := ⟨v :: rows.values, rows.failure⟩

@[simp] theorem values_cons (v : Value) (rows : Rows) :
    (rows.cons v).values = v :: rows.values := rfl

@[simp] theorem failure_cons (v : Value) (rows : Rows) : (rows.cons v).failure = rows.failure := rfl

end Rows

/-- Masks rows in order until one fails. -/
def Transformer.maskRows (t : Transformer) : List String → StateM Log Rows
  | [] => pure .empty
  | row :: rest => do
    match (← (t.transform (.text row)).run) with
    | .ok v => return (← t.maskRows rest).cons v
    | .error e => return ⟨[], some e⟩

end ColumnMask
