import ColumnMask.CalendarUnit
import ColumnMask.Decimal

/-!
# Documents

A document is a tree of scalars, sequences and mappings, whatever notation it was written in.

- `Document.int64?` and its like: what a document stands for where a value of a given kind is
  expected. Integers serve as floats, floats never as integers, and texts never as numbers, except
  where a decimal is expected.
- `Document.named?`, `Document.oneOf?`: one of several named values.
- `Fields`: the entries of a mapping with texts as keys. A field may not be given twice, but only
  the fields that are looked at count.
-/

namespace ColumnMask

/-!
## Written integers

An integer as it is written has a minus sign or none, and zero can have one too. The sign of zero
shows where an integer names a place in a list: a place has no sign.
-/

/-- An integer with or without a minus sign. -/
structure Numeral where
  minus : Bool
  magnitude : Nat
  deriving DecidableEq, Repr

namespace Numeral

/-- The integer that is written. -/
def toInt (n : Numeral) : Int :=
  if n.minus then -(n.magnitude : Int) else n.magnitude

/-- How an integer is written; zero has no sign. -/
def ofInt (n : Int) : Numeral := ⟨decide (n < 0), n.natAbs⟩

@[simp] theorem toInt_ofInt (n : Int) : (ofInt n).toInt = n := by
  simp only [toInt, ofInt, decide_eq_true_eq]
  split <;> omega

/-- The place in a list that is written. -/
def place? (n : Numeral) : Option Nat := if n.minus then none else some n.magnitude

end Numeral

/-- A tree of scalars, sequences and mappings. -/
inductive Document where
  | null
  | bool (b : Bool)
  | integer (n : Numeral)
  | float (x : Float)
  | text (s : String)
  | sequence (items : List Document)
  | mapping (entries : List (Document × Document))

namespace Document

/-! ## Values of a kind -/

/-- An integer that lies in a range. -/
def integerWithin? (low high : Int) : Document → Option Int
  | integer n => if low ≤ n.toInt ∧ n.toInt ≤ high then some n.toInt else none
  | _ => none

/-- A signed 64-bit integer. -/
def int64? (d : Document) : Option Int64 :=
  (d.integerWithin? Int64.minValue.toInt Int64.maxValue.toInt).map Int64.ofInt

/-- An unsigned 64-bit integer. -/
def uint64? (d : Document) : Option UInt64 :=
  (d.integerWithin? 0 18446744073709551615).map fun n => UInt64.ofNat n.toNat

/-- An unsigned 32-bit integer. -/
def uint32? (d : Document) : Option UInt32 :=
  (d.integerWithin? 0 4294967295).map fun n => UInt32.ofNat n.toNat

/-- A float, or the float nearest to an integer. -/
def float? : Document → Option Float
  | integer n => some (Float.ofInt n.toInt)
  | float x => some x
  | _ => none

/-- A decimal: an integer, the exact value of a float, or a text that spells one. -/
def decimal? : Document → Option Decimal
  | integer n => some (Decimal.ofInt n.toInt)
  | float x => Decimal.ofFloat? x
  | text s => Decimal.parse? s
  | _ => none

/-- A truth value. -/
def bool? : Document → Option Bool
  | bool b => some b
  | _ => none

/-- A text. -/
def text? : Document → Option String
  | text s => some s
  | _ => none

/-- An instant, in the relaxed notation. -/
def instant? : Document → Option Instant
  | text s => Instant.parseRelaxed? s
  | _ => none

/-- A sequence of texts. -/
def texts? : Document → Option (List String)
  | sequence items => items.mapM text?
  | _ => none

/-! ## Named values -/

/-- One of several values, by its name. -/
def named? {α : Type} (all : List α) (name : α → String) : Document → Option α
  | text s => all.find? fun a => name a == s
  | _ => none

/-- One of several values, by its name or by its place in the list. -/
def ofNameOrIndex? {α : Type} (all : List α) (name : α → String) : Document → Option α
  | integer n => n.place?.bind (all[·]?)
  | d => named? all name d

/-- Whether a document holds nothing. -/
def isNothing : Document → Bool
  | null => true
  | mapping [] => true
  | _ => false

/-- One of several values: its name, or a mapping with one entry that holds nothing. -/
def oneOf? {α : Type} (all : List α) (name : α → String) : Document → Option α
  | mapping [(key, value)] => if value.isNothing then ofNameOrIndex? all name key else none
  | d => named? all name d

end Document

/-! ## Fields -/

/-- The entries of a mapping with texts as keys. -/
abbrev Fields := List (String × Document)

namespace Fields

/-- The entries of a document. -/
def ofDocument? : Document → Option Fields
  | .mapping entries => entries.mapM fun
    | (.text key, value) => some (key, value)
    | _ => none
  | _ => none

/-- The document of a mapping with these entries. -/
def document (fields : Fields) : Document :=
  .mapping (fields.map fun (key, value) => (.text key, value))

/-- What is given for a key, if anything is; fails when the key is given twice. -/
def lookup? (fields : Fields) (key : String) : Option (Option Document) :=
  match fields.filter fun field => field.1 == key with
  | [] => some none
  | [field] => some (some field.2)
  | _ => none

/-- A field that has to be given. -/
def required? {α : Type} (fields : Fields) (key : String) (read? : Document → Option α) :
    Option α := do
  match (← fields.lookup? key) with
  | some d => read? d
  | none => none

/-- A field that may be absent or null. -/
def optional? {α : Type} (fields : Fields) (key : String) (read? : Document → Option α) :
    Option (Option α) := do
  match (← fields.lookup? key) with
  | none | some .null => some none
  | some d => (read? d).map some

/-- A field that has a value where it is absent. -/
def defaulted? {α : Type} (fields : Fields) (key : String) (default : α)
    (read? : Document → Option α) : Option α := do
  match (← fields.lookup? key) with
  | none => some default
  | some d => read? d

end Fields

end ColumnMask
