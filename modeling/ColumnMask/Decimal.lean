import ColumnMask.Binary64
import ColumnMask.Text

/-!
# Decimals

Decimal numbers with their arithmetic, and how they are written and read.
-/

namespace ColumnMask

/-!
## Decimal numbers

A decimal number is a coefficient and a scale: it stands for `coefficient * 10 ^ -scale`. Different
pairs can stand for the same number; order and equality of numbers look at the number only, and
`Decimal.Same` says that two pairs stand for the same one.

- `Decimal.unitsAt`: the coefficient that the number has at a finer scale; every operation on two
  numbers works at a scale common to both.
- `+`, `-`, `%` have the larger scale of the two operands, `*` the sum of both.
- `Decimal.roundTo`: rounds half away from zero, and only when there are too many digits.
- `Decimal.normalize`: the same number without zeros at the end of the coefficient.
- `Decimal.ofFloat?`: the exact value of a finite float.
-/

/-- The number `coefficient * 10 ^ -scale`. -/
structure Decimal where
  coefficient : Int
  scale : Int
  deriving DecidableEq, Repr

namespace Decimal

/-! ### Order -/

/-- The coefficient at another scale, which has to be at least as fine. -/
def unitsAt (d : Decimal) (scale : Int) : Int :=
  d.coefficient * Int.pow 10 (scale - d.scale).toNat

@[simp] theorem unitsAt_self (d : Decimal) : d.unitsAt d.scale = d.coefficient := by
  simp [unitsAt, Int.pow]

instance : LT Decimal where
  lt a b := a.unitsAt (max a.scale b.scale) < b.unitsAt (max a.scale b.scale)

instance : LE Decimal where
  le a b := a.unitsAt (max a.scale b.scale) ≤ b.unitsAt (max a.scale b.scale)

instance (a b : Decimal) : Decidable (a < b) :=
  inferInstanceAs (Decidable (a.unitsAt (max a.scale b.scale) < b.unitsAt (max a.scale b.scale)))

instance (a b : Decimal) : Decidable (a ≤ b) :=
  inferInstanceAs (Decidable (a.unitsAt (max a.scale b.scale) ≤ b.unitsAt (max a.scale b.scale)))

/-- Both stand for the same number. -/
def Same (a b : Decimal) : Prop :=
  a.unitsAt (max a.scale b.scale) = b.unitsAt (max a.scale b.scale)

instance (a b : Decimal) : Decidable (Same a b) :=
  inferInstanceAs (Decidable (a.unitsAt (max a.scale b.scale) = b.unitsAt (max a.scale b.scale)))

/-! ### Arithmetic -/

/-- A whole number. -/
def ofInt (n : Int) : Decimal := ⟨n, 0⟩

/-- The smallest step with this many digits after the point. -/
def step (precision : Nat) : Decimal := ⟨1, precision⟩

instance : Add Decimal where
  add a b :=
    let scale := max a.scale b.scale
    ⟨a.unitsAt scale + b.unitsAt scale, scale⟩

instance : Sub Decimal where
  sub a b :=
    let scale := max a.scale b.scale
    ⟨a.unitsAt scale - b.unitsAt scale, scale⟩

instance : Mul Decimal where
  mul a b := ⟨a.coefficient * b.coefficient, a.scale + b.scale⟩

/-- The remainder that is left when the second number is taken off the first as often as it fits
below it; it has the sign of a positive second number, so it lies between zero and the second. -/
instance : Mod Decimal where
  mod a b :=
    let scale := max a.scale b.scale
    ⟨a.unitsAt scale % b.unitsAt scale, scale⟩

/-- The nearest whole number to a quotient with a positive divisor, halves away from zero. -/
def roundQuotient (n : Int) (d : Nat) : Int :=
  n.sign * (((2 * n.natAbs + d) / (2 * d) : Nat) : Int)

/-- Rounds to at most `precision` digits after the point, halves away from zero. A number that has
no more of them keeps its scale. -/
def roundTo (precision : Nat) (d : Decimal) : Decimal :=
  if d.scale ≤ precision then d
  else ⟨roundQuotient d.coefficient (Nat.pow 10 (d.scale - precision).toNat), precision⟩

/-- The coefficient at a scale, without the digits that do not fit. -/
def truncatedUnits (d : Decimal) (scale : Int) : Int :=
  if d.scale ≤ scale then d.unitsAt scale
  else d.coefficient.tdiv (Int.pow 10 (d.scale - scale).toNat)

/-- The number without its sign. -/
def abs (d : Decimal) : Decimal := ⟨d.coefficient.natAbs, d.scale⟩

/-- Whether there is no fraction. -/
def isWhole (d : Decimal) : Bool :=
  decide (d.scale ≤ 0) || d.coefficient % Int.pow 10 d.scale.toNat == 0

/-- The nearer end of an interval for a number outside it. -/
def clamp (low high d : Decimal) : Decimal :=
  if d < low then low else if high < d then high else d

/-! ### Normal form -/

/-- Takes zeros off the end of a coefficient; `fuel` bounds their number. -/
def stripZeros : (fuel : Nat) → Decimal → Decimal
  | 0, d => d
  | fuel + 1, d =>
    if d.coefficient % 10 = 0 then stripZeros fuel ⟨d.coefficient / 10, d.scale - 1⟩ else d

/-- The same number without zeros at the end of the coefficient; zero has scale zero. -/
def normalize (d : Decimal) : Decimal :=
  if d.coefficient = 0 then ⟨0, 0⟩ else stripZeros d.coefficient.natAbs.log2 d

/-! ### Floats -/

/-- Takes factors of two off a mantissa as long as the exponent `-k` stays negative. -/
def stripTwos : (k mantissa : Nat) → Nat × Nat
  | 0, m => (0, m)
  | k + 1, m => if m % 2 = 0 then stripTwos k (m / 2) else (k + 1, m)

/-- The exact value of a finite float; the scale is the number of digits that the fraction needs. A
subnormal float keeps the scale of the smallest one, whatever its fraction needs. -/
def ofFloat? (x : Float) : Option Decimal :=
  match Binary64.ofFloat x with
  | .finite negative m e =>
    let sign : Int := if negative then -1 else 1
    match e with
    | .ofNat n => some ⟨sign * (m * Nat.pow 2 n : Nat), 0⟩
    | .negSucc n =>
      let (k, m) := if Binary64.isSubnormal m then (n + 1, m) else stripTwos (n + 1) m
      some ⟨sign * (m * Nat.pow 5 k : Nat), k⟩
  | _ => none

/-!
## Decimal text

- `Decimal.plainText`: the canonical text of a number, without an exponent and without zeros at the
  end of the fraction. Two decimals have the same plain text when they stand for the same number.
- `Decimal.displayText`: shows the scale as well, with zeros at the end of the fraction, and uses an
  exponent for numbers with many zeros.
- `Decimal.parse?`: reads a sign, digits with a point and underscores among them, and an exponent.
-/

/-- Digits with the last `places` of them after a point. -/
def withPoint (digits : List Char) (places : Nat) : List Char :=
  if places = 0 then digits
  else if places < digits.length then
    digits.take (digits.length - places) ++ '.' :: digits.drop (digits.length - places)
  else
    '0' :: '.' :: List.replicate (places - digits.length) '0' ++ digits

/-- All digits of a number, `scale` of them after the point; a negative scale adds zeros. -/
def fullDigits (d : Decimal) : List Char :=
  let digits := Text.ofNat d.coefficient.natAbs
  match d.scale with
  | .ofNat places => withPoint digits places
  | .negSucc n => digits ++ List.replicate (n + 1) '0'

/-- A minus sign in front of the digits of a negative number. -/
def withSign (d : Decimal) (digits : List Char) : String :=
  String.ofList (if d.coefficient < 0 then '-' :: digits else digits)

/-- The canonical text of a number. -/
def plainText (d : Decimal) : String :=
  let n := d.normalize
  withSign n n.fullDigits

/-- A text that shows the scale. An exponent is used where more than five zeros would follow the
point or more than fifteen the digits. -/
def displayText (d : Decimal) : String :=
  let digits := Text.ofNat d.coefficient.natAbs
  if d.coefficient = 0 then "0"
  else if 5 < d.scale - digits.length then
    let mantissa := match digits with
      | c :: c' :: rest => c :: '.' :: c' :: rest
      | _ => digits
    let exponent := (d.scale - digits.length + 1).toNat
    withSign d (mantissa ++ 'E' :: '-' :: Text.ofNat exponent)
  else if 15 < -d.scale then
    withSign d (digits ++ 'e' :: '+' :: Text.ofNat (-d.scale).toNat)
  else withSign d d.fullDigits

/-! ### Reading -/

/-- The number written by digits with underscores after the first one. -/
def digits? (cs : List Char) : Option Nat :=
  match cs with
  | [] | '_' :: _ => none
  | _ =>
    if cs.all fun c => Text.isDigit c || c == '_' then
      some (Text.digitsValue (cs.filter Text.isDigit))
    else none

/-- Digits with an optional sign. -/
def coefficient? : List Char → Option Int
  | '-' :: cs => (digits? cs).map fun n => -(n : Int)
  | '+' :: cs => (digits? cs).map Int.ofNat
  | cs => (digits? cs).map Int.ofNat

/-- An exponent of at most 128 bits: digits with an optional sign. -/
def exponent? (cs : List Char) : Option Int := do
  let number? (ds : List Char) : Option Int :=
    if ds.isEmpty || !ds.all Text.isDigit then none else some (Text.digitsValue ds)
  let n ← match cs with
    | '-' :: ds => (number? ds).map fun n => -n
    | '+' :: ds => number? ds
    | ds => number? ds
  if -Int.pow 2 127 ≤ n ∧ n < Int.pow 2 127 then some n else none

/-- The number without its exponent: the coefficient and the number of digits after the point. -/
def mantissa? (cs : List Char) : Option (Int × Nat) :=
  let whole := cs.takeWhile (· != '.')
  let fraction := (cs.dropWhile (· != '.')).drop 1
  (coefficient? (whole ++ fraction)).map fun n => (n, fraction.countP (· != '_'))

/-- Reads a whole text as a decimal; the scale has to be a signed 64-bit number. -/
def parse? (s : String) : Option Decimal := do
  let cs := s.toList
  let base := cs.takeWhile fun c => c != 'e' && c != 'E'
  let exponent ← match cs.dropWhile fun c => c != 'e' && c != 'E' with
    | [] => some 0
    | _ :: ds => exponent? ds
  let (coefficient, places) ← mantissa? base
  let scale := places - exponent
  if SignedWord scale then some ⟨coefficient, scale⟩ else none

end Decimal

end ColumnMask
