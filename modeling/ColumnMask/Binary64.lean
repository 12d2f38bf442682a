import ColumnMask.Text

/-!
# Floats

64-bit floats in exact integer arithmetic: their parts, their shortest digits, and how they are
written and read.
-/

namespace ColumnMask

/-!
## Binary floating-point numbers

A 64-bit float taken apart into sign, mantissa and exponent, and the roundings that are decided on
that form in exact integer arithmetic.

- `Binary64.ofFloat`: what a float stands for. A finite one is the mantissa times a power of two.
- `Binary64.roundWhole`: the nearest whole number, halves away from zero.
- `Binary64.power`: a whole power by repeated squaring, with a rounding in every step.
- `Binary64.roundDigits`: rounds to a number of decimal digits after the point, by scaling with a
  power of ten. The scaling is done in floats, and a number that would overflow is left alone.
- `Binary64.truncate`: the whole part as a signed 64-bit word, as close as the word can get.
-/

/-- What a float stands for. -/
inductive Binary64 where
  | nan
  | infinite (negative : Bool)
  /-- The number with magnitude `mantissa * 2 ^ exponent`; zero has a sign too. -/
  | finite (negative : Bool) (mantissa : Nat) (exponent : Int)
  deriving DecidableEq, Repr

namespace Binary64

/-- Takes a float apart. -/
def ofFloat (x : Float) : Binary64 :=
  match x.toModel.unpack with
  | .notANumber => nan
  | .infinity sign => infinite (sign == .negative)
  | .zero sign => finite (sign == .negative) 0 0
  | .finite sign mantissa exponent _ => finite (sign == .negative) mantissa exponent

/-- Whether a mantissa has less than the full width, as it is near zero only. -/
def isSubnormal (mantissa : Nat) : Bool := mantissa ≠ 0 && mantissa < 4503599627370496

/-- A float with the given sign and a whole magnitude. -/
def ofWhole (negative : Bool) (n : Nat) : Float :=
  if negative then -Float.ofNat n else Float.ofNat n

/-- The nearest whole number, halves away from zero; the sign stays even on zero. -/
def roundWhole (x : Float) : Float :=
  match ofFloat x with
  | finite negative mantissa (.negSucc n) =>
    ofWhole negative ((mantissa + Nat.pow 2 n) / Nat.pow 2 (n + 1))
  | _ => x

/-- Multiplies `acc` by `base ^ n`, squaring the base while `n` is halved; `fuel` bounds the number
of halvings. -/
def powerLoop : (fuel : Nat) → (acc base : Float) → (n : Nat) → Float
  | 0, acc, _, _ => acc
  | fuel + 1, acc, base, n =>
    let acc := if n % 2 = 1 then acc * base else acc
    if n / 2 = 0 then acc else powerLoop fuel acc (base * base) (n / 2)

/-- A whole power; a negative one is the reciprocal of the positive one. -/
def power (base : Float) (n : Int) : Float :=
  let r := powerLoop (n.natAbs + 1) 1 base n.natAbs
  if n < 0 then 1 / r else r

/-- The power of ten that scales by this many digits. The digit count is taken as a signed word, so
counts from 2 ^ 31 on scale down. -/
def digitFactor (digits : UInt32) : Float :=
  power 10 digits.toInt32.toInt

/-- Rounds to a number of digits after the point, halves away from zero. -/
def roundDigits (digits : UInt32) (x : Float) : Float :=
  let factor := digitFactor digits
  let scaled := x * factor
  if scaled.isFinite then roundWhole scaled / factor else x

/-- The whole part as a signed word; what lies outside goes to the nearest end, and what is no
number to zero. -/
def truncate (x : Float) : Int64 :=
  x.toModel.toInt64

/-- Moves a float into an interval. What is no number, and an equal bound, stays as it is. -/
def clamp (low high x : Float) : Float :=
  if x < low then low else if high < x then high else x

/-- The share of 2 ^ 63 that the magnitude of a word makes up. -/
def unitRatio (v : Int64) : Float :=
  (Float.ofInt v.toInt / 9223372036854775808).abs

/-- The largest finite float. -/
def largest : Float := Float.ofBits 0x7fefffffffffffff

/-- The largest finite float of half the width. -/
def largestSingle : Float := Float.ofBits 0x47efffffe0000000

/-!
## The shortest decimal digits of a float

Among the decimal numbers that read back as a given float, `Binary64.shortest` picks one with the
fewest digits, and of those the nearest.

The real numbers that read back as `m * 2 ^ e` form an interval around it, whose ends belong to it
exactly when `m` is even. With `n` digits the candidates are the two neighbours of the float on the
grid of its decimal numbers of `n` digits. The number of digits is tried from one upwards; the first
grid with a neighbour inside the interval decides, and of two neighbours inside the nearer. If both
are equally near, a `Tie` decides.
-/

/-- Which of two equally near neighbours is taken. -/
inductive Tie where
  /-- The one farther from zero. -/
  | up
  /-- The one with an even last digit. -/
  | even
  deriving DecidableEq, Repr

/-- A decimal number `digits * 10 ^ exponent`. -/
structure DecimalDigits where
  digits : Nat
  exponent : Int
  deriving DecidableEq, Repr

/-- A positive rational number with the ends of the interval around it; all over one denominator. -/
structure Interval where
  low : Nat
  value : Nat
  high : Nat
  denominator : Nat
  /-- Whether the ends belong to the interval. -/
  closed : Bool

/-- The numbers that read back as `m * 2 ^ e`. Below a power of two the next float is only half as
far away, unless the power is the smallest normal one. -/
def interval (m : Nat) (e : Int) : Interval :=
  let below := if m = 4503599627370496 ∧ -1074 < e then 1 else 2
  let scale := Nat.pow 2 (e - 2).toNat
  { low := (4 * m - below) * scale
    value := 4 * m * scale
    high := (4 * m + 2) * scale
    denominator := Nat.pow 2 (2 - e).toNat
    closed := m % 2 = 0 }

/-- The interval in units of `10 ^ k`. -/
def Interval.inUnits (i : Interval) (k : Int) : Interval :=
  let up := Nat.pow 10 (-k).toNat
  { low := i.low * up
    value := i.value * up
    high := i.high * up
    denominator := i.denominator * Nat.pow 10 k.toNat
    closed := i.closed }

/-- Whether a whole number lies in the interval. -/
def Interval.holds (i : Interval) (n : Nat) : Bool :=
  let x := n * i.denominator
  if i.closed then i.low ≤ x && x ≤ i.high else i.low < x && x < i.high

/-- The whole number in the interval next to its value, if there is one. -/
def Interval.nearest? (tie : Tie) (i : Interval) : Option Nat :=
  let lower := i.value / i.denominator
  let upper := lower + 1
  match i.holds lower, i.holds upper with
  | false, false => none
  | true, false => some lower
  | false, true => some upper
  | true, true =>
    match compare (2 * i.value) ((lower + upper) * i.denominator), tie with
    | .lt, _ => some lower
    | .gt, _ => some upper
    | .eq, .up => some upper
    | .eq, .even => some (if lower % 2 = 0 then lower else upper)

/-- The exponent of the leading decimal digit of a float. No float has more than 400 zeros after the
point, so 400 digits are enough to see it. -/
def leadingExponent (i : Interval) : Int :=
  (Text.ofNat (i.value * Nat.pow 10 400 / i.denominator)).length - 401

/-- Moves zeros at the end of the digits into the exponent; `fuel` bounds their number. -/
def stripZeros : (fuel : Nat) → DecimalDigits → DecimalDigits
  | 0, d => d
  | fuel + 1, d =>
    if d.digits % 10 = 0 then stripZeros fuel ⟨d.digits / 10, d.exponent + 1⟩ else d

/-- The shortest digits of `m * 2 ^ e` for a positive mantissa. Seventeen digits always suffice. -/
def shortest (tie : Tie) (m : Nat) (e : Int) : DecimalDigits :=
  let i := interval m e
  let lead := leadingExponent i
  let found := (List.range 17).findSome? fun (n : Nat) =>
    let k : Int := lead - n
    ((i.inUnits k).nearest? tie).map fun digits => stripZeros 17 ⟨digits, k⟩
  found.getD ⟨0, 0⟩

/-!
## Writing floats

- `Binary64.text`: the shortest digits without an exponent, `NaN`, `inf`, `-inf`.
- `Binary64.fixed`: a fixed number of digits after the point, rounded from the exact value, halves
  to even.
- `Binary64.marked`: the shortest digits in a form that always shows a float: with a point, or with
  an exponent where the number is large or small. `ExponentStyle` holds what differs between the
  formats that use it.
-/

/-- A minus sign in front of the text of a negative number. -/
def signed (negative : Bool) (s : List Char) : String :=
  String.ofList (if negative then '-' :: s else s)

/-- The digits without an exponent. Without a fraction there is no point. -/
def positional (d : DecimalDigits) : List Char :=
  let ds := Text.ofNat d.digits
  match d.exponent with
  | .ofNat n => ds ++ List.replicate n '0'
  | .negSucc n =>
    let places := n + 1
    if places < ds.length then
      ds.take (ds.length - places) ++ '.' :: ds.drop (ds.length - places)
    else
      '0' :: '.' :: List.replicate (places - ds.length) '0' ++ ds

/-- The shortest text without an exponent. Of two equally short and near ones the larger is
written. -/
def text (x : Float) : String :=
  match ofFloat x with
  | nan => "NaN"
  | infinite negative => signed negative "inf".toList
  | finite negative 0 _ => signed negative ['0']
  | finite negative m e => signed negative (positional (shortest .up m e))

/-- The nearest whole number to a quotient, halves to even. -/
def roundQuotientEven (num den : Nat) : Nat :=
  let q := num / den
  match compare (2 * (num % den)) den with
  | .lt => q
  | .gt => q + 1
  | .eq => q + q % 2

/-- Exactly `places` digits after the point. -/
def fixed (places : Nat) (x : Float) : String :=
  match ofFloat x with
  | nan => "NaN"
  | infinite negative => signed negative "inf".toList
  | finite negative m e =>
    let units :=
      roundQuotientEven (m * Nat.pow 2 e.toNat * Nat.pow 10 places) (Nat.pow 2 (-e).toNat)
    let fraction := Text.padded places (units % Nat.pow 10 places)
    signed negative (Text.ofNat (units / Nat.pow 10 places) ++ '.' :: fraction)

/-- How a number with an exponent is written. -/
structure ExponentStyle where
  /-- Whether a positive exponent has a sign. -/
  plus : Bool
  /-- What is written for infinities and for what is no number. -/
  infinite : (negative : Bool) → String
  nan : String

/-- A digit, the others after a point, and the exponent of the first digit. -/
def scientific (style : ExponentStyle) (d : DecimalDigits) : List Char :=
  let ds := Text.ofNat d.digits
  let exponent : Int := d.exponent + ds.length - 1
  let mantissa := match ds with
    | [] => []
    | [c] => [c]
    | c :: rest => c :: '.' :: rest
  let sign := if exponent < 0 then ['-'] else if style.plus then ['+'] else []
  mantissa ++ 'e' :: sign ++ Text.ofNat exponent.natAbs

/-- The shortest text with a point or an exponent: positional from `1e-5` up to below `1e16`. -/
def marked (style : ExponentStyle) (x : Float) : String :=
  match ofFloat x with
  | nan => style.nan
  | infinite negative => style.infinite negative
  | finite negative 0 _ => signed negative "0.0".toList
  | finite negative m e =>
    let d := shortest .even m e
    let lead : Int := d.exponent + (Text.ofNat d.digits).length - 1
    signed negative <|
      if lead < -5 ∨ 16 ≤ lead then scientific style d
      else if 0 ≤ d.exponent then positional d ++ ['.', '0']
      else positional d

/-!
## Reading floats

`Binary64.parse?` reads an optional sign and then digits with an optional point and an optional
exponent, or the words `inf`, `infinity` and `nan` in any case. There has to be a digit before the
exponent, on either side of the point. The result is the float nearest to the number written.
-/

/-- The float nearest to `digits * 10 ^ exponent`. Exponents that lead out of the range of floats
are decided without computing the power. -/
def ofDecimal (digits : Nat) (exponent : Int) : Float :=
  let lead : Int := (Text.ofNat digits).length + exponent
  if digits = 0 ∨ lead < -400 then 0
  else if 400 < lead then 1 / 0
  else Float.ofScientific digits (decide (exponent < 0)) exponent.natAbs

/-- A run of digits with an optional sign in front, at least one digit. -/
def signedDigits? (cs : List Char) : Option Int :=
  let number? (ds : List Char) : Option Nat :=
    if ds.isEmpty ∨ ¬ ds.all Text.isDigit then none else some (Text.digitsValue ds)
  match cs with
  | '+' :: ds => (number? ds).map Int.ofNat
  | '-' :: ds => (number? ds).map fun n => -(n : Int)
  | ds => (number? ds).map Int.ofNat

/-- The exponent after a mantissa, zero if there is none. -/
def exponent? : List Char → Option Int
  | [] => some 0
  | c :: ds => if c = 'e' ∨ c = 'E' then signedDigits? ds else none

/-- A number without a sign. -/
def unsigned? (cs : List Char) : Option Float :=
  let whole := cs.takeWhile Text.isDigit
  let afterWhole := cs.dropWhile Text.isDigit
  let (fraction, rest) := match afterWhole with
    | '.' :: more => (more.takeWhile Text.isDigit, more.dropWhile Text.isDigit)
    | _ => ([], afterWhole)
  if whole.isEmpty ∧ fraction.isEmpty then none
  else (exponent? rest).map fun e =>
    ofDecimal (Text.digitsValue (whole ++ fraction)) (e - fraction.length)

/-- A word or a number without a sign. -/
def magnitude? (cs : List Char) : Option Float :=
  match Text.lowercase (String.ofList cs) with
  | "inf" | "infinity" => some (1 / 0)
  | "nan" => some (0 / 0)
  | _ => unsigned? cs

/-- Reads a whole text as a float. -/
def parse? (s : String) : Option Float :=
  match s.toList with
  | '-' :: rest => (magnitude? rest).map fun x => -x
  | '+' :: rest => magnitude? rest
  | cs => magnitude? cs

end Binary64

end ColumnMask
