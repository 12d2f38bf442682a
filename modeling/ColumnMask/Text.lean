/-!
# Numbers and texts

The integers that fit into words, and what texts are made of and how they are taken apart: digits
and the numbers that they stand for, blanks, letter case, quotes and separators.
-/

namespace ColumnMask

/-! ## Words of 64 bits -/

/-- The integers that a word with a sign holds. -/
abbrev SignedWord (n : Int) : Prop := -9223372036854775808 ≤ n ∧ n < 9223372036854775808

/-- The integers that a word holds with a sign or without one. -/
abbrev Word (n : Int) : Prop := SignedWord n ∨ 0 ≤ n ∧ n < 18446744073709551616

/-!
## Digits

- `Text.digitsValue`: the number that a run of decimal digits stands for.
- `Text.ofNat`: the decimal digits of a number. `Text.padded` puts zeros in front.
- `Text.hexDigit`, `Text.hexValue?`: one hexadecimal digit, and the value of one of either case.
-/

namespace Text

/-- The decimal digit of a character between 0 and 9. -/
def digit? (c : Char) : Option Nat :=
  if '0' ≤ c ∧ c ≤ '9' then some (c.toNat - 48) else none

/-- Whether a character is a decimal digit between 0 and 9. -/
def isDigit (c : Char) : Bool := (digit? c).isSome

/-- The number written by a run of decimal digits, most significant first. -/
def digitsValue (cs : List Char) : Nat :=
  cs.foldl (fun n c => 10 * n + (c.toNat - 48)) 0

/-- The last `2 ^ k` decimal digits of a number. Halving the digits keeps this fast where there are
many thousands of them. -/
def lastDigits : (k : Nat) → Nat → List Char
  | 0, n => [Nat.digitChar (n % 10)]
  | k + 1, n =>
    let unit := Nat.pow 10 (Nat.pow 2 k)
    lastDigits k (n / unit) ++ lastDigits k (n % unit)

/-- The decimal digits of a number, without zeros in front. There are no more digits than bits. -/
def ofNat (n : Nat) : List Char :=
  match (lastDigits ((n.log2 + 1).log2 + 1) n).dropWhile (· == '0') with
  | [] => ['0']
  | digits => digits

/-- The decimal digits of a number, with zeros in front up to `width` characters. -/
def padded (width n : Nat) : List Char :=
  let digits := ofNat n
  List.replicate (width - digits.length) '0' ++ digits

/-! ### Hexadecimal digits -/

/-- The hexadecimal digit with a value below sixteen, in lower case. -/
def hexDigit (n : Nat) : Char :=
  if n < 10 then Char.ofNat (48 + n) else Char.ofNat (87 + n)

/-- The value of a hexadecimal digit of either case. -/
def hexValue? (c : Char) : Option Nat :=
  if '0' ≤ c ∧ c ≤ '9' then some (c.toNat - 48)
  else if 'a' ≤ c ∧ c ≤ 'f' then some (c.toNat - 87)
  else if 'A' ≤ c ∧ c ≤ 'F' then some (c.toNat - 55)
  else none

/-!
## Reading integers

`Text.int64?` reads decimal digits with an optional sign as a signed 64-bit integer.
-/

/-- A number of at least one digit. -/
def natural? (cs : List Char) : Option Nat :=
  if cs.isEmpty ∨ ¬ cs.all isDigit then none else some (digitsValue cs)

/-- An integer with an optional sign. -/
def integer? : List Char → Option Int
  | '-' :: cs => (natural? cs).map fun n => -(n : Int)
  | '+' :: cs => (natural? cs).map Int.ofNat
  | cs => (natural? cs).map Int.ofNat

/-- A signed 64-bit integer with an optional sign. -/
def int64? (s : String) : Option Int64 :=
  match integer? s.toList with
  | some n => if SignedWord n then some (Int64.ofInt n) else none
  | none => none

/-!
## Blanks and letter case

- `Text.isBlank`: the characters with the Unicode property `White_Space`; `Text.trim` takes them
  off both ends of a text.
- `Text.lowercase`: lowers the letters A to Z. It serves to compare a text with a name made of
  ASCII letters. The only other character whose lowercase form is an ASCII letter is the Kelvin
  sign, so it is lowered too; every other character stays outside ASCII and so differs from every
  such name.
-/

/-- The characters with the Unicode property `White_Space`. -/
def isBlank (c : Char) : Bool :=
  let n := c.toNat
  (0x09 ≤ n && n ≤ 0x0d) || n == 0x20 || n == 0x85 || n == 0xa0 || n == 0x1680 ||
    (0x2000 ≤ n && n ≤ 0x200a) || n == 0x2028 || n == 0x2029 || n == 0x202f || n == 0x205f ||
    n == 0x3000

/-- Characters without the blanks in front. -/
def trimStart (cs : List Char) : List Char :=
  cs.dropWhile isBlank

/-- Characters without the blanks at both ends. -/
def trimChars (cs : List Char) : List Char :=
  (trimStart (trimStart cs).reverse).reverse

/-- A text without the blanks at both ends. -/
def trim (s : String) : String :=
  String.ofList (trimChars s.toList)

/-- A text with the letters A to Z and the Kelvin sign lowered. -/
def lowercase (s : String) : String :=
  String.ofList (s.toList.map fun c => if c = '\u212a' then 'k' else c.toLower)

/-!
## Quoted text

- `Text.quoted`: a text as a JSON string. Quotes, backslashes and control characters are escaped,
  with a short escape where there is one; every other character stands for itself.
- `Text.apostrophed`: one character between apostrophes, as messages show it. Here the apostrophe is
  escaped in place of the quote, and numbers of control characters have as many digits as they need.
-/

/-- The form of one character inside quotes. -/
def escape (c : Char) : List Char :=
  match c with
  | '"' => ['\\', '"']
  | '\\' => ['\\', '\\']
  | '\x08' => ['\\', 'b']
  | '\x0c' => ['\\', 'f']
  | '\n' => ['\\', 'n']
  | '\r' => ['\\', 'r']
  | '\t' => ['\\', 't']
  | _ =>
    if c.toNat < 32 then
      ['\\', 'u', '0', '0', hexDigit (c.toNat / 16), hexDigit (c.toNat % 16)]
    else [c]

/-- A text in quotes. -/
def quoted (s : String) : String :=
  String.ofList ('"' :: s.toList.flatMap escape ++ ['"'])

/-- Whether a character is a control character. -/
def isControl (c : Char) : Bool := c.toNat < 32 || (127 ≤ c.toNat && c.toNat < 160)

/-- The form of one character between apostrophes. -/
def apostropheEscape (c : Char) : List Char :=
  match c with
  | '\x00' => ['\\', '0']
  | '\t' => ['\\', 't']
  | '\n' => ['\\', 'n']
  | '\r' => ['\\', 'r']
  | '\'' => ['\\', '\'']
  | '\\' => ['\\', '\\']
  | _ =>
    if isControl c then ['\\', 'u', '\x7b'] ++ Nat.toDigits 16 c.toNat ++ ['\x7d'] else [c]

/-- A character between apostrophes. -/
def apostrophed (c : Char) : String :=
  String.ofList ('\'' :: apostropheEscape c ++ ['\''])

/-!
## Parts of texts

- `Text.splitAll`: the parts between the occurrences of a character.
- `Text.lines`: the lines of a text. A line feed ends a line, and a carriage return right before it
  belongs to the end too. What follows the last line feed is a line unless it is empty.
-/

/-- The parts of a text between the occurrences of a character; there is one more part than
occurrences. -/
def splitAll (sep : Char) : List Char → List (List Char)
  | [] => [[]]
  | c :: cs =>
    if c = sep then [] :: splitAll sep cs
    else match splitAll sep cs with
      | part :: parts => (c :: part) :: parts
      | [] => [[c]]

/-- A line without a carriage return at its end. -/
def withoutReturn (line : List Char) : List Char :=
  if line.getLast? = some '\r' then line.dropLast else line

/-- The lines of a text. -/
def lines (cs : List Char) : List (List Char) :=
  let parts := splitAll '\n' cs
  let last := parts.getLast?.getD []
  parts.dropLast.map withoutReturn ++ if last.isEmpty then [] else [last]

end Text

end ColumnMask
