import ColumnMask.Binary64
import ColumnMask.Document
import ColumnMask.Text
import ColumnMask.Yaml.Cursor
import ColumnMask.Yaml.Tree

/-!
# Documents as YAML texts

What the scalars of a YAML text stand for, and how documents are read and written.
-/

namespace ColumnMask

/-!
## What plain scalars stand for

A scalar without quotes stands for null, a truth value or a number if it has the form of one, and
for its text otherwise. `Meaning.ofPlain` decides which.

Integers are decimal, hexadecimal, octal or binary. A number that would start with a zero before
other digits is a text. Integers of more than 128 bits count as floats.
-/

namespace Yaml

/-- What a scalar stands for. -/
inductive Meaning where
  | null
  | bool (b : Bool)
  | integer (n : Numeral)
  | float (x : Float)
  | text (s : String)

/-- Whether a word stands for null. -/
def isNullWord (s : String) : Bool :=
  ["null", "Null", "NULL", "~"].contains s

/-- The truth value that a word stands for. -/
def bool? (s : String) : Option Bool :=
  if ["true", "True", "TRUE"].contains s then some true
  else if ["false", "False", "FALSE"].contains s then some false
  else none

/-- Digits without a sign in front. -/
def withoutSign : List Char → List Char
  | '+' :: rest | '-' :: rest => rest
  | cs => cs

/-- Whether there is a zero before other digits, and nothing but digits. -/
def hasLeadingZero (cs : List Char) : Bool :=
  match withoutSign cs with
  | '0' :: rest => !rest.isEmpty && rest.all Text.isDigit
  | _ => false

/-- The number written in a base. -/
def digits? (base : Nat) (cs : List Char) : Option Nat :=
  if cs.isEmpty then none
  else cs.foldlM (fun n c => do
    let d ← Text.hexValue? c
    if d < base then some (base * n + d) else none) 0

/-- A number without a sign, in one of the four notations. -/
def natural? (cs : List Char) : Option Nat :=
  match cs with
  | '0' :: 'x' :: rest => digits? 16 rest
  | '0' :: 'o' :: rest => digits? 8 rest
  | '0' :: 'b' :: rest => digits? 2 rest
  | _ => digits? 10 cs

/-- An integer of at most 128 bits. -/
def integer? (cs : List Char) : Option Numeral :=
  if hasLeadingZero cs then none
  else match cs with
    | '-' :: rest => do
      let n ← natural? rest
      if n ≤ Nat.pow 2 127 then some ⟨true, n⟩ else none
    | _ => do
      let n ← natural? (withoutSign cs)
      if n < Nat.pow 2 128 then some ⟨false, n⟩ else none

/-- A finite float, or one of the words for an infinity or for what is no number. -/
def float? (s : String) : Option Float :=
  match s with
  | ".inf" | ".Inf" | ".INF" | "+.inf" | "+.Inf" | "+.INF" => some (1 / 0)
  | "-.inf" | "-.Inf" | "-.INF" => some (-1 / 0)
  | ".nan" | ".NaN" | ".NAN" => some (0 / 0)
  | _ =>
    match Binary64.parse? s with
    | some x => if x.isFinite then some x else none
    | none => none

namespace Meaning

/-- What a scalar without quotes and without a tag stands for. -/
def ofPlain (s : String) : Meaning :=
  if s.isEmpty || isNullWord s then null
  else match bool? s with
    | some b => bool b
    | none =>
      match integer? s.toList with
      | some n => integer n
      | none =>
        match float? s with
        | some x => if hasLeadingZero s.toList then text s else float x
        | none => text s

/-- Whether a word of the same letters has to be in quotes to be a text. -/
def isText : Meaning → Bool
  | text _ => true
  | _ => false

end Meaning

/-!
## Reading documents

`read?` makes a document of a text. Scalars stand for what their form or their tag says, except
under certain keys of the outermost mapping, for which `Usage` says how they are meant. Tags of the
user's own are refused wherever a value is read by its form.
-/

/-- How the value of an outermost key is meant. -/
inductive Usage where
  /-- By its form or its tag. -/
  | byForm
  /-- As a text, whatever its form; only null is told apart. -/
  | asText
  /-- As a name, whatever its form. A name may also be given as a tag without anything after it. -/
  | asName

/-- Whether a tag is of the user's own. -/
def isOwnTag (tag : Option Tag) : Bool := (tag.bind Tag.own?).isSome

/-- The document of a meaning. Integers of more than 64 bits have none. -/
def Meaning.document? : Meaning → Option Document
  | .null => some .null
  | .bool b => some (.bool b)
  | .integer n => if Word n.toInt then some (.integer n) else none
  | .float x => some (.float x)
  | .text s => some (.text s)

/-- What a scalar stands for by its tag or its form. A tag of the user's own has to give a name to
count as one. -/
def scalarMeaning? (tag : Option Tag) (plain : Bool) (s : String) : Option Meaning :=
  let byForm : Meaning := if plain then .ofPlain s else .text s
  match tag with
  | none => some byForm
  | some t =>
    if isOwnTag tag then none
    else if t == Tag.standard "bool" then (bool? s).map .bool
    else if t == Tag.standard "int" then (integer? s.toList).map .integer
    else if t == Tag.standard "float" then (float? s).map .float
    else if t == Tag.standard "null" then if isNullWord s then some .null else none
    else some (if t.isMarked then byForm else .text s)

mutual

/-- The document of a node by tags and forms. -/
def Node.document? : Node → Option Document
  | .scalar tag plain s => (scalarMeaning? tag plain s).bind Meaning.document?
  | .sequence tag items =>
    if isOwnTag tag then none else (Node.documents? items).map .sequence
  | .mapping tag entries =>
    if isOwnTag tag then none else (Node.entries? entries).map .mapping

/-- The documents of some nodes. -/
def Node.documents? : List Node → Option (List Document)
  | [] => some []
  | n :: rest => do return (← n.document?) :: (← Node.documents? rest)

/-- The documents of the entries of a mapping. -/
def Node.entries? : List (Node × Node) → Option (List (Document × Document))
  | [] => some []
  | (k, v) :: rest => do return (← k.document?, ← v.document?) :: (← Node.entries? rest)

end

/-- Whether a scalar without quotes is written like null. -/
def isNullForm (s : String) : Bool := s.isEmpty || isNullWord s

/-- A node that is meant as a text. -/
def Node.text? : Node → Option Document
  | .scalar tag plain s =>
    match tag with
    | none => some (if plain && isNullForm s then .null else .text s)
    | some t =>
      if plain && t == Tag.standard "null" then if isNullWord s then some .null else none
      else some (.text s)
  | _ => none

/-- A node that is meant as a name. -/
def Node.name? : Node → Option Document
  | .scalar tag plain s =>
    match tag.bind Tag.own? with
    | some name => if plain && isNullForm s then some (.text name) else none
    | none => some (.text s)
  | _ => none

/-- A node that is meant in a certain way. -/
def Node.usedAs? (n : Node) : Usage → Option Document
  | .byForm => n.document?
  | .asText => n.text?
  | .asName => n.name?

/-- The outermost node, which has to be a mapping with scalars as keys. Keys are texts whatever
their form. -/
def Node.outermost? (usage : String → Usage) : Node → Option Document
  | .mapping _ entries => do
    let entries ← entries.mapM fun
      | (.scalar _ _ key, value) => do
        let d ← value.usedAs? (usage key)
        return (Document.text key, d)
      | _ => none
    return .mapping entries
  | _ => none

/-- The document of a text with one mapping. -/
def read? (usage : String → Usage) (text : String) : Option Document := do
  let n ← node? text
  n.outermost? usage

/-!
## Writing documents

`write` writes the entries of a mapping, one below the other. A text is written without quotes where
that reads back as the same text, and otherwise in the form that `textStyle` chooses: in single
quotes, in double quotes with escapes, or as a literal block if it has several lines.
-/

/-! ### The form of a text -/

/-- How a text is written. -/
inductive TextStyle where
  | plain
  | single
  | double
  | literal
  deriving DecidableEq

/-- Whether a character is written as it is. -/
def isPrintable (c : Char) : Bool :=
  let n := c.toNat
  n == 0x0a || (0x20 ≤ n && n ≤ 0x7e) || (0xa0 ≤ n && n ≠ 0xfeff && n ≠ 0xfffe && n ≠ 0xffff)

/-- Whether two neighbouring characters pass two tests. -/
def anyPair (first second : Char → Bool) (cs : List Char) : Bool :=
  (cs.zip (cs.drop 1)).any fun (a, b) => first a && second b

/-- Whether a text would be taken for something else in the middle of a line: because of how it
starts, a colon that ends a word, or a number sign that starts one. -/
def hasIndicators (cs : List Char) : Bool :=
  let starts (mark : String) : Bool := mark.toList.isPrefixOf cs
  starts "---" || starts "..." ||
    startsWith isIndicator cs ||
    startsWith (fun c => c == '?' || c == '-') cs && endsWord (cs.drop 1) ||
    cs.getLast? == some ':' || anyPair (· == ':') (fun c => isBlank c || isBreak c) cs ||
    anyPair (fun c => isBlank c || isBreak c) (· == '#') cs

/-- Whether a text has a blank at one of its ends, or on either side of a line break. -/
def hasEdgeBlanks (cs : List Char) : Bool :=
  startsWith (fun c => c == ' ' || isBreak c) cs ||
    startsWith (fun c => c == ' ' || isBreak c) cs.reverse

/-- The form in which a text is written. -/
def textStyle (s : String) : TextStyle :=
  let cs := s.toList
  let special := !cs.all isPrintable || anyPair (· == ' ') isBreak cs
  let needsEscapes := special || anyPair isBreak (· == ' ') cs
  if cs.contains '\n' then
    if special || cs.getLast? == some ' ' then .double else .literal
  else if needsEscapes then .double
  else if !(Meaning.ofPlain s).isText || hasLeadingZero cs || hasEdgeBlanks cs ||
      cs.any isBreak || hasIndicators cs then .single
  else .plain

/-! ### Quotes and blocks -/

/-- Indents the lines below the first by two spaces. `fresh` tells whether a line has just begun. -/
def indentLines (double : Char → List Char) : (fresh : Bool) → List Char → List Char
  | _, [] => []
  | fresh, c :: rest =>
    if isBreak c then c :: indentLines double true rest
    else (if fresh then [' ', ' '] else []) ++ double c ++ indentLines double false rest

/-- A text in single quotes; a quote in it is written twice. -/
def singleQuoted (s : String) : String :=
  let cs := s.toList
  let tail := if startsWith isBreak cs.reverse then [' ', ' '] else []
  let double (c : Char) : List Char := if c == '\'' then ['\'', '\''] else [c]
  String.ofList ('\'' :: indentLines double false cs ++ tail ++ ['\''])

/-- A number of some hexadecimal digits, in upper case. -/
def hexDigits (width n : Nat) : List Char :=
  let digits := (Nat.toDigits 16 n).map Char.toUpper
  List.replicate (width - digits.length) '0' ++ digits

/-- A character inside double quotes. -/
def doubleEscape (c : Char) : List Char :=
  match c with
  | '\x00' => ['\\', '0']
  | '\x07' => ['\\', 'a']
  | '\x08' => ['\\', 'b']
  | '\t' => ['\\', 't']
  | '\n' => ['\\', 'n']
  | '\x0b' => ['\\', 'v']
  | '\x0c' => ['\\', 'f']
  | '\r' => ['\\', 'r']
  | '\x1b' => ['\\', 'e']
  | '"' => ['\\', '"']
  | '\\' => ['\\', '\\']
  | '\u0085' => ['\\', 'N']
  | '\u2028' => ['\\', 'L']
  | '\u2029' => ['\\', 'P']
  | _ =>
    let n := c.toNat
    if isPrintable c then [c]
    else if n ≤ 0xff then '\\' :: 'x' :: hexDigits 2 n
    else if n ≤ 0xffff then '\\' :: 'u' :: hexDigits 4 n
    else '\\' :: 'U' :: hexDigits 8 n

/-- A text in double quotes. -/
def doubleQuoted (s : String) : String :=
  String.ofList ('"' :: s.toList.flatMap doubleEscape ++ ['"'])

/-- A text as a literal block. The header tells the indentation if the text starts with a blank, and
what happens to line breaks at the end unless there is exactly one. -/
def literalBlock (s : String) : String :=
  let cs := s.toList
  let hint := if startsWith (fun c => c == ' ' || isBreak c) cs then ['2'] else []
  let chomp := match cs.reverse with
    | last :: before =>
      if !isBreak last then ['-']
      else if before.isEmpty || startsWith isBreak before then ['+']
      else []
    | [] => ['-']
  String.ofList ('|' :: hint ++ chomp ++ '\n' :: indentLines (fun c => [c]) true cs)

/-- A text in the form chosen for it. -/
def textForm (s : String) : String :=
  match textStyle s with
  | .plain => s
  | .single => singleQuoted s
  | .double => doubleQuoted s
  | .literal => literalBlock s

/-! ### Documents -/

/-- Floats: a positive exponent has no sign. -/
def floatForm : Binary64.ExponentStyle where
  plus := false
  infinite negative := if negative then "-.inf" else ".inf"
  nan := ".nan"

mutual

/-- A document on a single line. -/
def inline : Document → String
  | .null => "null"
  | .bool b => if b then "true" else "false"
  | .integer n => toString n.toInt
  | .float x => Binary64.marked floatForm x
  | .text s => doubleQuoted s
  | .sequence items => "[" ++ ", ".intercalate (inlineItems items) ++ "]"
  | .mapping entries => "\x7b" ++ ", ".intercalate (inlineEntries entries) ++ "\x7d"

/-- Each item on its own. -/
def inlineItems : List Document → List String
  | [] => []
  | d :: rest => inline d :: inlineItems rest

/-- Each entry on its own. -/
def inlineEntries : List (Document × Document) → List String
  | [] => []
  | (k, v) :: rest => (inline k ++ ": " ++ inline v) :: inlineEntries rest

end

/-- A document after a colon or a dash. -/
def leaf : Document → String
  | .text s => textForm s
  | d => inline d

/-- A text with a line break at its end. -/
def ensureBreak (s : String) : String :=
  if startsWith isBreak s.toList.reverse then s else s ++ "\n"

/-- One entry of a mapping, with the lines that it takes. The items of a sequence are indented like
its key. -/
def entry (key : String) (value : Document) : String :=
  match value with
  | .sequence (d :: rest) =>
    textForm key ++ ":\n" ++
      String.join ((d :: rest).map fun item => ensureBreak ("- " ++ leaf item))
  | d => ensureBreak (textForm key ++ ": " ++ leaf d)

/-- A mapping, one entry below the other. -/
def write (fields : Fields) : String :=
  String.join (fields.map fun (key, value) => entry key value)

end Yaml

end ColumnMask
