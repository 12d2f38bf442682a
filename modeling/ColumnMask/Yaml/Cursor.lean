/-!
# Characters and places

What the reading of a YAML text works on.
-/

namespace ColumnMask

/-!
## Characters of YAML

The classes of characters that the notation tells apart.
-/

namespace Yaml

/-- Whether a character separates words on a line. -/
def isBlank (c : Char) : Bool := c == ' ' || c == '\t'

/-- Whether a character ends a line. -/
def isBreak (c : Char) : Bool :=
  c == '\n' || c == '\r' || c == '\u0085' || c == '\u2028' || c == '\u2029'

/-- Whether a character may stand in a document at all. -/
def isAllowed (c : Char) : Bool :=
  let n := c.toNat
  n == 0x09 || n == 0x0a || n == 0x0d || (0x20 ≤ n && n ≤ 0x7e) || n == 0x85 ||
    (0xa0 ≤ n && n ≤ 0xd7ff) || (0xe000 ≤ n && n ≤ 0xfffd) || 0x10000 ≤ n

/-- Whether a character may stand in the name of an anchor or a handle. -/
def isNameChar (c : Char) : Bool :=
  c.isAlphanum || c == '_' || c == '-'

/-- Whether a character separates or closes the parts of a flow collection, or opens one. -/
def isFlowIndicator (c : Char) : Bool :=
  c == ',' || c == '[' || c == ']' || c == '{' || c == '}'

/-- Whether a character at the beginning of a scalar always announces something else. -/
def isIndicator (c : Char) : Bool :=
  isFlowIndicator c || "#&*!|>'\"%@".contains c || c == '\x60'

/-- Whether a word ends where these characters follow. -/
def endsWord : List Char → Bool
  | [] => true
  | c :: _ => isBlank c || isBreak c

/-- Whether the characters start with one that a test accepts. -/
def startsWith (test : Char → Bool) : List Char → Bool
  | [] => false
  | c :: _ => test c

/-!
## Places in a text

A cursor is what is left of a text together with the number of bytes, the line and the column
before it. Bytes are those of the encoding in UTF-8; columns are counted in characters. A cursor
moves within a line by `Cursor.advance` and `Cursor.takeWhile`, and to the next line by
`Cursor.nextLine?`.
-/

/-- A place in a text. -/
structure Cursor where
  rest : List Char
  /-- The number of bytes before the place. -/
  offset : Nat
  line : Nat
  column : Nat

namespace Cursor

/-- The beginning of a text. -/
def start (cs : List Char) : Cursor := ⟨cs, 0, 0, 0⟩

/-- The number of bytes behind some characters. -/
def offsetAfter (c : Cursor) (n : Nat) : Nat :=
  (c.rest.take n).foldl (fun bytes char => bytes + char.utf8Size) c.offset

/-- Some characters further on the same line. -/
def advance (c : Cursor) (n : Nat) : Cursor :=
  { c with rest := c.rest.drop n, offset := c.offsetAfter n, column := c.column + n }

/-- The characters up to the first that a test refuses, all on one line, and the place there. -/
def takeWhile (test : Char → Bool) (c : Cursor) : List Char × Cursor :=
  let word := c.rest.takeWhile test
  (word, c.advance word.length)

/-- The beginning of a line after `width` characters of a line break. -/
def breakLine (c : Cursor) (width : Nat) : Cursor where
  rest := c.rest.drop width
  offset := c.offsetAfter width
  line := c.line + 1
  column := 0

/-- Passes a line break, which counts as a line feed unless it separates lines or paragraphs. -/
def nextLine? (c : Cursor) : Option (Char × Cursor) :=
  match c.rest with
  | '\r' :: '\n' :: _ => some ('\n', c.breakLine 2)
  | ch :: _ =>
    if ch == '\u2028' || ch == '\u2029' then some (ch, c.breakLine 1)
    else if isBreak ch then some ('\n', c.breakLine 1)
    else none
  | [] => none

/-- Whether the cursor stands before three given characters at the beginning of a line. -/
def atMarker (mark : Char) (c : Cursor) : Bool :=
  c.column == 0 && c.rest.take 3 == [mark, mark, mark] && endsWord (c.rest.drop 3)

/-- Whether a document begins or ends here. -/
def atDocumentMarker (c : Cursor) : Bool :=
  c.atMarker '-' || c.atMarker '.'

end Cursor

end Yaml

end ColumnMask
