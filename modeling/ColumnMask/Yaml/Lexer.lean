import ColumnMask.Bytes
import ColumnMask.Text
import ColumnMask.Yaml.Cursor
import ColumnMask.Yaml.Scalar

/-!
# Tokens

How a YAML text is cut into tokens.
-/

namespace ColumnMask

/-!
## Tags

A tag tells the type of a node. It is a string of bytes and not a text: an escape in it may spell
any sequence of bytes that has the form of an encoded character, so also sequences that encode none.
A tag ends before its first zero byte, whatever is written after that.

- `Tag.standard`: the tag of a standard type.
- `Tag.own?`: the name that a tag of the user's own gives, if it gives one.
- `Tag.scan?`: reads a tag, or the part of one, that is written in a text.
-/

namespace Yaml

/-- The bytes of a tag. -/
abbrev Tag := Bytes

namespace Tag

/-- What all tags of standard types begin with. -/
def standardPart : Tag := Bytes.ofString "tag:yaml.org,2002:"

/-- The tag of a standard type. -/
def standard (name : String) : Tag := standardPart ++ Bytes.ofString name

/-- The tag that says no more than that there is one. -/
def mark : Tag := Bytes.ofString "!"

/-- Whether a tag begins with an exclamation mark. -/
def isMarked (t : Tag) : Bool := mark.isPrefixOf t

/-- The name behind an exclamation mark. A tag whose bytes encode no text gives none. -/
def own? (t : Tag) : Option String :=
  if t.isMarked then String.fromUTF8? ⟨(t.drop mark.length).toArray⟩ else none

/-! ### Escapes -/

/-- Whether a character may stand in a tag. Commas and brackets may only in one that is spelled
out. -/
def isTagChar (spelledOut : Bool) (c : Char) : Bool :=
  isNameChar c || ";/?:@&=+$.%!~*'()".contains c || spelledOut && ",[]".contains c

/-- The byte written by a percent sign and two hexadecimal digits. -/
def escape? : List Char → Option (UInt8 × List Char)
  | '%' :: high :: low :: rest => do
    return (UInt8.ofNat (16 * (← Text.hexValue? high) + (← Text.hexValue? low)), rest)
  | _ => none

/-- The number of bytes that follow the first byte of an encoded character. -/
def following? (first : UInt8) : Option Nat :=
  if first &&& 0x80 = 0 then some 0
  else if first &&& 0xe0 = 0xc0 then some 1
  else if first &&& 0xf0 = 0xe0 then some 2
  else if first &&& 0xf8 = 0xf0 then some 3
  else none

/-- Escapes of a number of bytes that follow the first byte of an encoded character. -/
def continuation? : (count : Nat) → List Char → Option (Bytes × List Char)
  | 0, cs => some ([], cs)
  | count + 1, cs => do
    let (b, cs) ← escape? cs
    if b &&& 0xc0 ≠ 0x80 then none
    let (more, cs) ← continuation? count cs
    return (b :: more, cs)

/-- The bytes that characters of a tag stand for; they are ASCII characters. Each character counts
for itself, but escapes come in groups with the form of an encoded character. -/
def decode? : (fuel : Nat) → List Char → Option Bytes
  | 0, _ | _, [] => some []
  | fuel + 1, '%' :: cs => do
    let (first, cs) ← escape? ('%' :: cs)
    let (more, cs) ← continuation? (← following? first) cs
    return first :: more ++ (← decode? fuel cs)
  | fuel + 1, c :: cs => do return UInt8.ofNat c.toNat :: (← decode? fuel cs)

/-- The tag, or the part of one, that is written from here on. At least one character has to be. -/
def scan? (spelledOut : Bool) (c : Cursor) : Option (Tag × Cursor) := do
  let (cs, c) := c.takeWhile (isTagChar spelledOut)
  if cs.isEmpty then none
  return ((← decode? cs.length cs).takeWhile (· ≠ 0), c)

end Tag

/-!
## Tokens

The parts that a text is cut into. Indentation is told by tokens too: `blockSequenceStart` and
`blockMappingStart` where a line is indented further than the collection around it, `blockEnd` where
it is indented less.

Each scanner below reads one token that needs more than its first character, from that character on.
-/

/-- A part of a text. -/
inductive Token where
  | version (major minor : Nat)
  /-- A handle for tags, and what it stands for. -/
  | handle (name : String) (meaning : Tag)
  | documentStart
  | documentEnd
  | blockSequenceStart
  | blockMappingStart
  | blockEnd
  | flowSequenceStart
  | flowSequenceEnd
  | flowMappingStart
  | flowMappingEnd
  /-- The dash before an item of a block sequence. -/
  | blockEntry
  /-- The comma between parts of a flow collection. -/
  | flowEntry
  | key
  | value
  | alias (name : String)
  | anchor (name : String)
  | tag (handle : String) (suffix : Tag)
  | scalar (plain : Bool) (text : String)
  deriving DecidableEq

/-! ### Names and tags -/

/-- Whether a name ends where these characters follow. -/
def endsName (cs : List Char) : Bool :=
  endsWord cs || startsWith (fun c => "?:,]%@".contains c || c == '\x7d' || c == '\x60') cs

/-- The name of an anchor, after its indicator. -/
def anchorName? (c : Cursor) : Option (String × Cursor) :=
  let (name, c) := (c.advance 1).takeWhile isNameChar
  if name.isEmpty || !endsName c.rest then none else some (String.ofList name, c)

/-- An exclamation mark, a name and perhaps a second mark. -/
def handleText (c : Cursor) : String × Cursor :=
  let (name, c) := (c.advance 1).takeWhile isNameChar
  if startsWith (· == '!') c.rest then (String.ofList ('!' :: name ++ ['!']), c.advance 1)
  else (String.ofList ('!' :: name), c)

/-- A tag: spelled out in angle brackets, or a suffix after a handle. A handle without a second mark
is a suffix itself; where nothing is left of it, the tag is the mark alone. -/
def tag? (inFlow : Bool) (c : Cursor) : Option (Token × Cursor) := do
  let (token, c) ←
    if startsWith (· == '<') (c.rest.drop 1) then do
      let (tag, c) ← Tag.scan? true (c.advance 2)
      if startsWith (· == '>') c.rest then some (Token.tag "" tag, c.advance 1) else none
    else do
      let (handle, c) := handleText c
      if 1 < handle.length && handle.endsWith "!" then do
        let (suffix, c) ← Tag.scan? false c
        some (Token.tag handle suffix, c)
      else do
        let (more, c) ←
          if startsWith (Tag.isTagChar false) c.rest then Tag.scan? false c else some ([], c)
        let suffix := (Bytes.ofString handle).drop 1 ++ more
        some (if suffix.isEmpty then Token.tag "" Tag.mark else Token.tag "!" suffix, c)
  if endsWord c.rest || inFlow && startsWith (· == ',') c.rest then some (token, c) else none

/-! ### Directives -/

/-- A number of at most nine digits. -/
def versionNumber? (c : Cursor) : Option (Nat × Cursor) := do
  let (digits, c) := c.takeWhile Text.isDigit
  let n ← Text.natural? digits
  if 9 < digits.length then none else some (n, c)

/-- The version of the notation. -/
def version? (c : Cursor) : Option (Token × Cursor) := do
  let (major, c) ← versionNumber? c
  if !startsWith (· == '.') c.rest then none
  let (minor, c) ← versionNumber? (c.advance 1)
  return (.version major minor, c)

/-- A handle and what it stands for. -/
def handle? (c : Cursor) : Option (Token × Cursor) := do
  if !startsWith (· == '!') c.rest then none
  let (name, c) := handleText c
  if name ≠ "!" ∧ ¬ name.endsWith "!" then none
  if !startsWith isBlank c.rest then none
  let (_, c) := c.takeWhile isBlank
  let (meaning, c) ← Tag.scan? true c
  if !endsWord c.rest then none
  return (.handle name meaning, c)

/-- A directive, with the rest of its line. -/
def directive? (c : Cursor) : Option (Token × Cursor) := do
  let (name, c) := (c.advance 1).takeWhile isNameChar
  if !endsWord c.rest then none
  let (_, c) := c.takeWhile isBlank
  let (token, c) ← match String.ofList name with
    | "YAML" => version? c
    | "TAG" => handle? c
    | _ => none
  let (_, c) := c.takeWhile isBlank
  let c := if startsWith (· == '#') c.rest then (c.takeWhile fun ch => !isBreak ch).2 else c
  match c.nextLine? with
  | some (_, c) => some (token, c)
  | none => if c.rest.isEmpty then some (token, c) else none

/-!
## Cutting a text into tokens

What a text means depends on indentation, and a key is recognised only by the colon after it. A
`Lexer` therefore keeps the columns of the block collections that are open, and for each open
collection the place where a key may have begun. When a colon follows, the tokens `key` and, if the
key is indented further than the collection around it, `blockMappingStart` are put in at that place.

`tokens?` cuts a whole text. It fails on texts that cannot be cut, wherever in the text that is.
-/

/-- A place where a key may have begun. -/
structure KeyStart where
  /-- Whether nothing but a key can stand there. -/
  required : Bool
  /-- The number of tokens before it. -/
  tokens : Nat
  /-- The number of bytes before it. -/
  offset : Nat
  line : Nat
  column : Nat

/-- A text that is cut up to a place. -/
structure Lexer where
  cursor : Cursor
  tokens : Array Token
  /-- The columns of the open block collections, the innermost first. -/
  columns : List Nat
  /-- Where a key may have begun in the innermost collection. -/
  keyStart : Option KeyStart
  /-- The same for each collection around an open flow collection. -/
  outerKeyStarts : List (Option KeyStart)
  /-- Whether a key may begin here. -/
  keyAllowed : Bool

namespace Lexer

/-- Nothing is cut yet. -/
def start (cs : List Char) : Lexer where
  cursor := .start cs
  tokens := #[]
  columns := []
  keyStart := none
  outerKeyStarts := []
  keyAllowed := true

/-- Whether a flow collection is open. -/
def inFlow (l : Lexer) : Bool := !l.outerKeyStarts.isEmpty

/-- The least column of what belongs to the innermost block collection as a part of it. -/
def indent (l : Lexer) : Nat :=
  match l.columns with
  | [] => 0
  | column :: _ => column + 1

/-- Adds a token. -/
def emit (l : Lexer) (t : Token) : Lexer := { l with tokens := l.tokens.push t }

/-! ### Indentation -/

/-- Opens a block collection at a column if it lies right of the innermost one. Its token is put
after the first `before` tokens. -/
def openBlock (l : Lexer) (column before : Nat) (t : Token) : Lexer :=
  if !l.inFlow && l.indent ≤ column then
    { l with columns := column :: l.columns, tokens := l.tokens.insertIdxIfInBounds before t }
  else l

/-- Closes block collections as long as a test on their column says so. -/
def closeBlocks (l : Lexer) (closed : Nat → Bool) : Lexer :=
  if l.inFlow then l
  else
    let gone := (l.columns.takeWhile closed).length
    { l with
      columns := l.columns.drop gone
      tokens := l.tokens ++ Array.replicate gone Token.blockEnd }

/-! ### Keys -/

/-- Forgets where a key may have begun; fails if it had to be one. -/
def forgetKey? (l : Lexer) : Option Lexer :=
  match l.keyStart with
  | some k => if k.required then none else some { l with keyStart := none }
  | none => some l

/-- Notes that a key may begin here, if one may. -/
def noteKey? (l : Lexer) : Option Lexer :=
  if l.keyAllowed then do
    let l ← l.forgetKey?
    let c := l.cursor
    let required := !l.inFlow && l.columns.head? == some c.column
    return { l with
      keyStart := some
        { required, tokens := l.tokens.size, offset := c.offset, line := c.line
          column := c.column } }
  else some l

/-- The largest number of bytes between the beginning of a key and its colon. -/
def maxKeyLength : Nat := 1024

/-- Whether it is too late for the colon of a key: it has to follow on the same line. -/
def isStale (l : Lexer) (k : KeyStart) : Bool :=
  k.line < l.cursor.line || k.offset + maxKeyLength < l.cursor.offset

/-- Forgets a place for a key that is too far back; fails if it had to be a key. -/
def dropStale? (l : Lexer) : Option KeyStart → Option (Option KeyStart)
  | some k => if l.isStale k then (if k.required then none else some none) else some (some k)
  | none => some none

/-- Forgets all places for keys that are too far back. -/
def forgetStale? (l : Lexer) : Option Lexer := do
  let keyStart ← l.dropStale? l.keyStart
  let outerKeyStarts ← l.outerKeyStarts.mapM l.dropStale?
  return { l with keyStart, outerKeyStarts }

/-! ### Single tokens -/

/-- Adds a token of some characters. -/
def take (l : Lexer) (width : Nat) (t : Token) : Lexer :=
  { l.emit t with cursor := l.cursor.advance width }

/-- Adds a token that a scanner has read. -/
def takeScanned (l : Lexer) (t : Token) (c : Cursor) : Lexer :=
  { l.emit t with cursor := c }

/-- The beginning or end of a document, or a directive: closes all block collections. -/
def boundary? (l : Lexer) : Option Lexer := do
  let l ← (l.closeBlocks fun _ => true).forgetKey?
  return { l with keyAllowed := false }

/-- The beginning of a flow collection. -/
def openFlow? (l : Lexer) (t : Token) : Option Lexer := do
  let l ← l.noteKey?
  return { l.take 1 t with
    outerKeyStarts := l.keyStart :: l.outerKeyStarts, keyStart := none, keyAllowed := true }

/-- The end of a flow collection. -/
def closeFlow? (l : Lexer) (t : Token) : Option Lexer := do
  let l ← l.forgetKey?
  let l := match l.outerKeyStarts with
    | [] => l
    | k :: outer => { l with keyStart := k, outerKeyStarts := outer }
  return { l.take 1 t with keyAllowed := false }

/-- A comma. -/
def flowEntry? (l : Lexer) : Option Lexer := do
  let l ← l.forgetKey?
  return { l.take 1 .flowEntry with keyAllowed := true }

/-- A dash before an item. -/
def blockEntry? (l : Lexer) : Option Lexer := do
  if !l.inFlow && !l.keyAllowed then none
  let l ← (l.openBlock l.cursor.column l.tokens.size .blockSequenceStart).forgetKey?
  return { l.take 1 .blockEntry with keyAllowed := true }

/-- A question mark before a key. -/
def explicitKey? (l : Lexer) : Option Lexer := do
  if !l.inFlow && !l.keyAllowed then none
  let l ← (l.openBlock l.cursor.column l.tokens.size .blockMappingStart).forgetKey?
  return { l.take 1 .key with keyAllowed := !l.inFlow }

/-- A colon before a value. -/
def value? (l : Lexer) : Option Lexer :=
  match l.keyStart with
  | some k =>
    let l := { l with
      tokens := l.tokens.insertIdxIfInBounds k.tokens Token.key, keyStart := none }
    let l := l.openBlock k.column k.tokens .blockMappingStart
    some { l.take 1 .value with keyAllowed := false }
  | none => do
    if !l.inFlow && !l.keyAllowed then none
    let l := l.openBlock l.cursor.column l.tokens.size .blockMappingStart
    return { l.take 1 .value with keyAllowed := !l.inFlow }

/-- An alias, an anchor or a tag. -/
def property? (l : Lexer) (scan : Cursor → Option (Token × Cursor)) : Option Lexer := do
  let l ← l.noteKey?
  let (t, c) ← scan l.cursor
  return { l.takeScanned t c with keyAllowed := false }

/-- A scalar in quotes. -/
def quoted? (l : Lexer) (double : Bool) : Option Lexer := do
  let l ← l.noteKey?
  let (text, c) ← quotedScalar? double (l.cursor.advance 1)
  return { l.takeScanned (.scalar false text) c with keyAllowed := false }

/-- A scalar without quotes. After a line break a key may follow. -/
def plain? (l : Lexer) : Option Lexer := do
  let l ← l.noteKey?
  let (text, broken, c) ← plainScalar? l.inFlow l.indent l.cursor
  return { l.takeScanned (.scalar true text) c with keyAllowed := broken }

/-- A scalar in a block. -/
def block? (l : Lexer) (literal : Bool) : Option Lexer := do
  let l ← l.forgetKey?
  let (text, c) ← blockScalar? literal l.indent (l.cursor.advance 1)
  return { l.takeScanned (.scalar false text) c with keyAllowed := true }

/-- Whether a plain scalar may begin with these characters. -/
def startsPlain (inFlow : Bool) : List Char → Bool
  | [] => false
  | c :: rest =>
    !(isBlank c || isBreak c || isIndicator c || "-?:".contains c) ||
      c == '-' && !startsWith isBlank rest ||
      !inFlow && (c == '?' || c == ':') && !endsWord rest

/-- The token that begins at the cursor. -/
def token? (l : Lexer) : Option Lexer :=
  let c := l.cursor
  let named (make : String → Token) (c : Cursor) : Option (Token × Cursor) :=
    (anchorName? c).map fun (name, c) => (make name, c)
  match c.rest with
  | [] => none
  | ch :: rest =>
    if c.column == 0 && ch == '%' then do
      let l ← l.boundary?
      let (t, c) ← directive? c
      return l.takeScanned t c
    else if c.atMarker '-' then return (← l.boundary?).take 3 .documentStart
    else if c.atMarker '.' then return (← l.boundary?).take 3 .documentEnd
    else if ch == '[' then l.openFlow? .flowSequenceStart
    else if ch == '{' then l.openFlow? .flowMappingStart
    else if ch == ']' then l.closeFlow? .flowSequenceEnd
    else if ch == '}' then l.closeFlow? .flowMappingEnd
    else if ch == ',' then l.flowEntry?
    else if ch == '-' && endsWord rest then l.blockEntry?
    else if ch == '?' && (l.inFlow || endsWord rest) then l.explicitKey?
    else if ch == ':' && (l.inFlow || endsWord rest) then l.value?
    else if ch == '*' then l.property? (named .alias)
    else if ch == '&' then l.property? (named .anchor)
    else if ch == '!' then l.property? (tag? l.inFlow)
    else if ch == '|' && !l.inFlow then l.block? true
    else if ch == '>' && !l.inFlow then l.block? false
    else if ch == '\'' then l.quoted? false
    else if ch == '"' then l.quoted? true
    else if startsPlain l.inFlow c.rest then l.plain?
    else none

/-! ### Whole texts -/

/-- Passes blanks, comments and line breaks; `fuel` bounds the number of lines. A byte order mark at
the beginning of a line is passed too. A tab counts as a blank only where no key may begin. -/
def skipBlanks : (fuel : Nat) → Lexer → Lexer
  | 0, l => l
  | fuel + 1, l =>
    let c := l.cursor
    let c := if c.column == 0 && startsWith (· == '\ufeff') c.rest then c.advance 1 else c
    let (_, c) := c.takeWhile fun ch => ch == ' ' || (l.inFlow || !l.keyAllowed) && ch == '\t'
    let c := if startsWith (· == '#') c.rest then (c.takeWhile fun ch => !isBreak ch).2 else c
    match c.nextLine? with
    | some (_, c) => skipBlanks fuel { l with cursor := c, keyAllowed := l.keyAllowed || !l.inFlow }
    | none => { l with cursor := c }

/-- Cuts what is left of a text; `fuel` bounds the number of tokens that begin at a character. -/
def run? : (fuel : Nat) → Lexer → Option (Array Token)
  | 0, _ => none
  | fuel + 1, l => do
    let l := skipBlanks (l.cursor.rest.length + 1) l
    let l ← l.forgetStale?
    let l := l.closeBlocks fun column => l.cursor.column < column
    if l.cursor.rest.isEmpty then return (← l.boundary?).tokens
    else run? fuel (← l.token?)

end Lexer

/-- The tokens of a text. -/
def tokens? (text : String) : Option (List Token) :=
  let cs := text.toList
  if cs.all isAllowed then ((Lexer.start cs).run? (cs.length + 1)).map Array.toList else none

end Yaml

end ColumnMask
