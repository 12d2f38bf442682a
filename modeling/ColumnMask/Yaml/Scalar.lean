import ColumnMask.Text
import ColumnMask.Yaml.Cursor

/-!
# Scalars

The three styles of scalars in a YAML text: plain, quoted and in a block.
-/

namespace ColumnMask

/-!
## Folding of lines

Scalars that are not written in blocks may run over several lines. What lies between two words is a
`Gap`: blanks, and after them perhaps line breaks with blanks after each. `Gap.fold` says what the
gap stands for: a single line feed becomes a space, of several the first is dropped, and blanks
around line breaks do not count.
-/

namespace Yaml

/-- What lies between two words. -/
structure Gap where
  blanks : List Char
  breaks : List Char

namespace Gap

/-- Nothing at all. -/
def empty : Gap := ⟨[], []⟩

/-- Whether the next word stands on a later line. -/
def isBroken (g : Gap) : Bool := !g.breaks.isEmpty

/-- What the gap stands for. -/
def fold (g : Gap) : List Char :=
  match g.breaks with
  | [] => g.blanks
  | ['\n'] => [' ']
  | '\n' :: more => more
  | breaks => breaks

end Gap

/-- Passes line breaks and the blanks after each of them. A tab left of column `indent` is refused;
`fuel` bounds the number of line breaks. -/
def lineBreaks? (indent : Nat) : (fuel : Nat) → Cursor → Option (List Char × Cursor)
  | 0, c => some ([], c)
  | fuel + 1, c =>
    match c.nextLine? with
    | none => some ([], c)
    | some (ch, next) =>
      let (blanks, next) := next.takeWhile isBlank
      if (blanks.take indent).contains '\t' then none
      else (lineBreaks? indent fuel next).map fun (more, c) => (ch :: more, c)

/-- Passes a gap. -/
def Gap.scan? (indent : Nat) (c : Cursor) : Option (Gap × Cursor) :=
  let (blanks, c) := c.takeWhile isBlank
  (lineBreaks? indent c.rest.length c).map fun (breaks, c) => (⟨blanks, breaks⟩, c)

/-!
## Plain and quoted scalars

- `plainScalar?`: words without quotes. It ends before a comment, before an indicator and before a
  line that is not indented far enough.
- `quotedScalar?`: words in single or double quotes. Only in double quotes are there escapes.

Each gives the text and the place after it, or fails on a text that is not well formed.
-/

/-! ### Plain scalars -/

/-- Whether a colon before these characters is refused in a flow collection. -/
def refusesColon : List Char → Bool :=
  startsWith fun c => c == '?' || isFlowIndicator c

/-- One word of a plain scalar; it may be empty. -/
def plainWord? (inFlow : Bool) : List Char → Option (List Char)
  | [] => some []
  | c :: rest =>
    if isBlank c || isBreak c then some []
    else if inFlow && c == ':' && refusesColon rest then none
    else if c == ':' && endsWord rest || inFlow && isFlowIndicator c then some []
    else (plainWord? inFlow rest).map (c :: ·)

/-- The words after a gap. Tells also whether the last gap passed has line breaks, without a word
after it. -/
def plainWords? (inFlow : Bool) (indent : Nat) :
    (fuel : Nat) → Gap → Cursor → Option (List Char × Bool × Cursor)
  | 0, gap, c => some ([], gap.isBroken, c)
  | fuel + 1, gap, c =>
    if c.atDocumentMarker || startsWith (· == '#') c.rest then some ([], gap.isBroken, c)
    else do
      let word ← plainWord? inFlow c.rest
      if word.isEmpty then return ([], gap.isBroken, c)
      let text := gap.fold ++ word
      let c := c.advance word.length
      if !startsWith (fun ch => isBlank ch || isBreak ch) c.rest then return (text, false, c)
      let (gap, c) ← Gap.scan? indent c
      if !inFlow && c.column < indent then return (text, gap.isBroken, c)
      let (more, broken, c) ← plainWords? inFlow indent fuel gap c
      return (text ++ more, broken, c)

/-- A plain scalar inside a collection indented to a column before `indent`. Tells also whether it
ended at a line break. -/
def plainScalar? (inFlow : Bool) (indent : Nat) (c : Cursor) :
    Option (String × Bool × Cursor) :=
  (plainWords? inFlow indent (c.rest.length + 1) .empty c).map fun (text, broken, c) =>
    (String.ofList text, broken, c)

/-! ### Escapes -/

/-- The number written by hexadecimal digits. -/
def hexNumber? (cs : List Char) : Option Nat :=
  cs.foldlM (fun n c => (Text.hexValue? c).map (16 * n + ·)) 0

/-- The character that a number of hexadecimal digits stand for. -/
def hexChar? (width : Nat) (cs : List Char) : Option Char := do
  let digits := cs.take width
  let n ← hexNumber? digits
  if digits.length = width ∧ n.isValidChar then some (Char.ofNat n) else none

/-- The character that an escape stands for, and the length of what follows the backslash. -/
def escape? : List Char → Option (Char × Nat)
  | [] => none
  | c :: rest =>
    match c with
    | '0' => some ('\x00', 1)
    | 'a' => some ('\x07', 1)
    | 'b' => some ('\x08', 1)
    | 't' | '\t' => some ('\t', 1)
    | 'n' => some ('\n', 1)
    | 'v' => some ('\x0b', 1)
    | 'f' => some ('\x0c', 1)
    | 'r' => some ('\r', 1)
    | 'e' => some ('\x1b', 1)
    | ' ' | '"' | '/' | '\\' => some (c, 1)
    | 'N' => some ('\u0085', 1)
    | '_' => some ('\u00a0', 1)
    | 'L' => some ('\u2028', 1)
    | 'P' => some ('\u2029', 1)
    | 'x' => (hexChar? 2 rest).map (·, 3)
    | 'u' => (hexChar? 4 rest).map (·, 5)
    | 'U' => (hexChar? 8 rest).map (·, 9)
    | _ => none

/-! ### Quoted scalars -/

/-- One word in quotes: the text, and the number of characters that it takes. The word ends before a
blank, a line break, the closing quote and an escaped line break. -/
def quotedWord? (double : Bool) : (fuel : Nat) → List Char → Option (List Char × Nat)
  | 0, _ | _, [] => some ([], 0)
  | fuel + 1, c :: rest =>
    let add (ch : Char) (width : Nat) : Option (List Char × Nat) :=
      (quotedWord? double fuel (rest.drop (width - 1))).map fun (text, n) => (ch :: text, width + n)
    if isBlank c || isBreak c then some ([], 0)
    else if double then
      if c == '"' || c == '\\' && startsWith isBreak rest then some ([], 0)
      else if c == '\\' then do
        let (ch, width) ← escape? rest
        add ch (width + 1)
      else add c 1
    else if c == '\'' then
      if startsWith (· == '\'') rest then add c 2 else some ([], 0)
    else add c 1

/-- The words up to the closing quote, and the place after it. -/
def quotedWords? (double : Bool) : (fuel : Nat) → Cursor → Option (List Char × Cursor)
  | 0, _ => none
  | fuel + 1, c =>
    if c.atDocumentMarker || c.rest.isEmpty then none
    else do
      let (word, width) ← quotedWord? double c.rest.length c.rest
      let c := c.advance width
      if startsWith (· == if double then '"' else '\'') c.rest then return (word, c.advance 1)
      let (between, c) ←
        if startsWith (· == '\\') c.rest then do
          let (_, c) ← (c.advance 1).nextLine?
          let (_, c) := c.takeWhile isBlank
          lineBreaks? 0 c.rest.length c
        else do
          let (gap, c) ← Gap.scan? 0 c
          pure (gap.fold, c)
      let (more, c) ← quotedWords? double fuel c
      return (word ++ between ++ more, c)

/-- A scalar after its opening quote. -/
def quotedScalar? (double : Bool) (c : Cursor) : Option (String × Cursor) :=
  (quotedWords? double (c.rest.length + 1) c).map fun (text, c) => (String.ofList text, c)

/-!
## Block scalars

A block scalar consists of indented lines. A literal one keeps its line breaks; in a folded one a
line break between two lines without leading blanks becomes a space. `Chomp` says what happens to
line breaks at the end.
-/

/-- What is kept of the line breaks at the end. -/
inductive Chomp where
  /-- None. -/
  | strip
  /-- The first. -/
  | clip
  /-- All. -/
  | keep
  deriving DecidableEq

/-- How a block is read. -/
structure BlockHeader where
  chomp : Chomp
  /-- Columns beyond the indentation of the surrounding collection. -/
  increment : Option Nat

namespace BlockHeader

/-- A sign that tells what is kept of the line breaks at the end. -/
def chompOf? : Char → Option Chomp
  | '+' => some .keep
  | '-' => some .strip
  | _ => none

/-- The header after its indicator: a sign and a digit above zero in any order, each of them
optional. Gives also the number of characters. -/
def scan? (cs : List Char) : Option (BlockHeader × Nat) :=
  let digit? : List Char → Option (Option Nat)
    | [] => some none
    | c :: _ =>
      match Text.digit? c with
      | none => some none
      | some 0 => none
      | some n => some (some n)
  match cs with
  | [] => some (⟨.clip, none⟩, 0)
  | c :: rest =>
    match chompOf? c with
    | some chomp => (digit? rest).map fun n => (⟨chomp, n⟩, 1 + n.toList.length)
    | none => (digit? cs).map fun n =>
      match n, rest.head?.bind chompOf? with
      | none, _ => (⟨.clip, none⟩, 0)
      | some n, none => (⟨.clip, some n⟩, 1)
      | some n, some chomp => (⟨chomp, some n⟩, 2)

end BlockHeader

/-- Passes the indentation of a line as far as it is known, which it is not for `indent = 0`. -/
def blockIndentation (indent : Nat) (c : Cursor) : Cursor :=
  let spaces := (c.rest.takeWhile (· == ' ')).length
  c.advance (if indent = 0 then spaces else min spaces (indent - c.column))

/-- Passes empty lines. Gives their line breaks, the widest indentation seen and the place of the
next line that is not empty. -/
def emptyLines? (indent : Nat) :
    (fuel : Nat) → (widest : Nat) → Cursor → Option (List Char × Nat × Cursor)
  | 0, _, _ => none
  | fuel + 1, widest, c =>
    let c := blockIndentation indent c
    let widest := max widest c.column
    if (indent = 0 || c.column < indent) && startsWith (· == '\t') c.rest then none
    else match c.nextLine? with
      | none => some ([], widest, c)
      | some (ch, c) =>
        (emptyLines? indent fuel widest c).map fun (breaks, found) => (ch :: breaks, found)

/-- The lines from here on, joined. `before` is the break of the line above, `breaks` are those of
empty lines after it, `spaced` tells whether the line above starts with a blank. Gives also the
breaks at the end, the first one apart. -/
def blockLines? (literal : Bool) (indent : Nat) :
    (fuel : Nat) → (before breaks : List Char) → (spaced : Bool) → Cursor →
      Option (List Char × List Char × List Char × Cursor)
  | 0, _, _, _, _ => none
  | fuel + 1, before, breaks, spaced, c =>
    if c.column = indent ∧ c.rest ≠ [] then do
      let blank := startsWith isBlank c.rest
      let joined :=
        if !literal && before == ['\n'] && !spaced && !blank then
          if breaks.isEmpty then [' '] else breaks
        else before ++ breaks
      let (line, c) := c.takeWhile fun ch => !isBreak ch
      let (before, c) := match c.nextLine? with
        | some (ch, c) => ([ch], c)
        | none => ([], c)
      let (breaks, _, c) ← emptyLines? indent (c.rest.length + 1) 0 c
      let (text, last) ← blockLines? literal indent fuel before breaks blank c
      return (joined ++ line ++ text, last)
    else some ([], before, breaks, c)

/-- A block scalar after its indicator. `outer` is the column after that of the surrounding
collection. -/
def blockScalar? (literal : Bool) (outer : Nat) (c : Cursor) : Option (String × Cursor) := do
  let (header, width) ← BlockHeader.scan? c.rest
  let (_, c) := (c.advance width).takeWhile isBlank
  let c := if startsWith (· == '#') c.rest then (c.takeWhile fun ch => !isBreak ch).2 else c
  let c ← match c.nextLine? with
    | some (_, c) => some c
    | none => if c.rest.isEmpty then some c else none
  let given := match header.increment with
    | some n => outer - 1 + n
    | none => 0
  let (breaks, widest, c) ← emptyLines? given (c.rest.length + 1) 0 c
  let indent := if given = 0 then max widest (max outer 1) else given
  let (text, first, more, c) ← blockLines? literal indent (c.rest.length + 1) [] breaks false c
  let tail := match header.chomp with
    | .strip => []
    | .clip => first
    | .keep => first ++ more
  return (String.ofList (text ++ tail), c)

end Yaml

end ColumnMask
