import ColumnMask.Yaml.Lexer

/-!
# Trees and nodes

What the tokens of a YAML text describe, with aliases and then without them.
-/

namespace ColumnMask

/-!
## Trees

What the tokens of a text describe, as it is written: with anchors and aliases in it. An anchor has
a number, which is how many names were declared before it. Declaring a name again adds no name, so
the next anchor gets the same number; of the nodes with one number the last one counts
(`Tree.anchored`).

`Reading.document?` reads the first document of a list of tokens.
-/

namespace Yaml

/-- What is written in front of a node: the number of its anchor, and its tag in full. -/
structure Properties where
  anchor : Option Nat
  tag : Option Tag

/-- A node as it is written. -/
inductive Tree where
  | scalar (properties : Properties) (plain : Bool) (text : String)
  | sequence (properties : Properties) (items : List Tree)
  | mapping (properties : Properties) (entries : List (Tree × Tree))
  /-- The node with an anchor of this number. -/
  | alias (number : Nat)

namespace Properties

/-- The properties where none are written. -/
def none : Properties := ⟨.none, .none⟩

/-- Whether any are written. -/
def isGiven (p : Properties) : Bool := p.anchor.isSome || p.tag.isSome

end Properties

namespace Tree

/-- What is meant where no content is written. -/
def empty (properties : Properties) : Tree := .scalar properties true ""

/-- The number of the anchor. -/
def anchor? : Tree → Option Nat
  | .scalar p .. | .sequence p _ | .mapping p _ => p.anchor
  | .alias _ => none

/-- The number of parts apart from what is inside: a scalar or an alias is one, a collection has a
beginning and an end. -/
def parts : Tree → Nat
  | .scalar .. | .alias _ => 1
  | .sequence .. | .mapping .. => 2

mutual

/-- The tree itself and all trees inside of it, in the order in which they begin. -/
def subtrees : Tree → List Tree
  | t@(.sequence _ items) => t :: subtreesOfItems items
  | t@(.mapping _ entries) => t :: subtreesOfEntries entries
  | t => [t]

/-- The trees inside of a sequence. -/
def subtreesOfItems : List Tree → List Tree
  | [] => []
  | t :: rest => t.subtrees ++ subtreesOfItems rest

/-- The trees inside of a mapping. -/
def subtreesOfEntries : List (Tree × Tree) → List Tree
  | [] => []
  | (k, v) :: rest => k.subtrees ++ v.subtrees ++ subtreesOfEntries rest

end

/-- The number of parts of all that is written. -/
def size (t : Tree) : Nat := t.subtrees.foldl (fun n s => n + s.parts) 0

/-- The trees with anchors, the last one first. -/
def anchored (t : Tree) : List (Nat × Tree) :=
  (t.subtrees.filterMap fun s => s.anchor?.map (·, s)).reverse

end Tree

/-- What is left to read, and what was declared so far. -/
structure Reader where
  tokens : List Token
  /-- The names that are known, each with the number of its last anchor. -/
  names : List (String × Nat)
  /-- The handles of tags with their meanings. -/
  handles : List (String × Tag)

/-- Reading trees off a list of tokens. -/
abbrev Reading := StateT Reader Option

namespace Reading

/-- The next token, which stays. -/
def peek : Reading (Option Token) := do return (← get).tokens.head?

/-- Passes the next token. -/
def skip : Reading Unit := modify fun r => { r with tokens := r.tokens.drop 1 }

/-- Passes the next token if it is this one; tells whether it was. -/
def skipIf (t : Token) : Reading Bool := do
  if (← peek) == some t then
    skip
    return true
  else return false

/-- Whether the next token is one of these. -/
def isBefore (ts : List Token) : Reading Bool := do
  match (← peek) with
  | some t => return ts.contains t
  | none => return false

/-- Notes an anchor and gives it its number. -/
def declare (name : String) : Reading Nat :=
  modifyGet fun r =>
    let number := r.names.length
    (number, { r with names := (name, number) :: r.names.filter (·.1 != name) })

/-- The node that a name stands for. -/
def named (name : String) : Reading Tree := do
  match (← get).names.lookup name with
  | some number => return .alias number
  | none => failure

/-- The full form of a tag. -/
def resolve (handle : String) (suffix : Tag) : Reading Tag := do
  if handle.isEmpty then return suffix
  match (← get).handles.lookup handle with
  | some meaning => return meaning ++ suffix
  | none => failure

/-- The anchor and the tag in front of a node, in any order, at most one of each. -/
def properties : Reading Properties := do
  match (← peek) with
  | some (.anchor name) =>
    skip
    let number ← declare name
    match (← peek) with
    | some (.tag handle suffix) =>
      skip
      return ⟨some number, some (← resolve handle suffix)⟩
    | _ => return ⟨some number, none⟩
  | some (.tag handle suffix) =>
    skip
    let tag ← resolve handle suffix
    match (← peek) with
    | some (.anchor name) =>
      skip
      return ⟨some (← declare name), some tag⟩
    | _ => return ⟨none, some tag⟩
  | _ => return .none

mutual

/-- A node. Block collections are read only where `inBlock` says so, and a sequence without
indentation of its own only as a part of a mapping. -/
def node : (fuel : Nat) → (inBlock inMapping : Bool) → Reading Tree
  | 0, _, _ => failure
  | fuel + 1, inBlock, inMapping => do
    if let some (.alias name) ← peek then
      skip
      return (← named name)
    let p ← properties
    match (← peek), inBlock, inMapping with
    | some .blockEntry, _, true => return .sequence p (← flatSequence fuel)
    | some (.scalar plain text), _, _ =>
      skip
      return .scalar p plain text
    | some .flowSequenceStart, _, _ =>
      skip
      return .sequence p (← flowSequence fuel true)
    | some .flowMappingStart, _, _ =>
      skip
      return .mapping p (← flowMapping fuel true)
    | some .blockSequenceStart, true, _ =>
      skip
      return .sequence p (← blockSequence fuel)
    | some .blockMappingStart, true, _ =>
      skip
      return .mapping p (← blockMapping fuel)
    | _, _, _ => if p.isGiven then return .empty p else failure

/-- A node, or an empty one before tokens that cannot start a node. -/
def nodeUnless : (fuel : Nat) → (inBlock inMapping : Bool) → List Token → Reading Tree
  | 0, _, _, _ => failure
  | fuel + 1, inBlock, inMapping, stops => do
    if (← isBefore stops) then return .empty .none else node fuel inBlock inMapping

/-- The items of an indented sequence and its end. -/
def blockSequence : (fuel : Nat) → Reading (List Tree)
  | 0 => failure
  | fuel + 1 => do
    if (← skipIf .blockEnd) then return []
    if !(← skipIf .blockEntry) then failure
    let item ← nodeUnless fuel true false [.blockEntry, .blockEnd]
    return item :: (← blockSequence fuel)

/-- The items of a sequence that is indented like the mapping around it. -/
def flatSequence : (fuel : Nat) → Reading (List Tree)
  | 0 => failure
  | fuel + 1 => do
    if !(← skipIf .blockEntry) then return []
    let item ← nodeUnless fuel true false [.blockEntry, .key, .value, .blockEnd]
    return item :: (← flatSequence fuel)

/-- The entries of an indented mapping and its end. -/
def blockMapping : (fuel : Nat) → Reading (List (Tree × Tree))
  | 0 => failure
  | fuel + 1 => do
    if (← skipIf .blockEnd) then return []
    if !(← skipIf .key) then failure
    let key ← nodeUnless fuel true true [.key, .value, .blockEnd]
    let value ←
      if (← skipIf .value) then nodeUnless fuel true true [.key, .value, .blockEnd]
      else pure (.empty .none)
    return (key, value) :: (← blockMapping fuel)

/-- The items of a sequence in brackets and its end. An item with a key is a mapping with a single
entry. -/
def flowSequence : (fuel : Nat) → (first : Bool) → Reading (List Tree)
  | 0, _ => failure
  | fuel + 1, first => do
    if (← skipIf .flowSequenceEnd) then return []
    if !first then
      if !(← skipIf .flowEntry) then failure
      if (← skipIf .flowSequenceEnd) then return []
    let item ←
      if (← skipIf .key) then do
        let key ←
          if (← isBefore [.value, .flowEntry, .flowSequenceEnd]) then do
            skip
            pure (Tree.empty .none)
          else node fuel false false
        let value ←
          if (← skipIf .value) then nodeUnless fuel false false [.flowEntry, .flowSequenceEnd]
          else pure (.empty .none)
        pure (Tree.mapping .none [(key, value)])
      else node fuel false false
    return item :: (← flowSequence fuel false)

/-- The entries of a mapping in braces and its end. -/
def flowMapping : (fuel : Nat) → (first : Bool) → Reading (List (Tree × Tree))
  | 0, _ => failure
  | fuel + 1, first => do
    if (← skipIf .flowMappingEnd) then return []
    if !first then
      if !(← skipIf .flowEntry) then failure
      if (← skipIf .flowMappingEnd) then return []
    let entry ←
      if (← skipIf .key) then do
        let key ← nodeUnless fuel false false [.value, .flowEntry, .flowMappingEnd]
        let value ←
          if (← skipIf .value) then nodeUnless fuel false false [.flowEntry, .flowMappingEnd]
          else pure (.empty .none)
        pure (key, value)
      else pure (← node fuel false false, Tree.empty .none)
    return entry :: (← flowMapping fuel false)

end

/-! ### Documents -/

/-- The version and the handles in front of a document. -/
def directives : (versionSeen : Bool) → List Token → Option (List (String × Tag) × List Token)
  | versionSeen, .version major minor :: rest =>
    if versionSeen || major != 1 || !(minor == 1 || minor == 2) then none
    else directives true rest
  | versionSeen, .handle name meaning :: rest => do
    let (handles, rest) ← directives versionSeen rest
    if (handles.lookup name).isSome then none else some ((name, meaning) :: handles, rest)
  | _, rest => some ([], rest)

/-- The handles that need no declaration. -/
def standardHandles : List (String × Tag) :=
  [("!", Tag.mark), ("!!", Tag.standardPart)]

/-- The content of a document, with what follows it. -/
def content? (handles : List (String × Tag)) (tokens : List Token) :
    Option (Tree × List Token) :=
  (node (2 * tokens.length + 2) true false ⟨tokens, [], handles ++ standardHandles⟩).map
    fun (t, r) => (t, r.tokens)

/-- The first document, with what follows it. It may begin without a mark if there are no
directives. -/
def document? (tokens : List Token) : Option (Tree × List Token) :=
  match tokens with
  | [] => none
  | .version .. :: _ | .handle .. :: _ | .documentStart :: _ => do
    match (← directives false tokens) with
    | (handles, .documentStart :: rest) =>
      match rest with
      | [] | .version .. :: _ | .handle .. :: _ | .documentStart :: _ | .documentEnd :: _ =>
        some (.empty .none, rest)
      | _ => content? handles rest
    | _ => none
  | _ => content? [] tokens

end Reading

/-!
## Nodes

A node is a tree with its aliases replaced by what they stand for. Scalars keep their text; what it
stands for is decided later, because it depends on where the scalar is used.

`node?` reads a text that consists of exactly one document. Nesting is limited, and so is the number
of aliases that are replaced, counted again inside of every replacement; so an alias inside of its
own node has no meaning.
-/

/-- A tree of scalars, sequences and mappings with their tags. -/
inductive Node where
  | scalar (tag : Option Tag) (plain : Bool) (text : String)
  | sequence (tag : Option Tag) (items : List Node)
  | mapping (tag : Option Tag) (entries : List (Node × Node))

namespace Tree

/-- The largest number of collections inside each other. -/
def maxDepth : Nat := 128

/-- The number of aliases that may be replaced for each part of a document. -/
def aliasesPerPart : Nat := 100

/-- Replacing aliases, with the number that may still be replaced. -/
abbrev Replacing := StateT Nat Option

/-- The tree without an alias in front of it. -/
def target (anchored : List (Nat × Tree)) : Tree → Replacing Tree
  | .alias number => do
    let budget ← get
    if budget = 0 then failure
    set (budget - 1)
    match anchored.lookup number with
    | some t => return t
    | none => failure
  | t => return t

/-- The node of a tree with at most so many collections inside each other. -/
def node (anchored : List (Nat × Tree)) : (depth : Nat) → Tree → Replacing Node
  | depth, t => do
    match (← t.target anchored), depth with
    | .scalar p plain text, _ => return .scalar p.tag plain text
    | .sequence p items, depth + 1 =>
      return .sequence p.tag (← items.mapM (node anchored depth))
    | .mapping p entries, depth + 1 =>
      return .mapping p.tag (← entries.mapM fun (k, v) => do
        return (← node anchored depth k, ← node anchored depth v))
    | _, _ => failure

/-- The node of the tree of a whole document. -/
def node? (t : Tree) : Option Node :=
  ((t.node t.anchored maxDepth).run (aliasesPerPart * t.size)).map (·.1)

end Tree

/-- The node of a text with exactly one document. -/
def node? (text : String) : Option Node := do
  let (t, rest) ← Reading.document? (← tokens? text)
  if (rest.dropWhile (· == .documentEnd)).isEmpty then t.node? else none

end Yaml

end ColumnMask
