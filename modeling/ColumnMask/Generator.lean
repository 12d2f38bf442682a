import ColumnMask.Digest
import ColumnMask.Error
import ColumnMask.Text

/-!
# Generators and engines

What supplies a transformer with bytes.
-/

namespace ColumnMask

/-!
## Generators

A generator answers an input with bytes. It is a tree: sources at the leaves, and three ways of
building a generator from others. A source may remember what it was asked, may fail, and may
return more or fewer bytes than it declares; all of its memory is the log of calls made so far, so
the tree itself never changes.

- `Source`: a leaf, with its number, its declared size and its answer to an input after a log.
- `Log`: the calls of sources in order. `Draw` is a computation that extends the log and may fail,
  and a failure keeps the log.
- `Draw.reserve`: asks for room, and panics where one allocation cannot have as much.
- `Generator.fold`: adds up the blocks of an output, which makes it shorter.
- `Generator.expand`: asks again with a counter until there are enough bytes.
- `Generator.chain`: feeds the output of each stage to the next one.
- `Generator.size`, `Generator.generate`: the declared size and the answer of a tree.

Generators are built with `Generator.fold?`, `Generator.expand?` and `Generator.chain?`, which
refuse the sizes that make no sense.
-/

/-! ### Calls and sources -/

/-- One question put to a source, with its answer. -/
structure Call where
  /-- The number of the source. -/
  source : Nat
  /-- The size that the source declares. -/
  declared : Nat
  input : Bytes
  answer : Except (Stop GenerationError) Bytes

/-- All calls of sources made so far. -/
structure Log where
  newestFirst : List Call

namespace Log

/-- No calls yet. -/
def empty : Log := ⟨[]⟩

/-- The calls in the order in which they were made. -/
def toList (log : Log) : List Call := log.newestFirst.reverse

/-- Adds the latest call. -/
def push (log : Log) (c : Call) : Log := ⟨c :: log.newestFirst⟩

@[simp] theorem toList_empty : empty.toList = [] := rfl

@[simp] theorem toList_push (log : Log) (c : Call) : (log.push c).toList = log.toList ++ [c] := by
  simp [push, toList]

/-- How often a source was asked. -/
def countOf (log : Log) (source : Nat) : Nat :=
  log.newestFirst.countP fun c => c.source == source

/-- The calls made after the first `n`. -/
def since (log : Log) (n : Nat) : List Call :=
  (log.newestFirst.take (log.newestFirst.length - n)).reverse

end Log

/-- Drawing bytes: extends the log, and may fail without losing it. -/
abbrev Draw := ExceptT (Stop GenerationError) (StateM Log)

namespace Draw

/-- Asks for room for so many bytes. -/
def reserve (size : Nat) : Draw Unit :=
  if size ≤ Bytes.maxRoom then pure () else throw .panic

/-- Refuses an output of fewer than `expected` bytes. -/
def ensureLength (expected : Nat) (out : Bytes) : Draw Unit :=
  if out.length < expected then throw (.failure (.shortOutput expected out.length)) else pure ()

/-- Marks an error with the stage that it came from. -/
def inStage {α : Type} (index : Nat) (x : Draw α) : Draw α :=
  x.adapt (Stop.map (.stage index))

/-- The first `width` bytes of the answers to the input followed by a counter, for `count`
successive values of the counter, which wraps around. -/
def blocks (ask : Bytes → Draw Bytes) (width : Nat) (input : Bytes) :
    (count : Nat) → (counter : UInt64) → Draw Bytes
  | 0, _ => pure []
  | count + 1, counter => do
    let chunk ← ask (input ++ Bytes.ofUInt64 counter)
    ensureLength width chunk
    let rest ← blocks ask width input count (counter + 1)
    return chunk.take width ++ rest

end Draw

/-- A leaf of a generator. -/
structure Source where
  /-- Tells the source from others in the log. -/
  number : Nat
  /-- The number of bytes that the source promises. -/
  size : Nat
  /-- The answer to an input, after the calls made so far. -/
  respond : Log → Bytes → Except (Stop GenerationError) Bytes

namespace Source

/-- Asks a source and records the call. -/
def ask (s : Source) (input : Bytes) : Draw Bytes :=
  fun log =>
    let answer := s.respond log input
    (answer, log.push { source := s.number, declared := s.size, input, answer })

/-- The first sixteen bytes of the SHA3-224 digest of a salt. -/
def keyOfSalt (salt : Bytes) : Bytes :=
  (HashFunction.sha3_224.digest salt).take 16

/-- SipHash of the input under a key derived from the salt, eight bytes. -/
def keyed (number : Nat) (salt : Bytes) : Source :=
  let key := keyOfSalt salt
  { number, size := 8, respond := fun _ input => .ok (Bytes.ofUInt64 (SipHash.hash key input)) }

/-- The digest of the salt followed by the input. -/
def digest (number : Nat) (f : HashFunction) (salt : Bytes) : Source where
  number := number
  size := f.outputSize
  respond _ input := .ok (f.digest (salt ++ input))

/-- Consecutive runs of one random stream, whatever the input. Each call uses up whole words. -/
def seeded (number : Nat) (seed : UInt64) (size : Nat) : Source :=
  let key := ChaCha.keyOfSeed seed
  let perCall := (size + 3) / 4
  { number, size
    respond := fun log _ =>
      if size ≤ Bytes.maxRoom then
        let words := ChaCha.words key (log.countOf number * perCall) perCall
        .ok ((words.flatMap fun w => Bytes.ofNatLE 4 w.toNat).take size)
      else .error .panic }

/-- The given outputs in turn, over and over. -/
def scripted (number : Nat) (size : Nat) (outputs : List Bytes) : Source where
  number := number
  size := size
  respond log _ := .ok (outputs.getD (log.countOf number % outputs.length) [])

/-- Fails whenever it is asked. -/
def failing (number : Nat) (size : Nat) : Source where
  number := number
  size := size
  respond _ _ := .error (.failure .missingGenerator)

end Source

/-! ### Trees -/

/-- A tree of sources. -/
inductive Generator where
  | source (s : Source)
  /-- The output of `inner` with its blocks of `size` bytes added up. -/
  | fold (inner : Generator) (size : Nat)
  /-- Outputs of `inner` for counters from `offset` on, until there are `size` bytes. -/
  | expand (inner : Generator) (size : Nat) (offset : UInt64)
  /-- Each stage is asked with the output of the one before. -/
  | chain (stages : List Generator)

namespace Generator

mutual

/-- The number of bytes that a generator promises. -/
def size : Generator → Nat
  | source s => s.size
  | fold _ size => size
  | expand _ size _ => size
  | chain stages => lastSize stages

/-- What the last stage promises. -/
def lastSize : List Generator → Nat
  | [] => 0
  | [g] => g.size
  | _ :: g :: rest => lastSize (g :: rest)

end

/-- The exclusive or of all blocks of `size` bytes, the last one filled up with zeros. -/
def xorFold (size : Nat) (raw : Bytes) : Bytes :=
  (Bytes.blocks size raw).foldl (fun acc block => acc.zipWith (· ^^^ ·) (Bytes.pad size block))
    (List.replicate size 0)

mutual

/-- The answer of a generator to an input. -/
def generate : Generator → Bytes → Draw Bytes
  | source s, input => s.ask input
  | fold inner size, input => do
    let raw ← inner.generate input
    Draw.ensureLength inner.size raw
    return xorFold size raw
  | expand inner size offset, input => do
    -- for the output with one block more, and for a question
    Draw.reserve (size + inner.size)
    Draw.reserve (input.length + 8)
    let count := (size + inner.size - 1) / inner.size
    let all ← Draw.blocks inner.generate inner.size input count offset
    return all.take size
  | chain stages, input => generateStages stages 0 input

/-- Runs the stages from `index` on; each has to keep its promise. -/
def generateStages : List Generator → (index : Nat) → Bytes → Draw Bytes
  | [], _, data => pure data
  | g :: rest, index, data => do
    let out ← Draw.inStage index do
      let out ← g.generate data
      Draw.ensureLength g.size out
      return out
    generateStages rest (index + 1) out

end

/-! ### Building trees -/

/-- Shortens the output of a generator to a size above zero. -/
def fold? (inner : Generator) (size : Nat) : Except ConfigError Generator :=
  if inner.size < size then .error (.sizeIncrease size inner.size)
  else if size = 0 then .error (.unsupportedSize 0)
  else .ok (.fold inner size)

/-- Lengthens the output of a generator that promises any bytes at all. -/
def expand? (inner : Generator) (size : Nat) (offset : UInt64) : Except ConfigError Generator :=
  if inner.size = 0 then .error (.unsupportedSize 0) else .ok (.expand inner size offset)

/-- Joins at least one stage. -/
def chain? (stages : List Generator) : Except ConfigError Generator :=
  if stages.isEmpty then .error .emptyChain else .ok (.chain stages)

end Generator

namespace HashFunction

/-- The function with the shortest digest of at least `size` bytes. -/
def forSize (size : Nat) : Except ConfigError HashFunction :=
  match forSize? size with
  | some f => .ok f
  | none => .error (.unsupportedSize size)

end HashFunction

/-!
## Engines

The two ways of supplying a transformer with bytes: a random stream, or digests of the value and a
salt. `Engine.generator` builds a generator of at least the wanted size.
-/

/-- Where random bytes come from. -/
inductive Engine where
  /-- A random stream that ignores the value. -/
  | random
  /-- Digests of a salt and the value. -/
  | deterministic
  deriving DecidableEq, Repr

namespace Engine

/-- The name in configurations and messages. -/
def name : Engine → String
  | random => "random"
  | deterministic => "deterministic"

/-- Both engines. -/
def all : List Engine := [random, deterministic]

/-- Reads a name in any case, with one synonym. -/
def ofName? (text : String) : Option Engine :=
  match Text.lowercase text with
  | "random" => some random
  | "deterministic" | "hash" => some deterministic
  | _ => none

/-- The message for a text that names no engine. -/
def unknownName (text : String) : String :=
  s!"Unknown engine: {text}. Valid options: random, deterministic"

/-- A generator of at least `size` bytes. The random one draws on `seed`; the deterministic one is
a single digest as long as one reaches, and an expanded keyed hash above that. -/
def generator (engine : Engine) (number : Nat) (seed : UInt64) (salt : Bytes) (size : Nat) :
    Except ConfigError Generator :=
  match engine with
  | random => .ok (.source (.seeded number seed size))
  | deterministic =>
    if size ≤ HashFunction.maxSize then do
      let f ← HashFunction.forSize size
      return .source (.digest number f salt)
    else
      Generator.expand? (.source (.keyed number salt)) size 0

end Engine

end ColumnMask
