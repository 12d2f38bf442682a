import ColumnMask.Bytes

/-!
# Digests and streams

The three functions of bytes that generators are built on.

- `SipHash.hash`: a keyed hash.
- `ChaCha.words`: a seeded stream of random words.
- `HashFunction.digest`: the SHA-3 hash functions.
-/

namespace ColumnMask

/-!
## SipHash-2-4

A keyed hash from byte strings to 64-bit words: two rounds for every eight bytes of the message,
four at the end. `SipHash.hash` is the whole function.
-/

namespace SipHash

/-- The four words of the state. -/
structure State where
  v0 : UInt64
  v1 : UInt64
  v2 : UInt64
  v3 : UInt64
  deriving DecidableEq, Repr

/-- Rotates a word to the left. -/
def rotateLeft (w : UInt64) (n : UInt64) : UInt64 :=
  (w <<< n) ||| (w >>> (64 - n))

/-- The state for a key of two words. -/
def start (k0 k1 : UInt64) : State where
  v0 := k0 ^^^ 0x736f6d6570736575
  v1 := k1 ^^^ 0x646f72616e646f6d
  v2 := k0 ^^^ 0x6c7967656e657261
  v3 := k1 ^^^ 0x7465646279746573

/-- One round of additions, rotations and exclusive ors. -/
def round (s : State) : State :=
  let v0 := s.v0 + s.v1
  let v1 := rotateLeft s.v1 13 ^^^ v0
  let v0 := rotateLeft v0 32
  let v2 := s.v2 + s.v3
  let v3 := rotateLeft s.v3 16 ^^^ v2
  let v0 := v0 + v3
  let v3 := rotateLeft v3 21 ^^^ v0
  let v2 := v2 + v1
  let v1 := rotateLeft v1 17 ^^^ v2
  let v2 := rotateLeft v2 32
  { v0, v1, v2, v3 }

/-- Takes in one word of the message. -/
def absorb (s : State) (w : UInt64) : State :=
  let mixed := round (round { s with v3 := s.v3 ^^^ w })
  { mixed with v0 := mixed.v0 ^^^ w }

/-- The words of a message; the last one ends in the message length modulo 256. -/
def words (message : Bytes) : List UInt64 :=
  let full := message.length / 8
  let tail := Bytes.pad 7 (message.drop (8 * full)) ++ [UInt8.ofNat message.length]
  (Bytes.blocks 8 (message.take (8 * full))).map Bytes.readUInt64 ++ [Bytes.readUInt64 tail]

/-- Closes the state after the last word. -/
def finish (s : State) : UInt64 :=
  let last := round (round (round (round { s with v2 := s.v2 ^^^ 0xff })))
  last.v0 ^^^ last.v1 ^^^ last.v2 ^^^ last.v3

/-- The hash of a message under a key of sixteen bytes. -/
def hash (key message : Bytes) : UInt64 :=
  finish ((words message).foldl absorb (start key.readUInt64 (Bytes.readUInt64 (key.drop 8))))

end SipHash

/-!
## A seeded stream of random words

ChaCha with twelve rounds, a 64-bit block counter and a zero stream number, read as a stream of
32-bit words. A 64-bit seed is stretched to the 32-byte key by a small congruential generator.

- `ChaCha.block`: the sixteen words for one value of the counter.
- `ChaCha.words`: any run of the stream, by the position of its first word.
- `ChaCha.keyOfSeed`: the key for a seed.
-/

namespace ChaCha

/-- The sixteen words of a block. -/
abbrev Block := Vector UInt32 16

/-- The eight words of a key. -/
abbrev Key := Vector UInt32 8

/-- Rotates a word to the left. -/
def rotateLeft (w : UInt32) (n : UInt32) : UInt32 :=
  (w <<< n) ||| (w >>> (32 - n))

/-- Mixes four words of the block. -/
def quarterRound (a b c d : Fin 16) (s : Block) : Block :=
  let s := s.set a (s[a] + s[b])
  let s := s.set d (rotateLeft (s[d] ^^^ s[a]) 16)
  let s := s.set c (s[c] + s[d])
  let s := s.set b (rotateLeft (s[b] ^^^ s[c]) 12)
  let s := s.set a (s[a] + s[b])
  let s := s.set d (rotateLeft (s[d] ^^^ s[a]) 8)
  let s := s.set c (s[c] + s[d])
  s.set b (rotateLeft (s[b] ^^^ s[c]) 7)

/-- A round on the columns and a round on the diagonals. -/
def doubleRound (s : Block) : Block :=
  let s := quarterRound 0 4 8 12 s
  let s := quarterRound 1 5 9 13 s
  let s := quarterRound 2 6 10 14 s
  let s := quarterRound 3 7 11 15 s
  let s := quarterRound 0 5 10 15 s
  let s := quarterRound 1 6 11 12 s
  let s := quarterRound 2 7 8 13 s
  quarterRound 3 4 9 14 s

/-- The constants, the key, the counter and the stream number, before mixing. -/
def initial (key : Key) (counter : UInt64) : Block := #v[
  0x61707865, 0x3320646e, 0x79622d32, 0x6b206574,
  key[0], key[1], key[2], key[3], key[4], key[5], key[6], key[7],
  counter.toUInt32, (counter >>> 32).toUInt32, 0, 0]

/-- The words of the stream for one value of the counter. -/
def block (key : Key) (counter : UInt64) : Block :=
  let start := initial key counter
  let mixed := (List.range 6).foldl (fun s _ => doubleRound s) start
  mixed.zipWith (· + ·) start

/-- `count` words of the stream from `position` on. -/
def words (key : Key) (position count : Nat) : List UInt32 :=
  let first := position / 16
  let used := (position + count + 15) / 16 - first
  let all := (List.range used).flatMap fun i => (block key (UInt64.ofNat (first + i))).toList
  (all.drop (position % 16)).take count

/-- One step of the congruential generator. -/
def advance (state : UInt64) : UInt64 :=
  state * 6364136223846793005 + 11634580027462260723

/-- The word that a state of the congruential generator gives out. -/
def output (state : UInt64) : UInt32 :=
  let x := (((state >>> 18) ^^^ state) >>> 27).toUInt32
  let n := (state >>> 59).toUInt32
  (x >>> n) ||| (x <<< (32 - n))

/-- The key for a seed: the first eight words of the congruential generator. -/
def keyOfSeed (seed : UInt64) : Key :=
  let rec state : Nat → UInt64
    | 0 => advance seed
    | n + 1 => advance (state n)
  Vector.ofFn fun i => output (state i.val)

end ChaCha

/-!
## The Keccak permutation and the SHA-3 hash functions

- `Keccak.permute`: the permutation of 25 lanes of 64 bits, as 24 rounds of five steps.
- `Keccak.sponge`: pads a message, absorbs it block by block and reads off the digest.
- `HashFunction`: the four SHA-3 functions; `HashFunction.digest` has exactly
  `HashFunction.outputSize` bytes, and `HashFunction.forSize?` picks the smallest function that
  reaches a wanted size.
-/

namespace Keccak

/-- The 25 lanes; lane `x + 5 * y` stands in column `x` and row `y`. -/
abbrev State := Vector UInt64 25

/-- The lane in column `x` and row `y`, both taken modulo five. -/
def lane (s : State) (x y : Nat) : UInt64 :=
  s.get ⟨x % 5 + 5 * (y % 5), by omega⟩

/-- Builds a state lane by lane from column and row. -/
def ofLanes (f : (x y : Nat) → UInt64) : State :=
  Vector.ofFn fun i => f (i.val % 5) (i.val / 5)

/-- Rotates a word to the left. -/
def rotateLeft (w : UInt64) (n : UInt64) : UInt64 :=
  (w <<< n) ||| (w >>> (64 - n))

/-- The rotation amounts, in the order of the lanes. -/
def rotations : Vector UInt64 25 := #v[
  0, 1, 62, 28, 27,
  36, 44, 6, 55, 20,
  3, 10, 43, 25, 39,
  41, 45, 15, 21, 8,
  18, 2, 61, 56, 14]

/-- The constants of the rounds. -/
def roundConstants : List UInt64 := [
  0x0000000000000001, 0x0000000000008082, 0x800000000000808a, 0x8000000080008000,
  0x000000000000808b, 0x0000000080000001, 0x8000000080008081, 0x8000000000008009,
  0x000000000000008a, 0x0000000000000088, 0x0000000080008009, 0x000000008000000a,
  0x000000008000808b, 0x800000000000008b, 0x8000000000008089, 0x8000000000008003,
  0x8000000000008002, 0x8000000000000080, 0x000000000000800a, 0x800000008000000a,
  0x8000000080008081, 0x8000000000008080, 0x0000000080000001, 0x8000000080008008]

/-- Adds to each lane the parities of two neighbouring columns. -/
def theta (s : State) : State :=
  let parity : Vector UInt64 5 := Vector.ofFn fun x =>
    lane s x 0 ^^^ lane s x 1 ^^^ lane s x 2 ^^^ lane s x 3 ^^^ lane s x 4
  let column (x : Nat) : UInt64 := parity.get ⟨x % 5, by omega⟩
  ofLanes fun x y => lane s x y ^^^ column (x + 4) ^^^ rotateLeft (column (x + 1)) 1

/-- Rotates every lane by its own amount and moves it to its new place. -/
def rhoPi (s : State) : State :=
  ofLanes fun x y => rotateLeft (lane s (x + 3 * y) x) (lane rotations (x + 3 * y) x)

/-- Combines each lane with the next two of its row. -/
def chi (s : State) : State :=
  ofLanes fun x y => lane s x y ^^^ (~~~(lane s (x + 1) y) &&& lane s (x + 2) y)

/-- One round: the four mixing steps, then the constant added to the first lane. -/
def round (s : State) (constant : UInt64) : State :=
  let mixed := chi (rhoPi (theta s))
  mixed.set 0 (mixed[0] ^^^ constant)

/-- All rounds. -/
def permute (s : State) : State :=
  roundConstants.foldl round s

/-- Adds a block of bytes to the front of the state. -/
def absorb (s : State) (block : Bytes) : State :=
  Vector.ofFn fun i => s[i] ^^^ Bytes.readUInt64 (block.drop (8 * i.val))

/-- The message with the SHA-3 suffix and padding, a multiple of `rate` bytes. -/
def padded (rate : Nat) (message : Bytes) : Bytes :=
  let missing := rate - message.length % rate
  if missing = 1 then message ++ [0x86]
  else message ++ 0x06 :: List.replicate (missing - 2) 0 ++ [0x80]

/-- The leading `size` bytes of the state after the padded message was absorbed. -/
def sponge (rate size : Nat) (message : Bytes) : Bytes :=
  let start : State := Vector.replicate 25 0
  let final := (Bytes.blocks rate (padded rate message)).foldl
    (fun s block => permute (absorb s block)) start
  (final.toList.flatMap Bytes.ofUInt64).take size

end Keccak

/-- The SHA-3 functions with a fixed digest length. -/
inductive HashFunction where
  | sha3_224
  | sha3_256
  | sha3_384
  | sha3_512
  deriving DecidableEq, Repr

namespace HashFunction

/-- The digest length of the widest function. -/
def maxSize : Nat := 64

/-- The digest length in bytes. -/
def outputSize : HashFunction → Nat
  | sha3_224 => 28
  | sha3_256 => 32
  | sha3_384 => 48
  | sha3_512 => 64

/-- The usual name of the function. -/
def name : HashFunction → String
  | sha3_224 => "sha3_224"
  | sha3_256 => "sha3_256"
  | sha3_384 => "sha3_384"
  | sha3_512 => "sha3_512"

/-- The function with this name. -/
def ofName? : String → Option HashFunction
  | "sha3_224" => some sha3_224
  | "sha3_256" => some sha3_256
  | "sha3_384" => some sha3_384
  | "sha3_512" => some sha3_512
  | _ => none

/-- The function with the shortest digest of at least `size` bytes. -/
def forSize? (size : Nat) : Option HashFunction :=
  if size ≤ 28 then some sha3_224
  else if size ≤ 32 then some sha3_256
  else if size ≤ 48 then some sha3_384
  else if size ≤ 64 then some sha3_512
  else none

theorem le_outputSize_of_forSize? {size : Nat} {f : HashFunction} (h : forSize? size = some f) :
    size ≤ f.outputSize := by
  unfold forSize? at h
  split at h
  · cases h; assumption
  split at h
  · cases h; assumption
  split at h
  · cases h; assumption
  split at h
  · cases h; assumption
  · cases h

/-- The digest of a message. -/
def digest (f : HashFunction) (message : Bytes) : Bytes :=
  Keccak.sponge (200 - 2 * f.outputSize) f.outputSize message

end HashFunction

end ColumnMask
