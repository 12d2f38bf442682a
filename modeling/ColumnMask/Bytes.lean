import ColumnMask.Text

/-!
# Byte strings

Blocks of bytes travel through the library as lists. This module reads fixed-width words from the
front of such a list and writes them back.

- `Bytes.toNatLE`, `Bytes.toNatBE`: the number whose base-256 digits are the bytes, the least or
  the most significant byte first.
- `Bytes.ofNatLE`: the low base-256 digits of a number, least significant first.
- `Bytes.readUInt64`, `Bytes.readInt64`, `Bytes.readUInt32`, `Bytes.readUInt16`: a short list is
  padded with zeros on the right, and a long one contributes its leading bytes only.
- `Bytes.ofUInt64`, `Bytes.ofInt64`: eight bytes, least significant first.
- `Bytes.ofString`: the encoding of a text, as generators receive it.
- `Bytes.maxRoom`: the most bytes that one allocation can have.
-/

namespace ColumnMask

/-- A string of bytes. -/
abbrev Bytes := List UInt8

namespace Bytes

/-- The most bytes that one allocation can have: the greatest signed word of 64 bits. -/
def maxRoom : Nat := 9223372036854775807

/-! ## Numbers as digits in base 256 -/

/-- The number with the given base-256 digits, least significant first. -/
def toNatLE : Bytes → Nat
  | [] => 0
  | b :: rest => b.toNat + 256 * toNatLE rest

/-- The number with the given base-256 digits, most significant first. -/
def toNatBE (data : Bytes) : Nat :=
  data.foldl (fun n b => 256 * n + b.toNat) 0

/-- The `width` low base-256 digits of a number, least significant first. -/
def ofNatLE : (width : Nat) → Nat → Bytes
  | 0, _ => []
  | width + 1, n => UInt8.ofNat n :: ofNatLE width (n / 256)

@[simp] theorem toNatLE_nil : toNatLE [] = 0 := rfl

@[simp] theorem toNatLE_cons (b : UInt8) (rest : Bytes) :
    toNatLE (b :: rest) = b.toNat + 256 * toNatLE rest := rfl

@[simp] theorem length_ofNatLE (width n : Nat) : (ofNatLE width n).length = width := by
  induction width generalizing n with
  | zero => rfl
  | succ width ih => simp [ofNatLE, ih]

/-! ## Words -/

/-- Exactly `width` bytes: the leading ones, with zeros after them where there are too few. -/
def pad (width : Nat) (data : Bytes) : Bytes :=
  data.take width ++ List.replicate (width - data.length) 0

@[simp] theorem length_pad (width : Nat) (data : Bytes) : (pad width data).length = width := by
  simp only [pad, List.length_append, List.length_take, List.length_replicate]
  omega

/-- The unsigned 64-bit word at the front. -/
def readUInt64 (data : Bytes) : UInt64 :=
  UInt64.ofNat (toNatLE (pad 8 data))

/-- The 64-bit word at the front in two's complement. -/
def readInt64 (data : Bytes) : Int64 :=
  (readUInt64 data).toInt64

/-- The unsigned 32-bit word at the front. -/
def readUInt32 (data : Bytes) : UInt32 :=
  UInt32.ofNat (toNatLE (pad 4 data))

/-- The unsigned 16-bit word at the front. -/
def readUInt16 (data : Bytes) : UInt16 :=
  UInt16.ofNat (toNatLE (pad 2 data))

/-- The eight bytes of a word, least significant first. -/
def ofUInt64 (v : UInt64) : Bytes :=
  ofNatLE 8 v.toNat

/-- The eight bytes of a signed word in two's complement, least significant first. -/
def ofInt64 (v : Int64) : Bytes :=
  ofUInt64 v.toUInt64

@[simp] theorem length_ofUInt64 (v : UInt64) : (ofUInt64 v).length = 8 := length_ofNatLE ..

/-! ## Blocks and texts -/

/-- Consecutive runs of `width` bytes; the last one may be shorter. -/
def blocks (width : Nat) (data : Bytes) : List Bytes :=
  (List.range ((data.length + width - 1) / width)).map fun i => (data.drop (i * width)).take width

/-- The UTF-8 encoding of a text. -/
def ofString (s : String) : Bytes :=
  s.toUTF8.data.toList

end Bytes

/-!
## Hexadecimal text

- `Bytes.toHex`: two lowercase digits for each byte.
- `Bytes.ofHex`: reads digits of either case. An odd number of bytes of text is reported before any
  character is looked at; otherwise the first character that is no digit is reported with its
  position, both counted in bytes of the text.
-/

/-- Why a text is no hexadecimal byte string. -/
inductive HexError where
  /-- The text has an odd number of bytes. -/
  | oddLength
  /-- The byte at this position, shown as the character of that number, is no digit. -/
  | notADigit (c : Char) (position : Nat)
  deriving DecidableEq, Repr

namespace HexError

/-- The wording of the error. -/
def message : HexError → String
  | .oddLength => "Odd number of digits"
  | .notADigit c position =>
    "Invalid character " ++ Text.apostrophed c ++ " at position " ++ toString position

end HexError

namespace Bytes

/-- Two lowercase hexadecimal digits for each byte. -/
def toHex (data : Bytes) : String :=
  String.ofList (data.flatMap fun b => [Text.hexDigit (b.toNat / 16), Text.hexDigit (b.toNat % 16)])

/-- The byte written by each pair of digits, the first pair being at `position`. -/
def ofHexPairs : (position : Nat) → List UInt8 → Except HexError Bytes
  | position, high :: low :: rest =>
    let highDigit := Char.ofNat high.toNat
    let lowDigit := Char.ofNat low.toNat
    match Text.hexValue? highDigit, Text.hexValue? lowDigit with
    | none, _ => .error (.notADigit highDigit position)
    | _, none => .error (.notADigit lowDigit (position + 1))
    | some h, some l => do
      let tail ← ofHexPairs (position + 2) rest
      return UInt8.ofNat (16 * h + l) :: tail
  | _, _ => .ok []

/-- Reads pairs of hexadecimal digits. -/
def ofHex (text : String) : Except HexError Bytes :=
  let raw := ofString text
  if raw.length % 2 = 1 then .error .oddLength else ofHexPairs 0 raw

end Bytes

end ColumnMask
