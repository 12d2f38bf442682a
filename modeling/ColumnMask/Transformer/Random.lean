import ColumnMask.Address
import ColumnMask.CalendarUnit
import ColumnMask.Value
import ColumnMask.Window

/-!
# Random values

The rules that draw something new.
-/

namespace ColumnMask

/-!
## Random numbers

The answer of the generator is read as a number and brought into a window; the window of a single
call takes precedence.

- `RandomInteger.read`, `RandomFloat.read`: eight bytes, as a word or as a ratio.
- `RandomDecimal.read`: as many bytes as the window needs, most significant first, counted in the
  smallest steps of the precision.
- `RandomBigInteger.read`: the same in whole numbers.

The number of bytes is fixed by the default window. A window for a single call that needs more of
them is refused before the generator is asked.
-/

/-! ### 64-bit numbers -/

/-- Random 64-bit integers. -/
structure RandomInteger where
  window : Window Int64

namespace RandomInteger

/-- The integer for a block. -/
def read (r : RandomInteger) (window : Option (Window Int64)) (block : Bytes) : Int64 :=
  (window.getD r.window).foldWord (Bytes.readUInt64 block)

/-- Asks with the given input. -/
def plan (r : RandomInteger) (window : Option (Window Int64)) (input : Bytes) : Plan where
  input := input
  read block := .ok (.integer (r.read window block))

end RandomInteger

/-- Random floats. -/
structure RandomFloat where
  window : FloatWindow

namespace RandomFloat

/-- The float for a block. -/
def read (r : RandomFloat) (window : Option FloatWindow) (block : Bytes) : Float :=
  (window.getD r.window).interpolate (Binary64.unitRatio (Bytes.readInt64 block))

/-- Asks with the given input. -/
def plan (r : RandomFloat) (window : Option FloatWindow) (input : Bytes) : Plan where
  input := input
  read block := .ok (.float (r.read window block))

end RandomFloat

/-! ### Numbers of any size -/

/-- Refuses what needs more bytes than there are. -/
def checkCapacity (required available : Nat) : Except InsufficientSize Unit :=
  if available < required then .error { required, available } else .ok ()

/-- Random decimals with a fixed number of digits after the point. -/
structure RandomDecimal where
  window : DecimalWindow
  precision : Nat
  precision_eq : window.precision = some precision

namespace RandomDecimal

/-- Sets the digits after the point. -/
def make? (window : DecimalWindow) (precision : Nat) : Except ConfigError RandomDecimal :=
  if h : precision ≤ DecimalWindow.maxPrecision then
    .ok ⟨⟨window.window, some precision, DecimalWindow.le_of_mem_some h⟩, precision, rfl⟩
  else .error (.invalidPrecision precision)

/-- The bytes needed to reach every number of the window. -/
def required (r : RandomDecimal) : Nat := r.window.byteLength r.precision

/-- The decimal for a block. -/
def read (r : RandomDecimal) (window : Option DecimalWindow) (block : Bytes) : Decimal :=
  (window.getD r.window).fold ⟨Bytes.toNatBE block, r.precision⟩

/-- Asks with the given input, unless the window for this call is too wide. -/
def plan (r : RandomDecimal) (window : Option DecimalWindow) (input : Bytes) :
    Except TransformError Plan :=
  let plan : Plan := { input, read := fun block => .ok (.decimal (r.read window block)) }
  match window with
  | none => .ok plan
  | some w =>
    match checkCapacity (w.byteLength r.precision) r.required with
    | .ok _ => .ok plan
    | .error e => .error (.capacity e)

end RandomDecimal

/-- Random integers of any size. -/
structure RandomBigInteger where
  window : Window Int

namespace RandomBigInteger

/-- The bytes needed to reach every integer of the window. -/
def required (r : RandomBigInteger) : Nat := r.window.byteLength

/-- The integer for a block. -/
def read (r : RandomBigInteger) (window : Option (Window Int)) (block : Bytes) : Int :=
  (window.getD r.window).foldInteger (Bytes.toNatBE block)

/-- Asks with the given input, unless the window for this call is too wide. -/
def plan (r : RandomBigInteger) (window : Option (Window Int)) (input : Bytes) :
    Except TransformError Plan :=
  let plan : Plan :=
    { input, read := fun block => .ok (.decimal (Decimal.ofInt (r.read window block))) }
  match window with
  | none => .ok plan
  | some w =>
    match checkCapacity w.byteLength r.required with
    | .ok _ => .ok plan
    | .error e => .error (.capacity e)

end RandomBigInteger

/-!
## Identifiers, truth values, choices and addresses

- `RandomUuid.read`: the sixteen bytes of the block.
- `RandomBool.read`: true when the byte is odd.
- `RandomChoice.read`: one of a list, by a word of four bytes.
- `RandomAddress.read`: an address of a subnet other than the first and the last one. A subnet for a
  single call that has no such address is refused before the generator is asked.
- `RandomMac.read`, `RandomMac.replace`: a hardware address whose kind is forced by policy, or one
  that keeps the maker's share of the masked one.
-/

/-! ### Identifiers and truth values -/

namespace RandomUuid

/-- The identifier made of the first sixteen bytes. -/
def read (block : Bytes) : Uuid :=
  ⟨Vector.ofFn fun i => block.getD i.val 0⟩

/-- Asks with the given input. -/
def plan (input : Bytes) : Plan where
  input := input
  read block := .ok (.uuid (read block))

end RandomUuid

namespace RandomBool

/-- Whether the first byte is odd. -/
def read (block : Bytes) : Bool :=
  block.getD 0 0 % 2 == 1

/-- Asks with the given input. -/
def plan (input : Bytes) : Plan where
  input := input
  read block := .ok (.bool (read block))

end RandomBool

/-! ### Choices -/

/-- A choice from a list. -/
structure RandomChoice where
  choices : List Value
  choices_pos : 0 < choices.length

namespace RandomChoice

/-- Checks that there is something to choose from. -/
def make? (choices : List Value) : Except ConfigError RandomChoice :=
  if h : 0 < choices.length then .ok ⟨choices, h⟩ else .error .emptyChoices

/-- The value that a block chooses. -/
def read (r : RandomChoice) (block : Bytes) : Value :=
  r.choices.get ⟨(Bytes.readUInt32 block).toNat % r.choices.length, Nat.mod_lt _ r.choices_pos⟩

/-- Asks with the given input. -/
def plan (r : RandomChoice) (input : Bytes) : Plan where
  input := input
  read block := .ok (r.read block)

end RandomChoice

/-! ### Internet addresses -/

/-- Addresses of a subnet. -/
structure RandomAddress where
  subnet : Subnet
  usable : 1 < subnet.hostBits

namespace RandomAddress

/-- Checks that there is a usable address. -/
def make? (subnet : Subnet) : Except ConfigError RandomAddress :=
  if h : 1 < subnet.hostBits then .ok ⟨subnet, h⟩ else .error (.subnetTooSmall subnet.text)

/-- The number for a block: four or sixteen bytes, most significant first. -/
def number (family : IpFamily) (block : Bytes) : Nat :=
  Bytes.toNatBE (block.take (family.bits / 8))

/-- The address for a block in a subnet with this number of usable addresses. -/
def addressIn (subnet : Subnet) (usable : Nat) (block : Bytes) : IpAddress :=
  subnet.host (number subnet.network.family block % usable + 1)

/-- Asks with the given input, unless the subnet for this call has no usable address. -/
def plan (r : RandomAddress) (subnet : Option Subnet) (input : Bytes) :
    Except TransformError Plan :=
  let subnet := subnet.getD r.subnet
  match subnet.usableHosts with
  | .ok usable => .ok { input, read := fun block => .ok (.ip (addressIn subnet usable block)) }
  | .error e => .error (.decode (.runtimeSubnet e))

end RandomAddress

/-! ### Hardware addresses -/

/-- Hardware addresses of a forced kind. -/
structure RandomMac where
  cast : CastType
  management : ManagementType
  keepVendor : Bool

namespace RandomMac

/-- The first octet with the bits that tell the kind forced. -/
def forceKind (r : RandomMac) (octet : UInt8) : UInt8 :=
  let octet := match r.management with
    | .universal => octet &&& 0xfd
    | .locally => octet ||| 0x02
    | .any => octet
  match r.cast with
  | .individual => octet &&& 0xfe
  | .group => octet ||| 0x01
  | .any => octet

/-- The address for a block. -/
def read (r : RandomMac) (block : Bytes) : MacAddress :=
  ⟨Vector.ofFn fun i =>
    if i.val = 0 then r.forceKind (block.getD 0 0) else block.getD i.val 0⟩

/-- The address for a block with the maker's share of another one. -/
def replace (a : MacAddress) (block : Bytes) : MacAddress :=
  ⟨Vector.ofFn fun i => if i.val < 3 then a.octets[i] else block.getD i.val 0⟩

/-- Asks with the text of an address, whose maker's share is kept if that is wanted. -/
def planFor (r : RandomMac) (a : MacAddress) : Plan where
  input := Bytes.ofString a.text
  read block := .ok (.mac (if r.keepVendor then replace a block else r.read block))

/-- Asks with the given input. -/
def plan (r : RandomMac) (input : Bytes) : Plan where
  input := input
  read block := .ok (.mac (r.read block))

end RandomMac

/-!
## Random texts

Texts over an alphabet, with a length between two bounds. The first four bytes choose the length.
The others are read as units of one byte, or of two for alphabets of more than 256 characters; when
the units run out, they are read again from the first one on, with one more added to each of them
every time around.

- `RandomText.lengthOf`, `RandomText.charAt`: the length and each character for a block.
- `RandomText.roomFor?`: the room that a text takes as it grows.
- `RandomText.read`: the text for a block, unless it does not get its room.
- `RandomText.required`: a digest that holds the length and, as far as the longest digest reaches,
  a unit for every character.
-/

/-- Random texts over an alphabet. -/
structure RandomText where
  alphabet : List Char
  minLength : Nat
  maxLength : Nat
  alphabet_pos : 0 < alphabet.length
  min_le_max : minLength ≤ maxLength
  maxLength_lt : maxLength < Nat.pow 2 64

namespace RandomText

/-- Checks the alphabet first and then the lengths. -/
def make? (alphabet : String) (minLength maxLength : UInt64) : Except ConfigError RandomText :=
  let min := minLength.toNat
  let max := maxLength.toNat
  if ha : 0 < alphabet.toList.length then
    if hl : min ≤ max then .ok ⟨alphabet.toList, min, max, ha, hl, maxLength.toNat_lt⟩
    else .error (.invalidLength min max)
  else .error .emptyAlphabet

/-- The number of bytes that choose one character. -/
def unitLength (r : RandomText) : Nat :=
  if 256 < r.alphabet.length then 2 else 1

/-- The number of bytes that a text takes. -/
def required (r : RandomText) : Nat :=
  match HashFunction.forSize? (min HashFunction.maxSize (r.maxLength * r.unitLength + 4)) with
  | some f => f.outputSize
  | none => HashFunction.maxSize

/-- The length of the text for a block. -/
def lengthOf (r : RandomText) (block : Bytes) : Nat :=
  r.minLength + (Bytes.readUInt32 (block.take 4)).toNat % (r.maxLength - r.minLength + 1)

/-- The unit with number `i` after the first four bytes. -/
def unit (r : RandomText) (block : Bytes) (i : Nat) : Nat :=
  Bytes.toNatLE ((block.drop (4 + i * r.unitLength)).take r.unitLength)

/-- The character at position `i` when there are `units` units. -/
def charAt (r : RandomText) (block : Bytes) (units i : Nat) : Char :=
  r.alphabet.get ⟨(r.unit block (i % units) + i / units) % r.alphabet.length,
    Nat.mod_lt _ r.alphabet_pos⟩

/-- The characters for a block. -/
def chars (r : RandomText) (block : Bytes) : List Char :=
  let units := (block.length - 4) / r.unitLength
  (List.range (r.lengthOf block)).map (r.charAt block units)

/-- The room of a text that has used some bytes of its room when characters are added to it. Where
one does not fit, the room doubles, to eight bytes at least. -/
def roomFor? (room used : Nat) : List Char → Option Nat
  | [] => some room
  | c :: rest =>
    let used := used + c.utf8Size
    let room := if used ≤ room then room else max 8 (max (2 * room) used)
    if room ≤ Bytes.maxRoom then roomFor? room used rest else none

/-- The text for a block, which starts with a byte of room for each character. Nothing comes out of
a panic: where the number of lengths is no word, and where one allocation cannot have the room. -/
def read (r : RandomText) (block : Bytes) : Option String :=
  let length := r.lengthOf block
  if r.maxLength - r.minLength + 1 < Nat.pow 2 64 ∧ length ≤ Bytes.maxRoom then
    (roomFor? length 0 (r.chars block)).map fun _ => String.ofList (r.chars block)
  else none

/-- Asks with the given input. -/
def plan (r : RandomText) (input : Bytes) : Plan where
  input := input
  read block :=
    match r.read block with
    | some s => .ok (.text s)
    | none => .error .panic

end RandomText

/-!
## Random instants

Eight bytes of seconds and eight of nanoseconds are folded into a window and then truncated without
leaving it. `RandomTime.make?` refuses a unit of which the window holds no whole one.
-/

/-- Random instants of a window, if wanted whole units only. -/
structure RandomTime where
  window : Window Instant
  unit : Option CalendarUnit

namespace RandomTime

/-- The number of bytes that an instant takes. -/
def length : Nat := 16

/-- Checks that the window holds a whole unit. -/
def make? (window : Window Instant) (unit : Option CalendarUnit) : Except ConfigError RandomTime :=
  match unit with
  | none => .ok ⟨window, none⟩
  | some unit =>
    match unit.truncateWithin window.min (some window.min) (some window.max) with
    | .ok _ => .ok ⟨window, some unit⟩
    | .error e => .error e

/-- The instant for a block. -/
def read (r : RandomTime) (window : Option (Window Instant)) (block : Bytes) :
    Except DecodeError Instant := do
  let seconds := UInt64.ofNat (Bytes.readInt64 (block.take 8)).toInt.natAbs
  let nanos := (Bytes.readUInt64 ((block.drop 8).take 8)).toNat % 1000000000
  let window := window.getD r.window
  let t ← window.foldTime seconds nanos
  match r.unit with
  | none => return t
  | some unit =>
    match unit.truncateWithin t (some window.min) (some window.max) with
    | .ok out => return out
    | .error e => .error (.runtimeLimiter e)

/-- Asks with the given input. -/
def plan (r : RandomTime) (window : Option (Window Instant)) (input : Bytes) : Plan where
  input := input
  read block :=
    match r.read window block with
    | .ok out => .ok (.timestamp out)
    | .error e => .error (.failure (.decode e))

end RandomTime

end ColumnMask
