import ColumnMask.Bytes
import ColumnMask.Error
import ColumnMask.Text

/-!
# Addresses and identifiers

Addresses of the internet and of hardware, the subnets of the former, and universally unique
identifiers, each with its text.
-/

namespace ColumnMask

/-!
## Internet addresses

An address is a number below `2 ^ bits` of its family.

- `IpAddress.text`: dotted for version 4. For version 6 eight groups, of which the first longest run
  of two or more zero groups is left out, and a dotted end for addresses that stand for one of
  version 4.
- `IpAddress.parse?`: reads either form. A group may have leading zeros, a dotted number may not.
-/

/-- The two versions of addresses. -/
inductive IpFamily where
  | v4
  | v6
  deriving DecidableEq, Repr

/-- The length of an address in bits. -/
def IpFamily.bits : IpFamily → Nat
  | v4 => 32
  | v6 => 128

/-- An internet address. -/
structure IpAddress where
  family : IpFamily
  value : Nat
  value_lt : value < Nat.pow 2 family.bits
  deriving DecidableEq

namespace IpAddress

/-- The address with this number, taken modulo the number of addresses. -/
def ofNat (family : IpFamily) (n : Nat) : IpAddress :=
  ⟨family, n % Nat.pow 2 family.bits, Nat.mod_lt _ (Nat.two_pow_pos _)⟩

/-! ### Writing -/

/-- The four bytes of a number with points between them. -/
def dotted (n : Nat) : String :=
  ".".intercalate ([n / 16777216, n / 65536, n / 256, n].map fun x => toString (x % 256))

/-- The eight groups of sixteen bits, the most significant first. -/
def groups (n : Nat) : List Nat :=
  (List.range 8).map fun i => n / Nat.pow 65536 (7 - i) % 65536

/-- A group in hexadecimal digits without leading zeros. -/
def groupText (n : Nat) : String :=
  String.ofList (Nat.toDigits 16 n)

/-- Groups with colons between them. -/
def groupsText (gs : List Nat) : String :=
  ":".intercalate (gs.map groupText)

/-- The number of zero groups from position `i` on. -/
def zeroRun (gs : List Nat) (i : Nat) : Nat :=
  ((gs.drop i).takeWhile (· == 0)).length

/-- The position of the first longest run of zero groups. -/
def longestRun (gs : List Nat) : Nat :=
  (List.range gs.length).foldl (fun best i => if zeroRun gs best < zeroRun gs i then i else best) 0

/-- The groups with the longest run of zeros left out, if it has at least two. -/
def compressedText (gs : List Nat) : String :=
  let start := longestRun gs
  let length := zeroRun gs start
  if length < 2 then groupsText gs
  else groupsText (gs.take start) ++ "::" ++ groupsText (gs.drop (start + length))

/-- The usual text of an address. -/
def text (a : IpAddress) : String :=
  match a.family with
  | .v4 => dotted a.value
  | .v6 =>
    if a.value / 4294967296 = 0xffff then "::ffff:" ++ dotted (a.value % 4294967296)
    else compressedText (groups a.value)

/-! ### Reading -/

/-- What follows a given character. -/
def after? (c : Char) : List Char → Option (List Char)
  | c' :: rest => if c = c' then some rest else none
  | [] => none

/-- A decimal number of up to three digits without leading zeros, below 256. -/
def octet? (cs : List Char) : Option (Nat × List Char) :=
  let digits := cs.takeWhile Text.isDigit
  let n := Text.digitsValue digits
  if digits.isEmpty ∨ 3 < digits.length ∨ 255 < n ∨ (1 < digits.length ∧ digits.head? = some '0')
  then none
  else some (n, cs.drop digits.length)

/-- Four decimal numbers with points between them. -/
def dotted? (cs : List Char) : Option (Nat × List Char) := do
  let (a, cs) ← octet? cs
  let (b, cs) ← octet? (← after? '.' cs)
  let (c, cs) ← octet? (← after? '.' cs)
  let (d, cs) ← octet? (← after? '.' cs)
  return (((a * 256 + b) * 256 + c) * 256 + d, cs)

/-- A hexadecimal number of up to four digits. -/
def group? (cs : List Char) : Option (Nat × List Char) :=
  let digits := cs.takeWhile fun c => (Text.hexValue? c).isSome
  if digits.isEmpty ∨ 4 < digits.length then none
  else some (digits.foldl (fun n c => 16 * n + (Text.hexValue? c).getD 0) 0, cs.drop digits.length)

/-- As many groups as there are, up to `room`, with colons between them. Two groups may be written
as a dotted end, after which there are no more; whether that happened is given too. -/
def groups? : (room : Nat) → (first : Bool) → List Char → List Nat × Bool × List Char
  | 0, _, cs => ([], false, cs)
  | room + 1, first, cs =>
    match if first then some cs else after? ':' cs with
    | none => ([], false, cs)
    | some body =>
      match if 1 ≤ room then dotted? body else none with
      | some (n, rest) => ([n / 65536, n % 65536], true, rest)
      | none =>
        match group? body with
        | none => ([], false, cs)
        | some (g, rest) =>
          let (gs, dottedEnd, rest) := groups? room false rest
          (g :: gs, dottedEnd, rest)

/-- Eight groups; `::` stands for as many zero groups as are missing, at least one. -/
def eightGroups? (cs : List Char) : Option (List Nat × List Char) := do
  let (head, dottedEnd, cs) := groups? 8 true cs
  if head.length = 8 then return (head, cs)
  if dottedEnd then none
  let cs ← after? ':' (← after? ':' cs)
  let (tail, _, cs) := groups? (7 - head.length) true cs
  return (head ++ List.replicate (8 - head.length - tail.length) 0 ++ tail, cs)

/-- Reads a whole text as an address of either family. -/
def parse? (s : String) : Option IpAddress :=
  let cs := s.toList
  match dotted? cs with
  | some (n, rest) => if rest.isEmpty then some (ofNat .v4 n) else none
  | none =>
    match eightGroups? cs with
    | some (gs, []) => some (ofNat .v6 (gs.foldl (fun n g => 65536 * n + g) 0))
    | _ => none

end IpAddress

/-!
## Subnets

A subnet is a network address, all of whose host bits are zero, and the number of bits that it
fixes.

- `Subnet.make?`: the subnet that an address lies in; clears the host bits.
- `Subnet.contains`: whether an address has the network's family and fixed bits.
- `Subnet.usableHosts`: the number of addresses other than the first and the last one.
- `Subnet.parse`: reads an address and a number of bits with a slash between them.
-/

/-- A network address and the number of bits that it fixes. -/
structure Subnet where
  network : IpAddress
  prefixLength : Nat
  prefixLength_le : prefixLength ≤ network.family.bits
  aligned : network.value % Nat.pow 2 (network.family.bits - prefixLength) = 0
  deriving DecidableEq

namespace Subnet

/-- The address and the number of bits, with a slash between them. -/
def write (a : IpAddress) (prefixLength : Nat) : String :=
  a.text ++ "/" ++ toString prefixLength

/-- The text of a subnet. -/
def text (s : Subnet) : String := write s.network s.prefixLength

/-- The number of bits that are not fixed. -/
def hostBits (s : Subnet) : Nat := s.network.family.bits - s.prefixLength

/-- An address with its last `h` bits set to zero. -/
def masked (a : IpAddress) (h : Nat) : IpAddress :=
  ⟨a.family, a.value - a.value % Nat.pow 2 h, Nat.lt_of_le_of_lt (Nat.sub_le _ _) a.value_lt⟩

/-- The subnet that an address lies in. -/
def make? (a : IpAddress) (prefixLength : Nat) : Except ConfigError Subnet :=
  if h : prefixLength ≤ a.family.bits then
    .ok ⟨masked a (a.family.bits - prefixLength), prefixLength, h, by
      simp only [masked]
      rw [Nat.sub_mod_eq_zero_of_mod_eq]
      exact (Nat.mod_mod _ _).symm⟩
  else .error (.invalidSubnet (write a prefixLength))

/-- Whether an address has the network's family and fixed bits. -/
def contains (s : Subnet) (a : IpAddress) : Bool :=
  decide (a.family = s.network.family) && (masked a s.hostBits).value == s.network.value

/-- The number of addresses other than the first and the last one; there has to be one. -/
def usableHosts (s : Subnet) : Except ConfigError Nat :=
  if s.hostBits ≤ 1 then .error (.subnetTooSmall s.text) else .ok (Nat.pow 2 s.hostBits - 2)

/-- The address with this distance from the network address. -/
def host (s : Subnet) (n : Nat) : IpAddress :=
  .ofNat s.network.family (s.network.value + n)

/-- A number below 256 with an optional plus sign. -/
def prefixLength? (cs : List Char) : Option Nat :=
  let digits := match cs with
    | '+' :: rest => rest
    | _ => cs
  let n := Text.digitsValue digits
  if digits.isEmpty ∨ ¬ digits.all Text.isDigit ∨ 255 < n then none else some n

/-- Reads a subnet with blanks around it. -/
def parse (s : String) : Except ConfigError Subnet :=
  let cs := Text.trimChars s.toList
  let address := cs.takeWhile (· != '/')
  match cs.dropWhile (· != '/') with
  | [] => .error (.invalidSubnet s)
  | _ :: bits =>
    match IpAddress.parse? (String.ofList address), prefixLength? bits with
    | some a, some n => make? a n
    | _, _ => .error (.invalidSubnet s)

end Subnet

/-!
## Hardware addresses

An address of six octets. The first octet tells in its lowest bit whether the address belongs to one
card or to a group, and in the next bit whether it is unique in the world or given out locally.

- `MacAddress.text`, `MacAddress.parse?`: six pairs of hexadecimal digits with colons or dashes.
- `CastType`, `ManagementType`: what an address is, or has to be.
-/

/-- Addresses of one card, of a group, or either. -/
inductive CastType where
  | individual
  | group
  | any
  deriving DecidableEq, Repr

namespace CastType

/-- The name in configurations and answers. -/
def name : CastType → String
  | individual => "individual"
  | group => "group"
  | any => "any"

/-- All names, in the order of the declaration. -/
def all : List CastType := [individual, group, any]

/-- Reads a name in any case, or one of the synonyms. -/
def ofName? (text : String) : Option CastType :=
  match Text.lowercase text with
  | "individual" | "unicast" => some individual
  | "group" | "multicast" => some group
  | "any" => some any
  | _ => none

/-- The message for a text that is no such name. -/
def unknownName (text : String) : String :=
  s!"Unknown cast type: {text}. Valid options: individual, group, any"

end CastType

/-- Addresses that are unique in the world, given out locally, or either. -/
inductive ManagementType where
  | universal
  | locally
  | any
  deriving DecidableEq, Repr

namespace ManagementType

/-- The name in configurations and answers. -/
def name : ManagementType → String
  | universal => "universal"
  | locally => "local"
  | any => "any"

/-- All names, in the order of the declaration. -/
def all : List ManagementType := [universal, locally, any]

/-- Reads a name in any case, or one of the synonyms. -/
def ofName? (text : String) : Option ManagementType :=
  match Text.lowercase text with
  | "universal" | "global" => some universal
  | "local" => some locally
  | "any" => some any
  | _ => none

/-- The message for a text that is no such name. -/
def unknownName (text : String) : String :=
  s!"Unknown management type: {text}. Valid options: universal, local, any"

end ManagementType

/-- A hardware address. -/
structure MacAddress where
  octets : Vector UInt8 6
  deriving DecidableEq

namespace MacAddress

/-- The octets in hexadecimal digits with colons between them. -/
def text (a : MacAddress) : String :=
  ":".intercalate (a.octets.toList.map fun b => Bytes.toHex [b])

/-- The maker's share of an address: its first three octets. -/
def vendor (a : MacAddress) : Bytes := a.octets.toList.take 3

/-- Whether the address belongs to one card or to a group. -/
def castType (a : MacAddress) : CastType :=
  if a.octets[0] &&& 1 = 0 then .individual else .group

/-- Whether the address is unique in the world or given out locally. -/
def managementType (a : MacAddress) : ManagementType :=
  if a.octets[0] &&& 2 = 0 then .universal else .locally

/-- An octet written with two characters; the first may be a plus sign instead of a digit. -/
def octet? : List Char → Option UInt8
  | [high, low] => do
    let h ← if high = '+' then some 0 else Text.hexValue? high
    let l ← Text.hexValue? low
    return UInt8.ofNat (16 * h + l)
  | _ => none

/-- Reads six octets with dashes between them if there is a dash at all, else with colons. -/
def parse? (s : String) : Option MacAddress :=
  let cs := s.toList
  let sep := if cs.contains '-' then '-' else ':'
  match (Text.splitAll sep cs).mapM octet? with
  | some [a, b, c, d, e, f] => some ⟨#v[a, b, c, d, e, f]⟩
  | _ => none

/-- Reads an address; the error shows the text. -/
def parse (s : String) : Except DecodeError MacAddress :=
  match parse? s with
  | some a => .ok a
  | none => .error (.invalidMac s)

end MacAddress

/-!
## Universally unique identifiers

Sixteen bytes, written as hexadecimal digits with dashes after the fourth, sixth, eighth and tenth
byte. `Uuid.parse?` also reads the digits alone, and the dashed form in braces or after `urn:uuid:`.
-/

/-- An identifier of sixteen bytes. -/
structure Uuid where
  bytes : Vector UInt8 16
  deriving DecidableEq

namespace Uuid

/-- The usual text: lowercase digits with four dashes. -/
def text (u : Uuid) : String :=
  let digits := (Bytes.toHex u.bytes.toList).toList
  let part (start length : Nat) : String := String.ofList ((digits.drop start).take length)
  "-".intercalate [part 0 8, part 8 4, part 12 4, part 16 4, part 20 12]

/-- The identifier written by 32 digits. -/
def ofDigits? (digits : List Char) : Option Uuid :=
  match Bytes.ofHex (String.ofList digits) with
  | .ok bytes =>
    if h : bytes.length = 16 then some ⟨⟨bytes.toArray, by simpa using h⟩⟩ else none
  | .error _ => none

/-- The identifier written by digits with dashes in their places. -/
def ofDashed? (cs : List Char) : Option Uuid :=
  let isDash (i : Nat) : Bool := cs[i]? == some '-'
  if cs.length = 36 ∧ isDash 8 ∧ isDash 13 ∧ isDash 18 ∧ isDash 23 then
    ofDigits? (cs.take 8 ++ (cs.drop 9).take 4 ++ (cs.drop 14).take 4 ++ (cs.drop 19).take 4 ++
      cs.drop 24)
  else none

/-- Reads any of the four forms. -/
def parse? (s : String) : Option Uuid :=
  let cs := s.toList
  if cs.length = 32 then ofDigits? cs
  else if cs.length = 36 then ofDashed? cs
  else if cs.length = 38 ∧ cs.head? = some '\x7b' ∧ cs.getLast? = some '\x7d' then
    ofDashed? ((cs.drop 1).take 36)
  else if cs.take 9 = "urn:uuid:".toList then ofDashed? (cs.drop 9)
  else none

end Uuid

end ColumnMask
