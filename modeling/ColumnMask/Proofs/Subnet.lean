import Mathlib
import ColumnMask.Address
import ColumnMask.Proofs.AddressText

/-!
# Subnets

Which addresses a subnet has, and how its text is read.
-/

namespace ColumnMask

/-!
## Laws of subnets

The addresses of a subnet follow one another from the network address on, and none of them is beyond
the range of its family.

- `Subnet.host_value`: the addresses by their distance from the network address.
- `Subnet.Usable`: the addresses other than the first and the last one.
- `Subnet.usable_host`: these are the ones whose distance is between zero and the last one.
-/

namespace Subnet

variable {s : Subnet} {n : Nat}

/-- All addresses of a subnet are addresses of its family. -/
theorem network_add_le (s : Subnet) :
    s.network.value + 2 ^ s.hostBits ≤ 2 ^ s.network.family.bits := by
  have hbits : s.hostBits ≤ s.network.family.bits := Nat.sub_le _ _
  have hlt : s.network.value < 2 ^ s.network.family.bits := s.network.value_lt
  -- the network address and the end of the family are multiples of the subnet's size
  obtain ⟨k, hk⟩ : 2 ^ s.hostBits ∣ s.network.value := Nat.dvd_of_mod_eq_zero s.aligned
  obtain ⟨m, hm⟩ : 2 ^ s.hostBits ∣ 2 ^ s.network.family.bits := Nat.pow_dvd_pow 2 hbits
  rw [hk, hm] at hlt ⊢
  have hkm : k + 1 ≤ m := Nat.lt_of_mul_lt_mul_left hlt
  calc 2 ^ s.hostBits * k + 2 ^ s.hostBits = 2 ^ s.hostBits * (k + 1) := by ring
    _ ≤ 2 ^ s.hostBits * m := Nat.mul_le_mul_left _ hkm

@[simp] theorem host_family (s : Subnet) (n : Nat) : (s.host n).family = s.network.family := rfl

/-- Within the subnet addresses are counted without wrapping around. -/
theorem host_value (h : n < 2 ^ s.hostBits) : (s.host n).value = s.network.value + n := by
  have hle := s.network_add_le
  exact Nat.mod_eq_of_lt (by omega : s.network.value + n < 2 ^ s.network.family.bits)

theorem contains_host (h : n < 2 ^ s.hostBits) : s.contains (s.host n) = true := by
  have hmod : (s.network.value + n) % 2 ^ s.hostBits = n := by
    rw [Nat.add_mod, show s.network.value % 2 ^ s.hostBits = 0 from s.aligned, Nat.zero_add,
      Nat.mod_mod, Nat.mod_eq_of_lt h]
  have hmasked : (masked (s.host n) s.hostBits).value = s.network.value := by
    show (s.host n).value - (s.host n).value % 2 ^ s.hostBits = s.network.value
    rw [host_value h, hmod, Nat.add_sub_cancel]
  simp [contains, hmasked]

/-- The addresses of a subnet other than the first and the last one. -/
structure Usable (s : Subnet) (a : IpAddress) : Prop where
  contained : s.contains a = true
  ne_first : a.value ≠ s.network.value
  ne_last : a.value ≠ s.network.value + 2 ^ s.hostBits - 1

theorem usable_host (hpos : 0 < n) (hlt : n < 2 ^ s.hostBits - 1) : s.Usable (s.host n) where
  contained := contains_host (by omega)
  ne_first := by
    rw [host_value (by omega)]
    omega
  ne_last := by
    rw [host_value (by omega)]
    omega

theorem usableHosts_eq (h : 1 < s.hostBits) : s.usableHosts = .ok (2 ^ s.hostBits - 2) :=
  if_neg (Nat.not_le.mpr h)

/-- Two host bits leave at least two usable addresses. -/
theorem four_le_pow (h : 1 < s.hostBits) : 4 ≤ 2 ^ s.hostBits :=
  Nat.pow_le_pow_right (by decide : 0 < 2) h

theorem pow_hostBits_le (s : Subnet) : 2 ^ s.hostBits ≤ 2 ^ 128 := by
  refine Nat.pow_le_pow_right (by decide) (le_trans (Nat.sub_le _ _) ?_)
  cases s.network.family
  · decide
  · decide

end Subnet

/-!
## The addresses of a subnet

A subnet is a prefix of bits: its addresses are those of the family that begin with them. They lie
one after another, and prefixes make subnets contain each other or have nothing in common.

- `IpAddress.bit`, `IpAddress.Agrees`: the bits of an address from the front, and addresses that
  begin alike.
- `Subnet.network_unique`: the address with the prefix and zeros after it.
- `Subnet.masked_value_eq_and`: the same, by a mask that is shifted as far as the word allows.
- `Subnet.contains_iff_agrees`, `Subnet.contains_iff_between`: the addresses by their bits and by
  their order.
- `Subnet.contains_iff_make?`: every address of a subnet makes the same subnet again.
- `Subnet.nested_or_disjoint`: two subnets of one family.
-/

namespace IpAddress

variable {a b c : IpAddress} {n : Nat}

/-! ### Bits from the front -/

/-- The bit at a place; the first one is the most significant. -/
def bit (a : IpAddress) (i : Nat) : Bool := a.value.testBit (a.family.bits - 1 - i)

/-- Two addresses of a family that have the same first bits. -/
structure Agrees (a b : IpAddress) (n : Nat) : Prop where
  family : a.family = b.family
  bits : ∀ i < n, a.bit i = b.bit i

theorem Agrees.symm (h : a.Agrees b n) : b.Agrees a n :=
  ⟨h.family.symm, fun i hi => (h.bits i hi).symm⟩

theorem Agrees.trans (hab : a.Agrees b n) (hbc : b.Agrees c n) : a.Agrees c n :=
  ⟨hab.family.trans hbc.family, fun i hi => (hab.bits i hi).trans (hbc.bits i hi)⟩

theorem Agrees.mono {m : Nat} (h : a.Agrees b n) (hle : m ≤ n) : a.Agrees b m :=
  ⟨h.family, fun i hi => h.bits i (by omega)⟩

/-- There are no bits beyond those of the family. -/
theorem testBit_of_le (a : IpAddress) {i : Nat} (h : a.family.bits ≤ i) :
    a.value.testBit i = false :=
  Nat.testBit_lt_two_pow (a.value_lt.trans_le (Nat.pow_le_pow_right (by decide) h))

/-- The first bits are what is left when the others are cut off. -/
theorem agrees_iff (hn : n ≤ a.family.bits) : a.Agrees b n ↔
    a.family = b.family ∧
      a.value / 2 ^ (a.family.bits - n) = b.value / 2 ^ (a.family.bits - n) := by
  constructor
  · rintro ⟨hfamily, hbits⟩
    refine ⟨hfamily, Nat.eq_of_testBit_eq fun i => ?_⟩
    rw [Nat.testBit_div_two_pow, Nat.testBit_div_two_pow]
    by_cases hi : i < n
    · -- counted from the front, these are the places before the `n`th
      have hbit := hbits (n - 1 - i) (by omega)
      unfold bit at hbit
      rw [← hfamily] at hbit
      rwa [show a.family.bits - 1 - (n - 1 - i) = i + (a.family.bits - n) by omega] at hbit
    · -- beyond the width no bit is set
      have hbits : b.family.bits = a.family.bits := by rw [hfamily]
      rw [a.testBit_of_le (by omega), b.testBit_of_le (by omega)]
  · rintro ⟨hfamily, hquotient⟩
    refine ⟨hfamily, fun i hi => ?_⟩
    have hbit := congrArg (fun q => q.testBit (n - 1 - i)) hquotient
    simp only [Nat.testBit_div_two_pow] at hbit
    unfold bit
    rw [← hfamily]
    rwa [show n - 1 - i + (a.family.bits - n) = a.family.bits - 1 - i by omega] at hbit

/-- The other bits are zero if nothing is left after the first ones. -/
theorem bits_zero_iff (hn : n ≤ a.family.bits) :
    (∀ i, n ≤ i → i < a.family.bits → a.bit i = false) ↔
      a.value % 2 ^ (a.family.bits - n) = 0 := by
  constructor
  · intro hzero
    refine Nat.eq_of_testBit_eq fun i => ?_
    rw [Nat.testBit_mod_two_pow, Nat.zero_testBit, Bool.and_eq_false_imp, decide_eq_true_eq]
    intro hi
    have hbit := hzero (a.family.bits - 1 - i) (by omega) (by omega)
    unfold bit at hbit
    rwa [show a.family.bits - 1 - (a.family.bits - 1 - i) = i by omega] at hbit
  · intro hzero i hlow hhigh
    have hbit := congrArg (fun r => r.testBit (a.family.bits - 1 - i)) hzero
    simp only [Nat.testBit_mod_two_pow, Nat.zero_testBit] at hbit
    rwa [decide_eq_true (by omega), Bool.true_and] at hbit

theorem ext_of_value (hfamily : a.family = b.family) (hvalue : a.value = b.value) : a = b := by
  obtain ⟨family, value, hlt⟩ := a
  obtain ⟨family', value', hlt'⟩ := b
  obtain rfl : family = family' := hfamily
  obtain rfl : value = value' := hvalue
  rfl

end IpAddress

namespace Subnet

open IpAddress

variable {s t : Subnet} {a x : IpAddress} {p h : Nat}

/-! ### Clearing bits -/

@[simp] theorem masked_family (a : IpAddress) (h : Nat) : (masked a h).family = a.family := rfl

theorem masked_value (a : IpAddress) (h : Nat) :
    (masked a h).value = 2 ^ h * (a.value / 2 ^ h) := by
  show a.value - a.value % 2 ^ h = _
  have hdiv := Nat.div_add_mod a.value (2 ^ h)
  omega

/-- A word of ones, shifted to the left; the shift is refused where it would be as long as the
word. -/
def checkedMask (width h : Nat) : Option (BitVec width) :=
  if h < width then some (BitVec.allOnes width <<< h) else none

/-- **The host bits are cleared** by a mask, which is zero where the shift is refused. -/
theorem masked_value_eq_and (hle : h ≤ a.family.bits) : (masked a h).value =
    (BitVec.ofNat a.family.bits a.value &&& (checkedMask a.family.bits h).getD 0).toNat := by
  have hlt : a.value < 2 ^ a.family.bits := a.value_lt
  have hmask : (checkedMask a.family.bits h).getD 0 = BitVec.allOnes a.family.bits <<< h := by
    unfold checkedMask
    split_ifs with hshift
    · rfl
    · rw [show h = a.family.bits by omega]
      simp
  rw [hmask, masked_value]
  -- bit by bit: those below `h` are cleared, and all others stay
  refine Nat.eq_of_testBit_eq fun i => ?_
  rw [BitVec.testBit_toNat, BitVec.getLsbD_and, BitVec.getLsbD_shiftLeft, BitVec.getLsbD_ofNat,
    BitVec.getLsbD_allOnes, Nat.testBit_two_pow_mul, Nat.testBit_div_two_pow]
  by_cases hi : h ≤ i
  · rw [Nat.sub_add_cancel hi]
    by_cases hwidth : i < a.family.bits
    · simp [hi, hwidth, show i - h < a.family.bits by omega]
    · rw [a.testBit_of_le (by omega)]
      simp
  · simp [hi]

/-! ### Making a subnet -/

/-- What is made of an address and a number of bits that its family has. -/
theorem make?_eq_ok : make? a p = .ok s ↔
    p ≤ a.family.bits ∧ s.network = masked a (a.family.bits - p) ∧ s.prefixLength = p := by
  unfold make?
  by_cases hp : p ≤ a.family.bits
  · rw [dif_pos hp]
    constructor
    · intro hs
      cases hs
      exact ⟨hp, rfl, rfl⟩
    · rintro ⟨-, hnetwork, hprefix⟩
      obtain ⟨network, prefixLength, hle, haligned⟩ := s
      obtain rfl : network = masked a (a.family.bits - p) := hnetwork
      obtain rfl : prefixLength = p := hprefix
      rfl
  · rw [dif_neg hp]
    constructor
    · intro hs
      cases hs
    · rintro ⟨hle, -⟩
      exact absurd hle hp

theorem bits_sub_hostBits (s : Subnet) : s.network.family.bits - s.prefixLength = s.hostBits := rfl

/-- The network address is a multiple of the number of addresses. -/
theorem network_value (s : Subnet) :
    s.network.value = 2 ^ s.hostBits * (s.network.value / 2 ^ s.hostBits) := by
  have hdiv := Nat.div_add_mod s.network.value (2 ^ s.hostBits)
  have haligned : s.network.value % 2 ^ s.hostBits = 0 := s.aligned
  omega

/-- The network has the first bits of the address that the subnet was made of. -/
theorem network_agrees (hs : make? a p = .ok s) : s.network.Agrees a p := by
  obtain ⟨hp, hnetwork, rfl⟩ := make?_eq_ok.mp hs
  refine Agrees.symm ((agrees_iff hp).mpr ?_)
  rw [hnetwork, masked_family, masked_value, Nat.mul_div_cancel_left _ (Nat.two_pow_pos _)]
  exact ⟨rfl, rfl⟩

/-- **The network address** is the one address with these bits and zeros after them. -/
theorem network_unique (hs : make? a p = .ok s) (x : IpAddress) : x = s.network ↔
    x.Agrees a p ∧ ∀ i, p ≤ i → i < x.family.bits → x.bit i = false := by
  have hagrees := network_agrees hs
  obtain ⟨hp, hnetwork, rfl⟩ := make?_eq_ok.mp hs
  have hbits : s.network.family.bits = a.family.bits := by rw [hnetwork, masked_family]
  constructor
  · rintro rfl
    exact ⟨hagrees, (bits_zero_iff (by omega)).mpr s.aligned⟩
  · rintro ⟨hx, hzero⟩
    have hxbits : x.family.bits = a.family.bits := by rw [hx.family]
    obtain ⟨hfamily, hquotient⟩ := (agrees_iff (by omega)).mp (hx.trans hagrees.symm)
    have hrest := (bits_zero_iff (by omega)).mp hzero
    -- the same front with nothing behind it is the same number
    refine ext_of_value hfamily ?_
    have hdiv := Nat.div_add_mod x.value (2 ^ (x.family.bits - s.prefixLength))
    have hvalue := s.network_value
    rw [← bits_sub_hostBits, ← hfamily, ← hquotient] at hvalue
    omega

/-! ### Addresses of a subnet -/

/-- An address belongs to a subnet if it has the first bits of the network. -/
theorem contains_iff_agrees_network :
    s.contains x = true ↔ x.Agrees s.network s.prefixLength := by
  have hvalue := s.network_value
  simp only [contains, Bool.and_eq_true, decide_eq_true_eq, beq_iff_eq]
  constructor
  · rintro ⟨hfamily, hmasked⟩
    have hle : s.prefixLength ≤ x.family.bits := hfamily ▸ s.prefixLength_le
    rw [masked_value, hvalue] at hmasked
    refine (agrees_iff hle).mpr ⟨hfamily, ?_⟩
    rw [hfamily, bits_sub_hostBits]
    exact Nat.eq_of_mul_eq_mul_left (Nat.two_pow_pos _) hmasked
  · intro hagrees
    have hfamily := hagrees.family
    have hle : s.prefixLength ≤ x.family.bits := hfamily ▸ s.prefixLength_le
    obtain ⟨-, hquotient⟩ := (agrees_iff hle).mp hagrees
    rw [hfamily, bits_sub_hostBits] at hquotient
    rw [masked_value, hquotient]
    exact ⟨hfamily, hvalue.symm⟩

/-- **The addresses by their bits**: those that begin like the address the subnet was made of. -/
theorem contains_iff_agrees (hs : make? a p = .ok s) (x : IpAddress) :
    s.contains x = true ↔ x.Agrees a p := by
  have hagrees := network_agrees hs
  obtain ⟨-, -, rfl⟩ := make?_eq_ok.mp hs
  rw [contains_iff_agrees_network]
  exact ⟨fun h => h.trans hagrees, fun h => h.trans hagrees.symm⟩

/-- **The addresses by their order**: from the network address on, as many as there are. -/
theorem contains_iff_between : s.contains x = true ↔ x.family = s.network.family ∧
    s.network.value ≤ x.value ∧ x.value ≤ s.network.value + 2 ^ s.hostBits - 1 := by
  have hpos := Nat.two_pow_pos s.hostBits
  have hvalue := s.network_value
  rw [contains_iff_agrees_network]
  constructor
  · -- all numbers with the same quotient follow each other, from the network on
    intro hagrees
    have hfamily := hagrees.family
    have hle : s.prefixLength ≤ x.family.bits := hfamily ▸ s.prefixLength_le
    obtain ⟨-, hquotient⟩ := (agrees_iff hle).mp hagrees
    rw [hfamily, bits_sub_hostBits, Nat.div_eq_iff hpos, Nat.mul_comm, ← hvalue] at hquotient
    exact ⟨hfamily, hquotient⟩
  · rintro ⟨hfamily, hbetween⟩
    have hle : s.prefixLength ≤ x.family.bits := hfamily ▸ s.prefixLength_le
    refine (agrees_iff hle).mpr ⟨hfamily, ?_⟩
    rw [hfamily, bits_sub_hostBits, Nat.div_eq_iff hpos, Nat.mul_comm, ← hvalue]
    exact hbetween

/-- **Every address of a subnet** makes the same subnet again, and no other address does. -/
theorem contains_iff_make? : s.contains x = true ↔ make? x s.prefixLength = .ok s := by
  rw [make?_eq_ok]
  simp only [contains, Bool.and_eq_true, decide_eq_true_eq, beq_iff_eq, and_true]
  constructor
  · rintro ⟨hfamily, hvalue⟩
    rw [hfamily, bits_sub_hostBits]
    have hmasked : (masked x s.hostBits).family = s.network.family := hfamily
    exact ⟨s.prefixLength_le, (ext_of_value hmasked hvalue).symm⟩
  · rintro ⟨-, hnetwork⟩
    have hfamily : s.network.family = x.family := by rw [hnetwork, masked_family]
    rw [← hfamily, bits_sub_hostBits] at hnetwork
    exact ⟨hfamily.symm, by rw [← hnetwork]⟩

/-! ### Two subnets -/

/-- The subnet with the longer prefix lies in the other one if they have an address in common. -/
theorem contains_of_common (hle : s.prefixLength ≤ t.prefixLength) (hs : s.contains x = true)
    (ht : t.contains x = true) {y : IpAddress} (hy : t.contains y = true) :
    s.contains y = true := by
  rw [contains_iff_agrees_network] at *
  exact (hy.mono hle).trans ((ht.mono hle).symm.trans hs)

/-- **Two subnets** are nested or have no address in common. -/
theorem nested_or_disjoint (s t : Subnet) :
    (∀ x, s.contains x = true → t.contains x = true) ∨
      (∀ x, t.contains x = true → s.contains x = true) ∨
      ∀ x, ¬ (s.contains x = true ∧ t.contains x = true) := by
  by_cases hcommon : ∃ x, s.contains x = true ∧ t.contains x = true
  · obtain ⟨x, hs, ht⟩ := hcommon
    rcases le_total s.prefixLength t.prefixLength with hle | hle
    · exact .inr (.inl fun y => contains_of_common hle hs ht)
    · exact .inl fun y => contains_of_common hle ht hs
  · exact .inr (.inr fun x hx => hcommon ⟨x, hx⟩)

end Subnet

/-!
## Texts of subnets

A subnet is written as its network address and the number of bits that it fixes, and is read back
from that.

- `Subnet.parse_text`: reading what is written.
- `Subnet.make?_laws`: what a subnet is that was made of an address and a number of bits.
-/

namespace Subnet

open Text

variable {s : Subnet} {a : IpAddress} {p : Nat}

/-! ### Reading back -/

theorem toList_text (s : Subnet) :
    s.text.toList = s.network.text.toList ++ '/' :: Text.ofNat s.prefixLength := by
  rw [text, write, String.toList_append, String.toList_append, toList_toString_nat]
  simp

theorem prefixLength?_ofNat (h : p ≤ 255) : prefixLength? (Text.ofNat p) = some p := by
  have hdigits := digits_ofNat p
  have hne := ofNat_ne_nil p
  have hall : (Text.ofNat p).all isDigit = true := List.all_eq_true.mpr hdigits
  have hvalue := digitsValue_ofNat p
  obtain ⟨c, rest, hcons⟩ := List.exists_cons_of_ne_nil hne
  rw [hcons] at hdigits hall hvalue ⊢
  -- a digit is no plus sign
  have hplus : c ≠ '+' := (head_ne_sign hdigits).2
  unfold prefixLength?
  split
  · exact absurd (List.cons.inj ‹_›).1 hplus
  · dsimp only
    rw [hvalue, if_neg]
    simp only [List.isEmpty_cons, not_or, hall]
    exact ⟨by decide, by decide, by omega⟩

theorem prefixLength_le_255 (s : Subnet) : s.prefixLength ≤ 255 := by
  refine s.prefixLength_le.trans ?_
  cases s.network.family with
  | v4 => decide
  | v6 => decide

theorem contains_network (s : Subnet) : s.contains s.network = true :=
  contains_iff_between.mpr ⟨rfl, le_rfl, by have hpos := Nat.two_pow_pos s.hostBits; omega⟩

/-- **The text of a subnet** is read back. -/
theorem parse_text (s : Subnet) : parse s.text = .ok s := by
  -- no address has a slash or a blank in it
  have haddress : ∀ c ∈ s.network.text.toList, (c != '/') = true := fun c hc =>
    bne_iff_ne.mpr (s.network.written_of_mem_text hc).unblanked.2
  have hslash : ∀ c ∈ ('/' :: Text.ofNat s.prefixLength).head?, (c != '/') = false := by
    intro c hc
    obtain rfl : '/' = c := Option.some.inj hc
    decide
  have hblank : Unblanked s.text.toList := by
    rw [toList_text, unblanked_append, unblanked_cons]
    exact ⟨fun c hc => (s.network.written_of_mem_text hc).unblanked.1, by decide,
      (digits_ofNat _).unblanked⟩
  unfold parse
  rw [trimChars_unblanked hblank, toList_text]
  simp only [takeWhile_run haddress hslash, dropWhile_run haddress hslash, String.ofList_toList,
    IpAddress.parse?_text, prefixLength?_ofNat s.prefixLength_le_255]
  exact contains_iff_make?.mp s.contains_network

/-! ### What a subnet is -/

/-- **A subnet** that was made of an address and a number of bits. Its network is the one address
that begins with these bits and has zeros after them; a mask gives it. The addresses of the subnet
are those that begin with the same bits, and these are the ones from the network on, as many as the
host bits can tell. Each of them makes the same subnet, and no other address does. Any two subnets
are nested or have no address in common. The text of the subnet is read back. -/
theorem make?_laws (h : make? a p = .ok s) :
    p ≤ a.family.bits ∧
    (∀ x, x = s.network ↔
      x.Agrees a p ∧ ∀ i, p ≤ i → i < x.family.bits → x.bit i = false) ∧
    s.network.value = (BitVec.ofNat a.family.bits a.value &&&
      (checkedMask a.family.bits (a.family.bits - p)).getD 0).toNat ∧
    (∀ x, s.contains x = true ↔ x.Agrees a p) ∧
    (∀ x, s.contains x = true ↔ x.family = a.family ∧ s.network.value ≤ x.value ∧
      x.value ≤ s.network.value + 2 ^ (a.family.bits - p) - 1) ∧
    (∀ x, s.contains x = true ↔ make? x p = .ok s) ∧
    (∀ t : Subnet, (∀ x, s.contains x = true → t.contains x = true) ∨
      (∀ x, t.contains x = true → s.contains x = true) ∨
      ∀ x, ¬ (s.contains x = true ∧ t.contains x = true)) ∧
    parse s.text = .ok s := by
  have hunique := network_unique h
  have hagrees := contains_iff_agrees h
  obtain ⟨hp, hnetwork, rfl⟩ := make?_eq_ok.mp h
  have hfamily : s.network.family = a.family := by rw [hnetwork, masked_family]
  refine ⟨hp, hunique, ?_, hagrees, fun x => ?_, fun x => contains_iff_make?,
    nested_or_disjoint s, s.parse_text⟩
  · rw [hnetwork]
    exact masked_value_eq_and (Nat.sub_le _ _)
  · rw [← hfamily]
    exact contains_iff_between

/-- The address 192.168.1.77. -/
def home : IpAddress := ⟨.v4, 0xc0a8014d, by decide⟩

/-- It lies in 192.168.1.0/24, as 192.168.1.255 does and 192.168.2.0 does not. -/
theorem make?_laws_home : ∃ s, make? home 24 = .ok s ∧ s.network.value = 0xc0a80100 ∧
    s.contains ⟨.v4, 0xc0a801ff, by decide⟩ = true ∧
    s.contains ⟨.v4, 0xc0a80200, by decide⟩ = false ∧ parse s.text = .ok s := by
  obtain ⟨s, hs⟩ : ∃ s, make? home 24 = .ok s := ⟨_, rfl⟩
  obtain ⟨-, -, hmask, -, hbetween, -, -, hparse⟩ := make?_laws hs
  have hvalue : s.network.value = 0xc0a80100 := hmask.trans (by decide)
  refine ⟨s, hs, hvalue, (hbetween _).mpr ⟨rfl, ?_⟩, ?_, hparse⟩
  · rw [hvalue]
    decide
  · rw [Bool.eq_false_iff, Ne, hbetween, hvalue]
    decide

end Subnet

end ColumnMask
