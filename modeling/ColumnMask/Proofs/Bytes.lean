import Mathlib
import ColumnMask.Bytes
import ColumnMask.Window

/-!
# Laws of numbers in base 256

Strings of bytes of one length are the same thing as the numbers below a power of 256, whichever end
comes first.

- `Bytes.toNatLE_ofNatLE`, `Bytes.ofNatLE_toNatLE`: the least significant byte first.
- `Bytes.toNatBE_eq`, `Bytes.bijOn_toNatBE`: the most significant byte first.
- `Bytes.toNatLE_eq_sum`, `Bytes.toNatLE_pad_mod`: the digits that count in a padded string.
- `Bytes.toNat_readUInt64`, `Bytes.toInt_readInt64`, `Bytes.append_ofUInt64_inj`: words of eight
  bytes.
- `Bytes.words_of_bytes`: what words are read from a string, and what is written for them.
- `byteCount_le_iff`: how many bytes a number takes.
-/

namespace ColumnMask

namespace Bytes

/-! ## The least significant byte first -/

theorem toNatLE_ofNatLE (width n : Nat) : toNatLE (ofNatLE width n) = n % 256 ^ width := by
  induction width generalizing n with
  | zero => simp [ofNatLE, Nat.mod_one]
  | succ width ih =>
    have hbyte : (UInt8.ofNat n).toNat = n % 256 := UInt8.toNat_ofNat'
    rw [ofNatLE, toNatLE_cons, ih, hbyte, pow_succ', Nat.mod_mul]

theorem toNatLE_ofNatLE_of_lt {width n : Nat} (h : n < 256 ^ width) :
    toNatLE (ofNatLE width n) = n := by
  rw [toNatLE_ofNatLE, Nat.mod_eq_of_lt h]

theorem toNatLE_lt (data : Bytes) : toNatLE data < 256 ^ data.length := by
  induction data with
  | nil => simp
  | cons b rest ih =>
    have hb := b.toNat_lt
    rw [toNatLE_cons, List.length_cons, pow_succ]
    omega

theorem ofNatLE_toNatLE (data : Bytes) : ofNatLE data.length (toNatLE data) = data := by
  induction data with
  | nil => rfl
  | cons b rest ih =>
    have hb := b.toNat_lt
    rw [List.length_cons, ofNatLE, toNatLE_cons, Nat.add_mul_div_left _ _ (by decide),
      Nat.div_eq_of_lt hb, Nat.zero_add, ih]
    congr 1
    apply UInt8.toNat.inj
    rw [UInt8.toNat_ofNat']
    omega

theorem toNatLE_append (a b : Bytes) :
    toNatLE (a ++ b) = toNatLE a + 256 ^ a.length * toNatLE b := by
  induction a with
  | nil => simp
  | cons x rest ih =>
    rw [List.cons_append, toNatLE_cons, toNatLE_cons, ih, List.length_cons, pow_succ]
    ring

theorem toNatLE_eq_sum (data : Bytes) :
    toNatLE data = ∑ i ∈ Finset.range data.length, (data.getD i 0).toNat * 256 ^ i := by
  induction data with
  | nil => rfl
  | cons b rest ih =>
    have hshift (i : Nat) : ((b :: rest).getD (i + 1) 0).toNat * 256 ^ (i + 1) =
        256 * ((rest.getD i 0).toNat * 256 ^ i) := by
      rw [List.getD_cons_succ, pow_succ]
      ring
    rw [toNatLE_cons, ih, List.length_cons, Finset.sum_range_succ', Finset.mul_sum,
      Finset.sum_congr rfl fun i _ => hshift i, List.getD_cons_zero, pow_zero, mul_one, add_comm]

@[simp] theorem toNatLE_replicate_zero (n : Nat) : toNatLE (List.replicate n 0) = 0 := by
  induction n with
  | zero => rfl
  | succ n ih =>
    rw [List.replicate_succ, toNatLE_cons, ih]
    rfl

/-- Zeros at the end do not count. -/
theorem toNatLE_pad (width : Nat) (data : Bytes) :
    toNatLE (pad width data) = toNatLE (data.take width) := by
  rw [pad, toNatLE_append, toNatLE_replicate_zero, Nat.mul_zero, Nat.add_zero]

/-- The leading bytes are the low digits. -/
theorem toNatLE_take (width : Nat) (data : Bytes) :
    toNatLE (data.take width) = toNatLE data % 256 ^ width := by
  rcases Nat.le_total data.length width with hle | hle
  · have hlt := (toNatLE_lt data).trans_le (Nat.pow_le_pow_right (by decide) hle)
    rw [List.take_of_length_le hle, Nat.mod_eq_of_lt hlt]
  · have hlength : (data.take width).length = width := List.length_take_of_le hle
    have hlt := toNatLE_lt (data.take width)
    rw [hlength] at hlt
    conv_rhs => rw [← List.take_append_drop width data, toNatLE_append, hlength]
    rw [Nat.add_mul_mod_self_left, Nat.mod_eq_of_lt hlt]

/-- Only the leading bytes count. -/
theorem toNatLE_pad_eq_sum (width : Nat) (data : Bytes) :
    toNatLE (pad width data) =
      ∑ i ∈ Finset.range (min width data.length), (data.getD i 0).toNat * 256 ^ i := by
  rw [toNatLE_pad, toNatLE_eq_sum, List.length_take]
  refine Finset.sum_congr rfl fun i hi => ?_
  have hlt : i < width := lt_of_lt_of_le (Finset.mem_range.mp hi) (Nat.min_le_left ..)
  rw [List.getD_eq_getElem?_getD, List.getElem?_take_of_lt hlt, ← List.getD_eq_getElem?_getD]

/-- A narrower word is made of the low digits of a wider one. -/
theorem toNatLE_pad_mod {narrow width : Nat} (h : narrow ≤ width) (data : Bytes) :
    toNatLE (pad narrow data) = toNatLE (pad width data) % 256 ^ narrow := by
  rw [toNatLE_pad, toNatLE_pad, toNatLE_take, toNatLE_take,
    Nat.mod_mod_of_dvd _ (Nat.pow_dvd_pow 256 h)]

/-! ## The most significant byte first -/

theorem toNatBE_append_singleton (data : Bytes) (b : UInt8) :
    toNatBE (data ++ [b]) = 256 * toNatBE data + b.toNat := by
  simp [toNatBE]

theorem toNatBE_eq (data : Bytes) : toNatBE data = toNatLE data.reverse := by
  induction data using List.reverseRecOn with
  | nil => rfl
  | append_singleton rest b ih =>
    rw [toNatBE_append_singleton, ih, List.reverse_append]
    simp [Nat.add_comm]

/-- Every number that is small enough has a string of the given length. -/
theorem exists_toNatBE {width n : Nat} (h : n < 256 ^ width) :
    ∃ data, data.length = width ∧ toNatBE data = n := by
  refine ⟨(ofNatLE width n).reverse, by simp, ?_⟩
  rw [toNatBE_eq, List.reverse_reverse, toNatLE_ofNatLE_of_lt h]

theorem toNatBE_lt (data : Bytes) : toNatBE data < 256 ^ data.length := by
  rw [toNatBE_eq, ← List.length_reverse]
  exact toNatLE_lt _

/-- The strings of one length stand for the numbers below a power of 256, each for one of them. -/
theorem bijOn_toNatBE (width : Nat) :
    Set.BijOn toNatBE {data | data.length = width} (Set.Iio (256 ^ width)) := by
  refine ⟨?_, ?_, ?_⟩
  · rintro data rfl
    exact toNatBE_lt data
  · rintro a rfl b hlength h
    rw [toNatBE_eq, toNatBE_eq] at h
    have hreverse : b.reverse.length = a.reverse.length := by simpa using hlength
    rw [← List.reverse_inj, ← ofNatLE_toNatLE a.reverse, h, ← hreverse, ofNatLE_toNatLE]
  · intro n hn
    exact exists_toNatBE hn

/-! ## Words -/

theorem pad_of_length {width : Nat} {data : Bytes} (h : data.length = width) :
    pad width data = data := by
  subst h
  simp [pad]

theorem pad_pad (width : Nat) (data : Bytes) : pad width (pad width data) = pad width data :=
  pad_of_length (length_pad width data)

theorem readUInt64_pad (data : Bytes) : readUInt64 (pad 8 data) = readUInt64 data := by
  rw [readUInt64, readUInt64, pad_pad]

theorem readInt64_pad (data : Bytes) : readInt64 (pad 8 data) = readInt64 data := by
  rw [readInt64, readInt64, readUInt64_pad]

theorem readUInt32_pad (data : Bytes) : readUInt32 (pad 4 data) = readUInt32 data := by
  rw [readUInt32, readUInt32, pad_pad]

theorem toNat_readUInt64 (data : Bytes) : (readUInt64 data).toNat = toNatLE (pad 8 data) := by
  have h := toNatLE_lt (pad 8 data)
  rw [length_pad] at h
  rw [readUInt64, UInt64.toNat_ofNat']
  exact Nat.mod_eq_of_lt h

theorem toNat_readUInt32 (data : Bytes) : (readUInt32 data).toNat = toNatLE (pad 4 data) := by
  have h := toNatLE_lt (pad 4 data)
  rw [length_pad] at h
  rw [readUInt32, UInt32.toNat_ofNat']
  exact Nat.mod_eq_of_lt h

theorem toNat_readUInt16 (data : Bytes) : (readUInt16 data).toNat = toNatLE (pad 2 data) := by
  have h := toNatLE_lt (pad 2 data)
  rw [length_pad] at h
  rw [readUInt16, UInt16.toNat_ofNat']
  exact Nat.mod_eq_of_lt h

theorem toNat_readUInt64_ofNatLE {n : Nat} (h : n < 256 ^ 8) :
    (readUInt64 (ofNatLE 8 n)).toNat = n := by
  rw [toNat_readUInt64, pad_of_length (length_ofNatLE 8 n), toNatLE_ofNatLE_of_lt h]

/-- The highest bit of a word with a sign counts as negative. -/
theorem toInt_readInt64 (data : Bytes) :
    (readInt64 data).toInt = Int.bmod (toNatLE (pad 8 data)) (2 ^ 64) := by
  rw [← toNat_readUInt64, readInt64, Int64.toInt, UInt64.toBitVec_toInt64,
    BitVec.toInt_eq_toNat_bmod]
  rfl

theorem toInt_readInt64_ofNatLE {n : Nat} (h : n < 2 ^ 63) :
    (readInt64 (ofNatLE 8 n)).toInt = n := by
  rw [toInt_readInt64, pad_of_length (length_ofNatLE 8 n), toNatLE_ofNatLE_of_lt (by omega)]
  exact Int.bmod_eq_of_le (by omega) (by omega)

theorem ofUInt64_inj {a b : UInt64} : ofUInt64 a = ofUInt64 b ↔ a = b := by
  refine ⟨fun h => ?_, fun h => by rw [h]⟩
  have hnat := congrArg toNatLE h
  rw [ofUInt64, ofUInt64, toNatLE_ofNatLE_of_lt a.toNat_lt,
    toNatLE_ofNatLE_of_lt b.toNat_lt] at hnat
  exact UInt64.toNat.inj hnat

/-- The eight bytes at the end tell the words apart, and what is left tells the inputs apart. -/
theorem append_ofUInt64_inj {input input' : Bytes} {a b : UInt64} :
    input ++ ofUInt64 a = input' ++ ofUInt64 b ↔ input = input' ∧ a = b := by
  constructor
  · intro h
    obtain ⟨hinput, hword⟩ := List.append_inj' h (by simp)
    exact ⟨hinput, ofUInt64_inj.mp hword⟩
  · rintro ⟨rfl, rfl⟩
    rfl

/-- A word has the bytes that it was read from, filled up or cut to eight. -/
theorem ofUInt64_readUInt64 (data : Bytes) : ofUInt64 (readUInt64 data) = pad 8 data := by
  have hbytes := ofNatLE_toNatLE (pad 8 data)
  rw [length_pad] at hbytes
  rw [ofUInt64, toNat_readUInt64, hbytes]

theorem ofInt64_readInt64 (data : Bytes) : ofInt64 (readInt64 data) = pad 8 data := by
  rw [ofInt64, readInt64, UInt64.toUInt64_toInt64, ofUInt64_readUInt64]

/-- A word is read back from its bytes, whatever follows them. -/
theorem readUInt64_ofUInt64_append (v : UInt64) (rest : Bytes) :
    readUInt64 (ofUInt64 v ++ rest) = v := by
  apply UInt64.toNat.inj
  rw [toNat_readUInt64, toNatLE_pad, List.take_left' (length_ofUInt64 v), ofUInt64,
    toNatLE_ofNatLE_of_lt v.toNat_lt]

theorem readInt64_ofInt64_append (v : Int64) (rest : Bytes) :
    readInt64 (ofInt64 v ++ rest) = v := by
  rw [readInt64, ofInt64, readUInt64_ofUInt64_append, Int64.toInt64_toUInt64]

/-- A word of which the highest bit is set stands for a negative number. -/
theorem toInt_readInt64_eq (data : Bytes) :
    (readInt64 data).toInt =
      if (readUInt64 data).toNat < 2 ^ 63 then ((readUInt64 data).toNat : Int)
      else (readUInt64 data).toNat - 2 ^ 64 := by
  have hlt := (readUInt64 data).toNat_lt
  rw [toInt_readInt64, ← toNat_readUInt64]
  split
  case isTrue h => exact Int.bmod_eq_of_le (by omega) (by omega)
  case isFalse h =>
    rw [← Int.sub_bmod_right]
    exact Int.bmod_eq_of_le (by omega) (by omega)

/-- **Words of a string of bytes.** A word of eight bytes is the number with the leading bytes as
its digits, and it has these bytes, with zeros for the missing ones, whether it has a sign or not.
The word with a sign is the other one in two's complement, and narrower words are its remainders.
What is written in front of a string is read again from the whole. -/
theorem words_of_bytes (data : Bytes) :
    (readUInt64 data).toNat =
      ∑ i ∈ Finset.range (min 8 data.length), (data.getD i 0).toNat * 256 ^ i ∧
    ofUInt64 (readUInt64 data) = data.take 8 ++ List.replicate (8 - data.length) 0 ∧
    ofInt64 (readInt64 data) = data.take 8 ++ List.replicate (8 - data.length) 0 ∧
    (readInt64 data).toInt =
      (if (readUInt64 data).toNat < 2 ^ 63 then ((readUInt64 data).toNat : Int)
      else (readUInt64 data).toNat - 2 ^ 64) ∧
    (readUInt32 data).toNat = (readUInt64 data).toNat % 2 ^ 32 ∧
    (readUInt16 data).toNat = (readUInt64 data).toNat % 2 ^ 16 ∧
    (∀ v : UInt64, readUInt64 (ofUInt64 v ++ data) = v) ∧
    ∀ v : Int64, readInt64 (ofInt64 v ++ data) = v := by
  refine ⟨?_, ofUInt64_readUInt64 data, ofInt64_readInt64 data, toInt_readInt64_eq data, ?_, ?_,
    fun v => readUInt64_ofUInt64_append v data, fun v => readInt64_ofInt64_append v data⟩
  · rw [toNat_readUInt64, toNatLE_pad_eq_sum]
  · rw [toNat_readUInt32, toNat_readUInt64]
    exact toNatLE_pad_mod (by decide) data
  · rw [toNat_readUInt16, toNat_readUInt64]
    exact toNatLE_pad_mod (by decide) data

end Bytes

/-! ## The bytes that a number takes -/

theorem byteCount_pos (n : Nat) : 0 < byteCount n := by
  unfold byteCount
  omega

theorem byteCount_le_iff {n width : Nat} (h : 0 < width) :
    byteCount n ≤ width ↔ n < 256 ^ width := by
  rw [show (256 : Nat) = 2 ^ 8 from rfl, ← pow_mul]
  unfold byteCount
  by_cases hn : n = 0
  · subst hn
    simp
    omega
  · rw [if_neg hn, ← Nat.log2_lt hn]
    omega

theorem lt_pow_byteCount (n : Nat) : n < 256 ^ byteCount n :=
  (byteCount_le_iff (byteCount_pos n)).mp le_rfl

/-- A smaller number takes no more bytes. -/
theorem byteCount_mono {m n : Nat} (h : m ≤ n) : byteCount m ≤ byteCount n :=
  (byteCount_le_iff (byteCount_pos n)).mpr (lt_of_le_of_lt h (lt_pow_byteCount n))

end ColumnMask
