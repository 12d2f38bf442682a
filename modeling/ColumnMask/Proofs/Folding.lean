import Mathlib
import ColumnMask.Generator
import ColumnMask.Proofs.IntegerWindow

/-!
# Folding byte by byte

An output is folded by adding up its blocks. The same bytes come out when the output is taken byte
by byte and each byte is added to the place that its position falls on; done so, every place is
looked up, and the look-up never misses.

- `Bytes.column`: the exclusive or of all bytes whose positions leave one remainder.
- `Bytes.addEach`: the byte-by-byte fold with every access checked.
- `Generator.getElem?_xorFold`: each byte of a folded output is one column.
- `Generator.addEach_eq_xorFold`: no access of the byte-by-byte fold goes wrong, and it folds.
-/

namespace ColumnMask

namespace Bytes

/-! ## Columns -/

/-- The exclusive or of the bytes whose positions leave the remainder `j`, where the first byte
stands at position `start`. -/
def column (size j : Nat) : (start : Nat) → Bytes → UInt8
  | _, [] => 0
  | start, b :: rest => (if start % size = j then b else 0) ^^^ column size j (start + 1) rest

section

variable {size j : Nat}

@[simp] theorem column_nil (start : Nat) : column size j start [] = 0 := rfl

theorem column_cons (start : Nat) (b : UInt8) (rest : Bytes) :
    column size j start (b :: rest) =
      (if start % size = j then b else 0) ^^^ column size j (start + 1) rest := rfl

theorem column_append (start : Nat) (a b : Bytes) :
    column size j start (a ++ b) =
      column size j start a ^^^ column size j (start + a.length) b := by
  induction a generalizing start with
  | nil => simp
  | cons x rest ih =>
    rw [List.cons_append, column_cons, column_cons, ih, UInt8.xor_assoc, List.length_cons]
    congr 3
    omega

/-- Only the remainder of the first position matters. -/
theorem column_add_size (start : Nat) (data : Bytes) :
    column size j (start + size) data = column size j start data := by
  induction data generalizing start with
  | nil => rfl
  | cons b rest ih =>
    rw [column_cons, column_cons, Nat.add_mod_right,
      show start + size + 1 = start + 1 + size by omega, ih]

/-- A run that ends before the next multiple of `size` meets a column in one place at most. -/
theorem column_of_le {start : Nat} {data : Bytes} (h : start + data.length ≤ size) :
    column size j start data = if start ≤ j then data.getD (j - start) 0 else 0 := by
  induction data generalizing start with
  | nil => simp
  | cons b rest ih =>
    rw [List.length_cons] at h
    rw [column_cons, ih (by omega), Nat.mod_eq_of_lt (by omega)]
    rcases Nat.lt_trichotomy start j with hlt | rfl | hlt
    · rw [if_neg hlt.ne, if_pos (by omega), if_pos hlt.le,
        show j - start = j - (start + 1) + 1 by omega, List.getD_cons_succ, UInt8.zero_xor]
    · simp
    · rw [if_neg hlt.ne', if_neg (by omega), if_neg (by omega), UInt8.zero_xor]

end

/-! ## Adding byte by byte -/

/-- Adds each byte to the place that its position falls on. Nothing stands for a place that is not
there. -/
def addEach (size : Nat) : (out : Bytes) → (start : Nat) → Bytes → Option Bytes
  | out, _, [] => some out
  | out, start, b :: rest => do
    let place ← Checked.rem start size
    let old ← out[place.toNat]?
    addEach size (out.set place.toNat (old ^^^ b)) (start + 1) rest

theorem getD_set_self {data : Bytes} {p : Nat} (hp : p < data.length) (v : UInt8) :
    (data.set p v).getD p 0 = v := by
  simp [hp]

theorem getD_set_of_ne {data : Bytes} {p i : Nat} (h : p ≠ i) (v : UInt8) :
    (data.set p v).getD i 0 = data.getD i 0 := by
  simp [h]

/-- The place of the first byte is there, and the byte is added to it. -/
theorem addEach_cons {size : Nat} (hsize : 0 < size) {out : Bytes} (hout : out.length = size)
    (start : Nat) (b : UInt8) (rest : Bytes) :
    addEach size out start (b :: rest) =
      addEach size (out.set (start % size) (out.getD (start % size) 0 ^^^ b)) (start + 1) rest := by
  have hplace : start % size < out.length := by
    rw [hout]
    exact Nat.mod_lt _ hsize
  rw [addEach, Checked.rem_eq _ (by omega), ← Int.natCast_emod]
  simp only [Option.bind_eq_bind, Option.bind_some, Int.toNat_natCast]
  rw [List.getElem?_eq_getElem hplace, Option.bind_some, List.getD_eq_getElem _ _ hplace]

/-- Every place is there, and each byte of the sum takes up its column. -/
theorem addEach_eq_some {size : Nat} (hsize : 0 < size) {out : Bytes} (hout : out.length = size)
    (start : Nat) (data : Bytes) :
    ∃ sum, addEach size out start data = some sum ∧ sum.length = size ∧
      ∀ j < size, sum.getD j 0 = out.getD j 0 ^^^ column size j start data := by
  -- on the bytes that are left, which start at position `start`
  induction data generalizing out start with
  | nil => exact ⟨out, rfl, hout, fun j _ => by simp⟩
  | cons b rest ih =>
    have hplace : start % size < out.length := by
      rw [hout]
      exact Nat.mod_lt _ hsize
    obtain ⟨sum, hsum, hlength, hbyte⟩ := ih (List.length_set.trans hout) (start + 1)
    refine ⟨sum, by rw [addEach_cons hsize hout, hsum], hlength, fun j hj => ?_⟩
    rw [hbyte j hj, column_cons, ← UInt8.xor_assoc]
    congr 1
    -- the byte lands in column `j` exactly if its position falls on that place
    by_cases hhit : start % size = j
    · subst hhit
      rw [if_pos rfl, getD_set_self hplace]
    · rw [if_neg hhit, UInt8.xor_zero, getD_set_of_ne hhit]

/-! ## Blocks -/

/-- As long as there is something left, the first block takes its size off it. -/
theorem blockCount_eq_succ {size n : Nat} (hsize : 0 < size) (hn : 0 < n) :
    (n + size - 1) / size = (n - size + size - 1) / size + 1 := by
  rcases Nat.lt_or_ge n size with hlt | hge
  · rw [show n + size - 1 = n - 1 + size by omega, Nat.add_div_right _ hsize,
      Nat.div_eq_of_lt (by omega), Nat.div_eq_of_lt (by omega)]
  · rw [← Nat.add_div_right _ hsize]
    congr 1
    omega

/-- The first block and the blocks of what is left. -/
theorem blocks_eq_cons {size : Nat} (hsize : 0 < size) {data : Bytes} (hdata : data ≠ []) :
    blocks size data = data.take size :: blocks size (data.drop size) := by
  have hcount := blockCount_eq_succ hsize (List.length_pos_of_ne_nil hdata)
  rw [blocks, hcount, List.range_succ_eq_map, List.map_cons, List.map_map, Nat.zero_mul,
    List.drop_zero, blocks, List.length_drop]
  congr 1
  refine List.map_congr_left fun i _ => ?_
  rw [Function.comp_apply, List.drop_drop, Nat.succ_mul, Nat.add_comm]

@[simp] theorem blocks_nil (size : Nat) : blocks size [] = [] := by
  rcases Nat.eq_zero_or_pos size with rfl | hsize
  · rfl
  · rw [blocks, List.length_nil, Nat.zero_add, Nat.div_eq_of_lt (by omega)]
    rfl

/-- A byte of a block that is filled up with zeros. -/
theorem getD_pad {size j : Nat} (hj : j < size) (data : Bytes) :
    (pad size data).getD j 0 = data.getD j 0 := by
  simp only [pad, List.getD_eq_getElem?_getD]
  rcases Nat.lt_or_ge j data.length with hlt | hge
  · rw [List.getElem?_append_left (by rw [List.length_take]; omega), List.getElem?_take_of_lt hj]
  · rw [List.getElem?_append_right (by rw [List.length_take]; omega), List.getElem?_replicate,
      List.getElem?_eq_none hge]
    split
    · rfl
    · rfl

theorem getD_zipWith_xor {size j : Nat} (hj : j < size) {a b : Bytes} (ha : a.length = size)
    (hb : b.length = size) : (a.zipWith (· ^^^ ·) b).getD j 0 = a.getD j 0 ^^^ b.getD j 0 := by
  simp [List.getD_eq_getElem?_getD, ha, hb, hj]

/-- The byte that the first block has in a column, and the column of what is left. -/
theorem column_eq_take_drop {size j : Nat} (data : Bytes) :
    column size j 0 data = (data.take size).getD j 0 ^^^ column size j 0 (data.drop size) := by
  have hhead : 0 + (data.take size).length ≤ size := by
    rw [Nat.zero_add]
    exact List.length_take_le _ _
  conv_lhs => rw [← List.take_append_drop size data]
  rw [column_append, column_of_le hhead, if_pos (Nat.zero_le _), Nat.sub_zero]
  rcases Nat.lt_or_ge data.length size with hlt | hge
  · rw [List.drop_of_length_le hlt.le, column_nil, column_nil]
  · rw [List.length_take, Nat.min_eq_left hge, column_add_size]

/-- Adding up the blocks adds a column to each byte. -/
theorem foldl_blocks {size : Nat} (hsize : 0 < size) {out : Bytes} (hout : out.length = size)
    (data : Bytes) :
    let sum :=
      (blocks size data).foldl (fun acc block => acc.zipWith (· ^^^ ·) (pad size block)) out
    sum.length = size ∧ ∀ j < size, sum.getD j 0 = out.getD j 0 ^^^ column size j 0 data := by
  -- on the number of bytes, a block at a time
  induction hn : data.length using Nat.strong_induction_on generalizing data out with
  | _ n ih =>
    rcases eq_or_ne data [] with rfl | hdata
    · simpa using hout
    · have hpos := List.length_pos_of_ne_nil hdata
      have hblock := length_pad size (data.take size)
      have hnext : (out.zipWith (· ^^^ ·) (pad size (data.take size))).length = size := by
        rw [List.length_zipWith, hblock, hout, Nat.min_self]
      have hrest : (data.drop size).length < n := by
        rw [List.length_drop]
        omega
      obtain ⟨hlength, hbyte⟩ := ih _ hrest hnext (data.drop size) rfl
      rw [blocks_eq_cons hsize hdata, List.foldl_cons]
      refine ⟨hlength, fun j hj => ?_⟩
      rw [hbyte j hj, getD_zipWith_xor hj hout hblock, getD_pad hj, column_eq_take_drop data,
        UInt8.xor_assoc]

/-- Strings of one length with the same bytes are the same. -/
theorem ext_getD {size : Nat} {a b : Bytes} (ha : a.length = size) (hb : b.length = size)
    (h : ∀ j < size, a.getD j 0 = b.getD j 0) : a = b := by
  refine List.ext_getElem (by rw [ha, hb]) fun j hja hjb => ?_
  have hj := h j (by omega)
  rwa [List.getD_eq_getElem _ _ hja, List.getD_eq_getElem _ _ hjb] at hj

end Bytes

/-! ## The folded output -/

namespace Generator

variable {size : Nat} (hsize : 0 < size) (raw : Bytes)
include hsize

theorem length_xorFold : (xorFold size raw).length = size :=
  (Bytes.foldl_blocks hsize (List.length_replicate ..) raw).1

/-- Each byte of a folded output is the exclusive or of one column of the whole output. -/
theorem getD_xorFold {j : Nat} (hj : j < size) :
    (xorFold size raw).getD j 0 = Bytes.column size j 0 raw := by
  have hzeros : (List.replicate size (0 : UInt8)).length = size := List.length_replicate
  have hbyte := (Bytes.foldl_blocks hsize hzeros raw).2 j hj
  rw [List.getD_replicate _ hj, UInt8.zero_xor] at hbyte
  exact hbyte

/-- **Folding byte by byte** never misses a place, and gives the folded output. -/
theorem addEach_eq_xorFold :
    Bytes.addEach size (List.replicate size 0) 0 raw = some (xorFold size raw) := by
  obtain ⟨sum, hsum, hlength, hbyte⟩ :=
    Bytes.addEach_eq_some hsize (List.length_replicate ..) 0 raw
  rw [hsum, Option.some_inj]
  refine Bytes.ext_getD hlength (length_xorFold hsize raw) fun j hj => ?_
  rw [hbyte j hj, getD_xorFold hsize raw hj, List.getD_replicate _ hj, UInt8.zero_xor]

end Generator

end ColumnMask
