import Mathlib
import ColumnMask.Proofs.GeneratorTree

/-!
# Columns of a folded output

Each byte of a folded output is a column of the whole one: the exclusive or of all bytes whose
positions leave one remainder. No byte is left out, however many there are, and each is in one
column only.

- `Bytes.xorAt`: the exclusive or of the bytes at some positions; `Bytes.column_eq_xorAt` finds the
  positions of a column.
- `Bytes.column_set`: what is added to a byte is added to its column.
- `Generator.xorFold_xorFold`: folding again, to a divisor, is folding once.
- `Bytes.DifferAt`: strings that differ in a single bit; `Generator.differAt_xorFold` follows the
  bit through a fold.
- `Generator.fold?_adds_columns`: all this for generators.
-/

namespace ColumnMask

namespace Bytes

variable {size j : Nat}

/-! ## Positions -/

/-- The exclusive or of the bytes at the given positions. -/
def xorAt (data : Bytes) (positions : Finset Nat) : UInt8 :=
  positions.fold (fun a b => a ^^^ b) 0 fun i => data.getD i 0

/-- A column takes in the bytes at all positions that leave its remainder. -/
theorem column_eq_xorAt (size j : Nat) (data : Bytes) :
    column size j 0 data = xorAt data ((Finset.range data.length).filter (· % size = j)) := by
  -- on the data from its end, since a byte more is one place more in its column
  induction data using List.reverseRecOn with
  | nil => rfl
  | append_singleton rest b ih =>
    have hrest : ∀ i ∈ (Finset.range rest.length).filter (· % size = j),
        (rest ++ [b]).getD i 0 = rest.getD i 0 := by
      intro i hi
      exact List.getD_append _ _ _ _ (Finset.mem_range.mp (Finset.mem_filter.mp hi).1)
    have hlast : (rest ++ [b]).getD rest.length 0 = b := by simp
    rw [column_append, column_cons, column_nil, UInt8.xor_zero, Nat.zero_add, ih,
      List.length_append, List.length_singleton, Finset.range_add_one, Finset.filter_insert, xorAt,
      xorAt]
    by_cases hhit : rest.length % size = j
    · rw [if_pos hhit, if_pos hhit, Finset.fold_insert (by simp), hlast, Finset.fold_congr hrest,
        UInt8.xor_comm]
    · rw [if_neg hhit, if_neg hhit, Finset.fold_congr hrest, UInt8.xor_zero]

@[simp] theorem column_replicate_zero (start n : Nat) :
    column size j start (List.replicate n 0) = 0 := by
  induction n generalizing start with
  | zero => rfl
  | succ n ih => rw [List.replicate_succ, column_cons, ih, ite_self, UInt8.xor_zero]

/-- A byte that is changed changes the column of its position, by as much. -/
theorem column_set (start : Nat) {data : Bytes} {p : Nat} (hp : p < data.length) (v : UInt8) :
    column size j start (data.set p (data.getD p 0 ^^^ v)) =
      column size j start data ^^^ (if (start + p) % size = j then v else 0) := by
  induction data generalizing start p with
  | nil => contradiction
  | cons b rest ih =>
    cases p with
    | zero =>
      rw [List.set_cons_zero, List.getD_cons_zero, column_cons, column_cons, Nat.add_zero start]
      by_cases hhit : start % size = j
      · simp only [if_pos hhit, UInt8.xor_assoc, UInt8.xor_comm v]
      · simp only [if_neg hhit, UInt8.xor_zero]
    | succ p =>
      have hrest : p < rest.length := Nat.lt_of_succ_lt_succ hp
      rw [List.set_cons_succ, List.getD_cons_succ, column_cons, column_cons, ih (start + 1) hrest,
        ← UInt8.xor_assoc, show start + 1 + p = start + (p + 1) by omega]

/-- Adding byte by byte takes the columns of a divisor along. -/
theorem column_addEach (hsize : 0 < size) {k : Nat} (hk : k ∣ size) {out sum : Bytes}
    (hout : out.length = size) {start : Nat} {data : Bytes}
    (h : addEach size out start data = some sum) :
    column k j 0 sum = column k j 0 out ^^^ column k j start data := by
  -- a byte at a time: the place that it falls on has the remainder of its position
  induction data generalizing out start with
  | nil =>
    rw [addEach, Option.some_inj] at h
    rw [h, column_nil, UInt8.xor_zero]
  | cons b rest ih =>
    rw [addEach_cons hsize hout] at h
    have hplace : start % size < out.length := by
      rw [hout]
      exact Nat.mod_lt _ hsize
    rw [ih (by rw [List.length_set, hout]) h, column_set 0 hplace, column_cons, Nat.zero_add,
      Nat.mod_mod_of_dvd _ hk, UInt8.xor_assoc]

/-! ## Single bits -/

/-- A bit of a string of bytes; all bits after its end are zero. -/
def bit (data : Bytes) (position place : Nat) : Bool :=
  (data.getD position 0).toNat.testBit place

/-- Strings of one length that differ in this bit and in no other. -/
structure DifferAt (position place : Nat) (a b : Bytes) : Prop where
  length_eq : a.length = b.length
  bit_ne_iff : ∀ i c, bit a i c ≠ bit b i c ↔ i = position ∧ c = place

variable {a b : Bytes} {p c : Nat}

theorem DifferAt.lt_length (h : DifferAt p c a b) : p < a.length := by
  by_contra hge
  have hne := (h.bit_ne_iff p c).mpr ⟨rfl, rfl⟩
  have hlength := h.length_eq
  rw [bit, bit, List.getD_eq_default _ _ (by omega), List.getD_eq_default _ _ (by omega)] at hne
  exact hne rfl

/-- The bytes at other positions are the same. -/
theorem DifferAt.getD_eq (h : DifferAt p c a b) {i : Nat} (hi : i ≠ p) :
    a.getD i 0 = b.getD i 0 := by
  apply UInt8.toNat.inj
  refine Nat.eq_of_testBit_eq fun place => ?_
  by_contra hne
  exact hi ((h.bit_ne_iff i place).mp hne).1

/-- The one byte has just the one bit added to it. -/
theorem DifferAt.exists_set (h : DifferAt p c a b) :
    ∃ v : UInt8, (∀ place, v.toNat.testBit place = true ↔ place = c) ∧
      b = a.set p (a.getD p 0 ^^^ v) := by
  have hp := h.lt_length
  refine ⟨a.getD p 0 ^^^ b.getD p 0, fun place => ?_, ?_⟩
  · have hbit := h.bit_ne_iff p place
    rw [bit, bit] at hbit
    rw [UInt8.toNat_xor, Nat.testBit_xor, bne_iff_ne, hbit]
    simp
  · refine ext_getD h.length_eq.symm List.length_set fun i hi => ?_
    by_cases hip : p = i
    · subst hip
      rw [getD_set_self hp, ← UInt8.xor_assoc, UInt8.xor_self, UInt8.zero_xor]
    · rw [getD_set_of_ne hip, h.getD_eq (Ne.symm hip)]

/-- Strings differ in a bit that is added to one byte. -/
theorem differAt_set (hp : p < a.length) {v : UInt8}
    (hv : ∀ place, v.toNat.testBit place = true ↔ place = c) :
    DifferAt p c a (a.set p (a.getD p 0 ^^^ v)) where
  length_eq := List.length_set.symm
  bit_ne_iff i place := by
    have hxor : ∀ old added : Bool, old ≠ (old ^^ added) ↔ added = true := by decide
    by_cases hip : p = i
    · subst hip
      rw [bit, bit, getD_set_self hp, UInt8.toNat_xor, Nat.testBit_xor, hxor, hv place]
      simp
    · rw [bit, bit, getD_set_of_ne hip]
      simp [Ne.symm hip]

end Bytes

namespace Generator

open Bytes

/-! ## Folded outputs -/

variable {size k : Nat} {raw raw' : Bytes}

/-- The columns of a divisor are not changed by folding. -/
theorem column_xorFold (hsize : 0 < size) (hk : k ∣ size) (j : Nat) (raw : Bytes) :
    column k j 0 (xorFold size raw) = column k j 0 raw := by
  rw [column_addEach hsize hk (List.length_replicate ..) (addEach_eq_xorFold hsize raw),
    column_replicate_zero, UInt8.zero_xor]

/-- **Folding twice** is folding once if the second size divides the first. -/
theorem xorFold_xorFold (hsize : 0 < size) (hk : k ∣ size) (raw : Bytes) :
    xorFold k (xorFold size raw) = xorFold k raw := by
  have hpos : 0 < k := Nat.pos_of_dvd_of_pos hk hsize
  refine ext_getD (length_xorFold hpos _) (length_xorFold hpos _) fun j hj => ?_
  rw [getD_xorFold hpos _ hj, getD_xorFold hpos _ hj, column_xorFold hsize hk]

/-- Every position falls on a place of the folded output. -/
theorem mod_lt_length_xorFold (hsize : 0 < size) (p : Nat) (raw : Bytes) :
    p % size < (xorFold size raw).length := by
  rw [length_xorFold hsize raw]
  exact Nat.mod_lt _ hsize

/-- A byte that is changed changes one byte of the folded output, by as much. -/
theorem xorFold_set (hsize : 0 < size) {p : Nat} (hp : p < raw.length) (v : UInt8) :
    xorFold size (raw.set p (raw.getD p 0 ^^^ v)) =
      (xorFold size raw).set (p % size) ((xorFold size raw).getD (p % size) 0 ^^^ v) := by
  have hlength := length_xorFold hsize raw
  refine ext_getD (length_xorFold hsize _) (List.length_set.trans hlength) fun j hj => ?_
  rw [getD_xorFold hsize _ hj, column_set 0 hp, ← getD_xorFold hsize raw hj, Nat.zero_add]
  by_cases hhit : p % size = j
  · subst hhit
    rw [if_pos rfl, getD_set_self (mod_lt_length_xorFold hsize p raw)]
  · rw [if_neg hhit, UInt8.xor_zero, getD_set_of_ne hhit]

/-- **A single bit** that changes in the whole output changes a single bit of the folded one. -/
theorem differAt_xorFold (hsize : 0 < size) {p c : Nat} (h : DifferAt p c raw raw') :
    DifferAt (p % size) c (xorFold size raw) (xorFold size raw') := by
  obtain ⟨v, hv, rfl⟩ := h.exists_set
  rw [xorFold_set hsize h.lt_length]
  exact differAt_set (mod_lt_length_xorFold hsize p raw) hv

/-! ## Folding generators -/

theorem run_fold {inner : Generator} {input : Bytes} {log log' : Log}
    (h : log.run (inner.generate input) = (.ok raw, log')) (hlong : inner.size ≤ raw.length) :
    log.run ((fold inner size).generate input) = (.ok (xorFold size raw), log') := by
  rw [generate_fold]
  exact run_map_eq_ok.mpr ⟨raw, run_promised_eq_ok.mpr ⟨h, hlong⟩, rfl⟩

/-- A folded output is as long as promised, so nothing more is refused. -/
theorem promised_fold (hsize : 0 < size) (inner : Generator) (input : Bytes) :
    (fold inner size).promised input = (fold inner size).generate input := by
  refine Log.run_ext fun log => ?_
  rcases hrun : log.run ((fold inner size).generate input) with ⟨e | out, log'⟩
  · rw [run_promised, hrun]
  · refine run_promised_eq_ok.mpr ⟨hrun, ?_⟩
    rw [generate_fold, run_map_eq_ok] at hrun
    obtain ⟨raw, -, rfl⟩ := hrun
    exact (length_xorFold hsize raw).ge

theorem generate_fold_fold (hsize : 0 < size) (hk : k ∣ size) (inner : Generator) (input : Bytes) :
    (fold (fold inner size) k).generate input = (fold inner k).generate input := by
  have hfold : xorFold k ∘ xorFold size = xorFold k := funext (xorFold_xorFold hsize hk)
  rw [generate_fold, promised_fold hsize, generate_fold, generate_fold, ← comp_map, hfold]

/-- **Folded outputs.** Whatever is folded, and however much of it there is, each byte that comes
out is the exclusive or of all bytes whose positions leave its own as their remainder. So an output
that changes in a single bit changes the folded one in a single bit, and folding to a size and then
to a divisor of it is folding to the divisor at once, refusals included. -/
theorem fold?_adds_columns {inner g : Generator} (hfold : inner.fold? size = .ok g) :
    (∀ (input raw : Bytes) (log log' : Log),
      log.run (inner.generate input) = (.ok raw, log') → inner.size ≤ raw.length →
        ∃ out, log.run (g.generate input) = (.ok out, log') ∧ out.length = size ∧
          ∀ j < size, out.getD j 0 =
            xorAt raw ((Finset.range raw.length).filter (· % size = j))) ∧
    (∀ (input input' raw raw' : Bytes) (log log' middle middle' : Log) (p c : Nat),
      log.run (inner.generate input) = (.ok raw, middle) →
      log'.run (inner.generate input') = (.ok raw', middle') → inner.size ≤ raw.length →
      DifferAt p c raw raw' →
        ∃ out out', log.run (g.generate input) = (.ok out, middle) ∧
          log'.run (g.generate input') = (.ok out', middle') ∧
          DifferAt (p % size) c out out') ∧
    ∀ k, k ∣ size → ∃ twice once, g.fold? k = .ok twice ∧ inner.fold? k = .ok once ∧
      ∀ input, twice.generate input = once.generate input := by
  obtain ⟨⟨hle, hsize⟩, rfl⟩ := fold?_eq_ok.mp hfold
  refine ⟨?_, ?_, ?_⟩
  · -- a byte of the output is the sum of its column
    intro input raw log log' hrun hlong
    refine ⟨_, run_fold hrun hlong, length_xorFold hsize raw, fun j hj => ?_⟩
    rw [getD_xorFold hsize raw hj, column_eq_xorAt]
  · -- a bit that changes stays in its column and changes the sum there
    intro input input' raw raw' log log' middle middle' p c hrun hrun' hlong hdiffer
    have hlong' : inner.size ≤ raw'.length := hlong.trans hdiffer.length_eq.le
    exact ⟨_, _, run_fold hrun hlong, run_fold hrun' hlong', differAt_xorFold hsize hdiffer⟩
  · -- the columns of the shorter output are sums of columns of the longer one
    intro k hk
    have hpos : 0 < k := Nat.pos_of_dvd_of_pos hk hsize
    have hkle : k ≤ size := Nat.le_of_dvd hsize hk
    exact ⟨_, _, fold?_eq_ok.mpr ⟨⟨hkle, hpos⟩, rfl⟩, fold?_eq_ok.mpr ⟨⟨hkle.trans hle, hpos⟩, rfl⟩,
      generate_fold_fold hsize hk inner⟩

/-- A source that promises five bytes gives seven, and when it is asked again one bit of the sixth
byte is another. Both answers are folded to four bytes, and the first one to two. -/
theorem fold?_adds_columns_overlong :
    let raw : Bytes := [1, 2, 4, 8, 16, 32, 64]
    let raw' : Bytes := [1, 2, 4, 8, 16, 34, 64]
    let inner := source (.scripted 0 5 [raw, raw'])
    inner.fold? 4 = .ok (fold inner 4) ∧ inner.size ≤ raw.length ∧ DifferAt 5 1 raw raw' ∧
      (Log.empty.run ((fold inner 4).generate [])).1 = .ok [17, 34, 68, 8] ∧
      DifferAt 1 1 [17, 34, 68, 8] [17, 32, 68, 8] ∧
      xorAt raw ((Finset.range raw.length).filter (· % 4 = 1)) = 34 ∧
      ∃ twice once, (fold inner 4).fold? 2 = .ok twice ∧ inner.fold? 2 = .ok once ∧
        ∀ input, twice.generate input = once.generate input := by
  intro raw raw' inner
  have hfold : inner.fold? 4 = .ok (fold inner 4) := fold?_eq_ok.mpr ⟨by decide, rfl⟩
  have hbit : ∀ place, (2 : UInt8).toNat.testBit place = true ↔ place = 1 := by
    intro place
    rw [show (2 : UInt8).toNat = 2 ^ 1 from rfl, Nat.testBit_two_pow, decide_eq_true_iff]
    exact eq_comm
  have hset : raw.set 5 (raw.getD 5 0 ^^^ 2) = raw' := by decide
  have hdiffer : DifferAt 5 1 raw raw' := by
    rw [← hset]
    exact differAt_set (by decide) hbit
  -- the two answers, one after the other
  let first := Log.empty.push ⟨0, 5, [], .ok raw⟩
  let second := first.push ⟨0, 5, [], .ok raw'⟩
  have hrun : Log.empty.run (inner.generate []) = (.ok raw, first) := rfl
  have hrun' : first.run (inner.generate []) = (.ok raw', second) := rfl
  obtain ⟨hcolumns, hbits, hdivisors⟩ := fold?_adds_columns hfold
  obtain ⟨out, hout, -, hcolumn⟩ := hcolumns [] raw .empty first hrun (by decide)
  obtain ⟨out₁, out₁', hout₁, hout₁', hdiffer₁⟩ :=
    hbits [] [] raw raw' .empty first first second 5 1 hrun hrun' (by decide) hdiffer
  -- both outputs, computed
  have hvalue : Log.empty.run ((fold inner 4).generate []) = (.ok [17, 34, 68, 8], first) := by
    rw [show [17, 34, 68, 8] = xorFold 4 raw by decide]
    exact run_fold hrun (by decide)
  have hvalue' : first.run ((fold inner 4).generate []) = (.ok [17, 32, 68, 8], second) := by
    rw [show [17, 32, 68, 8] = xorFold 4 raw' by decide]
    exact run_fold hrun' (by decide)
  obtain rfl : [17, 34, 68, 8] = out := by simpa [hvalue] using hout
  obtain rfl : [17, 34, 68, 8] = out₁ := by simpa [hvalue] using hout₁
  obtain rfl : [17, 32, 68, 8] = out₁' := by simpa [hvalue'] using hout₁'
  exact ⟨hfold, by decide, hdiffer, by rw [hvalue], hdiffer₁, (hcolumn 1 (by decide)).symm,
    hdivisors 2 (by decide)⟩

end Generator

end ColumnMask
