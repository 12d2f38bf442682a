import Mathlib
import ColumnMask.Decimal
import ColumnMask.Proofs.Bytes

/-!
# Checked arithmetic and windows of integers

Words of a fixed width hold what is computed for a window of integers.
-/

namespace ColumnMask

/-!
## Operations that may go wrong

Reading a block takes slices of it, divides, and computes with words of a fixed width. The
operations here do the same and give nothing where a slice reaches out of the block, a divisor is
zero, a result does not fit its word, or the bounds of a clamp are in the wrong order.

- `Checked.slice`, `Checked.word`: bytes out of a block.
- `Checked.unsigned`, `Checked.signed`: numbers that have to fit a word.
- `Checked.rem`, `Checked.remSigned`, `Checked.remDecimal`: remainders.
- `Checked.clamp`: the nearer bound of a window.

Each has a lemma that says what it gives when nothing goes wrong.
-/

namespace Checked

/-- The bytes from one position up to another, if the string has them. -/
def slice (data : Bytes) (start stop : Nat) : Option Bytes :=
  if start ≤ stop ∧ stop ≤ data.length then some ((data.drop start).take (stop - start)) else none

/-- Exactly `width` bytes: as many of the leading ones as there are, with zeros after them. -/
def word (width : Nat) (data : Bytes) : Option Bytes := do
  let front ← slice data 0 (min data.length width)
  return front ++ List.replicate (width - data.length) 0

/-- The remainder of a division, if the divisor is not zero. -/
def rem (n d : Int) : Option Int :=
  if d = 0 then none else some (n % d)

/-- A number that has to fit an unsigned word. -/
def unsigned (bits : Nat) (n : Int) : Option Int :=
  if 0 ≤ n ∧ n < 2 ^ bits then some n else none

/-- A number that has to fit a word with a sign. -/
def signed (bits : Nat) (n : Int) : Option Int :=
  if -2 ^ (bits - 1) ≤ n ∧ n < 2 ^ (bits - 1) then some n else none

/-- The remainder of a division of words with a sign that is cut toward zero, if the divisor is not
zero and the quotient fits the word. -/
def remSigned (bits : Nat) (n d : Int) : Option Int :=
  if d = 0 then none else (signed bits (n.tdiv d)).map fun _ => n.tmod d

/-- The remainder of a division of decimals, if the divisor is not zero. -/
def remDecimal (a b : Decimal) : Option Decimal :=
  if b.coefficient = 0 then none else some (a % b)

/-- The nearer bound of a window, if its bounds are in order. -/
def clamp {α : Type} [LT α] [DecidableLT α] (w : Window α) (v : α) : Option α :=
  if w.max < w.min then none else some (w.clamp v)

theorem slice_eq {data : Bytes} {start stop : Nat} (h : start ≤ stop ∧ stop ≤ data.length) :
    slice data start stop = some ((data.drop start).take (stop - start)) := if_pos h

/-- All of a string is one of its slices. -/
theorem slice_all {data : Bytes} {width : Nat} (h : data.length = width) :
    slice data 0 width = some data := by
  rw [slice_eq ⟨Nat.zero_le _, h.ge⟩, List.drop_zero, List.take_of_length_le (by omega)]

/-- A word can be taken from any bytes. -/
theorem word_eq (width : Nat) (data : Bytes) : word width data = some (Bytes.pad width data) := by
  have hfront : data.take (min data.length width) = data.take width := by
    rw [List.take_eq_take_iff]
    omega
  simp only [word, Option.bind_eq_bind]
  rw [slice_eq ⟨Nat.zero_le _, Nat.min_le_left _ _⟩, Option.bind_some, List.drop_zero, Nat.sub_zero,
    hfront]
  rfl

/-- A slice of just the width of a word is the word. -/
theorem bind_slice_word {α : Type} {data : Bytes} {start stop width : Nat}
    (hstop : stop = start + width) (hle : stop ≤ data.length) (next : Bytes → Option α) :
    ((slice data start stop).bind fun front => (word width front).bind next) =
      next ((data.drop start).take width) := by
  have hlength : ((data.drop start).take width).length = width := by
    rw [List.length_take, List.length_drop]
    omega
  rw [slice_eq ⟨by omega, hle⟩, Option.bind_some, word_eq, Nat.sub_eq_of_eq_add' hstop,
    Bytes.pad_of_length hlength, Option.bind_some]

theorem rem_eq (n : Int) {d : Int} (h : d ≠ 0) : rem n d = some (n % d) := if_neg h

theorem unsigned_eq {bits : Nat} {n : Int} (h : 0 ≤ n ∧ n < 2 ^ bits) :
    unsigned bits n = some n := if_pos h

theorem signed_eq {bits : Nat} {n : Int} (h : -2 ^ (bits - 1) ≤ n ∧ n < 2 ^ (bits - 1)) :
    signed bits n = some n := if_pos h

/-- A positive divisor makes no word too large. -/
theorem remSigned_eq {bits : Nat} {n d : Int} (hd : 0 < d)
    (hn : -2 ^ (bits - 1) ≤ n ∧ n < 2 ^ (bits - 1)) : remSigned bits n d = some (n.tmod d) := by
  have hquotient : (n.tdiv d).natAbs ≤ n.natAbs := by
    rw [Int.natAbs_tdiv]
    exact Nat.div_le_self ..
  have hpos : 0 ≤ n → 0 ≤ n.tdiv d := fun h => Int.tdiv_nonneg h hd.le
  have hneg : n ≤ 0 → n.tdiv d ≤ 0 := by
    intro h
    have hnonneg := Int.tdiv_nonneg (Int.neg_nonneg_of_nonpos h) hd.le
    rw [Int.neg_tdiv] at hnonneg
    omega
  rw [remSigned, if_neg hd.ne', signed_eq, Option.map_some]
  omega

theorem remDecimal_eq (a : Decimal) {b : Decimal} (h : b.coefficient ≠ 0) :
    remDecimal a b = some (a % b) := if_neg h

theorem clamp_eq {α : Type} [LT α] [DecidableLT α] {w : Window α} (h : ¬ w.max < w.min) (v : α) :
    clamp w v = some (w.clamp v) := if_neg h

end Checked

/-!
## Laws of windows of integers

Folding counts up from the lower bound of a window and starts over after the upper one.

- `Window.foldInteger_mem`, `Window.exists_foldInteger`: folding gives the integers of the window,
  and each of them for some string of as many bytes as the window takes, or more.
- `Window.foldInteger_eq_iff`: which of them it gives, for negative numbers too.
- `Window.toInt_foldWord`: 64-bit integers are folded in the same way.
- `Window.checkedFoldWord`: the fold of a word with all that it takes to words of other widths and
  back; by `Window.checkedFoldWord_eq` nothing is lost on the way.
-/

namespace Window

/-! ### Integers of any size -/

section Integers

variable (w : Window Int)

theorem count_pos : 0 < w.count := by
  have h := w.min_lt_max
  unfold count
  omega

/-- Folding stays in the window. -/
theorem foldInteger_mem (n : Int) : w.min ≤ w.foldInteger n ∧ w.foldInteger n ≤ w.max := by
  have hrest := Int.emod_nonneg n w.count_pos.ne'
  have hlt := Int.emod_lt_of_pos n w.count_pos
  unfold foldInteger
  unfold count at *
  omega

/-- Folding gives the one integer of the window that is some counts away from the sum. -/
theorem foldInteger_eq_iff {u n : Int} :
    w.foldInteger u = n ↔ (w.min ≤ n ∧ n ≤ w.max) ∧ n ≡ w.min + u [ZMOD w.count] := by
  constructor
  · rintro rfl
    exact ⟨w.foldInteger_mem u, (Int.mod_modEq u w.count).add_left w.min⟩
  · rintro ⟨⟨hlow, hhigh⟩, hn⟩
    have hrest : (n - w.min) % w.count = u % w.count := by
      have hoffset := hn.sub_right w.min
      rwa [add_sub_cancel_left] at hoffset
    rw [foldInteger, ← hrest, Int.emod_eq_of_lt (by omega) (by unfold count; omega)]
    omega

/-- Every integer of the window is reached by a string of as many bytes as the window takes, and by
one of more bytes. -/
theorem exists_foldInteger {n : Int} {length : Nat} (hlength : w.byteLength ≤ length)
    (h : w.min ≤ n ∧ n ≤ w.max) :
    ∃ block : Bytes, block.length = length ∧ w.foldInteger (Bytes.toNatBE block) = n := by
  have hcount : w.count.natAbs < 256 ^ length :=
    calc w.count.natAbs < 256 ^ w.byteLength :=
          lt_of_le_of_lt (le_max_right _ _) (lt_pow_byteCount _)
      _ ≤ 256 ^ length := Nat.pow_le_pow_right (by decide) hlength
  have hoffset : n - w.min < w.count := by
    unfold count
    omega
  obtain ⟨block, hblock, hnumber⟩ :=
    Bytes.exists_toNatBE (lt_trans (by omega : (n - w.min).toNat < w.count.natAbs) hcount)
  refine ⟨block, hblock, ?_⟩
  rw [foldInteger, hnumber, Int.emod_eq_of_lt (by omega) (by omega)]
  omega

end Integers

/-! ### 64-bit integers -/

section Words

variable (w : Window Int64)

/-- The window of the integers that the words stand for. -/
def toIntegers : Window Int :=
  ⟨w.min.toInt, w.max.toInt, Int64.lt_iff_toInt_lt.mp w.min_lt_max⟩

/-- Words are folded like integers. -/
theorem toInt_foldWord (v : UInt64) : (w.foldWord v).toInt = w.toIntegers.foldInteger v.toNat := by
  have hmem := w.toIntegers.foldInteger_mem v.toNat
  have hmin : -2 ^ 63 ≤ w.min.toInt := w.min.le_toInt
  have hmax : w.max.toInt < 2 ^ 63 := w.max.toInt_lt
  exact Int64.toInt_ofInt_of_le (le_trans hmin hmem.1) (lt_of_le_of_lt hmem.2 hmax)

/-- Folding a word stays in the window. -/
theorem foldWord_mem (v : UInt64) : w.min ≤ w.foldWord v ∧ w.foldWord v ≤ w.max := by
  rw [Int64.le_iff_toInt_le, Int64.le_iff_toInt_le, toInt_foldWord]
  exact w.toIntegers.foldInteger_mem v.toNat

/-- The bounds are taken to words of 128 bits with a sign, and the number of integers between them
to one without; the word that is folded goes there too. The rest comes back to a word with a sign,
and the sum to one of 64 bits. Nothing stands for a result or a conversion that does not fit. -/
def checkedFoldWord (v : UInt64) : Option Int64 := do
  let low ← Checked.signed 128 w.min.toInt
  let high ← Checked.signed 128 w.max.toInt
  let distance ← Checked.signed 128 (high - low)
  let distance ← Checked.signed 128 (distance + 1)
  let count ← Checked.unsigned 128 distance
  let units ← Checked.unsigned 128 v.toNat
  let rest ← Checked.rem units count
  let offset ← Checked.signed 128 rest
  let sum ← Checked.signed 128 (low + offset)
  let out ← Checked.signed 64 sum
  return Int64.ofInt out

/-- No conversion loses a bit, and no result is too large. -/
theorem checkedFoldWord_eq (v : UInt64) : w.checkedFoldWord v = some (w.foldWord v) := by
  have hlow : -2 ^ 63 ≤ w.min.toInt := w.min.le_toInt
  have hhigh : w.max.toInt < 2 ^ 63 := w.max.toInt_lt
  have hlt := Int64.lt_iff_toInt_lt.mp w.min_lt_max
  have hunits := v.toNat_lt
  -- the remainder is below the number of units, and the sum stays within the bounds
  have hrest := Int.emod_nonneg (v.toNat : Int) (b := w.max.toInt - w.min.toInt + 1) (by omega)
  have hbound := Int.emod_lt_of_pos (v.toNat : Int) (b := w.max.toInt - w.min.toInt + 1) (by omega)
  simp only [checkedFoldWord, Option.bind_eq_bind]
  rw [Checked.signed_eq ⟨by omega, by omega⟩, Option.bind_some,
    Checked.signed_eq ⟨by omega, by omega⟩, Option.bind_some,
    Checked.signed_eq ⟨by omega, by omega⟩, Option.bind_some,
    Checked.signed_eq ⟨by omega, by omega⟩, Option.bind_some,
    Checked.unsigned_eq ⟨by omega, by omega⟩, Option.bind_some,
    Checked.unsigned_eq ⟨by omega, by omega⟩, Option.bind_some,
    Checked.rem_eq _ (by omega), Option.bind_some,
    Checked.signed_eq ⟨by omega, by omega⟩, Option.bind_some,
    Checked.signed_eq ⟨by omega, by omega⟩, Option.bind_some,
    Checked.signed_eq ⟨by omega, by omega⟩]
  rfl

end Words

end Window

end ColumnMask
