import Mathlib
import ColumnMask.Proofs.Magnitude

/-!
# Floats that are numbers

The floats that are numbers are ordered linearly, infinities included, except that zero is equal to
its negative. An operation can lead out of them only from infinities, or from a division of zero by
zero.

- `Binary64.le_of_not_lt`: of two numbers one is not above the other.
- `Binary64.clamp_mem`, `Binary64.clamp_of_isNaN`: clamping leads into an interval, except for what
  is no number.
- `Binary64.isNaN_pack`: packing keeps what is no number, and makes nothing so.
- `Binary64.isNaN_add`, `Binary64.isNaN_div`: operations on numbers that give numbers.
-/

namespace ColumnMask

namespace Binary64

open Float.Model Float.Model.UnpackedFloat

variable {x y low high : Float}

/-! ## The order -/

theorem lt_iff : x < y ↔ x.toModel.unpack.compare y.toModel.unpack = some .lt := by
  show decide (x.toModel < y.toModel) = true ↔ _
  rw [decide_eq_true_iff]
  show (x.toModel.unpack.compare y.toModel.unpack == some .lt) = true ↔ _
  exact beq_iff_eq

theorem le_iff : x ≤ y ↔
    x.toModel.unpack.compare y.toModel.unpack = some .lt ∨
      x.toModel.unpack.compare y.toModel.unpack = some .eq := by
  show decide (x.toModel ≤ y.toModel) = true ↔ _
  rw [decide_eq_true_iff]
  show (x.toModel.unpack.compare y.toModel.unpack).any (·.isLE) = true ↔ _
  rcases x.toModel.unpack.compare y.toModel.unpack with _ | order
  · simp
  · cases order <;> simp

theorem swap_compare_parts (m m' : Nat) (e e' : Int) :
    ((compare e e').then (compare m m')).swap = (compare e' e).then (compare m' m) := by
  rw [Ordering.swap_then, Int.compare_swap, Nat.compare_swap]

/-- Comparing the other way round swaps the order. -/
theorem compare_swap (a b : UnpackedFloat) : (a.compare b).map Ordering.swap = b.compare a := by
  cases a with
  | notANumber => cases b <;> rfl
  | infinity s => cases s <;> rcases b with t | - | t | t <;> first | rfl | (cases t <;> rfl)
  | zero s => rcases b with t | - | t | t <;> first | rfl | (cases t <;> rfl)
  | finite s m e hm =>
    rcases b with t | - | t | ⟨t, m', e', hm'⟩
    · cases s <;> cases t <;> rfl
    · cases s <;> rfl
    · cases s <;> rfl
    · -- two finite numbers of one sign are compared by their parts, in reverse below zero
      have hparts := swap_compare_parts m m' e e'
      cases s with
      | negative =>
        cases t with
        | negative => exact congrArg (some ·.swap) hparts
        | positive => rfl
      | positive =>
        cases t with
        | negative => rfl
        | positive => exact congrArg some hparts

/-- All numbers are compared. -/
theorem exists_compare_eq {a b : UnpackedFloat} (ha : a.isNaN = false) (hb : b.isNaN = false) :
    ∃ order, a.compare b = some order := by
  unfold UnpackedFloat.compare
  split <;> first | exact ⟨_, rfl⟩ | contradiction

/-- **Of two numbers** one is not above the other. -/
theorem le_of_not_lt (hx : x.isNaN = false) (hy : y.isNaN = false) (h : ¬ x < y) : y ≤ x := by
  obtain ⟨order, horder⟩ := exists_compare_eq hx hy
  have hswap := compare_swap x.toModel.unpack y.toModel.unpack
  rw [lt_iff, horder] at h
  rw [horder, Option.map_some] at hswap
  rw [le_iff, ← hswap]
  cases order with
  | lt => exact absurd rfl h
  | eq => exact .inr rfl
  | gt => exact .inl rfl

theorem le_of_lt (h : x < y) : x ≤ y := le_iff.mpr (.inl (lt_iff.mp h))

theorem not_lt_of_lt (h : x < y) : ¬ y < x := by
  intro h'
  have hswap := compare_swap x.toModel.unpack y.toModel.unpack
  rw [lt_iff.mp h, lt_iff.mp h'] at hswap
  exact absurd hswap (by decide)

theorem not_lt_self (x : Float) : ¬ x < x := fun h => not_lt_of_lt h h

theorem le_self (hx : x.isNaN = false) : x ≤ x := le_of_not_lt hx hx (not_lt_self x)

/-- What is no number is not compared. -/
theorem compare_of_isNaN (h : x.isNaN = true) (a : UnpackedFloat) :
    x.toModel.unpack.compare a = none := by
  change x.toModel.unpack.isNaN = true at h
  generalize x.toModel.unpack = u at h ⊢
  cases u with
  | notANumber => rfl
  | infinity s => contradiction
  | zero s => contradiction
  | finite s m e hm => contradiction

theorem not_lt_of_isNaN (h : x.isNaN = true) (y : Float) : ¬ x < y ∧ ¬ y < x := by
  have hnone := compare_of_isNaN h y.toModel.unpack
  have hswap := compare_swap x.toModel.unpack y.toModel.unpack
  rw [hnone] at hswap
  rw [lt_iff, lt_iff, hnone, ← hswap]
  exact ⟨nofun, nofun⟩

/-- Clamping leaves alone what is no number. -/
theorem clamp_of_isNaN (h : x.isNaN = true) (low high : Float) : clamp low high x = x := by
  unfold clamp
  rw [if_neg (not_lt_of_isNaN h low).1, if_neg (not_lt_of_isNaN h high).2]

/-- **Clamping** leads into an interval. -/
theorem clamp_mem (hbounds : low < high) (hlow : low.isNaN = false) (hhigh : high.isNaN = false)
    (hx : x.isNaN = false) : low ≤ clamp low high x ∧ clamp low high x ≤ high := by
  unfold clamp
  split_ifs with hbelow habove
  · exact ⟨le_self hlow, le_of_lt hbounds⟩
  · exact ⟨le_of_lt hbounds, le_self hhigh⟩
  · exact ⟨le_of_not_lt hx hlow hbelow, le_of_not_lt hhigh hx habove⟩

/-! ## Numbers -/

theorem isNaN_of_isFinite (h : x.isFinite = true) : x.isNaN = false := by
  obtain ⟨sign, m, e, hunpack, -⟩ := exists_unpack_eq h
  unfold Float.isNaN Float.Model.isNaN
  rw [hunpack]
  unfold ofParts
  split <;> rfl

theorem isNaN_of_isInf (h : x.isInf = true) : x.isNaN = false := by
  obtain ⟨sign, hunpack⟩ := exists_unpack_infinity h
  unfold Float.isNaN Float.Model.isNaN
  rw [hunpack]
  rfl

theorem Approximates.isNaN {v : ℚ} (h : Approximates x v) : x.isNaN = false := by
  rcases h with ⟨hfinite, -⟩ | ⟨hinfinite, -⟩
  · exact isNaN_of_isFinite hfinite
  · exact isNaN_of_isInf hinfinite

/-- A product of finite numbers is a number. -/
theorem isNaN_mul (hx : x.isFinite = true) (hy : y.isFinite = true) : (x * y).isNaN = false :=
  (approximates_mul hx hy).isNaN

/-- Only the greatest biased exponent stands for what is not finite. -/
theorem isNaN_unpack_packComponents (sign : Sign) {biased : Nat} (frac : BitVec 52)
    (h : biased < 2047) : (UnpackedFloat.unpack .binary64
      (packComponents .binary64 sign (BitVec.ofNat 11 biased) frac)).isNaN = false := by
  have hne : BitVec.ofNat 11 biased ≠ -1#11 := by
    intro heq
    have hexponent := congrArg BitVec.toNat heq
    rw [BitVec.toNat_ofNat] at hexponent
    have hones : (-1#11).toNat = 2047 := rfl
    omega
  unfold UnpackedFloat.unpack
  simp only [unpackExponent_packComponents, unpackMantissa_packComponents]
  rw [if_neg hne]
  split_ifs <;> rfl

/-- **Packing** makes nothing no number that was one before. -/
theorem isNaN_pack (u : UnpackedFloat) : (Float.ofModel (.pack u)).isNaN = u.isNaN := by
  show (UnpackedFloat.unpack .binary64 (UnpackedFloat.pack .binary64 u)).isNaN = _
  cases u with
  | notANumber => rfl
  | infinity sign => cases sign <;> rfl
  | zero sign => cases sign <;> rfl
  | finite sign m e hm =>
    unfold UnpackedFloat.pack
    dsimp only
    split_ifs with hlarge hwidth
    · cases sign <;> rfl
    · exact isNaN_unpack_packComponents sign _ (by omega)
    · exact @isNaN_unpack_packComponents sign 0 _ (by omega)

theorem isNaN_roundWithAccuracy (sign : Sign) (m : Nat) (e : Int) (acc : Accuracy) :
    (roundWithAccuracy .binary64 sign m e acc).isNaN = false := by
  unfold roundWithAccuracy
  dsimp only
  split_ifs <;> rfl

theorem isNaN_normalize (n e : Int) (sign : Sign) :
    (UnpackedFloat.normalize .binary64 n e sign).isNaN = false := by
  unfold UnpackedFloat.normalize
  split
  · exact isNaN_roundWithAccuracy ..
  · rfl
  · exact isNaN_roundWithAccuracy ..

/-- A sum is a number if not both of the numbers are infinite. -/
theorem isNaN_add (hx : x.isNaN = false) (hy : y.isFinite = true) : (x + y).isNaN = false := by
  show (Float.ofModel (.pack (.add .binary64 x.toModel.unpack y.toModel.unpack))).isNaN = false
  rw [isNaN_pack]
  change x.toModel.unpack.isNaN = false at hx
  change y.toModel.unpack.isFinite = true at hy
  generalize x.toModel.unpack = a at hx ⊢
  generalize y.toModel.unpack = b at hy ⊢
  -- only a sum of infinities of both signs is no number, and the second one is finite
  cases b with
  | notANumber => contradiction
  | infinity t => contradiction
  | zero t =>
    cases a with
    | notANumber => contradiction
    | infinity s => rfl
    | zero s => cases s <;> cases t <;> rfl
    | finite s m e hm => rfl
  | finite t m' e' hm' =>
    cases a with
    | notANumber => contradiction
    | infinity s => rfl
    | zero s => rfl
    | finite s m e hm => exact isNaN_normalize ..

/-- A quotient is a number if it is divided by a finite one that is not zero. -/
theorem isNaN_div {sign : Sign} {m : Nat} {e : Int} {hm : 0 < m} (hx : x.isNaN = false)
    (hy : y.toModel.unpack = .finite sign m e hm) : (x / y).isNaN = false := by
  show (Float.ofModel (.pack (.div .binary64 x.toModel.unpack y.toModel.unpack))).isNaN = false
  rw [isNaN_pack, hy]
  change x.toModel.unpack.isNaN = false at hx
  generalize x.toModel.unpack = a at hx ⊢
  cases a with
  | notANumber => contradiction
  | infinity s => rfl
  | zero s => rfl
  | finite s m e hm => exact isNaN_roundWithAccuracy ..

/-- Zero divided by zero is no number. -/
theorem isNaN_zero_div_zero {s t : Sign} (hx : x.toModel.unpack = .zero s)
    (hy : y.toModel.unpack = .zero t) : (x / y).isNaN = true := by
  show (Float.ofModel (.pack (.div .binary64 x.toModel.unpack y.toModel.unpack))).isNaN = true
  rw [isNaN_pack, hx, hy]
  rfl

theorem isNaN_neg (hx : x.isNaN = false) : (-x).isNaN = false := by
  show (Float.ofModel (.pack x.toModel.unpack.neg)).isNaN = false
  rw [isNaN_pack]
  change x.toModel.unpack.isNaN = false at hx
  generalize x.toModel.unpack = a at hx ⊢
  cases a with
  | notANumber => contradiction
  | infinity s => rfl
  | zero s => rfl
  | finite s m e hm => rfl

/-- Whole numbers are numbers as floats. -/
theorem isNaN_ofNat (n : Nat) : (Float.ofNat n).isNaN = false := by
  rcases Nat.eq_zero_or_pos n with rfl | hn
  · rfl
  · obtain ⟨m, e, acc, -, hround⟩ := isRounded_ofScientific_mul hn (Nat.zero_le 2048)
    have hofNat : Float.ofNat n =
        .ofModel (.pack (roundWithAccuracy .binary64 .positive m e acc)) := hround
    rw [hofNat, isNaN_pack, isNaN_roundWithAccuracy]

/-- Rounding to a whole number keeps numbers. -/
theorem isNaN_roundWhole (hx : x.isNaN = false) : (roundWhole x).isNaN = false := by
  unfold roundWhole
  split
  · unfold ofWhole
    split_ifs
    · exact isNaN_neg (isNaN_ofNat _)
    · exact isNaN_ofNat _
  · exact hx

end Binary64

end ColumnMask
