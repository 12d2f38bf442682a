import Mathlib
import ColumnMask.Proofs.Call
import ColumnMask.Proofs.DecimalArithmetic
import ColumnMask.Proofs.Dependence

/-!
# Capacity

How many bytes a window needs, and how evenly they are shared out.
-/

namespace ColumnMask

/-!
## Bytes for the window of a call

A rule for numbers of any size draws as many bytes as its own window takes. A window that a call
brings along is accepted if it takes no more of them. A window within another one takes no more
bytes, so it is accepted wherever the other one is.

- `Window.byteLength_isLeast`: the bytes that a window of integers takes.
- `Window.byteLength_mono`, `DecimalWindow.byteLength_mono`: a narrower window takes no more.
- `Request.Accepted`: no call is refused for want of bytes; `RandomBigInteger.accepted_iff` and
  `RandomDecimal.accepted_iff` say what this comes to.
- `Request.accepted_of_within`: windows within accepted ones are accepted.
-/

/-! ### The bytes that a window takes -/

namespace Window

variable {v w : Window Int}

theorem byteLength_le_iff {length : Nat} (h : 0 < length) :
    w.byteLength ≤ length ↔ w.min.natAbs < 256 ^ length ∧ w.max.natAbs < 256 ^ length ∧
      w.max - w.min + 1 < 256 ^ length := by
  have hlt := w.min_lt_max
  have hcount : w.count.natAbs < 256 ^ length ↔ w.max - w.min + 1 < 256 ^ length := by
    rw [← Int.ofNat_lt, Int.natAbs_of_nonneg (by unfold count; omega), count]
    norm_cast
  rw [byteLength, byteCount_le_iff h, max_lt_iff, max_lt_iff, hcount, and_assoc]

theorem byteLength_pos (w : Window Int) : 0 < w.byteLength := byteCount_pos _

/-- **A window takes** the least number of bytes that can tell its bounds and its integers. -/
theorem byteLength_isLeast (w : Window Int) :
    IsLeast {length | 1 ≤ length ∧ w.min.natAbs < 256 ^ length ∧ w.max.natAbs < 256 ^ length ∧
      w.max - w.min + 1 < 256 ^ length} w.byteLength := by
  refine ⟨⟨w.byteLength_pos, (byteLength_le_iff w.byteLength_pos).mp le_rfl⟩, ?_⟩
  rintro length ⟨hpos, hbounds⟩
  exact (byteLength_le_iff hpos).mpr hbounds

/-- A narrower window takes no more bytes. -/
theorem byteLength_mono (hmin : w.min ≤ v.min) (hmax : v.max ≤ w.max) :
    v.byteLength ≤ w.byteLength := by
  have hlt := v.min_lt_max
  unfold byteLength
  apply byteCount_mono
  unfold count
  omega

end Window

namespace Decimal

variable {a b : Decimal}

/-- The coefficient of a number without its sign. -/
theorem truncatedUnits_abs (d : Decimal) (precision : Nat) :
    d.abs.truncatedUnits precision = ⌊|d.toRat| * 10 ^ precision⌋ := by
  rw [← toRat_abs]
  exact truncatedUnits_eq_floor (toRat_abs d ▸ abs_nonneg _)

theorem natAbs_truncatedUnits_abs_mono (h : |a.toRat| ≤ |b.toRat|) (precision : Nat) :
    (a.abs.truncatedUnits precision).natAbs ≤ (b.abs.truncatedUnits precision).natAbs := by
  have hnonneg : 0 ≤ ⌊|a.toRat| * 10 ^ precision⌋ := Int.floor_nonneg.mpr (by positivity)
  have hfloor : ⌊|a.toRat| * 10 ^ precision⌋ ≤ ⌊|b.toRat| * 10 ^ precision⌋ :=
    Int.floor_le_floor (mul_le_mul_of_nonneg_right h (by positivity))
  rw [truncatedUnits_abs, truncatedUnits_abs]
  omega

end Decimal

namespace DecimalWindow

variable {v w : DecimalWindow}

/-- A number within a window has no more digits than one of the bounds. -/
theorem natAbs_truncatedUnits_le {d : Decimal} (hmin : w.min ≤ d) (hmax : d ≤ w.max)
    (precision : Nat) :
    (d.abs.truncatedUnits precision).natAbs ≤
      Max.max (w.min.abs.truncatedUnits precision).natAbs
        (w.max.abs.truncatedUnits precision).natAbs := by
  rw [Decimal.le_iff_toRat] at hmin hmax
  rcases le_max_iff.mp (abs_le_max_abs_abs hmin hmax) with h | h
  · exact le_max_of_le_left (Decimal.natAbs_truncatedUnits_abs_mono h precision)
  · exact le_max_of_le_right (Decimal.natAbs_truncatedUnits_abs_mono h precision)

/-- A narrower window whose fold counts no farther takes no more bytes. -/
theorem byteLength_mono (hmin : w.min ≤ v.min) (hmax : v.max ≤ w.max)
    (hwidth : v.width.toRat ≤ w.width.toRat) (precision : Nat) :
    v.byteLength precision ≤ w.byteLength precision := by
  have hbounds : v.min ≤ v.max := Decimal.le_iff_toRat.mpr v.min_lt_max.le
  have hwidths : |v.width.toRat| ≤ |w.width.toRat| := by
    rwa [abs_of_pos v.width_pos, abs_of_pos w.width_pos]
  unfold byteLength
  refine byteCount_mono (max_le_max (max_le ?_ ?_) ?_)
  · exact natAbs_truncatedUnits_le hmin (Decimal.le_trans hbounds hmax) precision
  · exact natAbs_truncatedUnits_le (Decimal.le_trans hmin hbounds) hmax precision
  · exact Decimal.natAbs_truncatedUnits_abs_mono hwidths precision

/-- Without digits of its own, or with at least as many, the fold of a narrower window counts no
farther. -/
theorem width_le_of_within {precision : Nat} (hprecision : w.precision = some precision)
    (hmin : w.min ≤ v.min) (hmax : v.max ≤ w.max) (hown : ∀ p ∈ v.precision, precision ≤ p) :
    v.width.toRat ≤ w.width.toRat := by
  have hstep : (v.precision.elim 0 fun p => (Decimal.step p).toRat) ≤
      (Decimal.step precision).toRat := by
    rw [Decimal.toRat_step]
    cases hv : v.precision with
    | none => exact (Decimal.ten_zpow_pos _).le
    | some p =>
      have hle : precision ≤ p := hown p hv
      rw [Option.elim_some, Decimal.toRat_step]
      exact zpow_le_zpow_right₀ (by norm_num) (by omega)
  rw [Decimal.le_iff_toRat] at hmin hmax
  rw [toRat_width, toRat_width, hprecision, Option.elim_some]
  linarith

end DecimalWindow

/-! ### Calls that are accepted -/

/-- What draws and reads is refused for want of bytes by neither part. -/
theorem Plan.run_ne_capacity {plan : Plan}
    (hread : ∀ block e, plan.read block ≠ .error (.failure (.capacity e)))
    (generator : Option Generator) (required : Nat) (log : Log) (e : InsufficientSize) :
    (log.run (plan.run generator required)).1 ≠ .error (.failure (.capacity e)) := by
  simp only [Plan.run, Log.run_bind, Log.run_adapt]
  rcases log.run (drawBlock generator required plan.input) with ⟨e' | block, log'⟩
  · cases e' with
    | failure e' => simp [Except.mapError]
    | panic => simp [Except.mapError]
  · have hblock := hread block e
    simp only [Except.mapError]
    cases hresult : plan.read block with
    | ok v => simp
    | error e' =>
      rw [hresult] at hblock
      simpa using hblock

namespace Request

/-- No call is refused because its window takes more bytes than the rule draws, whichever generator
is attached. -/
def Accepted {rule : Rule} (request : Request rule) : Prop :=
  ∀ (generator : Option Generator) (h : ∀ g ∈ generator, rule.required ≤ g.size) (log : Log)
    (e : InsufficientSize),
    (log.run (Transformer.call ⟨rule, generator, h⟩ request)).1 ≠
      .error (.failure (.capacity e))

/-- It is decided when the plan is made, before any generator is asked. -/
theorem accepted_iff_plan {rule : Rule} {request : Request rule} :
    request.Accepted ↔ ∀ e, request.plan ≠ .error (.capacity e) := by
  constructor
  · -- a plan that fails does so before a generator is asked
    intro h e hplan
    refine h none (by simp) .empty e ?_
    rw [Transformer.call_of_error hplan]
    rfl
  · intro h generator hgenerator log e
    cases hplan : request.plan with
    | error e' =>
      rw [Transformer.call_of_error hplan, Log.run_throw]
      intro hcall
      obtain rfl : e' = .capacity e := Stop.failure.inj (Except.error.inj hcall)
      exact h e hplan
    | ok plan =>
      rw [Transformer.call_of_ok hplan]
      -- once there is a plan, nothing that reads a block complains of the capacity
      refine Plan.run_ne_capacity (fun block e hread => ?_) generator _ log e
      rcases read_error_cases hplan hread with ⟨d, hd⟩ | hd
      · cases hd
      · cases hd

end Request

namespace RandomBigInteger

variable {r : RandomBigInteger} {input : Bytes} {window : Option (Window Int)}

theorem accepted_iff :
    (Request.randomBigInteger input window : Request (.randomBigInteger r)).Accepted ↔
      (window.getD r.window).byteLength ≤ r.required := by
  simp only [Request.accepted_iff_plan, ne_eq, Request.plan_eq_error_iff]
  constructor
  · intro h
    cases window with
    | none => exact le_rfl
    | some w =>
      by_contra hlt
      exact h _ (.bigInteger (not_le.mp hlt))
  · intro h e hunservable
    cases hunservable with
    | bigInteger hlt => exact absurd h (not_le.mpr hlt)

/-- A call that is accepted reads every block. -/
theorem outcome_eq
    (h : (Request.randomBigInteger input window : Request (.randomBigInteger r)).Accepted)
    (block : Bytes) :
    (Request.randomBigInteger input window : Request (.randomBigInteger r)).outcome block =
      .ok (.decimal (.ofInt (r.read window block))) := by
  rcases hplan : (Request.randomBigInteger (r := r) input window).plan with e | plan
  · cases Request.plan_eq_error_iff.mp hplan with
    | bigInteger _ => exact absurd hplan (Request.accepted_iff_plan.mp h _)
  · rw [Request.outcome, hplan]
    exact read_of_plan hplan block

end RandomBigInteger

namespace RandomDecimal

variable {r : RandomDecimal} {input : Bytes} {window : Option DecimalWindow}

theorem accepted_iff :
    (Request.randomDecimal input window : Request (.randomDecimal r)).Accepted ↔
      (window.getD r.window).byteLength r.precision ≤ r.required := by
  simp only [Request.accepted_iff_plan, ne_eq, Request.plan_eq_error_iff]
  constructor
  · intro h
    cases window with
    | none => exact le_rfl
    | some w =>
      by_contra hlt
      exact h _ (.decimal (not_le.mp hlt))
  · intro h e hunservable
    cases hunservable with
    | decimal hlt => exact absurd h (not_le.mpr hlt)

/-- A call that is accepted reads every block. -/
theorem outcome_eq
    (h : (Request.randomDecimal input window : Request (.randomDecimal r)).Accepted)
    (block : Bytes) :
    (Request.randomDecimal input window : Request (.randomDecimal r)).outcome block =
      .ok (.decimal (r.read window block)) := by
  rcases hplan : (Request.randomDecimal (r := r) input window).plan with e | plan
  · cases Request.plan_eq_error_iff.mp hplan with
    | decimal _ => exact absurd hplan (Request.accepted_iff_plan.mp h _)
  · rw [Request.outcome, hplan]
    exact read_of_plan hplan block

end RandomDecimal

/-! ### Windows within windows -/

/-- **Narrower windows are accepted.** A call is never refused for want of bytes if its window lies
within that of the rule; decimals may come with digits of their own if these are not fewer than the
precision of the rule. A window of integers within an accepted one is accepted too. For a window of
integers the bytes are the least number of them, one or more, that can tell both bounds and the
number of integers. -/
theorem Request.accepted_of_within :
    (∀ (r : RandomBigInteger) (w : Window Int) (input : Bytes),
      r.window.min ≤ w.min → w.max ≤ r.window.max →
        (Request.randomBigInteger input (some w) : Request (.randomBigInteger r)).Accepted) ∧
    (∀ (r : RandomBigInteger) (v w : Window Int) (input : Bytes),
      (Request.randomBigInteger input (some w) : Request (.randomBigInteger r)).Accepted →
      w.min ≤ v.min → v.max ≤ w.max →
        (Request.randomBigInteger input (some v) : Request (.randomBigInteger r)).Accepted) ∧
    (∀ (r : RandomDecimal) (w : DecimalWindow) (input : Bytes),
      r.window.min ≤ w.min → w.max ≤ r.window.max → (∀ p ∈ w.precision, r.precision ≤ p) →
        (Request.randomDecimal input (some w) : Request (.randomDecimal r)).Accepted) ∧
    ∀ w : Window Int,
      IsLeast {length | 1 ≤ length ∧ w.min.natAbs < 256 ^ length ∧ w.max.natAbs < 256 ^ length ∧
        w.max - w.min + 1 < 256 ^ length} w.byteLength := by
  refine ⟨?_, ?_, ?_, Window.byteLength_isLeast⟩
  · intro r w input hmin hmax
    exact RandomBigInteger.accepted_iff.mpr (Window.byteLength_mono hmin hmax)
  · intro r v w input haccepted hmin hmax
    rw [RandomBigInteger.accepted_iff] at haccepted ⊢
    exact (Window.byteLength_mono hmin hmax).trans haccepted
  · intro r w input hmin hmax hown
    have hwidth := DecimalWindow.width_le_of_within r.precision_eq hmin hmax hown
    exact RandomDecimal.accepted_iff.mpr
      (DecimalWindow.byteLength_mono hmin hmax hwidth r.precision)

/-!
## Even shares

The words of a width, and the blocks of a length, are the numbers below some power of two, one each.
Folding these numbers counts them round and round through a window, so that each of its integers
gets an equal share of them, or one more where the last round ends early.

- `Window.ncard_foldInteger`: the share of an integer.
- `RandomInteger.words_shared_evenly`: random 64-bit integers.
- `RandomBigInteger.blocks_shared_evenly`: random integers of any size, also in a window that a call
  brings along.
-/

namespace Window

/-! ### Shares -/

section Integers

variable (w : Window Int) {α : Type} {s : Set α} {number : α → ℕ} {total : ℕ} {n : Int}

/-- Of things that are numbered below a total, an integer of the window gets those with its own
remainder: one for each full round, and one more if the last round comes as far. -/
theorem ncard_foldInteger (h : Set.BijOn number s (Set.Iio total)) (hn : w.min ≤ n ∧ n ≤ w.max) :
    {a | a ∈ s ∧ w.foldInteger (number a) = n}.ncard =
      total / w.count.toNat + if (n - w.min).toNat < total % w.count.toNat then 1 else 0 := by
  have hcount := w.count_pos
  have hrest : (n - w.min).toNat < w.count.toNat := by
    unfold count at *
    omega
  -- a number is folded to `n` just if it leaves the place of `n` in the window as its remainder
  have hfold (k : ℕ) :
      w.foldInteger k = n ↔ k ≡ (n - w.min).toNat [MOD w.count.toNat] := by
    rw [foldInteger_eq_iff, and_iff_right hn, ← Int.natCast_modEq_iff,
      Int.toNat_of_nonneg hcount.le, Int.toNat_of_nonneg (by omega)]
    constructor
    · intro hsum
      simpa using (hsum.sub_right w.min).symm
    · intro hoffset
      simpa using (hoffset.add_left w.min).symm
  -- the numbering turns the blocks into the numbers below `total`
  have himage : number '' {a | a ∈ s ∧ w.foldInteger (number a) = n} =
      ((Finset.range total).filter (· ≡ (n - w.min).toNat [MOD w.count.toNat]) : Set ℕ) := by
    ext k
    simp only [Set.mem_image, Set.mem_ofPred_eq, Finset.coe_filter, Finset.mem_range, ← hfold]
    constructor
    · rintro ⟨a, ⟨ha, hk⟩, rfl⟩
      exact ⟨h.mapsTo ha, hk⟩
    · rintro ⟨hlt, hk⟩
      obtain ⟨a, ha, rfl⟩ := h.surjOn hlt
      exact ⟨a, ⟨ha, hk⟩, rfl⟩
  rw [← (h.injOn.mono fun a ha => ha.1).ncard_image, himage, Set.ncard_coe_finset,
    ← Nat.count_eq_card_filter_range, Nat.count_modEq_card _ (by omega), Nat.mod_eq_of_lt hrest]

/-- The shares of two integers differ by one at most. -/
theorem ncard_foldInteger_cases (h : Set.BijOn number s (Set.Iio total))
    (hn : w.min ≤ n ∧ n ≤ w.max) :
    {a | a ∈ s ∧ w.foldInteger (number a) = n}.ncard = total / w.count.toNat ∨
      {a | a ∈ s ∧ w.foldInteger (number a) = n}.ncard = total / w.count.toNat + 1 := by
  rw [w.ncard_foldInteger h hn]
  split_ifs
  · exact .inr rfl
  · exact .inl rfl

end Integers

/-! ### Words -/

section Words

variable (w : Window Int64)

/-- The words are the numbers below a power of two. -/
theorem bijOn_toNat : Set.BijOn UInt64.toNat Set.univ (Set.Iio (2 ^ 64)) := by
  refine ⟨fun v _ => v.toNat_lt, fun a _ b _ h => UInt64.toNat_inj.mp h, fun k hk => ?_⟩
  exact ⟨UInt64.ofNat k, trivial, UInt64.toNat_ofNat_of_lt' hk⟩

/-- Every integer of the window gets an even share of the words. -/
theorem ncard_foldWord_cases {n : Int64} (hn : w.min ≤ n ∧ n ≤ w.max) :
    {v | w.foldWord v = n}.ncard = 2 ^ 64 / w.toIntegers.count.toNat ∨
      {v | w.foldWord v = n}.ncard = 2 ^ 64 / w.toIntegers.count.toNat + 1 := by
  have hfold : {v | w.foldWord v = n} =
      {v | v ∈ Set.univ ∧ w.toIntegers.foldInteger v.toNat = n.toInt} := by
    ext v
    rw [Set.mem_ofPred_eq, Set.mem_ofPred_eq, ← toInt_foldWord, Int64.toInt_inj,
      and_iff_right (Set.mem_univ v)]
  rw [hfold]
  exact w.toIntegers.ncard_foldInteger_cases bijOn_toNat
    ⟨Int64.le_iff_toInt_le.mp hn.1, Int64.le_iff_toInt_le.mp hn.2⟩

end Words

end Window

/-! ### Random 64-bit integers -/

namespace RandomInteger

/-- Every integer of the window is read from some block. -/
theorem exists_read (r : RandomInteger) (window : Option (Window Int64)) {n : Int64}
    (h : (window.getD r.window).min ≤ n ∧ n ≤ (window.getD r.window).max) :
    ∃ block : Bytes, block.length = 8 ∧ r.read window block = n := by
  generalize hw : window.getD r.window = w at h
  have hlow := Int64.le_iff_toInt_le.mp h.1
  have hhigh := Int64.le_iff_toInt_le.mp h.2
  have hmin : -2 ^ 63 ≤ w.min.toInt := w.min.le_toInt
  have hmax : w.max.toInt < 2 ^ 63 := w.max.toInt_lt
  have hoffset : (n.toInt - w.min.toInt).toNat < 256 ^ 8 := by omega
  -- the bytes of the place of `n` in the window
  refine ⟨Bytes.ofNatLE 8 (n.toInt - w.min.toInt).toNat, Bytes.length_ofNatLE .., ?_⟩
  rw [read, hw, ← Int64.toInt_inj, Window.toInt_foldWord,
    Bytes.toNat_readUInt64_ofNatLE hoffset, Window.foldInteger_eq_iff]
  refine ⟨⟨hlow, hhigh⟩, ?_⟩
  have hsum : w.toIntegers.min + (n.toInt - w.min.toInt).toNat = n.toInt := by
    show w.min.toInt + _ = _
    omega
  rw [hsum]

theorem results_eq (r : RandomInteger) (window : Option (Window Int64)) (input : Bytes) :
    (Request.randomInteger input window : Request (.randomInteger r)).results =
      (fun n => .ok (.integer n)) ''
        {n | (window.getD r.window).min ≤ n ∧ n ≤ (window.getD r.window).max} := by
  rw [Request.results_eq]
  ext result
  constructor
  · rintro ⟨block, -, rfl⟩
    exact ⟨r.read window block, (window.getD r.window).foldWord_mem _, rfl⟩
  · rintro ⟨n, hn, rfl⟩
    obtain ⟨block, hlength, hread⟩ := r.exists_read window hn
    exact ⟨block, hlength, congrArg (fun n => Except.ok (Value.integer n)) hread⟩

/-- **Words are shared out evenly.** Folding a word takes it and the bounds to wider words and back,
and on the way nothing is lost: it gives the integer of the window that folding integers of any size
gives. Of all words, each integer of the window gets as many as any other, or one more. So random
64-bit integers are exactly those of the window. -/
theorem words_shared_evenly (r : RandomInteger) (window : Option (Window Int64)) (input : Bytes) :
    let w := window.getD r.window
    let v := w.toIntegers
    (∀ u, w.checkedFoldWord u = some (w.foldWord u) ∧
      (w.foldWord u).toInt = v.foldInteger u.toNat ∧ w.min ≤ w.foldWord u ∧ w.foldWord u ≤ w.max) ∧
    (∀ n, w.min ≤ n → n ≤ w.max →
      {u | w.foldWord u = n}.ncard = 2 ^ 64 / v.count.toNat ∨
        {u | w.foldWord u = n}.ncard = 2 ^ 64 / v.count.toNat + 1) ∧
    (Request.randomInteger input window : Request (.randomInteger r)).results =
      (fun n => .ok (.integer n)) '' {n | w.min ≤ n ∧ n ≤ w.max} := by
  intro w v
  refine ⟨fun u => ?_, fun n hlow hhigh => ?_, r.results_eq window input⟩
  · exact ⟨w.checkedFoldWord_eq u, w.toInt_foldWord u, w.foldWord_mem u⟩
  · exact w.ncard_foldWord_cases ⟨hlow, hhigh⟩

end RandomInteger

/-! ### Random integers of any size -/

/-- The blocks of the needed length for which a call gives a result, whichever generator answers
with them. -/
def Request.blocksFor {rule : Rule} (request : Request rule)
    (result : Except (Stop TransformError) Value) : Set Bytes :=
  {block | block.length = rule.required ∧ request.Gives block result}

namespace RandomBigInteger

variable {r : RandomBigInteger} {window : Option (Window Int)} {input : Bytes}

theorem results_eq
    (haccepted : (Request.randomBigInteger input window : Request (.randomBigInteger r)).Accepted) :
    (Request.randomBigInteger input window : Request (.randomBigInteger r)).results =
      (fun n => .ok (.decimal (Decimal.ofInt n))) ''
        {n | (window.getD r.window).min ≤ n ∧ n ≤ (window.getD r.window).max} := by
  rw [Request.results_eq]
  ext result
  constructor
  · rintro ⟨block, -, rfl⟩
    exact ⟨r.read window block, (window.getD r.window).foldInteger_mem _,
      (outcome_eq haccepted block).symm⟩
  · rintro ⟨n, hn, rfl⟩
    obtain ⟨block, hlength, hfold⟩ :=
      (window.getD r.window).exists_foldInteger (accepted_iff.mp haccepted) hn
    refine ⟨block, hlength, ?_⟩
    rw [outcome_eq haccepted, read, hfold]

/-- Every integer of the window gets an even share of the blocks. -/
theorem ncard_blocksFor_cases
    (haccepted : (Request.randomBigInteger input window : Request (.randomBigInteger r)).Accepted)
    {n : Int} (hn : (window.getD r.window).min ≤ n ∧ n ≤ (window.getD r.window).max) :
    let call : Request (.randomBigInteger r) := .randomBigInteger input window
    let count := (window.getD r.window).count.toNat
    (call.blocksFor (.ok (.decimal (.ofInt n)))).ncard = 256 ^ r.required / count ∨
      (call.blocksFor (.ok (.decimal (.ofInt n)))).ncard = 256 ^ r.required / count + 1 := by
  intro call count
  have hblocks : call.blocksFor (.ok (.decimal (.ofInt n))) =
      {block | block ∈ {block : Bytes | block.length = r.required} ∧
        (window.getD r.window).foldInteger (Bytes.toNatBE block) = n} := by
    ext block
    refine and_congr_right fun hlength => ?_
    rw [Request.gives_iff _ hlength, outcome_eq haccepted]
    simp [read, Decimal.ofInt]
  rw [hblocks]
  exact (window.getD r.window).ncard_foldInteger_cases (Bytes.bijOn_toNatBE r.required) hn

/-- **Blocks are shared out evenly.** The results of a random integer are exactly the integers of
its window, be it that of the rule or one that a call brings along and that is accepted. Of all
blocks of the needed length, each of these integers gets as many as any other, or one more. Any
number, negative ones included, is folded to the one integer of the window that is some counts away
from the sum of the lower bound and the number. -/
theorem blocks_shared_evenly
    (haccepted : (Request.randomBigInteger input window : Request (.randomBigInteger r)).Accepted) :
    let w := window.getD r.window
    let call : Request (.randomBigInteger r) := .randomBigInteger input window
    call.results = (fun n => .ok (.decimal (.ofInt n))) '' {n | w.min ≤ n ∧ n ≤ w.max} ∧
    (∀ n, w.min ≤ n → n ≤ w.max →
      (call.blocksFor (.ok (.decimal (.ofInt n)))).ncard = 256 ^ r.required / w.count.toNat ∨
        (call.blocksFor (.ok (.decimal (.ofInt n)))).ncard =
          256 ^ r.required / w.count.toNat + 1) ∧
    ∀ u n, w.foldInteger u = n ↔ (w.min ≤ n ∧ n ≤ w.max) ∧ n ≡ w.min + u [ZMOD w.count] := by
  intro w call
  refine ⟨results_eq haccepted, fun n hlow hhigh => ?_, fun u n => w.foldInteger_eq_iff⟩
  exact ncard_blocksFor_cases haccepted ⟨hlow, hhigh⟩

/-- Two bytes are drawn for the integers from -300 to 300. In the window of one byte that a call
brings along, each integer gets 256 blocks or one more, and what is one below zero is folded to the
upper bound. -/
theorem blocks_shared_evenly_narrower :
    let r : RandomBigInteger := ⟨⟨-300, 300, by decide⟩⟩
    let w : Window Int := ⟨0, 255, by decide⟩
    let call : Request (.randomBigInteger r) := .randomBigInteger [] (some w)
    call.Accepted ∧ r.required = 2 ∧
      call.results = (fun n => .ok (.decimal (.ofInt n))) '' {n | 0 ≤ n ∧ n ≤ 255} ∧
      ((call.blocksFor (.ok (.decimal (.ofInt 7)))).ncard = 256 ∨
        (call.blocksFor (.ok (.decimal (.ofInt 7)))).ncard = 257) ∧
      w.foldInteger (-1) = 255 := by
  intro r w call
  have haccepted : call.Accepted := accepted_iff.mpr (by decide +kernel)
  have hrequired : r.required = 2 := by decide +kernel
  obtain ⟨hresults, hshares, hfold⟩ := blocks_shared_evenly haccepted
  have hshare : 256 ^ r.required / w.count.toNat = 256 := by decide +kernel
  refine ⟨haccepted, hrequired, hresults, ?_, (hfold (-1) 255).mpr (by decide)⟩
  rcases hshares 7 (by decide) (by decide) with hseven | hseven
  · exact .inl (hseven.trans hshare)
  · exact .inr (hseven.trans (congrArg (· + 1) hshare))

end RandomBigInteger

end ColumnMask
