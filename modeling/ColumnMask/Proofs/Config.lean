import Mathlib
import ColumnMask.Config.Build
import ColumnMask.Proofs.Call
import ColumnMask.Proofs.DecimalWindow
import ColumnMask.Proofs.IntegerWindow
import ColumnMask.Proofs.Subnet

/-!
# What a configuration builds and allows

Checking a configuration and building a transformer of it agree, and the values that its options
allow.
-/

namespace ColumnMask

/-!
## Laws of configurations

Checking a configuration and building it go through the same checks in the same order; what building
does after them cannot fail.

- `Engine.generator_ok`: an engine has a generator of every size.
- `Config.build?_eq_ok_iff`: what is built.
- `Config.build?_eq_check`: building succeeds exactly for the configurations that are in order, and
  fails with the error of the check.
-/

/-! ### Steps that may fail -/

section Except

variable {ε ε' α β : Type} {x : Except ε α}

/-- Two steps succeed if both do. -/
theorem bind_eq_ok {f : α → Except ε β} {b : β} :
    x >>= f = .ok b ↔ ∃ a, x = .ok a ∧ f a = .ok b := by
  cases x with
  | error e => simp [bind, Except.bind]
  | ok a => simp [bind, Except.bind]

/-- One of two steps fails, the second after the first has succeeded. -/
theorem bind_eq_error {f : α → Except ε β} {e : ε} :
    x >>= f = .error e ↔ x = .error e ∨ ∃ a, x = .ok a ∧ f a = .error e := by
  cases x with
  | error e => simp [bind, Except.bind]
  | ok a => simp [bind, Except.bind]

theorem map_eq_ok {f : α → β} {b : β} : x.map f = .ok b ↔ ∃ a, x = .ok a ∧ f a = b := by
  cases x with
  | error e => simp [Except.map]
  | ok a => simp [Except.map]

theorem mapError_eq_ok {f : ε → ε'} {a : α} : x.mapError f = .ok a ↔ x = .ok a := by
  cases x with
  | error e => simp [Except.mapError]
  | ok a => simp [Except.mapError]

theorem pure_eq_ok {a b : α} : (pure a : Except ε α) = .ok b ↔ a = b := by
  simp [pure, Except.pure]

/-- A check that carries its own proof along succeeds if it holds. -/
theorem dite_eq_ok {p : Prop} [Decidable p] {f : p → α} {e : ε} {a : α} :
    (if h : p then Except.ok (f h) else .error e) = .ok a ↔ ∃ h, f h = a := by
  by_cases h : p
  · rw [dif_pos h, Except.ok.injEq]
    exact ⟨fun ha => ⟨h, ha⟩, fun ⟨_, ha⟩ => ha⟩
  · rw [dif_neg h]
    constructor
    · intro ha
      cases ha
    · rintro ⟨hp, -⟩
      exact absurd hp h

/-- Two computations that agree up to the wording of errors and the result succeed and fail
together. -/
theorem outcomes_of_map_eq {x : Except ε' α} {y : Except ε Unit} {f : ε → ε'}
    (h : x.map (fun _ => ()) = y.mapError f) :
    ((∃ a, x = .ok a) ↔ y = .ok ()) ∧
      ∀ e, x = .error e ↔ ∃ cause, y = .error cause ∧ e = f cause := by
  cases x with
  | error e =>
    cases y with
    | error cause =>
      obtain rfl : e = f cause := Except.error.inj h
      simp [eq_comm]
    | ok u => cases h
  | ok a =>
    cases y with
    | error cause => cases h
    | ok u => simp

end Except

namespace Engine

/-- A function with a digest of at least so many bytes, up to the longest digest. -/
theorem forSize_ok {size : Nat} (h : size ≤ HashFunction.maxSize) :
    ∃ f, HashFunction.forSize size = .ok f ∧ size ≤ f.outputSize := by
  have hsome : ∃ f, HashFunction.forSize? size = some f := by
    unfold HashFunction.maxSize at h
    unfold HashFunction.forSize?
    split_ifs
    all_goals exact ⟨_, rfl⟩
  obtain ⟨f, hf⟩ := hsome
  refine ⟨f, ?_, HashFunction.le_outputSize_of_forSize? hf⟩
  simp only [HashFunction.forSize, hf]

/-- An engine has a generator of every size: a single digest as long as one reaches, and an expanded
hash above that. -/
theorem generator_ok (engine : Engine) (number : Nat) (seed : UInt64) (salt : Bytes) (size : Nat) :
    ∃ g, engine.generator number seed salt size = .ok g ∧ size ≤ g.size := by
  cases engine with
  | random => exact ⟨_, rfl, le_refl size⟩
  | deterministic =>
    by_cases h : size ≤ HashFunction.maxSize
    · obtain ⟨f, hf, hle⟩ := forSize_ok h
      refine ⟨.source (.digest number f salt), ?_, hle⟩
      simp only [generator, if_pos h, hf]
      rfl
    · refine ⟨.expand (.source (.keyed number salt)) size 0, ?_, le_refl size⟩
      simp only [generator, if_neg h]
      rfl

end Engine

namespace Config

variable {c : Config} {number : Nat} {seed : UInt64}

/-- What is built is the rule of the options with a generator of at least as many bytes. -/
theorem build?_eq_ok_iff {t : Transformer} :
    c.build? number seed = .ok t ↔
      ∃ salt rule g, ∃ h : rule.required ≤ g.size, c.saltBytes? = .ok salt ∧
        c.rule.rule? = .ok rule ∧ c.engine.generator number seed salt rule.required = .ok g ∧
        t = Transformer.attached rule g h := by
  simp only [build?, bind_eq_ok, mapError_eq_ok]
  constructor
  · rintro ⟨salt, hsalt, rule, hrule, g, hg, ht⟩
    obtain ⟨g', hg', hle⟩ := c.engine.generator_ok number seed salt rule.required
    obtain rfl : g = g' := by simpa [hg] using hg'
    rw [Transformer.attach?_ofRule hle] at ht
    exact ⟨salt, rule, g, hle, hsalt, hrule, hg, (Except.ok.inj ht).symm⟩
  · rintro ⟨salt, rule, g, hle, hsalt, hrule, hg, rfl⟩
    exact ⟨salt, hsalt, rule, hrule, g, hg, Transformer.attach?_ofRule hle⟩

/-- What building does after the checks cannot fail. -/
theorem build?_map (c : Config) (number : Nat) (seed : UInt64) :
    (c.build? number seed).map (fun _ => ()) = c.check.mapError .config := by
  unfold build? check
  rcases c.saltBytes? with e | salt
  · rfl
  · rcases c.rule.rule? with e | rule
    · rfl
    · obtain ⟨g, hg, hle⟩ := c.engine.generator_ok number seed salt rule.required
      simp only [bind, Except.bind, Except.mapError, hg, Transformer.attach?_ofRule hle]
      rfl

/-- **Checking decides building.** A configuration is built exactly if it is in order, and otherwise
both fail for the same reason. No engine ever lacks a generator for a rule, and none of its
generators is too small. -/
theorem build?_eq_check (c : Config) (number : Nat) (seed : UInt64) :
    ((∃ t, c.build? number seed = .ok t) ↔ c.check = .ok ()) ∧
    (∀ e, c.build? number seed = .error e ↔ ∃ cause, c.check = .error cause ∧ e = .config cause) ∧
    ∀ (salt : Bytes) (rule : Rule), ∃ g t,
      c.engine.generator number seed salt rule.required = .ok g ∧
        (Transformer.ofRule rule).attach? g = .ok t := by
  obtain ⟨hok, herror⟩ := outcomes_of_map_eq (c.build?_map number seed)
  refine ⟨hok, herror, fun salt rule => ?_⟩
  obtain ⟨g, hg, hle⟩ := c.engine.generator_ok number seed salt rule.required
  exact ⟨g, _, hg, Transformer.attach?_ofRule hle⟩

end Config

/-!
## What options allow

The options of a rule say which values may take the place of the old ones.

- `Bounds.Admits`: a number within bounds, of which a missing one is the end of the range of a
  column type.
- `RandomMac.read_kind`: a hardware address is of the kind that its rule forces.
- `RuleOptions.Allows`: the values that the options of a rule allow.
- `RuleOptions.integerWindow?_admits`, `RuleOptions.decimalBounds?_admits`,
  `RuleOptions.wholeBounds?_admits`: a window that was made of bounds has no numbers that the bounds
  do not admit.
-/

namespace Bounds

variable {α ω : Type}

/-- The number lies within the bounds; for a missing bound stands the end of a default range. -/
def Admits (b : Bounds α ω) (number : α → ℚ) (least greatest x : ℚ) : Prop :=
  (b.min.map number).getD least ≤ x ∧ x ≤ (b.max.map number).getD greatest

/-- Both bounds are given, or a range supplies what is missing. -/
theorem resolve_cases {b : Bounds α ω} {fallback : ω} {range? : ω → Except ConfigError (α × α)}
    {low high : α} (h : b.resolve fallback range? = .ok (low, high)) :
    (b.min = some low ∧ b.max = some high) ∨
      ∃ least greatest, range? (b.width.getD fallback) = .ok (least, greatest) ∧
        low = b.min.getD least ∧ high = b.max.getD greatest := by
  obtain ⟨min, max, width⟩ := b
  -- the range of the width counts only where a bound is missing
  cases min with
  | none =>
    simp only [resolve, bind_eq_ok] at h
    obtain ⟨⟨least, greatest⟩, hrange, hpair⟩ := h
    cases hpair
    exact Or.inr ⟨least, greatest, hrange, rfl, rfl⟩
  | some min =>
    cases max with
    | none =>
      simp only [resolve, bind_eq_ok] at h
      obtain ⟨⟨least, greatest⟩, hrange, hpair⟩ := h
      cases hpair
      exact Or.inr ⟨least, greatest, hrange, rfl, rfl⟩
    | some max =>
      cases h
      exact Or.inl ⟨rfl, rfl⟩

/-- What lies between the resolved bounds is admitted. -/
theorem admits_of_resolve {b : Bounds α ω} {fallback : ω}
    {range? : ω → Except ConfigError (α × α)} {low high : α} {number : α → ℚ}
    {least greatest x : ℚ} (h : b.resolve fallback range? = .ok (low, high))
    (hrange : ∀ l g, range? (b.width.getD fallback) = .ok (l, g) →
      number l = least ∧ number g = greatest)
    (hx : number low ≤ x ∧ x ≤ number high) : b.Admits number least greatest x := by
  unfold Admits
  rcases resolve_cases h with ⟨hmin, hmax⟩ | ⟨l, g, hok, rfl, rfl⟩
  · rw [hmin, hmax]
    exact hx
  · obtain ⟨hl, hg⟩ := hrange l g hok
    rw [← hl, ← hg, Option.getD_map, Option.getD_map]
    exact hx

end Bounds

/-! ### Ranges of columns -/

namespace Window

theorem make?_eq_ok {α : Type} [LT α] [DecidableLT α] {write : α → String} {min max : α}
    {w : Window α} (h : make? write min max = .ok w) : w.min = min ∧ w.max = max := by
  simp only [make?, dite_eq_ok] at h
  obtain ⟨-, rfl⟩ := h
  exact ⟨rfl, rfl⟩

/-- A column of two, four or eight bytes holds the integers of so many bits. -/
theorem typeSizeBounds?_eq_ok {size : Nat} {least greatest : Int64}
    (h : typeSizeBounds? size = .ok (least, greatest)) :
    (least.toInt : ℚ) = -2 ^ (8 * size - 1) ∧ (greatest.toInt : ℚ) = 2 ^ (8 * size - 1) - 1 := by
  unfold typeSizeBounds? at h
  -- two, four and eight bytes; no other size is a column
  split at h
  · cases h
    rw [show (-32768 : Int64).toInt = -32768 from by decide,
      show (32767 : Int64).toInt = 32767 from by decide]
    norm_num
  · cases h
    rw [show (-2147483648 : Int64).toInt = -2147483648 from by decide,
      show (2147483647 : Int64).toInt = 2147483647 from by decide]
    norm_num
  · cases h
    rw [Int64.toInt_minValue, Int64.toInt_maxValue]
    norm_num
  · cases h

/-- So many digits before the point hold the integers below a power of ten. -/
theorem digitBounds?_eq_ok {digits : Nat} {least greatest : Int}
    (h : digitBounds? digits = .ok (least, greatest)) :
    (least : ℚ) = -(10 ^ digits - 1) ∧ (greatest : ℚ) = 10 ^ digits - 1 := by
  unfold digitBounds? at h
  by_cases hrange : digits = 0 ∨ maxDigits < digits
  · rw [if_pos hrange] at h
    cases h
  · rw [if_neg hrange] at h
    cases h
    have hpow : ((Int.pow 10 digits : Int) : ℚ) = 10 ^ digits := by
      show (((10 : Int) ^ digits : Int) : ℚ) = _
      norm_num
    constructor
    · rw [Int.cast_neg, Int.cast_sub, hpow, Int.cast_one]
    · rw [Int.cast_sub, hpow, Int.cast_one]

end Window

/-! ### Rules -/

theorem DecimalWindow.make?_eq_ok {min max : Decimal} {w : DecimalWindow}
    (h : make? min max = .ok w) : w.window.min = min ∧ w.window.max = max := by
  simp only [make?, bind_eq_ok, pure_eq_ok] at h
  obtain ⟨window, hwindow, rfl⟩ := h
  exact Window.make?_eq_ok hwindow

theorem RandomDecimal.make?_eq_ok {window : DecimalWindow} {precision : Nat} {r : RandomDecimal}
    (h : make? window precision = .ok r) : r.window.window = window.window := by
  simp only [make?, dite_eq_ok] at h
  obtain ⟨-, rfl⟩ := h
  rfl

theorem RandomText.make?_eq_ok {alphabet : String} {minLength maxLength : UInt64} {r : RandomText}
    (h : make? alphabet minLength maxLength = .ok r) :
    r.alphabet = alphabet.toList ∧ r.minLength = minLength.toNat ∧
      r.maxLength = maxLength.toNat := by
  unfold make? at h
  by_cases halphabet : 0 < alphabet.toList.length
  · rw [dif_pos halphabet, dite_eq_ok] at h
    obtain ⟨-, rfl⟩ := h
    exact ⟨rfl, rfl, rfl⟩
  · rw [dif_neg halphabet] at h
    cases h

theorem RandomChoice.make?_eq_ok {choices : List Value} {r : RandomChoice}
    (h : make? choices = .ok r) : r.choices = choices := by
  simp only [make?, dite_eq_ok] at h
  obtain ⟨-, rfl⟩ := h
  rfl

theorem RandomAddress.make?_eq_ok {subnet : Subnet} {r : RandomAddress}
    (h : make? subnet = .ok r) : r.subnet = subnet := by
  simp only [make?, dite_eq_ok] at h
  obtain ⟨-, rfl⟩ := h
  rfl

namespace RandomMac

/-- The bits of the first octet that tell the kind are forced, and the two policies do not disturb
each other. -/
theorem forceKind_bits (r : RandomMac) (octet : UInt8) :
    (r.cast = .individual → r.forceKind octet &&& 1 = 0) ∧
    (r.cast = .group → r.forceKind octet &&& 1 ≠ 0) ∧
    (r.management = .universal → r.forceKind octet &&& 2 = 0) ∧
    (r.management = .locally → r.forceKind octet &&& 2 ≠ 0) := by
  obtain ⟨cast, management, keepVendor⟩ := r
  -- each of the nine pairs of policies is decided over all octets
  cases cast <;> cases management <;> simp only [forceKind] <;> revert octet <;> decide +kernel

/-- An address is of the kind that the policies want. -/
theorem read_kind (r : RandomMac) (block : Bytes) :
    (r.cast = .any ∨ (r.read block).castType = r.cast) ∧
      (r.management = .any ∨ (r.read block).managementType = r.management) := by
  obtain ⟨hindividual, hgroup, huniversal, hlocal⟩ := r.forceKind_bits (block.getD 0 0)
  -- both kinds are read off the first octet, which `forceKind` has set
  have hfirst : (r.read block).octets[0] = r.forceKind (block.getD 0 0) := by
    simp [read]
  constructor
  · unfold MacAddress.castType
    rw [hfirst]
    cases hcast : r.cast with
    | individual => exact Or.inr (if_pos (hindividual hcast))
    | group => exact Or.inr (if_neg (hgroup hcast))
    | any => exact Or.inl rfl
  · unfold MacAddress.managementType
    rw [hfirst]
    cases hmanagement : r.management with
    | universal => exact Or.inr (if_pos (huniversal hmanagement))
    | locally => exact Or.inr (if_neg (hlocal hmanagement))
    | any => exact Or.inl rfl

end RandomMac

/-! ### Options -/

namespace RuleOptions

/-- The values that the options of a rule allow in the place of others. Integers without bounds have
the range of their column, eight bytes wide if nothing is said; decimals have 38 digits, of which
those after the point are not there before it. -/
def Allows : RuleOptions → Value → Prop
  | randomInteger b, .integer v =>
    let bits := 8 * (b.width.map UInt64.toNat).getD 8
    b.Admits (fun n => n.toInt) (-2 ^ (bits - 1)) (2 ^ (bits - 1) - 1) v.toInt
  | randomDecimal b precision, .decimal d =>
    let digits := (b.width.map UInt32.toNat).getD (38 - min precision.toNat 37)
    b.Admits Decimal.toRat (-(10 ^ digits - 1)) (10 ^ digits - 1) d.toRat
  | randomBigInteger b, .decimal d =>
    let digits := (b.width.map UInt32.toNat).getD 38
    b.Admits Decimal.toRat (-(10 ^ digits - 1)) (10 ^ digits - 1) d.toRat ∧ ∃ n : ℤ, d.toRat = n
  | randomTime min max _, .timestamp t => min ≤ t ∧ t ≤ max
  | randomText symbols minLength maxLength, .text s =>
    (minLength.toNat ≤ s.toList.length ∧ s.toList.length ≤ maxLength.toNat) ∧
      ∀ c ∈ s.toList, c ∈ symbols.toList
  | randomUuid, .uuid _ => True
  | randomBool, .bool _ => True
  | randomChoice choices, .text s => s ∈ choices
  | randomAddress subnet, .ip a => ∃ s, Subnet.parse subnet = .ok s ∧ s.Usable a
  | randomMac cast management _, .mac a =>
    (cast = .any ∨ a.castType = cast) ∧ (management = .any ∨ a.managementType = management)
  | _, _ => False

/-! ### Bounds that are resolved -/

theorem defaultDigits_toNat (precision : UInt32) :
    (defaultDigits precision).toNat = 38 - min precision.toNat 37 := by
  rw [defaultDigits, UInt32.toNat_ofNat']
  exact Nat.mod_eq_of_lt (by unfold Window.defaultDigits; omega)

/-- The integers of a window that was made of bounds are admitted. -/
theorem integerWindow?_admits {b : Bounds Int64 UInt64} {w : Window Int64}
    (h : integerWindow? b = .ok w) {v : Int64} (hv : w.min ≤ v ∧ v ≤ w.max) :
    (randomInteger b).Allows (.integer v) := by
  simp only [integerWindow?, bind_eq_ok] at h
  obtain ⟨⟨low, high⟩, hresolve, hmake⟩ := h
  obtain ⟨hlow, hhigh⟩ := Window.make?_eq_ok hmake
  rw [hlow, hhigh, Int64.le_iff_toInt_le, Int64.le_iff_toInt_le] at hv
  refine Bounds.admits_of_resolve hresolve (fun l g hrange => ?_) ?_
  · have hwidth : (b.width.getD defaultTypeSize).toNat = (b.width.map UInt64.toNat).getD 8 :=
      (Option.getD_map ..).symm
    rw [hwidth] at hrange
    exact Window.typeSizeBounds?_eq_ok hrange
  · exact ⟨by exact_mod_cast hv.1, by exact_mod_cast hv.2⟩

/-- The decimals between resolved bounds are admitted. -/
theorem decimalBounds?_admits {b : Bounds Decimal UInt32} {precision : UInt32}
    {low high d : Decimal} (h : decimalBounds? b precision = .ok (low, high))
    (hd : low.toRat ≤ d.toRat ∧ d.toRat ≤ high.toRat) :
    (randomDecimal b precision).Allows (.decimal d) := by
  refine Bounds.admits_of_resolve h (fun l g hrange => ?_) hd
  simp only [DecimalWindow.digitBounds?, bind_eq_ok] at hrange
  obtain ⟨⟨least, greatest⟩, hdigits, hpair⟩ := hrange
  cases hpair
  rw [← Option.getD_map UInt32.toNat, defaultDigits_toNat] at hdigits
  rw [Decimal.toRat_ofInt, Decimal.toRat_ofInt]
  exact Window.digitBounds?_eq_ok hdigits

/-- A bound that has to be whole keeps its number. -/
theorem wholeNumber?_eq_ok {d : Decimal} {n : Int} (h : wholeNumber? d = .ok n) :
    d.toRat = n := by
  unfold wholeNumber? at h
  by_cases hwhole : d.isWhole
  · rw [if_pos hwhole] at h
    cases h
    obtain ⟨n, hn⟩ := Decimal.exists_counts_of_isWhole hwhole
    have hunits : d.truncatedUnits 0 = n := hn.truncatedUnits
    rw [hunits]
    simpa [Decimal.Counts] using hn
  · rw [if_neg hwhole] at h
    cases h

theorem mapM_wholeNumber? {bound : Option Decimal} {out : Option Int}
    (h : bound.mapM wholeNumber? = .ok out) :
    bound.map Decimal.toRat = out.map fun n : Int => (n : ℚ) := by
  cases bound with
  | none =>
    cases h
    rfl
  | some d =>
    simp only [Option.mapM] at h
    obtain ⟨n, hn, rfl⟩ := map_eq_ok.mp h
    rw [Option.map_some, Option.map_some, wholeNumber?_eq_ok hn]

/-- The integers of a window that was made of whole bounds are admitted. -/
theorem wholeBounds?_admits {b : Bounds Decimal UInt32} {b' : Bounds Int UInt32} {low high n : Int}
    (hwhole : wholeBounds? b = .ok b')
    (hresolve : b'.resolve (defaultDigits 0)
      (fun digits => Window.digitBounds? digits.toNat) = .ok (low, high))
    (hn : low ≤ n ∧ n ≤ high) :
    (randomBigInteger b).Allows (.decimal (Decimal.ofInt n)) := by
  simp only [wholeBounds?, bind_eq_ok, pure_eq_ok] at hwhole
  obtain ⟨min, hmin, max, hmax, rfl⟩ := hwhole
  -- the whole bounds are resolved first, then they are read as the decimals that were given
  have hadmits : Bounds.Admits ⟨min, max, b.width⟩ (fun n : Int => (n : ℚ))
      (-(10 ^ (b.width.map UInt32.toNat).getD 38 - 1))
      (10 ^ (b.width.map UInt32.toNat).getD 38 - 1) (n : ℚ) := by
    refine Bounds.admits_of_resolve hresolve (fun l g hrange => ?_)
      ⟨by exact_mod_cast hn.1, by exact_mod_cast hn.2⟩
    have hwidth : (b.width.getD (defaultDigits 0)).toNat =
        (b.width.map UInt32.toNat).getD 38 := (Option.getD_map ..).symm
    rw [hwidth] at hrange
    exact Window.digitBounds?_eq_ok hrange
  unfold Bounds.Admits at hadmits
  rw [← mapM_wholeNumber? hmin, ← mapM_wholeNumber? hmax] at hadmits
  refine ⟨?_, n, Decimal.toRat_ofInt n⟩
  rw [Decimal.toRat_ofInt]
  exact hadmits

end RuleOptions

end ColumnMask
