import Mathlib
import ColumnMask.Proofs.Capacity
import ColumnMask.Proofs.Config
import ColumnMask.Proofs.DecimalFold
import ColumnMask.Proofs.Interchange

/-!
# The notation of bounds

A bound can be written in many ways: with zeros at its end, with an exponent, with more digits than
it needs. Options whose bounds stand for the same numbers make rules that cannot be told apart,
although cutting off digits, looking for a fraction and rounding all look at the scale.

Two runs are compared stage by stage, each with a relation of its own between what comes out.

- `Parallel`: results that are related, or failures that name the same numbers.
- `RuleOptions.Same`, `Rule.Same`, `Request.Same`, `Plan.Same`: what is the same at each stage.
- `RuleOptions.Same.rule?`: the same options make the same rule.
- `Rule.Same.interchangeable`: the same rules take as many bytes and mask alike.
- `RuleOptions.wholeNumber?_eq_ok_iff`, `RuleOptions.wholeNumber?_eq_error_iff`: a bound is whole
  if it has no fraction, whatever its scale is.
- `RuleOptions.rule?_notation`: the whole of it.
-/

namespace ColumnMask

/-! ## Two results -/

/-- Failures for the same cause; the numbers that they name may be written in different ways. -/
inductive ConfigError.SameCause : ConfigError → ConfigError → Prop where
  | wrongLimits {a b a' b' : Decimal} (ha : a.Same a') (hb : b.Same b') :
    SameCause (.wrongLimits a.displayText b.displayText)
      (.wrongLimits a'.displayText b'.displayText)
  | notAnInteger {a a' : Decimal} (h : a.Same a') :
    SameCause (.notAnInteger a.displayText) (.notAnInteger a'.displayText)
  | refl (e : ConfigError) : SameCause e e

/-- Two results that are related, or failures for the same cause. -/
inductive Parallel {α β : Type} (related : α → β → Prop) :
    Except ConfigError α → Except ConfigError β → Prop where
  | ok {a : α} {b : β} (h : related a b) : Parallel related (.ok a) (.ok b)
  | error {e e' : ConfigError} (h : e.SameCause e') : Parallel related (.error e) (.error e')

namespace Parallel

variable {α α' β β' : Type} {related : α → α' → Prop} {related' : β → β' → Prop}
variable {x : Except ConfigError α} {x' : Except ConfigError α'}

theorem bind {f : α → Except ConfigError β} {f' : α' → Except ConfigError β'}
    (h : Parallel related x x') (hf : ∀ a a', related a a' → Parallel related' (f a) (f' a')) :
    Parallel related' (x >>= f) (x' >>= f') := by
  cases h with
  | ok h => exact hf _ _ h
  | error h => exact .error h

/-- A step that both take has one result. -/
theorem bind_congr {f : α → Except ConfigError β} {f' : α → Except ConfigError β'}
    (x : Except ConfigError α) (hf : ∀ a, Parallel related' (f a) (f' a)) :
    Parallel related' (x >>= f) (x >>= f') := by
  cases x with
  | ok a => exact hf a
  | error e => exact .error (.refl e)

theorem mono {related' : α → α' → Prop} (h : Parallel related x x')
    (himp : ∀ a a', related a a' → related' a a') : Parallel related' x x' := by
  cases h with
  | ok h => exact .ok (himp _ _ h)
  | error h => exact .error h

theorem map {f : α → β} {f' : α' → β'} (h : Parallel related x x')
    (hf : ∀ a a', related a a' → related' (f a) (f' a')) :
    Parallel related' (x.map f) (x'.map f') := by
  cases h with
  | ok h => exact .ok (hf _ _ h)
  | error h => exact .error h

end Parallel

/-! ## Bounds -/

/-- Bounds that stand for the same numbers, for a column of the same width. -/
structure Bounds.Same (b b' : Bounds Decimal UInt32) : Prop where
  min : Option.Rel Decimal.Same b.min b'.min
  max : Option.Rel Decimal.Same b.max b'.max
  width : b.width = b'.width

namespace Bounds

variable {b b' : Bounds Decimal UInt32}

theorem Same.isGiven (h : b.Same b') : b.isGiven = b'.isGiven := by
  obtain ⟨min, max, width⟩ := b
  obtain ⟨min', max', width'⟩ := b'
  obtain ⟨hmin, hmax, rfl⟩ := h
  cases hmin <;> cases hmax <;> rfl

/-- What is missing in both is supplied by the same width. -/
theorem Same.decimalBounds? (h : b.Same b') (precision : UInt32) :
    Parallel (fun p p' => p.1.Same p'.1 ∧ p.2.Same p'.2)
      (RuleOptions.decimalBounds? b precision) (RuleOptions.decimalBounds? b' precision) := by
  obtain ⟨min, max, width⟩ := b
  obtain ⟨min', max', width'⟩ := b'
  obtain ⟨hmin, hmax, rfl⟩ := h
  -- a bound that is not given comes from the width, which is the same for both
  cases hmin with
  | none =>
    refine .bind_congr _ fun p => ?_
    cases hmax with
    | none => exact .ok ⟨.refl _, .refl _⟩
    | some hmax => exact .ok ⟨.refl _, hmax⟩
  | some hmin =>
    cases hmax with
    | none => exact .bind_congr _ fun p => .ok ⟨hmin, .refl _⟩
    | some hmax => exact .ok ⟨hmin, hmax⟩

/-- What is given is not changed. -/
theorem resolve_given {α ω : Type} {b : Bounds α ω} {fallback : ω}
    {range? : ω → Except ConfigError (α × α)} {low high : α}
    (h : b.resolve fallback range? = .ok (low, high)) :
    (∀ a ∈ b.min, low = a) ∧ ∀ a ∈ b.max, high = a := by
  rcases resolve_cases h with ⟨hmin, hmax⟩ | ⟨least, greatest, -, rfl, rfl⟩
  · rw [hmin, hmax]
    exact ⟨fun a ha => Option.some.inj ha, fun a ha => Option.some.inj ha⟩
  · exact ⟨fun a ha => by rw [Option.mem_def.mp ha]; rfl,
      fun a ha => by rw [Option.mem_def.mp ha]; rfl⟩

/-- Only the range of the column can be missing. -/
theorem resolve_eq_error {α ω : Type} {b : Bounds α ω} {fallback : ω}
    {range? : ω → Except ConfigError (α × α)} {e : ConfigError}
    (h : b.resolve fallback range? = .error e) : range? (b.width.getD fallback) = .error e := by
  unfold resolve at h
  split at h
  · cases h
  · exact (bind_eq_error.mp h).resolve_right (by rintro ⟨p, -, hp⟩; cases hp)

end Bounds

/-! ## Windows -/

namespace DecimalWindow

variable {min max min' max' : Decimal} {w w' : DecimalWindow}

theorem make?_same (hmin : min.Same min') (hmax : max.Same max') :
    Parallel Same (make? min max) (make? min' max') := by
  have hlt := hmin.lt_iff hmax
  unfold make? Window.make?
  by_cases h : min < max
  · rw [dif_pos h, dif_pos (hlt.mp h)]
    exact .ok ⟨hmin, hmax, rfl⟩
  · rw [dif_neg h, dif_neg (hlt.not.mp h)]
    exact .error (.wrongLimits hmin hmax)

theorem Same.withPrecision? (h : w.Same w') (precision : Nat) :
    Parallel Same (w.withPrecision? precision) (w'.withPrecision? precision) := by
  unfold DecimalWindow.withPrecision?
  split
  · exact .ok ⟨h.min, h.max, rfl⟩
  · exact .error (.refl _)

theorem makeWith?_same (hmin : min.Same min') (hmax : max.Same max') (precision : Option Nat) :
    Parallel Same (makeWith? min max precision) (makeWith? min' max' precision) := by
  refine (make?_same hmin hmax).bind fun w w' h => ?_
  cases precision with
  | none => exact .ok h
  | some p => exact h.withPrecision? p

/-- Windows with the same bounds take as many bytes. -/
theorem Same.byteLength (h : w.Same w') (precision : Nat) :
    w.byteLength precision = w'.byteLength precision := by
  unfold DecimalWindow.byteLength
  simp only [Decimal.truncatedUnits_abs, Decimal.same_iff_toRat.mp h.min,
    Decimal.same_iff_toRat.mp h.max, h.toRat_width]

end DecimalWindow

/-- Windows with the same bounds, and the same digits. -/
structure RandomDecimal.Same (r r' : RandomDecimal) : Prop where
  window : r.window.Same r'.window
  precision : r.precision = r'.precision

theorem RandomDecimal.make?_same {w w' : DecimalWindow} (h : w.Same w') (precision : Nat) :
    Parallel Same (make? w precision) (make? w' precision) := by
  unfold make?
  split
  · exact .ok ⟨⟨h.min, h.max, rfl⟩, rfl⟩
  · exact .error (.refl _)

/-! ## Bounds that have to be whole -/

namespace Decimal

variable {d : Decimal}

/-- There is no fraction at any scale. -/
theorem isWhole_iff : d.isWhole = true ↔ Int.fract d.toRat = 0 := by
  rw [Int.fract_eq_zero_iff]
  constructor
  · intro h
    obtain ⟨n, hn⟩ := exists_counts_of_isWhole h
    exact ⟨n, by simpa [Counts] using hn.symm⟩
  · rintro ⟨n, hn⟩
    -- a coefficient with digits after the point ends in as many zeros
    have hcounts : d.Counts 0 n := by simpa [Counts] using hn.symm
    simp only [isWhole, Bool.or_eq_true, decide_eq_true_eq, beq_iff_eq]
    rcases le_or_gt d.scale 0 with hscale | hscale
    · exact .inl hscale
    · refine .inr (Int.emod_eq_zero_of_dvd ⟨n, ?_⟩)
      rw [hcounts.coefficient_eq hscale, mul_comm, Nat.cast_zero, sub_zero]
      rfl

end Decimal

namespace RuleOptions

variable {d d' : Decimal}

/-- A bound is taken for the integer that it is. -/
theorem wholeNumber?_eq_ok_iff {n : Int} : wholeNumber? d = .ok n ↔ d.toRat = n := by
  refine ⟨wholeNumber?_eq_ok, fun h => ?_⟩
  have hwhole : d.isWhole := Decimal.isWhole_iff.mpr (by rw [h, Int.fract_intCast])
  have hcounts : d.Counts 0 n := by simpa [Decimal.Counts] using h
  have hunits : d.truncatedUnits 0 = n := hcounts.truncatedUnits
  rw [wholeNumber?, if_pos hwhole, hunits]

/-- A bound is refused for its fraction and for nothing else. -/
theorem wholeNumber?_eq_error_iff {e : ConfigError} :
    wholeNumber? d = .error e ↔ Int.fract d.toRat ≠ 0 ∧ e = .notAnInteger d.displayText := by
  rw [Ne, ← Decimal.isWhole_iff]
  unfold wholeNumber?
  by_cases h : d.isWhole
  · simp [h]
  · simp [h, eq_comm]

theorem wholeNumber?_same (h : d.Same d') : Parallel Eq (wholeNumber? d) (wholeNumber? d') := by
  have hnumber := Decimal.same_iff_toRat.mp h
  rcases hd : wholeNumber? d with e | n
  · obtain ⟨hfraction, rfl⟩ := wholeNumber?_eq_error_iff.mp hd
    rw [hnumber] at hfraction
    rw [wholeNumber?_eq_error_iff.mpr ⟨hfraction, rfl⟩]
    exact .error (.notAnInteger h)
  · rw [wholeNumber?_eq_ok_iff.mpr (hnumber ▸ wholeNumber?_eq_ok hd)]
    exact .ok rfl

/-- Bounds are taken for the integers that they are. -/
theorem mapM_wholeNumber?_eq_ok_iff {bound : Option Decimal} {out : Option Int} :
    bound.mapM wholeNumber? = .ok out ↔
      bound.map Decimal.toRat = out.map fun n : Int => (n : ℚ) := by
  refine ⟨mapM_wholeNumber?, fun h => ?_⟩
  cases bound with
  | none =>
    obtain rfl : out = none := by simpa using h.symm
    rfl
  | some d =>
    cases out with
    | none => simp at h
    | some n => exact map_eq_ok.mpr ⟨n, wholeNumber?_eq_ok_iff.mpr (Option.some.inj h), rfl⟩

theorem mapM_wholeNumber?_eq_error_iff {bound : Option Decimal} {e : ConfigError} :
    bound.mapM wholeNumber? = .error e ↔
      ∃ d ∈ bound, Int.fract d.toRat ≠ 0 ∧ e = .notAnInteger d.displayText := by
  cases bound with
  | none => simp [pure, Except.pure]
  | some d =>
    simp only [Option.mem_some_iff, exists_eq_left', ← wholeNumber?_eq_error_iff]
    show (wholeNumber? d).map some = _ ↔ _
    cases wholeNumber? d <;> simp [Except.map]

/-- Bounds without a fraction are taken. -/
theorem exists_mapM_wholeNumber?_iff {bound : Option Decimal} :
    (∃ out, bound.mapM wholeNumber? = .ok out) ↔ ∀ d ∈ bound, Int.fract d.toRat = 0 := by
  rcases hbound : bound.mapM wholeNumber? with e | out
  · obtain ⟨d, hd, hfraction, -⟩ := mapM_wholeNumber?_eq_error_iff.mp hbound
    exact ⟨fun ⟨_, h⟩ => (nomatch h), fun h => absurd (h d hd) hfraction⟩
  · refine ⟨fun _ d hd => ?_, fun _ => ⟨out, rfl⟩⟩
    by_contra hfraction
    rw [mapM_wholeNumber?_eq_error_iff.mpr ⟨d, hd, hfraction, rfl⟩] at hbound
    cases hbound

theorem mapM_wholeNumber?_same {bound bound' : Option Decimal}
    (h : Option.Rel Decimal.Same bound bound') :
    Parallel Eq (bound.mapM wholeNumber?) (bound'.mapM wholeNumber?) := by
  cases h with
  | none => exact .ok rfl
  | some h => exact (wholeNumber?_same h).map fun _ _ => congrArg some

theorem wholeBounds?_same {b b' : Bounds Decimal UInt32} (h : b.Same b') :
    Parallel Eq (wholeBounds? b) (wholeBounds? b') := by
  refine (mapM_wholeNumber?_same h.min).bind fun min min' hmin => ?_
  refine (mapM_wholeNumber?_same h.max).bind fun max max' hmax => ?_
  rw [hmin, hmax, h.width]
  exact .ok rfl

end RuleOptions

/-! ## Rules -/

/-- Options that differ in the notation of their bounds only. -/
inductive RuleOptions.Same : RuleOptions → RuleOptions → Prop where
  | noiseDecimal (minRatio maxRatio : Float) {b b' : Bounds Decimal UInt32} (h : b.Same b')
    (precision : Option UInt32) :
    Same (.noiseDecimal minRatio maxRatio b precision)
      (.noiseDecimal minRatio maxRatio b' precision)
  | randomDecimal {b b' : Bounds Decimal UInt32} (h : b.Same b') (precision : UInt32) :
    Same (.randomDecimal b precision) (.randomDecimal b' precision)
  | randomBigInteger {b b' : Bounds Decimal UInt32} (h : b.Same b') :
    Same (.randomBigInteger b) (.randomBigInteger b')

/-- Rules whose windows differ in the notation of their bounds only. -/
inductive Rule.Same : Rule → Rule → Prop where
  | noiseDecimal {noise noise' : NoiseDecimal} (h : noise.Same noise') :
    Same (.noiseDecimal noise) (.noiseDecimal noise')
  | randomDecimal {r r' : RandomDecimal} (h : r.Same r') :
    Same (.randomDecimal r) (.randomDecimal r')
  | randomBigInteger (r : RandomBigInteger) : Same (.randomBigInteger r) (.randomBigInteger r)

namespace RuleOptions

variable {o o' : RuleOptions}

theorem ifWanted_same {wanted : Bool} {x x' : Except ConfigError DecimalWindow}
    (h : Parallel DecimalWindow.Same x x') :
    Parallel (Option.Rel DecimalWindow.Same) (ifWanted wanted x) (ifWanted wanted x') := by
  cases wanted with
  | false => exact .ok .none
  | true => exact h.map fun _ _ => .some

/-- **The same options make the same rule**, or none for the same cause. -/
theorem Same.rule? (h : o.Same o') : Parallel Rule.Same o.rule? o'.rule? := by
  cases h with
  | noiseDecimal minRatio maxRatio h precision =>
    refine .bind_congr (NoiseRatio.make? minRatio maxRatio) fun ratio => ?_
    have hwindow := (h.decimalBounds? (precision.getD 0)).bind fun p p' hp =>
      DecimalWindow.makeWith?_same hp.1 hp.2 (precision.map UInt32.toNat)
    rw [h.isGiven]
    refine (ifWanted_same hwindow).bind fun w w' hw => ?_
    exact .ok (.noiseDecimal ⟨rfl, hw⟩)
  | randomDecimal h precision =>
    refine (h.decimalBounds? precision).bind fun p p' hp => ?_
    refine (DecimalWindow.make?_same hp.1 hp.2).bind fun w w' hw => ?_
    refine (RandomDecimal.make?_same hw precision.toNat).bind fun r r' hr => ?_
    exact .ok (.randomDecimal hr)
  | randomBigInteger h =>
    -- the bounds are integers now, and have one notation
    refine (wholeBounds?_same h).bind fun b b' hb => ?_
    subst hb
    refine .bind_congr _ fun p => .bind_congr (Window.ofIntegers? p.1 p.2) fun w => ?_
    exact .ok (.randomBigInteger ⟨w⟩)

end RuleOptions

/-! ## Calls -/

/-- Plans that ask with the same bytes and read the same value from an answer. -/
structure Plan.Same (plan plan' : Plan) : Prop where
  input : plan.input = plan'.input
  read : ∀ block, Agree Value.Same (plan.read block) (plan'.read block)

/-- Calls with the same number or the same input, and with windows that differ in the notation of
their bounds only. -/
inductive Request.Same : {rule rule' : Rule} → Request rule → Request rule' → Prop where
  | noiseDecimal {noise noise' : NoiseDecimal} {a b : Decimal} (h : a.Same b)
    {window window' : Option DecimalWindow}
    (hwindow : Option.Rel DecimalWindow.Same window window') :
    Same (.noiseDecimal a window : Request (.noiseDecimal noise))
      (.noiseDecimal b window' : Request (.noiseDecimal noise'))
  | randomDecimal {r r' : RandomDecimal} (input : Bytes) {window window' : Option DecimalWindow}
    (hwindow : Option.Rel DecimalWindow.Same window window') :
    Same (.randomDecimal input window : Request (.randomDecimal r))
      (.randomDecimal input window' : Request (.randomDecimal r'))
  | randomBigInteger {r : RandomBigInteger} (input : Bytes) (window : Option (Window Int)) :
    Same (.randomBigInteger input window : Request (.randomBigInteger r))
      (.randomBigInteger input window : Request (.randomBigInteger r))

namespace RandomDecimal

variable {r r' : RandomDecimal} {window window' : Option DecimalWindow}

theorem Same.required (h : r.Same r') : r.required = r'.required := by
  rw [RandomDecimal.required, RandomDecimal.required, h.precision, h.window.byteLength]

theorem Same.read (h : r.Same r') (hwindow : Option.Rel DecimalWindow.Same window window')
    (block : Bytes) : (r.read window block).Same (r'.read window' block) := by
  rw [RandomDecimal.read, RandomDecimal.read, h.precision]
  cases hwindow with
  | none => exact h.window.fold (.refl _)
  | some hw => exact hw.fold (.refl _)

theorem Same.plan (h : r.Same r') (hwindow : Option.Rel DecimalWindow.Same window window')
    (input : Bytes) : Agree Plan.Same (r.plan window input) (r'.plan window' input) := by
  have hread : Plan.Same ⟨input, fun block => .ok (.decimal (r.read window block))⟩
      ⟨input, fun block => .ok (.decimal (r'.read window' block))⟩ :=
    ⟨rfl, fun block => .ok (.decimal (h.read hwindow block))⟩
  cases hwindow with
  | none => exact .ok hread
  | @some w w' hw =>
    simp only [RandomDecimal.plan, h.required, h.precision, hw.byteLength]
    cases checkCapacity (w'.byteLength r'.precision) r'.required with
    | ok _ => exact .ok hread
    | error e => exact .error _

end RandomDecimal

namespace Rule

variable {rule rule' : Rule} {request : Request rule} {request' : Request rule'}

/-- **The same calls of the same rules** ask the same and read the answers alike. -/
theorem Same.plan (hrule : rule.Same rule') (h : request.Same request') :
    Agree Plan.Same request.plan request'.plan := by
  cases hrule with
  | noiseDecimal hnoise =>
    cases h with
    | noiseDecimal hsame hwindow =>
      exact .ok ⟨congrArg Bytes.ofString (Decimal.plainText_eq_of_same hsame),
        hnoise.read_agree hwindow hsame⟩
  | randomDecimal hr =>
    cases h with
    | randomDecimal input hwindow => exact hr.plan hwindow input
  | randomBigInteger r =>
    cases h with
    | randomBigInteger input window => exact .refl (fun plan => ⟨rfl, fun _ => .refl .refl _⟩) _

theorem Same.required (h : rule.Same rule') : rule.required = rule'.required := by
  cases h with
  | noiseDecimal h => rfl
  | randomDecimal h => exact h.required
  | randomBigInteger r => rfl

/-- The rules take as many bytes; and whatever generator serves them, they mask every value alike
and answer the same calls alike. -/
structure Interchangeable (rule rule' : Rule) : Prop where
  required : rule.required = rule'.required
  transform : ∀ (g : Generator) (h : rule.required ≤ g.size) (h' : rule'.required ≤ g.size)
    (v : Value), Masking.Alike ((Transformer.attached rule g h).transform v)
      ((Transformer.attached rule' g h').transform v)
  call : ∀ (g : Generator) (h : rule.required ≤ g.size) (h' : rule'.required ≤ g.size)
    (request : Request rule) (request' : Request rule'), request.Same request' →
    Masking.Alike ((Transformer.attached rule g h).call request)
      ((Transformer.attached rule' g h').call request')

/-- The same rules ask for the same value, or refuse it in the same way. -/
theorem Same.request? (h : rule.Same rule') (v : Value) :
    (∃ e, rule.request? v = .error e ∧ rule'.request? v = .error e) ∨
      ∃ request request', rule.request? v = .ok request ∧ rule'.request? v = .ok request' ∧
        request.Same request' := by
  cases h with
  | noiseDecimal h =>
    rcases hv : v.decimal? with e | d
    · exact .inl ⟨e, by rw [Rule.request?, hv]; rfl, by rw [Rule.request?, hv]; rfl⟩
    · exact .inr ⟨_, _, by rw [Rule.request?, hv]; rfl, by rw [Rule.request?, hv]; rfl,
        .noiseDecimal (.refl d) .none⟩
  | randomDecimal h => exact .inr ⟨_, _, rfl, rfl, .randomDecimal v.input .none⟩
  | randomBigInteger r => exact .inr ⟨_, _, rfl, rfl, .randomBigInteger v.input none⟩

theorem Same.call (hrule : rule.Same rule') (g : Generator) (hg : rule.required ≤ g.size)
    (hg' : rule'.required ≤ g.size) (h : request.Same request') :
    Masking.Alike ((Transformer.attached rule g hg).call request)
      ((Transformer.attached rule' g hg').call request') := by
  have hplan := hrule.plan h
  generalize hx : request.plan = result at hplan
  generalize hx' : request'.plan = result' at hplan
  cases hplan with
  -- plans with the same question read every block alike
  | ok hsame =>
    rw [Transformer.call_of_ok (t := Transformer.attached rule g hg) hx,
      Transformer.call_of_ok (t := Transformer.attached rule' g hg') hx']
    show Masking.Alike (Plan.run _ (some g) rule.required) (Plan.run _ (some g) rule'.required)
    rw [hrule.required]
    exact Masking.alike_run hsame.input hsame.read _ _
  | error e =>
    rw [Transformer.call_of_error (t := Transformer.attached rule g hg) hx,
      Transformer.call_of_error (t := Transformer.attached rule' g hg') hx']
    exact .refl _

/-- **The same rules are interchangeable**. -/
theorem Same.interchangeable (h : rule.Same rule') : rule.Interchangeable rule' where
  required := h.required
  transform g hg hg' v := by
    rcases h.request? v with ⟨e, he, he'⟩ | ⟨request, request', hok, hok', hsame⟩
    · rw [Transformer.transform_of_error he, Transformer.transform_of_error he']
      exact .refl _
    · rw [Transformer.transform_of_ok hok, Transformer.transform_of_ok hok']
      exact h.call g hg hg' hsame
  call g hg hg' request request' hsame := h.call g hg hg' hsame

end Rule

/-! ## Options in another notation -/

namespace RuleOptions

/-- The bound has a fraction; the lower bound is looked at before the upper one. -/
def Fractional (b : Bounds Decimal UInt32) (d : Decimal) : Prop :=
  Int.fract d.toRat ≠ 0 ∧
    (b.min = some d ∨ b.max = some d ∧ ∀ m ∈ b.min, Int.fract m.toRat = 0)

variable {b : Bounds Decimal UInt32}

/-- Whole bounds fail at the first bound with a fraction. -/
theorem wholeBounds?_eq_error_iff {e : ConfigError} :
    wholeBounds? b = .error e ↔ ∃ d, Fractional b d ∧ e = .notAnInteger d.displayText := by
  simp only [wholeBounds?, bind_eq_error, mapM_wholeNumber?_eq_error_iff]
  constructor
  · rintro (⟨d, hd, hfraction, rfl⟩ | ⟨low, hlow, ⟨d, hd, hfraction, rfl⟩ | ⟨high, -, h⟩⟩)
    · exact ⟨d, ⟨hfraction, .inl hd⟩, rfl⟩
    · exact ⟨d, ⟨hfraction, .inr ⟨hd, exists_mapM_wholeNumber?_iff.mp ⟨low, hlow⟩⟩⟩, rfl⟩
    · cases h
  · rintro ⟨d, ⟨hfraction, hd | ⟨hd, hmin⟩⟩, rfl⟩
    · exact .inl ⟨d, hd, hfraction, rfl⟩
    · obtain ⟨low, hlow⟩ := exists_mapM_wholeNumber?_iff.mpr hmin
      exact .inr ⟨low, hlow, .inl ⟨d, hd, hfraction, rfl⟩⟩

/-- Bounds that are whole numbers make a window of exactly these numbers. -/
theorem rule?_of_whole {low high : Int} (hmin : b.min.map Decimal.toRat = some (low : ℚ))
    (hmax : b.max.map Decimal.toRat = some (high : ℚ)) (hlt : low < high) :
    (randomBigInteger b).rule? = .ok (.randomBigInteger ⟨⟨low, high, hlt⟩⟩) := by
  have hwhole : wholeBounds? b = .ok ⟨some low, some high, b.width⟩ := by
    simp only [wholeBounds?, bind_eq_ok, pure_eq_ok]
    exact ⟨some low, mapM_wholeNumber?_eq_ok_iff.mpr hmin, some high,
      mapM_wholeNumber?_eq_ok_iff.mpr hmax, rfl⟩
  have hwindow : Window.ofIntegers? low high = .ok ⟨low, high, hlt⟩ := dif_pos hlt
  simp only [rule?, bind_eq_ok, pure_eq_ok]
  exact ⟨_, hwhole, (low, high), rfl, _, hwindow, rfl⟩

/-- A rule that was made has the numbers of the bounds that are given. -/
theorem window_of_rule? {rule : Rule} (h : (randomBigInteger b).rule? = .ok rule) :
    ∃ w : Window Int, rule = .randomBigInteger ⟨w⟩ ∧
      (∀ d ∈ b.min, d.toRat = w.min) ∧ ∀ d ∈ b.max, d.toRat = w.max := by
  simp only [rule?, bind_eq_ok, pure_eq_ok] at h
  obtain ⟨whole, hwhole, ⟨low, high⟩, hresolve, w, hwindow, rfl⟩ := h
  -- each bound was a whole number when it was read
  simp only [wholeBounds?, bind_eq_ok, pure_eq_ok] at hwhole
  obtain ⟨min, hmin, max, hmax, rfl⟩ := hwhole
  rw [mapM_wholeNumber?_eq_ok_iff] at hmin hmax
  obtain ⟨rfl, rfl⟩ := Window.make?_eq_ok hwindow
  obtain ⟨hlow, hhigh⟩ := Bounds.resolve_given hresolve
  refine ⟨w, rfl, fun d hd => ?_, fun d hd => ?_⟩
  · -- a bound that was given is one of the window
    rw [Option.mem_def.mp hd] at hmin
    obtain ⟨n, hn, hnumber⟩ := Option.map_eq_some_iff.mp hmin.symm
    rw [← hnumber, hlow n hn]
  · rw [Option.mem_def.mp hd] at hmax
    obtain ⟨n, hn, hnumber⟩ := Option.map_eq_some_iff.mp hmax.symm
    rw [← hnumber, hhigh n hn]

/-- No other check finds a fraction. -/
theorem rule?_notAnInteger_iff {text : String} :
    (randomBigInteger b).rule? = .error (.notAnInteger text) ↔
      ∃ d, Fractional b d ∧ text = d.displayText := by
  simp only [rule?, bind_eq_error, wholeBounds?_eq_error_iff, ConfigError.notAnInteger.injEq]
  refine ⟨fun h => h.resolve_right ?_, .inl⟩
  rintro ⟨whole, -, hresolve | ⟨⟨low, high⟩, -, hwindow | ⟨w, -, h⟩⟩⟩
  · have hrange := Bounds.resolve_eq_error hresolve
    unfold Window.digitBounds? at hrange
    split at hrange <;> cases hrange
  · unfold Window.ofIntegers? Window.make? at hwindow
    split at hwindow <;> cases hwindow
  · cases h

/-- **The notation of bounds does not matter.** Options whose bounds stand for the same numbers make
rules that cannot be told apart, or none for the same cause. A bound of integers of any size is
refused exactly for a fraction; otherwise it is the integer that it stands for. -/
theorem rule?_notation :
    (∀ o o' : RuleOptions, o.Same o' → Parallel Rule.Interchangeable o.rule? o'.rule?) ∧
    ∀ b : Bounds Decimal UInt32,
      (∀ text, (randomBigInteger b).rule? = .error (.notAnInteger text) ↔
        ∃ d, Fractional b d ∧ text = d.displayText) ∧
      (∀ rule, (randomBigInteger b).rule? = .ok rule → ∃ w : Window Int,
        rule = .randomBigInteger ⟨w⟩ ∧ (∀ d ∈ b.min, d.toRat = w.min) ∧
          ∀ d ∈ b.max, d.toRat = w.max) ∧
      ∀ (low high : Int) (hlt : low < high), b.min.map Decimal.toRat = some (low : ℚ) →
        b.max.map Decimal.toRat = some (high : ℚ) →
        (randomBigInteger b).rule? = .ok (.randomBigInteger ⟨⟨low, high, hlt⟩⟩) := by
  refine ⟨fun o o' h => h.rule?.mono fun rule rule' => Rule.Same.interchangeable, fun b => ?_⟩
  exact ⟨fun text => rule?_notAnInteger_iff, fun rule => window_of_rule?,
    fun low high hlt hmin hmax => rule?_of_whole hmin hmax hlt⟩

/-- From 1e3 to 5000.0 is from 1000 to 5e3, and 5000.1 is no integer. -/
theorem rule?_notation_thousands :
    Parallel Rule.Interchangeable (randomDecimal ⟨some ⟨1, -3⟩, some ⟨50000, 1⟩, none⟩ 2).rule?
        (randomDecimal ⟨some ⟨1000, 0⟩, some ⟨5, -3⟩, none⟩ 2).rule? ∧
      (randomBigInteger ⟨some ⟨1, -3⟩, some ⟨50000, 1⟩, none⟩).rule? =
        .ok (.randomBigInteger ⟨⟨1000, 5000, by decide⟩⟩) ∧
      (randomBigInteger ⟨some ⟨1, -3⟩, some ⟨50001, 1⟩, none⟩).rule? =
        .error (.notAnInteger "5000.1") := by
  obtain ⟨hsame, hwhole⟩ := rule?_notation
  have hbounds : Bounds.Same ⟨some ⟨1, -3⟩, some ⟨50000, 1⟩, none⟩
      ⟨some ⟨1000, 0⟩, some ⟨5, -3⟩, none⟩ := ⟨.some (by decide), .some (by decide), rfl⟩
  refine ⟨hsame _ _ (.randomDecimal hbounds 2), ?_, ?_⟩
  · refine (hwhole _).2.2 1000 5000 (by decide) ?_ ?_ <;> norm_num [Decimal.toRat]
  · refine ((hwhole _).1 _).mpr ⟨⟨50001, 1⟩, ⟨?_, .inr ⟨rfl, fun m hm => ?_⟩⟩, by decide +kernel⟩
    · norm_num [Decimal.toRat, Int.fract]
    · obtain rfl := Option.mem_some_iff.mp hm
      norm_num [Decimal.toRat, Int.fract]

end RuleOptions

end ColumnMask
