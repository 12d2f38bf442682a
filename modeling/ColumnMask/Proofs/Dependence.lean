import Mathlib
import ColumnMask.Proofs.CheckedRead
import ColumnMask.Proofs.Config
import ColumnMask.Proofs.GeneratorTree

/-!
# What a call depends on

A call depends on the first bytes of one answer, and with an engine without memory on nothing that
was drawn before.
-/

namespace ColumnMask

/-!
## What a call reads of an answer

Of the answer of its generator a call uses the bytes that its rule takes and no others. What a
generator gives beyond them makes no difference, and fewer bytes are refused before any is looked
at.

- `Plan.conclude`: what comes of an answer; by `Request.read_error_cases` reading it fails only if
  the bytes have no meaning.
- `Request.Agree`: two generators whose answers agree in the bytes that the rule takes.
- `Transformer.call_decided_by_block`: such generators give the same results; a call fails for want
  of bytes exactly if there are too few, and otherwise no access to them is out of range.
-/

namespace Plan

variable (plan : Plan) (required : Nat)

/-- What comes of an answer: its own failure, too few bytes, or what is read from the first ones. -/
def conclude : Except (Stop GenerationError) Bytes → Except (Stop TransformError) Value
  | .error e => .error (e.map .generation)
  | .ok out =>
    if out.length < required then
      .error (.failure (.generation (.shortOutput required out.length)))
    else plan.read (out.take required)

theorem conclude_of_short {out : Bytes} (h : out.length < required) :
    plan.conclude required (.ok out) =
      .error (.failure (.generation (.shortOutput required out.length))) := if_pos h

theorem conclude_of_le {out : Bytes} (h : required ≤ out.length) :
    plan.conclude required (.ok out) = plan.read (out.take required) := if_neg (Nat.not_lt.mpr h)

/-- Nothing comes of the bytes behind the needed ones. -/
theorem conclude_take (answer : Except (Stop GenerationError) Bytes) :
    plan.conclude required (answer.map (List.take required)) = plan.conclude required answer := by
  cases answer with
  | error e => rfl
  | ok out =>
    show plan.conclude required (.ok (out.take required)) = _
    rcases Nat.lt_or_ge out.length required with hshort | hle
    · rw [List.take_of_length_le hshort.le]
    · have hlength : (out.take required).length = required := by
        rw [List.length_take, Nat.min_eq_left hle]
      rw [conclude_of_le _ _ hlength.ge, conclude_of_le _ _ hle, List.take_take, Nat.min_self]

end Plan

namespace Request

variable {rule : Rule}

/-- Reading bytes fails only if what was read has no meaning; or else it panics. -/
theorem read_error_cases {request : Request rule} {plan : Plan} (hplan : request.plan = .ok plan)
    {block : Bytes} {e : Stop TransformError} (hread : plan.read block = .error e) :
    (∃ d, e = .failure (.decode d)) ∨ e = .panic := by
  cases request with
  | randomDecimal input window =>
    rw [RandomDecimal.read_of_plan hplan] at hread
    contradiction
  | randomBigInteger input window =>
    rw [RandomBigInteger.read_of_plan hplan] at hread
    contradiction
  | randomAddress input subnet =>
    rw [(RandomAddress.read_of_plan hplan block).2] at hread
    contradiction
  -- decimal noise fails if its multiplier is no number
  | @noiseDecimal noise v window =>
    obtain rfl := Except.ok.inj hplan
    simp only [NoiseDecimal.plan] at hread
    split at hread
    · contradiction
    · exact .inl ⟨_, (Except.error.inj hread).symm⟩
  -- moved or truncated instants fail if they are out of range
  | @noiseTime noise t window =>
    obtain rfl := Except.ok.inj hplan
    simp only [NoiseTime.plan] at hread
    split at hread
    · contradiction
    · exact .inl ⟨_, (Except.error.inj hread).symm⟩
  | @randomTime r input window =>
    obtain rfl := Except.ok.inj hplan
    simp only [RandomTime.plan] at hread
    split at hread
    · contradiction
    · exact .inl ⟨_, (Except.error.inj hread).symm⟩
  -- only a text can go without its room
  | @randomText r input =>
    obtain rfl := Except.ok.inj hplan
    simp only [RandomText.plan] at hread
    split at hread
    · contradiction
    · exact .inr (Except.error.inj hread).symm
  | _ =>
    obtain rfl := Except.ok.inj hplan
    contradiction

/-- Reading bytes never fails the way that drawing them does. -/
theorem read_ne_generation {request : Request rule} {plan : Plan} (hplan : request.plan = .ok plan)
    (block : Bytes) (e : GenerationError) :
    plan.read block ≠ .error (.failure (.generation e)) := by
  intro hread
  rcases read_error_cases hplan hread with ⟨d, hd⟩ | hd
  · cases hd
  · cases hd

/-- Two generators, each after some calls, answer the question of a call with the same bytes as far
as the rule takes any, or fail in the same way. -/
def Agree (request : Request rule) (g₁ : Generator) (log₁ : Log) (g₂ : Generator) (log₂ : Log) :
    Prop :=
  ∀ plan, request.plan = .ok plan →
    (log₁.run (g₁.generate plan.input)).1.map (List.take rule.required) =
      (log₂.run (g₂.generate plan.input)).1.map (List.take rule.required)

end Request

namespace Transformer

variable {rule : Rule} {request : Request rule}

/-- What a call gives is what comes of the answer of its generator. -/
theorem run_call_of_plan {plan : Plan} (hplan : request.plan = .ok plan) {g : Generator}
    (h : rule.required ≤ g.size) (log : Log) :
    (log.run ((attached rule g h).call request)).1 =
      plan.conclude rule.required (log.run (g.generate plan.input)).1 := by
  rw [run_call, hplan]
  dsimp only
  rcases log.run (g.generate plan.input) with ⟨e | out, log'⟩
  · rfl
  · dsimp only [Plan.conclude]
    split
    · rfl
    · rfl

/-- Generators that agree give the same result. -/
theorem run_call_of_agree {g₁ g₂ : Generator} (h₁ : rule.required ≤ g₁.size)
    (h₂ : rule.required ≤ g₂.size) {log₁ log₂ : Log} (hagree : request.Agree g₁ log₁ g₂ log₂) :
    (log₁.run ((attached rule g₁ h₁).call request)).1 =
      (log₂.run ((attached rule g₂ h₂).call request)).1 := by
  rcases hplan : request.plan with e | plan
  · rw [call_of_error (t := attached rule g₁ h₁) hplan,
      call_of_error (t := attached rule g₂ h₂) hplan]
    rfl
  · -- cutting both answers to the needed bytes changes neither result, and makes them equal
    rw [run_call_of_plan hplan, run_call_of_plan hplan, ← Plan.conclude_take, hagree plan hplan,
      Plan.conclude_take]

/-- **The bytes that a rule takes decide.** Two generators that agree in these bytes give the same
result, for every call and for every value. Whenever the generator answers a call with some bytes,
the call fails for want of bytes exactly if there are fewer than the rule takes; otherwise its
result is the one that is read with all accesses to the bytes checked, and none of them is out of
range. -/
theorem call_decided_by_block {g₁ g₂ : Generator} (h₁ : rule.required ≤ g₁.size)
    (h₂ : rule.required ≤ g₂.size) (log₁ log₂ : Log) :
    (∀ request : Request rule, request.Agree g₁ log₁ g₂ log₂ →
      (log₁.run ((attached rule g₁ h₁).call request)).1 =
        (log₂.run ((attached rule g₂ h₂).call request)).1) ∧
    (∀ v : Value, (∀ request, rule.request? v = .ok request → request.Agree g₁ log₁ g₂ log₂) →
      (log₁.run ((attached rule g₁ h₁).transform v)).1 =
        (log₂.run ((attached rule g₂ h₂).transform v)).1) ∧
    ∀ (request : Request rule) (plan : Plan) (out : Bytes), request.plan = .ok plan →
      (log₁.run (g₁.generate plan.input)).1 = .ok out →
        let result := (log₁.run ((attached rule g₁ h₁).call request)).1
        (result = .error (.failure (.generation (.shortOutput rule.required out.length))) ↔
          out.length < rule.required) ∧
        (rule.required ≤ out.length →
          (∀ e, result ≠ .error (.failure (.generation e))) ∧
          request.checkedRead (out.take rule.required) = some result) := by
  refine ⟨fun request => run_call_of_agree h₁ h₂, ?_, ?_⟩
  · intro v hagree
    -- a value that is refused is refused without a block
    rcases hrequest : rule.request? v with e | request
    · rw [transform_of_error (t := attached rule g₁ h₁) hrequest,
        transform_of_error (t := attached rule g₂ h₂) hrequest]
      rfl
    · rw [transform_of_ok (t := attached rule g₁ h₁) hrequest,
        transform_of_ok (t := attached rule g₂ h₂) hrequest]
      exact run_call_of_agree h₁ h₂ (hagree request hrequest)
  · intro request plan out hplan hanswer result
    have hresult : result = plan.conclude rule.required (.ok out) := by
      rw [← hanswer]
      exact run_call_of_plan hplan h₁ log₁
    -- on enough bytes every outcome is one of the plan, which has none for missing bytes
    have henough (hle : rule.required ≤ out.length) :
        (∀ e, result ≠ .error (.failure (.generation e))) ∧
          request.checkedRead (out.take rule.required) = some result := by
      have hlength : (out.take rule.required).length = rule.required := by
        rw [List.length_take, Nat.min_eq_left hle]
      rw [hresult, Plan.conclude_of_le _ _ hle]
      exact ⟨Request.read_ne_generation hplan _, Request.checkedRead_eq hplan hlength⟩
    refine ⟨⟨fun hshort => ?_, fun hshort => ?_⟩, henough⟩
    · by_contra hle
      exact (henough (Nat.not_lt.mp hle)).1 _ hshort
    · rw [hresult, Plan.conclude_of_short _ _ hshort]

/-- Hardware addresses take six bytes: a seventh one makes no difference, and five are too few. -/
theorem call_decided_by_block_mac :
    let rule := Rule.randomMac ⟨.individual, .locally, false⟩
    let exact := Generator.source (.scripted 0 6 [[1, 2, 3, 4, 5, 6]])
    let longer := Generator.source (.scripted 0 6 [[1, 2, 3, 4, 5, 6, 7]])
    let short := Generator.source (.scripted 0 6 [[1, 2, 3, 4, 5]])
    (Log.empty.run ((attached rule exact (by decide)).call (.randomMac []))).1 =
      (Log.empty.run ((attached rule longer (by decide)).call (.randomMac []))).1 ∧
    (Log.empty.run ((attached rule short (by decide)).call (.randomMac []))).1 =
      .error (.failure (.generation (.shortOutput 6 5))) := by
  intro rule exact longer short
  have hexact : rule.required ≤ exact.size := by decide
  have hlonger : rule.required ≤ longer.size := by decide
  have hshort : rule.required ≤ short.size := by decide
  constructor
  · refine (call_decided_by_block hexact hlonger .empty .empty).1 (.randomMac []) ?_
    intro plan _
    rfl
  · exact (((call_decided_by_block hshort hshort .empty .empty).2.2 (.randomMac []) _
      [1, 2, 3, 4, 5] rfl rfl).1).mpr (by decide)

end Transformer

/-!
## Computations without memory

The generators of the deterministic engine answer an input alike whatever was asked before, although
one generator serves all values. What is masked with such a generator does not depend on earlier
calls either.

- `Log.Memoryless`: a computation whose result does not depend on the log.
- `Engine.memoryless_generator`: the deterministic engine's generators, whether they are a single
  digest or an expanded keyed hash.
- `Transformer.memoryless_transform`: masking with such a generator.
-/

namespace Log

variable {ε α β : Type}

/-- A computation that gives the same after any calls. -/
def Memoryless (x : ExceptT ε (StateM Log) α) : Prop :=
  ∀ log log' : Log, (log.run x).1 = (log'.run x).1

theorem memoryless_pure (a : α) : Memoryless (pure a : ExceptT ε (StateM Log) α) :=
  fun _ _ => rfl

theorem memoryless_throw (e : ε) : Memoryless (throw e : ExceptT ε (StateM Log) α) :=
  fun _ _ => rfl

namespace Memoryless

variable {x : ExceptT ε (StateM Log) α}

theorem bind {f : α → ExceptT ε (StateM Log) β} (hx : Memoryless x)
    (hf : ∀ a, Memoryless (f a)) : Memoryless (x >>= f) := by
  intro log log'
  have hfirst := hx log log'
  rw [run_bind, run_bind]
  generalize log.run x = first at hfirst ⊢
  generalize log'.run x = second at hfirst ⊢
  obtain ⟨result, middle⟩ := first
  obtain ⟨result', middle'⟩ := second
  obtain rfl : result = result' := hfirst
  cases result with
  | error e => rfl
  | ok a => exact hf a middle middle'

end Memoryless

end Log

open Log

/-! ### Generators -/

theorem Draw.memoryless_ensureLength (expected : Nat) (out : Bytes) :
    Memoryless (Draw.ensureLength expected out) := by
  unfold ensureLength
  split
  · exact memoryless_throw _
  · exact memoryless_pure _

/-- Each block is asked for without regard to the ones before. -/
theorem Draw.memoryless_blocks {ask : Bytes → Draw Bytes} (hask : ∀ input, Memoryless (ask input))
    (width : Nat) (input : Bytes) (count : Nat) (counter : UInt64) :
    Memoryless (Draw.blocks ask width input count counter) := by
  -- on the blocks that are left, for any counter
  induction count generalizing counter with
  | zero => exact memoryless_pure _
  | succ count ih =>
    refine (hask _).bind fun chunk => (memoryless_ensureLength _ _).bind fun _ => ?_
    exact (ih _).bind fun rest => memoryless_pure _

namespace Generator

/-- A source that does not look at the log leaves nothing behind for later answers. -/
theorem memoryless_source {s : Source} (h : ∀ log log' input, s.respond log input =
    s.respond log' input) (input : Bytes) : Memoryless ((source s).generate input) := by
  intro log log'
  rw [generate, Source.run_ask, Source.run_ask]
  exact h log log' input

theorem memoryless_expand {inner : Generator} (h : ∀ input, Memoryless (inner.generate input))
    (size : Nat) (offset : UInt64) (input : Bytes) :
    Memoryless ((expand inner size offset).generate input) := by
  rw [generate_expand, map_eq_pure_bind]
  split_ifs
  · exact (Draw.memoryless_blocks h _ _ _ _).bind fun all => memoryless_pure _
  · exact memoryless_throw _

end Generator

/-- The deterministic engine makes generators without memory, of any size. -/
theorem Engine.memoryless_generator {number size : Nat} {seed : UInt64} {salt : Bytes}
    {g : Generator} (h : Engine.deterministic.generator number seed salt size = .ok g)
    (input : Bytes) : Memoryless (g.generate input) := by
  by_cases hsize : size ≤ HashFunction.maxSize
  · simp only [generator, if_pos hsize, bind_eq_ok, pure_eq_ok] at h
    obtain ⟨f, -, rfl⟩ := h
    exact Generator.memoryless_source (fun _ _ _ => rfl) input
  · simp only [generator, if_neg hsize] at h
    obtain ⟨-, rfl⟩ := Generator.expand?_eq_ok.mp h
    exact Generator.memoryless_expand (Generator.memoryless_source fun _ _ _ => rfl) _ _ input

/-! ### Masking -/

namespace Transformer

variable {rule : Rule} {g : Generator} {h : rule.required ≤ g.size}

theorem memoryless_call (hg : ∀ input, Memoryless (g.generate input)) (request : Request rule) :
    Memoryless ((attached rule g h).call request) := by
  rcases hplan : request.plan with e | plan
  · rw [call_of_error (t := attached rule g h) hplan]
    exact memoryless_throw _
  · intro log log'
    rw [run_call_of_plan hplan, run_call_of_plan hplan, hg plan.input log log']

/-- Masking with a generator without memory gives the same after any calls. -/
theorem memoryless_transform (hg : ∀ input, Memoryless (g.generate input)) (v : Value) :
    Memoryless ((attached rule g h).transform v) := by
  rcases hrequest : rule.request? v with e | request
  · rw [transform_of_error (t := attached rule g h) hrequest]
    exact memoryless_throw _
  · rw [transform_of_ok (t := attached rule g h) hrequest]
    exact memoryless_call hg request

end Transformer

end ColumnMask
