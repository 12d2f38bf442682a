import Mathlib
import ColumnMask.Proofs.GeneratorTree

/-!
# What a node asks of the trees below it

A node asks the trees right below it one question after the other and stops at the first answer that
will not do. A tree below a node may itself ask many sources, or none at all; here each question to
it counts as one.

- `Exchange`: a question to a tree with its answer. `Exchange.fault?` tells what is wrong with it.
- `Exchanges`: exchanges in turn, from the log before the first one to the log after the last one.
- `Exchange.run_promised_iff`: a tree that is held to its promise is asked once, and fails exactly
  with the fault of this exchange.
- `Exchanges.exists_calls`: where the trees are sources, each exchange is one call in the log.
-/

namespace ColumnMask

/-- A question that a tree was asked, with its answer. -/
structure Exchange where
  asked : Generator
  input : Bytes
  answer : Except (Stop GenerationError) Bytes

namespace Exchange

/-- What is wrong with an answer. Fewer bytes than the tree declares count as a fault. -/
def fault? (x : Exchange) : Option (Stop GenerationError) :=
  match x.answer with
  | .error e => some e
  | .ok out =>
    if out.length < x.asked.size then some (.failure (.shortOutput x.asked.size out.length))
    else none

/-- The bytes of an answer, if there are any. -/
def output (x : Exchange) : Bytes := x.answer.toOption.getD []

/-- Whether the question, put after the calls of one log, is answered like this and leaves the
other log. -/
def Takes (x : Exchange) (log log' : Log) : Prop :=
  log.run (x.asked.generate x.input) = (x.answer, log')

theorem fault?_eq_none {x : Exchange} :
    x.fault? = none ↔ x.answer = .ok x.output ∧ x.asked.size ≤ x.output.length := by
  obtain ⟨g, input, e | out⟩ := x
  · simp [fault?]
  · simp [fault?, output, Except.toOption]

/-- What comes of an exchange with a tree that is held to its promise. -/
def outcome (x : Exchange) : Except (Stop GenerationError) Bytes :=
  match x.fault? with
  | some e => .error e
  | none => .ok x.output

theorem outcome_eq_ok {x : Exchange} {out : Bytes} :
    x.outcome = .ok out ↔ x.fault? = none ∧ x.output = out := by
  rw [outcome]
  rcases x.fault? with - | e
  · simp
  · simp

theorem outcome_eq_error {x : Exchange} {e : Stop GenerationError} :
    x.outcome = .error e ↔ x.fault? = some e := by
  rw [outcome]
  rcases x.fault? with - | e'
  · simp
  · simp

/-- Holding a tree to its promise asks it once. -/
theorem Takes.run_promised {x : Exchange} {log log' : Log} (h : x.Takes log log') :
    log.run (x.asked.promised x.input) = (x.outcome, log') := by
  obtain ⟨g, input, e | out⟩ := x
  · rw [Generator.run_promised, show log.run (g.generate input) = (.error e, log') from h]
    rfl
  · rw [Generator.run_promised, show log.run (g.generate input) = (.ok out, log') from h]
    by_cases hshort : out.length < g.size
    · simp [outcome, fault?, hshort]
    · simp [outcome, fault?, hshort, output, Except.toOption]

/-- A tree that is held to its promise gives what comes of one exchange with it. -/
theorem run_promised_iff {g : Generator} {input : Bytes}
    {result : Except (Stop GenerationError) Bytes} {log log' : Log} :
    log.run (g.promised input) = (result, log') ↔
      ∃ x : Exchange, x.asked = g ∧ x.input = input ∧ x.Takes log log' ∧ x.outcome = result := by
  constructor
  · intro hrun
    have htakes : (⟨g, input, (log.run (g.generate input)).1⟩ : Exchange).Takes log
        (log.run (g.generate input)).2 := rfl
    have hpromised := htakes.run_promised
    rw [hrun] at hpromised
    obtain ⟨houtcome, hlog⟩ := Prod.mk.inj hpromised
    exact ⟨_, rfl, rfl, hlog ▸ htakes, houtcome.symm⟩
  · rintro ⟨x, rfl, rfl, htakes, rfl⟩
    exact htakes.run_promised

/-! ### Asking first

What follows an exchange runs if there was no fault in it. A fault may get another name. -/

section

variable {ε β : Type} {g : Generator} {input : Bytes} {name : Stop GenerationError → ε}
  {next : Bytes → ExceptT ε (StateM Log) β} {log log' : Log}

/-- Something comes out of a held tree just if there is an exchange without a fault. -/
theorem exists_run_ok {P : Bytes → Log → Prop} :
    (∃ out middle, log.run ((g.promised input).adapt name) = (.ok out, middle) ∧ P out middle) ↔
      ∃ (x : Exchange) (middle : Log), x.asked = g ∧ x.input = input ∧ x.Takes log middle ∧
        x.fault? = none ∧ P x.output middle := by
  simp only [Log.run_adapt_eq_ok, run_promised_iff, outcome_eq_ok]
  constructor
  · rintro ⟨_, middle, ⟨x, hasked, hinput, htakes, hfault, rfl⟩, h⟩
    exact ⟨x, middle, hasked, hinput, htakes, hfault, h⟩
  · rintro ⟨x, middle, hasked, hinput, htakes, hfault, h⟩
    exact ⟨x.output, middle, ⟨x, hasked, hinput, htakes, hfault, rfl⟩, h⟩

theorem run_bind_eq_ok {b : β} :
    log.run ((g.promised input).adapt name >>= next) = (.ok b, log') ↔
      ∃ (x : Exchange) (middle : Log), x.asked = g ∧ x.input = input ∧ x.Takes log middle ∧
        x.fault? = none ∧ middle.run (next x.output) = (.ok b, log') := by
  rw [Log.run_bind_eq_ok, exists_run_ok]

theorem run_bind_eq_error {e' : ε} :
    log.run ((g.promised input).adapt name >>= next) = (.error e', log') ↔
      (∃ (x : Exchange) (e : Stop GenerationError), x.asked = g ∧ x.input = input ∧
        x.Takes log log' ∧ x.fault? = some e ∧ name e = e') ∨
      ∃ (x : Exchange) (middle : Log), x.asked = g ∧ x.input = input ∧ x.Takes log middle ∧
        x.fault? = none ∧ middle.run (next x.output) = (.error e', log') := by
  rw [Log.run_bind_eq_error, exists_run_ok]
  refine or_congr_left ?_
  simp only [Log.run_adapt_eq_error, run_promised_iff, outcome_eq_error]
  constructor
  · rintro ⟨e, ⟨x, hasked, hinput, htakes, hfault⟩, hname⟩
    exact ⟨x, e, hasked, hinput, htakes, hfault, hname⟩
  · rintro ⟨x, e, hasked, hinput, htakes, hfault, hname⟩
    exact ⟨e, ⟨x, hasked, hinput, htakes, hfault⟩, hname⟩

end

end Exchange

/-- Exchanges in turn, each after the calls that the earlier ones have made. -/
inductive Exchanges : Log → List Exchange → Log → Prop where
  | nil (log : Log) : Exchanges log [] log
  | cons {log middle log' : Log} {x : Exchange} {rest : List Exchange} (_ : x.Takes log middle)
      (_ : Exchanges middle rest log') : Exchanges log (x :: rest) log'

namespace Exchanges

variable {g : Generator} {input out : Bytes} {e : Stop GenerationError} {x : Exchange}
  {xs : List Exchange} {log log' : Log}

@[simp] theorem nil_iff : Exchanges log [] log' ↔ log = log' := by
  constructor
  · rintro ⟨⟩
    rfl
  · rintro rfl
    exact .nil log

@[simp] theorem cons_iff :
    Exchanges log (x :: xs) log' ↔ ∃ middle, x.Takes log middle ∧ Exchanges middle xs log' := by
  constructor
  · rintro (_ | ⟨hx, hrest⟩)
    exact ⟨_, hx, hrest⟩
  · rintro ⟨middle, hx, hrest⟩
    exact .cons hx hrest

/-! ## Sources -/

/-- Exchanges with sources go into the log one by one. -/
theorem exists_calls {sources : List Source} (h : Exchanges log xs log')
    (hasked : xs.map Exchange.asked = sources.map .source) :
    ∃ calls : List Call, log'.toList = log.toList ++ calls ∧
      calls.map Call.source = sources.map Source.number ∧
      calls.map Call.input = xs.map Exchange.input ∧
      calls.map Call.answer = xs.map Exchange.answer := by
  induction h generalizing sources with
  | nil log =>
    obtain rfl : sources = [] := by simpa using hasked.symm
    exact ⟨[], by simp⟩
  | @cons log middle log' x rest htakes _ ih =>
    obtain ⟨s, later, rfl, hs, hlater⟩ := List.map_eq_cons_iff.mp hasked.symm
    obtain ⟨calls, hlog, hsource, hinput, hanswer⟩ := ih hlater.symm
    obtain ⟨g, input, answer⟩ := x
    obtain rfl : Generator.source s = g := hs
    -- the first exchange is the call that the source records
    have hcall : (s.respond log input, log.push (s.callOf log input)) = (answer, middle) := htakes
    obtain ⟨rfl, rfl⟩ := Prod.mk.inj hcall
    refine ⟨s.callOf log input :: calls, ?_, ?_, ?_, ?_⟩
    · rw [hlog, Log.toList_push, List.append_assoc, List.singleton_append]
    · rw [List.map_cons, List.map_cons, hsource]
      rfl
    · rw [List.map_cons, List.map_cons, hinput]
      rfl
    · rw [List.map_cons, List.map_cons, hanswer]
      rfl

end Exchanges

end ColumnMask
