import Mathlib
import ColumnMask.Proofs.Call

/-!
# What a tree asks its sources

A tree answers by asking its sources, some of them more than once, and stops at the first answer
that will not do. Here every call of a source is listed together with the chain stages that the
source sits under.

- `Call.fault?`: what is wrong with the answer to a call. Too few bytes count as a fault.
- `Visit`: a call of a source and the stages around it, the outermost one first.
- `Settled`: how a list of visits decides what comes out. The first fault ends the list, and the
  result is this fault, marked with its stages. Without a fault there is an output or, where a node
  does not get its room, a panic.
- `Visits x visits`: `x` makes these visits and no others, and they settle its result. There is one
  lemma for each way of putting computations together.
- `Generator.promised`: a tree held to its promise, which is how each node uses the trees below it.
- `Generator.RoomToExpand`: whether the room that it takes to expand a tree can be had.
- `Generator.visits`: the visits of a tree.
-/

namespace ColumnMask

/-! ## Faults -/

namespace Call

/-- What is wrong with the answer to a call. -/
def fault? (c : Call) : Option (Stop GenerationError) :=
  match c.answer with
  | .error e => some e
  | .ok out =>
    if out.length < c.declared then some (.failure (.shortOutput c.declared out.length)) else none

theorem fault?_of_short {c : Call} {out : Bytes} (hanswer : c.answer = .ok out)
    (hshort : out.length < c.declared) :
    c.fault? = some (.failure (.shortOutput c.declared out.length)) := by
  rw [fault?, hanswer]
  exact if_pos hshort

theorem exists_ok_of_fault?_eq_none {c : Call} (h : c.fault? = none) :
    ∃ out, c.answer = .ok out := by
  rw [fault?] at h
  rcases hanswer : c.answer with e | out
  · rw [hanswer] at h
    contradiction
  · exact ⟨out, rfl⟩

/-- Whether the source answered with just as many bytes as it declares. -/
def Exact (c : Call) : Prop :=
  ∃ out, c.answer = .ok out ∧ out.length = c.declared

theorem Exact.fault?_eq_none {c : Call} (h : c.Exact) : c.fault? = none := by
  obtain ⟨out, hanswer, hlength⟩ := h
  rw [fault?, hanswer]
  exact if_neg (by omega)

end Call

/-- A call of a source, with the stages of the chains around the source, the outermost one first. -/
structure Visit where
  stages : List Nat
  call : Call

namespace Visit

/-- The same visit as it is seen from a chain around the stage. -/
def under (index : Nat) (v : Visit) : Visit := { v with stages := index :: v.stages }

/-- An error in the shape in which it comes out of all the chains around the source. -/
def mark (v : Visit) (e : Stop GenerationError) : Stop GenerationError :=
  e.map (v.stages.foldr .stage)

/-- A source under no chain fails as it does by itself. -/
@[simp] theorem mark_nil (c : Call) (e : Stop GenerationError) : mark ⟨[], c⟩ e = e := by
  cases e with
  | failure e => rfl
  | panic => rfl

@[simp] theorem mark_under (v : Visit) (index : Nat) (e : Stop GenerationError) :
    (v.under index).mark e = (v.mark e).map (.stage index) := by
  rw [mark, mark, Stop.map_map]
  rfl

end Visit

/-! ## Settled results -/

variable {α β : Type}

/-- How visits decide what comes out: without a fault there is a result or a panic, and a fault is
at the last visit and comes out marked. -/
inductive Settled : List Visit → Except (Stop GenerationError) α → Prop where
  | ok {visits : List Visit} {out : α} (_ : ∀ v ∈ visits, v.call.fault? = none) :
      Settled visits (.ok out)
  | error {before : List Visit} {v : Visit} {e : Stop GenerationError}
      (_ : ∀ u ∈ before, u.call.fault? = none) (_ : v.call.fault? = some e) :
      Settled (before ++ [v]) (.error (v.mark e))
  | panic {visits : List Visit} (_ : ∀ v ∈ visits, v.call.fault? = none) :
      Settled visits (.error .panic)

namespace Settled

/-- After a result come the visits of what follows. -/
theorem append {first rest : List Visit} {a : α} {result : Except (Stop GenerationError) β}
    (hfirst : Settled first (.ok a)) (hrest : Settled rest result) :
    Settled (first ++ rest) result := by
  obtain ⟨hnone⟩ := hfirst
  cases hrest with
  | ok hnone' => exact .ok fun v hv => (List.mem_append.mp hv).elim (hnone v) (hnone' v)
  | error hnone' hfault =>
    rw [← List.append_assoc]
    exact .error (fun v hv => (List.mem_append.mp hv).elim (hnone v) (hnone' v)) hfault
  | panic hnone' => exact .panic fun v hv => (List.mem_append.mp hv).elim (hnone v) (hnone' v)

/-- What goes wrong does not depend on what there would have been otherwise. -/
theorem error_of_error {visits : List Visit} {e : Stop GenerationError}
    (h : Settled visits (.error e : Except (Stop GenerationError) α)) :
    Settled visits (.error e : Except (Stop GenerationError) β) := by
  generalize hresult : (.error e : Except (Stop GenerationError) α) = result at h
  cases h with
  | ok _ => contradiction
  | error hnone hfault =>
    obtain rfl := Except.error.inj hresult
    exact .error hnone hfault
  | panic hnone =>
    obtain rfl := Except.error.inj hresult
    exact .panic hnone

/-- A stage marks what comes out of it. -/
theorem under {visits : List Visit} {result : Except (Stop GenerationError) α}
    (h : Settled visits result) (index : Nat) :
    Settled (visits.map (·.under index)) (result.mapError (Stop.map (.stage index))) := by
  have hunder {us : List Visit} (hnone : ∀ u ∈ us, u.call.fault? = none) :
      ∀ u ∈ us.map (·.under index), u.call.fault? = none := by
    intro u hu
    obtain ⟨w, hw, rfl⟩ := List.mem_map.mp hu
    exact hnone w hw
  cases h with
  | ok hnone => exact .ok (hunder hnone)
  | @error before v e hnone hfault =>
    rw [List.map_append, List.map_singleton, Except.mapError, ← Visit.mark_under]
    exact .error (hunder hnone) hfault
  | panic hnone => exact .panic (hunder hnone)

/-- A fault decides: nothing was wrong before it, and nothing is asked after it. -/
theorem eq_error {before after : List Visit} {v : Visit} {e : Stop GenerationError}
    {result : Except (Stop GenerationError) α} (h : Settled (before ++ v :: after) result)
    (hfault : v.call.fault? = some e) :
    (∀ u ∈ before, u.call.fault? = none) ∧ after = [] ∧ result = .error (v.mark e) := by
  generalize hvisits : before ++ v :: after = visits at h
  -- a fault ends the visits, so that no run goes on past it
  cases h with
  | ok hall =>
    rw [hall v (by simp [← hvisits])] at hfault
    contradiction
  | @error before' v' e' hnone' hfault' =>
    rcases List.eq_nil_or_concat after with rfl | ⟨mid, last, rfl⟩
    · obtain ⟨rfl, heq⟩ := List.append_inj' hvisits rfl
      obtain rfl : v = v' := by simpa using heq
      rw [hfault] at hfault'
      exact ⟨hnone', rfl, by rw [Option.some_inj.mp hfault']⟩
    · -- otherwise the faulty visit would be among those before the last one
      rw [List.concat_eq_append, ← List.cons_append, ← List.append_assoc] at hvisits
      obtain ⟨rfl, -⟩ := List.append_inj' hvisits rfl
      rw [hnone' v (by simp)] at hfault
      contradiction
  | panic hall =>
    rw [hall v (by simp [← hvisits])] at hfault
    contradiction

/-- Without a fault there is a result, or a panic. -/
theorem ok_or_panic {visits : List Visit} {result : Except (Stop GenerationError) α}
    (h : Settled visits result) (hnone : ∀ v ∈ visits, v.call.fault? = none) :
    (∃ out, result = .ok out) ∨ result = .error .panic := by
  cases h with
  | ok _ => exact .inl ⟨_, rfl⟩
  | @error before v e _ hfault =>
    rw [hnone v (by simp)] at hfault
    contradiction
  | panic _ => exact .inr rfl

end Settled

/-! ## Visits of a computation -/

namespace Visit

/-- The visits of one computation and then, if it gives something, those of the next. -/
def andThen (visits : Log → List Visit) (x : Draw α) (next : α → Log → List Visit) (log : Log) :
    List Visit :=
  visits log ++
    match log.run x with
    | (.ok a, log) => next a log
    | (.error _, _) => []

/-- The visits of asking for so many blocks. -/
def ofBlocks (ask : Bytes → Draw Bytes) (visits : Bytes → Log → List Visit) (input : Bytes) :
    (count : Nat) → (counter : UInt64) → Log → List Visit
  | 0, _ => fun _ => []
  | count + 1, counter =>
    andThen (visits (input ++ Bytes.ofUInt64 counter)) (ask (input ++ Bytes.ofUInt64 counter))
      fun _ => ofBlocks ask visits input count (counter + 1)

end Visit

/-- A computation makes these visits and no others, and they settle its result. -/
structure Visits (x : Draw α) (visits : Log → List Visit) : Prop where
  toList_eq : ∀ log : Log, (log.run x).2.toList = log.toList ++ (visits log).map Visit.call
  settled : ∀ log : Log, Settled (visits log) (log.run x).1

namespace Visits

theorem pure (a : α) : Visits (Pure.pure a) fun _ => [] where
  toList_eq log := by simp
  settled _ := .ok (by simp)

theorem throw_panic : Visits (throw .panic : Draw α) fun _ => [] where
  toList_eq log := by simp
  settled _ := .panic (by simp)

theorem bind {x : Draw α} {f : α → Draw β} {visits : Log → List Visit}
    {next : α → Log → List Visit} (hx : Visits x visits) (hf : ∀ a, Visits (f a) (next a)) :
    Visits (x >>= f) (Visit.andThen visits x next) where
  toList_eq log := by
    have hcalls := hx.toList_eq log
    rw [Log.run_bind, Visit.andThen]
    rcases hrun : log.run x with ⟨e | a, log'⟩
    · -- nothing is asked after a failure
      rw [hrun] at hcalls
      rw [List.append_nil]
      exact hcalls
    · rw [hrun] at hcalls
      rw [(hf a).toList_eq, hcalls, List.map_append, List.append_assoc]
  settled log := by
    have hsettled := hx.settled log
    rw [Log.run_bind, Visit.andThen]
    rcases hrun : log.run x with ⟨e | a, log'⟩
    · rw [hrun] at hsettled
      rw [List.append_nil]
      exact hsettled.error_of_error
    · rw [hrun] at hsettled
      exact hsettled.append ((hf a).settled log')

theorem map {x : Draw α} {visits : Log → List Visit} (hx : Visits x visits) (f : α → β) :
    Visits (f <$> x) visits := by
  have hbind := hx.bind fun a => Visits.pure (f a)
  rw [map_eq_pure_bind]
  have hvisits : Visit.andThen visits x (fun _ _ => []) = visits := by
    funext log
    rw [Visit.andThen]
    rcases log.run x with ⟨e | a, log'⟩
    · exact List.append_nil _
    · exact List.append_nil _
  rwa [hvisits] at hbind

theorem inStage {x : Draw α} {visits : Log → List Visit} (hx : Visits x visits) (index : Nat) :
    Visits (Draw.inStage index x) fun log => (visits log).map (·.under index) where
  toList_eq log := by
    rw [Draw.inStage, Log.run_adapt, List.map_map]
    exact hx.toList_eq log
  settled log := by
    rw [Draw.inStage, Log.run_adapt]
    exact (hx.settled log).under index

end Visits

/-! ## Visits of a tree -/

namespace Source

/-- A question to a source as it goes into the log. -/
def callOf (s : Source) (log : Log) (input : Bytes) : Call :=
  { source := s.number, declared := s.size, input, answer := s.respond log input }

@[simp] theorem run_ask (s : Source) (input : Bytes) (log : Log) :
    log.run (s.ask input) = (s.respond log input, log.push (s.callOf log input)) := rfl

end Source

namespace Generator

/-- The answer of a tree that is held to its promise. -/
def promised (g : Generator) (input : Bytes) : Draw Bytes := do
  let out ← g.generate input
  Draw.ensureLength g.size out
  return out

theorem run_promised (g : Generator) (input : Bytes) (log : Log) :
    log.run (g.promised input) =
      match log.run (g.generate input) with
      | (.error e, log) => (.error e, log)
      | (.ok out, log) =>
        if out.length < g.size then (.error (.failure (.shortOutput g.size out.length)), log)
        else (.ok out, log) := by
  simp only [promised, Log.run_bind, Draw.ensureLength]
  rcases log.run (g.generate input) with ⟨e | out, log'⟩
  · rfl
  · by_cases h : out.length < g.size
    · simp [h]
    · simp [h]

/-- Whether the room can be had that it takes to expand a tree to a size: for the output with one
block more, and for a question of eight bytes more than the input has. -/
def RoomToExpand (inner : Generator) (size length : Nat) : Prop :=
  size + inner.size ≤ Bytes.maxRoom ∧ length + 8 ≤ Bytes.maxRoom

instance (inner : Generator) (size length : Nat) : Decidable (inner.RoomToExpand size length) :=
  inferInstanceAs (Decidable (_ ∧ _))

mutual

/-- The visits of a tree: each node asks the trees below it in turn and stops at a fault. -/
def visits : Generator → Bytes → Log → List Visit
  | source s, input => fun log => [⟨[], s.callOf log input⟩]
  | fold inner _, input => inner.visits input
  | expand inner size offset, input =>
    if inner.RoomToExpand size input.length then
      Visit.ofBlocks inner.promised inner.visits input ((size + inner.size - 1) / inner.size) offset
    else fun _ => []
  | chain stages, input => stageVisits stages 0 input

/-- The visits of the stages from `index` on. -/
def stageVisits : List Generator → (index : Nat) → Bytes → Log → List Visit
  | [], _, _ => fun _ => []
  | g :: rest, index, data =>
    Visit.andThen (fun log => (g.visits data log).map (·.under index))
      (Draw.inStage index (g.promised data)) (stageVisits rest (index + 1))

end

/-! ### How the nodes use the trees below them -/

theorem generate_fold (inner : Generator) (size : Nat) (input : Bytes) :
    (fold inner size).generate input = xorFold size <$> inner.promised input := by
  simp [generate, promised]

theorem blocks_succ (inner : Generator) (input : Bytes) (count : Nat) (counter : UInt64) :
    Draw.blocks inner.generate inner.size input (count + 1) counter = do
      let chunk ← inner.promised (input ++ Bytes.ofUInt64 counter)
      let rest ← Draw.blocks inner.generate inner.size input count (counter + 1)
      return chunk.take inner.size ++ rest := by
  simp [Draw.blocks, promised]

/-- Without room an expanded tree panics before it asks anything. -/
theorem generate_expand (inner : Generator) (size : Nat) (offset : UInt64) (input : Bytes) :
    (expand inner size offset).generate input =
      if inner.RoomToExpand size input.length then
        List.take size <$> Draw.blocks inner.generate inner.size input
          ((size + inner.size - 1) / inner.size) offset
      else throw .panic := by
  by_cases houtput : size + inner.size ≤ Bytes.maxRoom
  · by_cases hquestion : input.length + 8 ≤ Bytes.maxRoom
    · simp [generate, Draw.reserve, RoomToExpand, houtput, hquestion]
    · simp only [generate, Draw.reserve, RoomToExpand, houtput, hquestion, and_false, if_true,
        if_false, pure_bind]
      rfl
  · simp only [generate, Draw.reserve, RoomToExpand, houtput, false_and, if_false]
    rfl

theorem generateStages_cons (g : Generator) (rest : List Generator) (index : Nat) (data : Bytes) :
    generateStages (g :: rest) index data =
      Draw.inStage index (g.promised data) >>= generateStages rest (index + 1) := by
  rw [generateStages]
  rfl

/-! ### What settles the answer of a node -/

/-- A single call that is faulty exactly when nothing comes out. -/
theorem run_promised_source (s : Source) (input : Bytes) (log : Log) :
    log.run ((source s).promised input) =
      (match (s.callOf log input).fault? with
        | some e => .error e
        | none => s.respond log input,
      log.push (s.callOf log input)) := by
  rw [run_promised, generate, Source.run_ask, Call.fault?]
  simp only [Source.callOf, size]
  rcases s.respond log input with e | out
  · rfl
  · by_cases hshort : out.length < s.size
    · simp [hshort]
    · simp [hshort]

theorem visits_source (s : Source) (input : Bytes) :
    Visits ((source s).promised input) ((source s).visits input) where
  toList_eq log := by simp [run_promised_source, visits]
  settled log := by
    rw [run_promised_source, visits]
    rcases hfault : (s.callOf log input).fault? with - | e
    · obtain ⟨out, hanswer⟩ := Call.exists_ok_of_fault?_eq_none hfault
      rw [show s.respond log input = .ok out from hanswer]
      exact .ok (by simpa using hfault)
    · have hsettled := @Settled.error Bytes [] ⟨[], s.callOf log input⟩ e (by simp) hfault
      rwa [Visit.mark_nil] at hsettled

theorem visits_fold {inner : Generator} {input : Bytes}
    (hinner : Visits (inner.promised input) (inner.visits input)) (size : Nat) :
    Visits ((fold inner size).generate input) ((fold inner size).visits input) := by
  rw [generate_fold, visits]
  exact hinner.map _

theorem visits_blocks {inner : Generator}
    (hinner : ∀ input, Visits (inner.promised input) (inner.visits input)) (input : Bytes)
    (count : Nat) (counter : UInt64) :
    Visits (Draw.blocks inner.generate inner.size input count counter)
      (Visit.ofBlocks inner.promised inner.visits input count counter) := by
  -- a block at a time; the counter moves along
  induction count generalizing counter with
  | zero => exact .pure []
  | succ count ih =>
    rw [blocks_succ, Visit.ofBlocks]
    refine (hinner _).bind fun chunk => ?_
    have hrest := (ih (counter + 1)).map (chunk.take inner.size ++ ·)
    rwa [map_eq_pure_bind] at hrest

theorem visits_expand {inner : Generator}
    (hinner : ∀ input, Visits (inner.promised input) (inner.visits input)) (size : Nat)
    (offset : UInt64) (input : Bytes) :
    Visits ((expand inner size offset).generate input)
      ((expand inner size offset).visits input) := by
  rw [generate_expand, visits]
  split_ifs
  · exact (visits_blocks hinner input _ offset).map _
  · exact .throw_panic

theorem visits_stages {stages : List Generator}
    (hstages : ∀ g ∈ stages, ∀ input, Visits (g.promised input) (g.visits input)) (index : Nat)
    (data : Bytes) :
    Visits (generateStages stages index data) (stageVisits stages index data) := by
  -- a stage at a time; what comes out of one is the data of the next
  induction stages generalizing index data with
  | nil =>
    rw [generateStages, stageVisits]
    exact .pure data
  | cons g rest ih =>
    rw [generateStages_cons, stageVisits]
    have hhead := (hstages g (by simp) data).inStage index
    have htail := fun out => ih (fun g hg => hstages g (by simp [hg])) (index + 1) out
    exact hhead.bind htail

end Generator

end ColumnMask
