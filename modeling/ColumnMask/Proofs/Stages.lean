import Mathlib
import ColumnMask.Proofs.Exchanges

/-!
# Stages of a chain

A chain hands the output of each stage to the next one and stops at the first stage with a fault,
whose number goes into the error. A chain among the stages of a chain may be taken apart: its own
stages do the same in its place, and only the numbers in an error change.

- `PassesOn`: exchanges with the first stages of a chain, each on the output of the one before.
- `Generator.run_stages_eq_ok`, `Generator.run_stages_eq_error`: the exchanges behind a chain.
- `Generator.regroup`: the errors of a chain one of whose stages is put together from several.
- `Generator.places`: the stages that are left when all chains among them are taken apart, each
  with the numbers of the stages on the way to it.
- `Generator.chain_passes_on`: all of a chain's outcomes, and what taking chains apart leaves alone.
-/

namespace ColumnMask

/-! ## Passing on -/

/-- Exchanges in turn with the first of some stages. The first one is asked with the given bytes,
and each later one with the output of the one before. -/
structure PassesOn (stages : List Generator) (data : Bytes) (log : Log) (xs : List Exchange)
    (log' : Log) : Prop where
  exchanges : Exchanges log xs log'
  asked : xs.map Exchange.asked <+: stages
  inputs : xs.map Exchange.input = (data :: xs.map Exchange.output).dropLast

namespace PassesOn

variable {g : Generator} {stages : List Generator} {data : Bytes} {x : Exchange}
  {xs : List Exchange} {log log' : Log}

theorem nil_iff : PassesOn stages data log [] log' ↔ log = log' := by
  refine ⟨fun h => Exchanges.nil_iff.mp h.exchanges, ?_⟩
  rintro rfl
  exact ⟨.nil log, List.nil_prefix, rfl⟩

theorem cons_iff :
    PassesOn (g :: stages) data log (x :: xs) log' ↔
      ∃ middle, x.asked = g ∧ x.input = data ∧ x.Takes log middle ∧
        PassesOn stages x.output middle xs log' := by
  constructor
  · rintro ⟨hxs, hasked, hinputs⟩
    obtain ⟨middle, htakes, hrest⟩ := Exchanges.cons_iff.mp hxs
    obtain ⟨hfirst, hasked⟩ := List.cons_prefix_cons.mp hasked
    obtain ⟨hinput, hinputs⟩ := List.cons.inj hinputs
    exact ⟨middle, hfirst, hinput, htakes, hrest, hasked, hinputs⟩
  · rintro ⟨middle, rfl, rfl, htakes, hrest, hasked, hinputs⟩
    exact ⟨.cons htakes hrest, List.cons_prefix_cons.mpr ⟨rfl, hasked⟩,
      congrArg (x.input :: ·) hinputs⟩

theorem length_le (h : PassesOn stages data log xs log') : xs.length ≤ stages.length := by
  simpa using h.asked.length_le

/-- Exchanges with sources are calls of the first of them, one for each. -/
theorem exists_calls {sources : List Source}
    (h : PassesOn (sources.map .source) data log xs log') :
    ∃ calls : List Call, log'.toList = log.toList ++ calls ∧
      calls.map Call.source <+: sources.map Source.number ∧ calls.length = xs.length := by
  have hasked := List.prefix_iff_eq_take.mp h.asked
  rw [← List.map_take] at hasked
  obtain ⟨calls, hlog, hsource, hinput, -⟩ := h.exchanges.exists_calls hasked
  refine ⟨calls, hlog, ?_, by simpa using congrArg List.length hinput⟩
  rw [hsource]
  exact (List.take_prefix _ _).map _

end PassesOn

namespace Generator

variable {stages : List Generator} {data : Bytes} {index : Nat} {log log' : Log}

/-- The stages are behind an output if none of their answers has a fault. -/
theorem run_stages_eq_ok {out : Bytes} :
    log.run (generateStages stages index data) = (.ok out, log') ↔
      ∃ xs : List Exchange, PassesOn stages data log xs log' ∧ xs.length = stages.length ∧
        (∀ x ∈ xs, x.fault? = none) ∧ (xs.map Exchange.output).getLastD data = out := by
  -- a stage at a time; what comes out of one is the data of the next
  induction stages generalizing index data log with
  | nil =>
    constructor
    · intro hrun
      obtain ⟨rfl, rfl⟩ : data = out ∧ log = log' := by simpa [generateStages] using hrun
      exact ⟨[], PassesOn.nil_iff.mpr rfl, rfl, by simp, rfl⟩
    · rintro ⟨xs, hxs, hlength, -, rfl⟩
      obtain rfl := List.length_eq_zero_iff.mp hlength
      obtain rfl := PassesOn.nil_iff.mp hxs
      rfl
  | cons g rest ih =>
    rw [generateStages_cons, Draw.inStage, Exchange.run_bind_eq_ok]
    simp only [ih]
    constructor
    · rintro ⟨x, middle, hasked, hinput, htakes, hfault, xs, hxs, hlength, hsound, rfl⟩
      exact ⟨x :: xs, PassesOn.cons_iff.mpr ⟨middle, hasked, hinput, htakes, hxs⟩,
        congrArg Nat.succ hlength, List.forall_mem_cons.mpr ⟨hfault, hsound⟩, by
          rw [List.map_cons, List.getLastD_cons]⟩
    · rintro ⟨xs, hxs, hlength, hsound, rfl⟩
      obtain ⟨x, xs, rfl⟩ := List.exists_cons_of_length_eq_add_one hlength
      obtain ⟨middle, hasked, hinput, htakes, hxs⟩ := PassesOn.cons_iff.mp hxs
      obtain ⟨hfault, hsound⟩ := List.forall_mem_cons.mp hsound
      exact ⟨x, middle, hasked, hinput, htakes, hfault, xs, hxs, Nat.succ.inj hlength, hsound, by
        rw [List.map_cons, List.getLastD_cons]⟩

/-- The first stage whose answer has a fault is the last one that is asked. Its number and the fault
come out. -/
theorem run_stages_eq_error {err : Stop GenerationError} :
    log.run (generateStages stages index data) = (.error err, log') ↔
      ∃ (xs : List Exchange) (last : Exchange) (e : Stop GenerationError),
        err = e.map (.stage (index + xs.length)) ∧ PassesOn stages data log (xs ++ [last]) log' ∧
        (∀ x ∈ xs, x.fault? = none) ∧ last.fault? = some e := by
  -- on the stages; the number of the one that fails is counted from `index`
  induction stages generalizing index data log with
  | nil =>
    constructor
    · intro hrun
      simp [generateStages] at hrun
    · rintro ⟨xs, last, e, -, hxs, -⟩
      simpa using hxs.length_le
  | cons g rest ih =>
    rw [generateStages_cons, Draw.inStage, Exchange.run_bind_eq_error]
    simp only [ih]
    constructor
    · rintro (⟨last, e, hasked, hinput, htakes, hfault, rfl⟩ |
        ⟨x, middle, hasked, hinput, htakes, hfault, xs, last, e, rfl, hxs, hsound, hlast⟩)
      · -- this stage fails
        exact ⟨[], last, e, rfl,
          PassesOn.cons_iff.mpr ⟨log', hasked, hinput, htakes, PassesOn.nil_iff.mpr rfl⟩,
          by simp, hfault⟩
      · -- this one hands on what it gives, and a later one fails
        refine ⟨x :: xs, last, e, ?_, PassesOn.cons_iff.mpr ⟨middle, hasked, hinput, htakes, hxs⟩,
          List.forall_mem_cons.mpr ⟨hfault, hsound⟩, hlast⟩
        rw [List.length_cons, Nat.add_right_comm, Nat.add_assoc]
    · rintro ⟨xs, last, e, rfl, hxs, hsound, hlast⟩
      cases xs with
      | nil =>
        obtain ⟨_, hasked, hinput, htakes, hnil⟩ := PassesOn.cons_iff.mp hxs
        obtain rfl := PassesOn.nil_iff.mp hnil
        exact .inl ⟨last, e, hasked, hinput, htakes, hlast, rfl⟩
      | cons x xs =>
        obtain ⟨middle, hasked, hinput, htakes, hxs⟩ := PassesOn.cons_iff.mp hxs
        obtain ⟨hfault, hsound⟩ := List.forall_mem_cons.mp hsound
        refine .inr ⟨x, middle, hasked, hinput, htakes, hfault, xs, last, e, ?_, hxs, hsound, hlast⟩
        rw [List.length_cons, Nat.add_right_comm, Nat.add_assoc]

/-- Sources are asked in their order, each once, up to the one that fails. -/
theorem chain_calls (sources : List Source) (input : Bytes) (log : Log) :
    let run := log.run ((chain (sources.map .source)).generate input)
    ∃ calls : List Call, run.2.toList = log.toList ++ calls ∧
      calls.map Call.source <+: sources.map Source.number ∧
      (∀ out, run.1 = .ok out → calls.length = sources.length) ∧
      ∀ i e, run.1 = .error (.failure (.stage i e)) → calls.length = i + 1 := by
  intro run
  rcases hrun : run with ⟨err | out, log'⟩
  · -- the stage that fails is the last one to be asked
    obtain ⟨xs, last, e, rfl, hxs, -⟩ := run_stages_eq_error.mp hrun
    obtain ⟨calls, hlog, hsource, hlength⟩ := hxs.exists_calls
    refine ⟨calls, hlog, hsource, by simp, ?_⟩
    rintro i e' herror
    cases e with
    | failure e =>
      obtain ⟨rfl, -⟩ := GenerationError.stage.inj (Stop.failure.inj (Except.error.inj herror))
      simpa using hlength
    | panic => cases herror
  · -- all stages are asked
    obtain ⟨xs, hxs, hcount, -⟩ := run_stages_eq_ok.mp hrun
    obtain ⟨calls, hlog, hsource, hlength⟩ := hxs.exists_calls
    refine ⟨calls, hlog, hsource, fun _ _ => ?_, by simp⟩
    rw [hlength, hcount, List.length_map]

/-! ## Taking one chain apart -/

theorem generateStages_append (a b : List Generator) (index : Nat) (data : Bytes) :
    generateStages (a ++ b) index data =
      generateStages a index data >>= generateStages b (index + a.length) := by
  induction a generalizing index data with
  | nil => simp [generateStages]
  | cons g rest ih =>
    rw [List.cons_append, generateStages_cons, generateStages_cons, bind_assoc]
    refine bind_congr fun out => ?_
    rw [ih, List.length_cons, Nat.add_assoc, Nat.add_comm 1]

/-- Stages with other numbers do the same; only their errors are named in another way. -/
theorem adapt_generateStages {index index' : Nat} {name name' : GenerationError → GenerationError}
    (h : ∀ i < stages.length, ∀ e, name (.stage (index + i) e) = name' (.stage (index' + i) e))
    (data : Bytes) :
    (generateStages stages index data).adapt (Stop.map name) =
      (generateStages stages index' data).adapt (Stop.map name') := by
  induction stages generalizing index index' data with
  | nil => simp [generateStages]
  | cons g rest ih =>
    -- both ways of naming agree on the first stage, and from the next number on
    have hstage : name ∘ GenerationError.stage index = name' ∘ GenerationError.stage index' :=
      funext fun e => h 0 (Nat.succ_pos _) e
    have hfirst : Stop.map name ∘ Stop.map (.stage index) =
        Stop.map name' ∘ Stop.map (.stage index') := by
      funext e
      simp only [Function.comp_apply, Stop.map_map, hstage]
    have hrest := @ih (index + 1) (index' + 1) fun i hi e => by
      rw [Nat.add_right_comm, Nat.add_right_comm index']
      exact h (i + 1) (Nat.succ_lt_succ hi) e
    rw [generateStages_cons, generateStages_cons, Log.adapt_bind, Log.adapt_bind, Draw.inStage,
      Draw.inStage, Log.adapt_adapt, Log.adapt_adapt, hfirst]
    simp only [hrest]

/-- A chain keeps its promise by itself, as its last stage does. -/
theorem promised_chain (stages : List Generator) (input : Bytes) :
    (chain stages).promised input = (chain stages).generate input := by
  refine Log.run_ext fun log => ?_
  rcases hrun : log.run ((chain stages).generate input) with ⟨e | out, log'⟩
  · rw [run_promised, hrun]
  · refine run_promised_eq_ok.mpr ⟨hrun, ?_⟩
    rcases eq_or_ne stages [] with rfl | hne
    · exact Nat.zero_le _
    · exact length_stages hne hrun

/-- An error of a chain as it is named when `count` stages from number `first` on are put together
to one stage. -/
def regroup (first count : Nat) : GenerationError → GenerationError
  | .stage n e =>
    if n < first then .stage n e
    else if n < first + count then .stage first (.stage (n - first) e)
    else .stage (n + 1 - count) e
  | e => e

/-- The stages of a chain among the stages may stand in its place. -/
theorem generate_chain_append (before inner after : List Generator) (input : Bytes) :
    (chain (before ++ chain inner :: after)).generate input =
      ((chain (before ++ inner ++ after)).generate input).adapt
        (Stop.map (regroup before.length inner.length)) := by
  -- the stages in front keep their numbers
  have hbefore : (generateStages before 0 input).adapt
      (Stop.map (regroup before.length inner.length)) = generateStages before 0 input := by
    have hsame := @adapt_generateStages before 0 0 (regroup before.length inner.length) id
      (fun i hi e => if_pos (by omega)) input
    rwa [Stop.map_id, Log.adapt_id] at hsame
  -- those of the inner chain get its number and then their own
  have hinner (mid : Bytes) :
      (generateStages inner before.length mid).adapt
          (Stop.map (regroup before.length inner.length)) =
        Draw.inStage before.length (generateStages inner 0 mid) := by
    refine adapt_generateStages (fun i hi e => ?_) mid
    rw [regroup, if_neg (by omega), if_pos (by omega), Nat.add_sub_cancel_left, Nat.zero_add]
  -- for those behind it the inner chain counts as one
  have hafter (mid : Bytes) :
      (generateStages after (before.length + inner.length) mid).adapt
          (Stop.map (regroup before.length inner.length)) =
        generateStages after (before.length + 1) mid := by
    have hsame := @adapt_generateStages after (before.length + inner.length) (before.length + 1)
      (regroup before.length inner.length) id (fun i hi e => by
        rw [regroup, if_neg (by omega), if_neg (by omega), id]
        congr 1
        omega) mid
    rwa [Stop.map_id, Log.adapt_id] at hsame
  rw [generate, generate, generateStages_append, List.append_assoc, generateStages_append,
    Log.adapt_bind, hbefore]
  refine bind_congr fun mid => ?_
  rw [generateStages_cons, promised_chain, generate, generateStages_append, Log.adapt_bind,
    Nat.zero_add, hinner]
  exact bind_congr fun out => (hafter out).symm

/-! ## Taking all chains apart -/

mutual

/-- What is left of a tree when chains are taken apart: trees that are no chains, each with the
numbers of the stages on the way to it. -/
def places : Generator → List (Generator × List Nat)
  | chain stages => stagePlaces stages 0
  | g => [(g, [])]

/-- What is left of the stages from `index` on. -/
def stagePlaces : List Generator → (index : Nat) → List (Generator × List Nat)
  | [], _ => []
  | g :: rest, index =>
    g.places.map (fun p => (p.1, index :: p.2)) ++ stagePlaces rest (index + 1)

end

/-- The tree that the numbers of stages lead to. -/
def descend : Generator → List Nat → Option Generator
  | g, [] => some g
  | chain stages, index :: path => (stages[index]?).bind (descend · path)
  | _, _ :: _ => none

/-- An error of the trees that are left, joined to one chain, as it is named before they are taken
apart. -/
def rename (places : List (Generator × List Nat)) : GenerationError → GenerationError
  | .stage n e => (places[n]?).elim (.stage n e) fun p => p.2.foldr .stage e
  | e => e

/-- Stages one after the other. A failure comes with the name that its stage goes by. -/
def relay {ν : Type} :
    List (Generator × ν) → Bytes → ExceptT (ν × Stop GenerationError) (StateM Log) Bytes
  | [], data => pure data
  | (g, name) :: rest, data => do
    let out ← (g.promised data).adapt (name, ·)
    relay rest out

section

variable {ν ν' : Type}

theorem relay_cons (g : Generator) (name : ν) (rest : List (Generator × ν)) (data : Bytes) :
    relay ((g, name) :: rest) data = (g.promised data).adapt (name, ·) >>= relay rest := rfl

theorem relay_append (a b : List (Generator × ν)) (data : Bytes) :
    relay (a ++ b) data = relay a data >>= relay b := by
  induction a generalizing data with
  | nil => simp [relay]
  | cons p rest ih =>
    rw [List.cons_append, relay_cons, relay_cons, bind_assoc]
    exact bind_congr ih

/-- Stages that go by other names do the same. -/
theorem relay_congr {ps : List (Generator × ν)} {qs : List (Generator × ν')}
    {f : ν × Stop GenerationError → Stop GenerationError}
    {f' : ν' × Stop GenerationError → Stop GenerationError}
    (h : List.Forall₂ (fun p q => p.1 = q.1 ∧ ∀ e, f (p.2, e) = f' (q.2, e)) ps qs)
    (data : Bytes) : (relay ps data).adapt f = (relay qs data).adapt f' := by
  induction h generalizing data with
  | nil => rfl
  | @cons p q ps qs hname _ ih =>
    obtain ⟨hsame, hname⟩ := hname
    rw [relay_cons, relay_cons, Log.adapt_bind, Log.adapt_bind, Log.adapt_adapt, Log.adapt_adapt,
      hsame, show f ∘ (p.2, ·) = f' ∘ (q.2, ·) from funext hname]
    exact bind_congr ih

/-- The stages of a chain go by their numbers. -/
theorem generateStages_eq_relay (stages : List Generator) (index : Nat) (data : Bytes) :
    generateStages stages index data =
      (relay (stages.zipIdx index) data).adapt fun p => p.2.map (.stage p.1) := by
  induction stages generalizing index data with
  | nil => rfl
  | cons g rest ih =>
    rw [generateStages_cons, List.zipIdx_cons, relay_cons, Log.adapt_bind, Log.adapt_adapt]
    exact bind_congr (ih (index + 1))

end

theorem relay_singleton (g : Generator) (data : Bytes) :
    (relay [(g, [])] data).adapt (fun p => p.2.map (p.1.foldr .stage)) = g.promised data := by
  rw [relay_cons, show relay ([] : List (Generator × List Nat)) = pure from rfl, bind_pure,
    Log.adapt_adapt]
  exact (congrArg (g.promised data).adapt Stop.map_id).trans (Log.adapt_id _)

/-- A stage more on the way to all places is a stage more in the errors. -/
theorem relay_map (ps : List (Generator × List Nat)) (index : Nat) (data : Bytes) :
    (relay (ps.map fun p => (p.1, index :: p.2)) data).adapt
        (fun p => p.2.map (p.1.foldr .stage)) =
      Draw.inStage index ((relay ps data).adapt fun p => p.2.map (p.1.foldr .stage)) := by
  rw [Draw.inStage, Log.adapt_adapt]
  refine relay_congr ?_ data
  rw [List.forall₂_map_left_iff, List.forall₂_same]
  exact fun p _ => ⟨rfl, fun e => (Stop.map_map _ _ e).symm⟩

mutual

/-- A tree hands on what the trees that are left of it hand on. -/
theorem promised_eq_relay : ∀ (g : Generator) (data : Bytes),
    g.promised data = (relay g.places data).adapt fun p => p.2.map (p.1.foldr .stage)
  | source s, data => (relay_singleton (source s) data).symm
  | fold inner size, data => (relay_singleton (fold inner size) data).symm
  | expand inner size offset, data => (relay_singleton (expand inner size offset) data).symm
  | chain stages, data => by
    rw [promised_chain, generate, places]
    exact stages_eq_relay stages 0 data

theorem stages_eq_relay : ∀ (stages : List Generator) (index : Nat) (data : Bytes),
    generateStages stages index data =
      (relay (stagePlaces stages index) data).adapt fun p => p.2.map (p.1.foldr .stage)
  | [], _, _ => rfl
  | g :: rest, index, data => by
    rw [generateStages_cons, stagePlaces, relay_append, Log.adapt_bind, relay_map,
      promised_eq_relay g]
    exact bind_congr fun out => stages_eq_relay rest (index + 1) out

end

/-- All chains among the stages of a chain may be taken apart. -/
theorem generate_chain_places (stages : List Generator) (input : Bytes) :
    (chain stages).generate input =
      ((chain ((chain stages).places.map Prod.fst)).generate input).adapt
        (Stop.map (rename (chain stages).places)) := by
  rw [← promised_chain stages, promised_eq_relay, generate, generateStages_eq_relay,
    Log.adapt_adapt]
  refine relay_congr (List.forall₂_iff_get.mpr ⟨by simp, fun i hi hi' => ?_⟩) input
  refine ⟨by simp, fun e => ?_⟩
  rw [Function.comp_apply, Stop.map_map]
  congr 1
  funext e
  simp [rename, hi]

/-! ### Where the places are -/

mutual

/-- The numbers of a place lead to the tree that is left there, which is no chain. -/
theorem descend_place : ∀ (g : Generator) {p : Generator × List Nat}, p ∈ g.places →
    g.descend p.2 = some p.1 ∧ ∀ stages, p.1 ≠ chain stages
  | source s, p, hp | fold inner size, p, hp | expand inner size offset, p, hp => by
    obtain rfl := List.mem_singleton.mp hp
    simp [descend]
  | chain stages, p, hp => by
    obtain ⟨i, path, hpath, hdescend, hchain⟩ := descend_stagePlace stages 0 hp
    rw [hpath, Nat.zero_add, descend]
    exact ⟨hdescend, hchain⟩

theorem descend_stagePlace : ∀ (stages : List Generator) (index : Nat) {p : Generator × List Nat},
    p ∈ stagePlaces stages index →
      ∃ i path, p.2 = (index + i) :: path ∧ (stages[i]?).bind (descend · path) = some p.1 ∧
        ∀ stages, p.1 ≠ chain stages
  | g :: rest, index, p, hp => by
    rw [stagePlaces, List.mem_append] at hp
    rcases hp with hp | hp
    · obtain ⟨q, hq, rfl⟩ := List.mem_map.mp hp
      exact ⟨0, q.2, rfl, descend_place g hq⟩
    · obtain ⟨i, path, hpath, hrest⟩ := descend_stagePlace rest (index + 1) hp
      exact ⟨i + 1, path, by rw [hpath, Nat.add_right_comm, Nat.add_assoc], hrest⟩

end

mutual

/-- No two places have the same numbers. -/
theorem nodup_places : ∀ g : Generator, (g.places.map Prod.snd).Nodup
  | source s | fold inner size | expand inner size offset => by simp [places]
  | chain stages => nodup_stagePlaces stages 0

theorem nodup_stagePlaces : ∀ (stages : List Generator) (index : Nat),
    ((stagePlaces stages index).map Prod.snd).Nodup
  | [], _ => List.nodup_nil
  | g :: rest, index => by
    have hfirst : ((g.places.map fun p => (p.1, index :: p.2)).map Prod.snd).Nodup := by
      rw [List.map_map]
      have := (nodup_places g).map (List.cons_injective (a := index))
      rwa [List.map_map] at this
    rw [stagePlaces, List.map_append]
    refine hfirst.append (nodup_stagePlaces rest (index + 1)) ?_
    intro path hmem hmem'
    obtain ⟨p, hp, rfl⟩ := List.mem_map.mp hmem
    obtain ⟨q, -, rfl⟩ := List.mem_map.mp hp
    obtain ⟨p', hp', hsame⟩ := List.mem_map.mp hmem'
    -- the numbers of later stages begin higher
    obtain ⟨i, path, hpath, -⟩ := descend_stagePlace rest (index + 1) hp'
    rw [hpath] at hsame
    have := (List.cons.inj hsame).1
    omega

end

/-! ## Outcomes of a chain -/

/-- **Chains.** A chain fails with the number of a stage exactly if this stage has a fault when it
is asked with the output of the one before it, and no stage before it has one; the stages behind it
are not asked. It gives an output exactly if every stage, asked once and on the output of the one
before, answers without a fault, and then it is that of the last one. Sources see just these
questions. Where a stage is a chain, its stages may stand in its place: whatever is asked, the
sources get the same calls, and the result is the same but for the numbers in an error, which name
the same stage. So all chains among the stages may be taken apart at once; what is left then is
found at the numbers that the error has before that. -/
theorem chain_passes_on (stages : List Generator) (input : Bytes) (log : Log) :
    let whole := chain stages
    (∀ err log', log.run (whole.generate input) = (.error err, log') ↔
      ∃ (xs : List Exchange) (last : Exchange) (e : Stop GenerationError),
        err = e.map (.stage xs.length) ∧ PassesOn stages input log (xs ++ [last]) log' ∧
        (∀ x ∈ xs, x.fault? = none) ∧ last.fault? = some e) ∧
    (∀ out log', log.run (whole.generate input) = (.ok out, log') ↔
      ∃ xs : List Exchange, PassesOn stages input log xs log' ∧ xs.length = stages.length ∧
        (∀ x ∈ xs, x.fault? = none) ∧ (xs.map Exchange.output).getLastD input = out) ∧
    (∀ sources : List Source, stages = sources.map source → ∃ calls : List Call,
      (log.run (whole.generate input)).2.toList = log.toList ++ calls ∧
      calls.map Call.source <+: sources.map Source.number ∧
      (∀ out, (log.run (whole.generate input)).1 = .ok out → calls.length = sources.length) ∧
      ∀ i e, (log.run (whole.generate input)).1 = .error (.failure (.stage i e)) →
        calls.length = i + 1) ∧
    (∀ before inner after : List Generator, stages = before ++ chain inner :: after →
      whole.generate input =
        ((chain (before ++ inner ++ after)).generate input).adapt
          (Stop.map (regroup before.length inner.length))) ∧
    whole.generate input =
      ((chain (whole.places.map Prod.fst)).generate input).adapt
        (Stop.map (rename whole.places)) ∧
    (∀ p ∈ whole.places, whole.descend p.2 = some p.1 ∧ ∀ stages, p.1 ≠ chain stages) ∧
    (whole.places.map Prod.snd).Nodup := by
  intro whole
  refine ⟨fun err log' => ?_, fun _ _ => run_stages_eq_ok, ?_, ?_,
    generate_chain_places stages input, fun p hp => descend_place whole hp, nodup_places whole⟩
  · have hstages := @run_stages_eq_error stages input 0 log log' err
    simp only [Nat.zero_add] at hstages
    exact hstages
  · rintro sources rfl
    exact chain_calls sources input log
  · rintro before inner after rfl
    exact generate_chain_append before inner after input

end Generator

end ColumnMask
