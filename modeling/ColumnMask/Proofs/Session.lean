import Mathlib
import ColumnMask.Proofs.Call

/-!
# Sessions

A transformer is used over and over: generators are attached, values masked, and calls made that
bring windows of their own. What is left behind by one use is the attached generator and the log,
and nothing else.

- `Action`, `Reply`: one use of a transformer, and what it gives.
- `Session`: a transformer that is in use, with the calls of its sources so far.
- `Session.step`, `Session.after`: one use, and any number of them.
- `Asked`: how often a generator is asked between two logs.
- `Session.generator_after`: the attached generator is the last one of enough bytes.
- `Session.step_law`: what each use gives and leaves behind after any others.
-/

namespace ColumnMask

/-! ## Asking -/

/-- How often a generator is asked on the way from one log to another. -/
inductive Asked (generator : Option Generator) (log : Log) : Nat → Log → Prop where
  | never : Asked generator log 0 log
  | again {count : Nat} {log' : Log} {g : Generator} (input : Bytes) :
      Asked generator log count log' → generator = some g →
        Asked generator log (count + 1) (log'.run (g.generate input)).2

/-- Every question to a source is in the log. -/
theorem Asked.length_toList {s : Source} {log log' : Log} {count : Nat}
    (h : Asked (some (.source s)) log count log') :
    log'.toList.length = log.toList.length + count := by
  induction h with
  | never => rfl
  | again input _ hg ih =>
    cases hg
    rw [Generator.generate]
    show ((_ : Log).push _).toList.length = _
    rw [Log.toList_push, List.length_append, ih, List.length_singleton, Nat.add_assoc]

namespace Transformer

/-- What a call can do: nothing if there is no plan or no generator, and otherwise it asks the
generator once with the input of the plan. -/
theorem run_call_cases (t : Transformer) (request : Request t.rule) (log : Log) :
    (∃ e, request.plan = .error e ∧ log.run (t.call request) = (.error (.failure e), log)) ∨
    (t.generator = none ∧
      log.run (t.call request) = (.error (.failure (.generation .missingGenerator)), log)) ∨
    (∃ plan g, request.plan = .ok plan ∧ t.generator = some g ∧
      (log.run (t.call request)).2 = (log.run (g.generate plan.input)).2) := by
  rcases hplan : request.plan with e | plan
  · exact .inl ⟨e, rfl, by rw [call_of_error hplan, Log.run_throw]⟩
  · -- without a generator the call fails, and otherwise the log is the one that it leaves
    obtain ⟨rule, generator, hrequired⟩ := t
    cases generator with
    | none =>
      refine .inr (.inl ⟨rfl, ?_⟩)
      rw [call_of_ok hplan]
      rfl
    | some g =>
      refine .inr (.inr ⟨plan, g, rfl, rfl, ?_⟩)
      show (log.run ((attached rule g (hrequired g rfl)).call request)).2 = _
      rw [run_call, hplan]
      dsimp only
      rcases log.run (g.generate plan.input) with ⟨e | out, log'⟩
      · rfl
      · dsimp only
        split
        · rfl
        · rfl

end Transformer

/-! ## Using a transformer -/

/-- One use of a transformer with the given rule. -/
inductive Action (rule : Rule) where
  /-- Exchanges the generator. -/
  | attach (g : Generator)
  /-- Masks a value with the windows of the rule. -/
  | transform (v : Value)
  /-- Masks with what the request brings along. -/
  | call (request : Request rule)

/-- What one use gives. -/
inductive Reply where
  | attached (result : Except InsufficientSize Unit)
  | masked (result : Except (Stop TransformError) Value)

/-- A transformer in use. -/
structure Session (rule : Rule) where
  transformer : Transformer
  rule_eq : transformer.rule = rule
  log : Log

theorem Transformer.rule_of_attach? {t t' : Transformer} {g : Generator}
    (h : t.attach? g = .ok t') : t'.rule = t.rule := by
  unfold attach? at h
  split at h
  · rw [← Except.ok.inj h]
  · contradiction

namespace Session

variable {rule : Rule}

/-- Runs a computation that masks. Only the log is different afterwards. -/
def mask (s : Session rule) (x : Masking Value) : Reply × Session rule :=
  (.masked (s.log.run x).1, { s with log := (s.log.run x).2 })

/-- A request as one to the transformer of the session. -/
def request (s : Session rule) (request : Request rule) : Request s.transformer.rule :=
  s.rule_eq.symm ▸ request

/-- One use. A generator that is refused leaves the session as it is. -/
def step (s : Session rule) : Action rule → Reply × Session rule
  | .attach g =>
    match h : s.transformer.attach? g with
    | .ok t =>
      (.attached (.ok ()), ⟨t, (Transformer.rule_of_attach? h).trans s.rule_eq, s.log⟩)
    | .error e => (.attached (.error e), s)
  | .transform v => s.mask (s.transformer.transform v)
  | .call request => s.mask (s.transformer.call (s.request request))

/-- The session after any number of uses. -/
def after (s : Session rule) (actions : List (Action rule)) : Session rule :=
  actions.foldl (fun s a => (s.step a).2) s

theorem after_append_singleton (s : Session rule) (actions : List (Action rule))
    (a : Action rule) : s.after (actions ++ [a]) = ((s.after actions).step a).2 := by
  simp [after]

/-! ### Attaching -/

/-- A generator of enough bytes takes the place of the one before. -/
theorem step_attach (s : Session rule) {g : Generator} (h : rule.required ≤ g.size) :
    (s.step (.attach g)).1 = .attached (.ok ()) ∧
      (s.step (.attach g)).2.transformer.generator = some g ∧
      (s.step (.attach g)).2.log = s.log := by
  obtain ⟨⟨_, generator, hrequired⟩, rfl, log⟩ := s
  have hattach : Transformer.attach? ⟨_, generator, hrequired⟩ g = .ok (.attached _ g h) :=
    dif_pos h
  simp only [step]
  split
  · rename_i t ht
    obtain rfl := Except.ok.inj (hattach.symm.trans ht)
    exact ⟨rfl, rfl, rfl⟩
  · rename_i e he
    rw [hattach] at he
    contradiction

/-- A generator of too few bytes changes nothing. -/
theorem step_attach_of_lt (s : Session rule) {g : Generator} (h : g.size < rule.required) :
    s.step (.attach g) =
      (.attached (.error { required := rule.required, available := g.size }), s) := by
  obtain ⟨⟨_, generator, hrequired⟩, rfl, log⟩ := s
  have hattach : Transformer.attach? ⟨_, generator, hrequired⟩ g =
      .error { required := Rule.required _, available := g.size } := dif_neg (Nat.not_le.mpr h)
  simp only [step]
  split
  · rename_i t ht
    rw [hattach] at ht
    contradiction
  · rename_i e he
    obtain rfl := Except.error.inj (hattach.symm.trans he)
    rfl

/-! ### Masking -/

/-- A value that the rule refuses changes nothing. -/
theorem step_transform_of_refuses (s : Session rule) {v : Value} {e : DecodeError}
    (h : rule.Refuses v e) :
    s.step (.transform v) = (.masked (.error (.failure (.decode e))), s) := by
  obtain ⟨t, rfl, log⟩ := s
  rw [step, Transformer.transform_of_error (Rule.request?_eq_error_iff.mpr h)]
  rfl

/-- A call that brings along what cannot be served changes nothing. -/
theorem step_call_of_unservable (s : Session rule) {request : Request rule} {e : TransformError}
    (h : request.Unservable e) :
    s.step (.call request) = (.masked (.error (.failure e)), s) := by
  obtain ⟨t, rfl, log⟩ := s
  have hcall : t.call request = throw (.failure e) := Transformer.call_of_error h.plan_eq
  show mask _ (t.call request) = _
  rw [hcall]
  rfl

/-- A computation that masks asks the generator at most once, and just once if it gives a value. -/
def AsksOnce (generator : Option Generator) (x : Masking Value) : Prop :=
  ∀ log : Log, (∃ count ≤ 1, Asked generator log count (log.run x).2) ∧
    ∀ v, (log.run x).1 = .ok v → Asked generator log 1 (log.run x).2

theorem asksOnce_throw (generator : Option Generator) (e : Stop TransformError) :
    AsksOnce generator (throw e) := by
  intro log
  refine ⟨⟨0, by decide, .never⟩, fun v hv => ?_⟩
  contradiction

theorem asksOnce_call (t : Transformer) (request : Request t.rule) :
    AsksOnce t.generator (t.call request) := by
  intro log
  rcases t.run_call_cases request log with ⟨e, -, hrun⟩ | ⟨-, hrun⟩ | ⟨plan, g, -, hg, hlog⟩
  · rw [hrun]
    refine ⟨⟨0, by decide, .never⟩, fun v hv => ?_⟩
    contradiction
  · rw [hrun]
    refine ⟨⟨0, by decide, .never⟩, fun v hv => ?_⟩
    contradiction
  · have hasked : Asked t.generator log 1 (log.run (t.call request)).2 := by
      rw [hlog]
      exact .again plan.input .never hg
    exact ⟨⟨1, le_rfl, hasked⟩, fun v _ => hasked⟩

theorem asksOnce_transform (t : Transformer) (v : Value) :
    AsksOnce t.generator (t.transform v) := by
  rcases hrequest : t.rule.request? v with e | request
  · rw [Transformer.transform_of_error hrequest]
    exact asksOnce_throw _ _
  · rw [Transformer.transform_of_ok hrequest]
    exact asksOnce_call t request

/-- Whatever is masked, the transformer stays and its generator is asked at most once. -/
theorem step_masked (s : Session rule) {a : Action rule}
    {result : Except (Stop TransformError) Value} (h : (s.step a).1 = .masked result) :
    (s.step a).2.transformer = s.transformer ∧
      (∃ count ≤ 1, Asked s.transformer.generator s.log count (s.step a).2.log) ∧
      ∀ v, result = .ok v → Asked s.transformer.generator s.log 1 (s.step a).2.log := by
  cases a with
  -- attaching masks nothing
  | attach g =>
    by_cases hle : rule.required ≤ g.size
    · rw [(s.step_attach hle).1] at h
      contradiction
    · rw [s.step_attach_of_lt (Nat.not_le.mp hle)] at h
      contradiction
  | transform v =>
    obtain ⟨honce, hok⟩ := asksOnce_transform s.transformer v s.log
    exact ⟨rfl, honce, fun out hout => hok out ((Reply.masked.inj h).trans hout)⟩
  | call request =>
    obtain ⟨honce, hok⟩ := asksOnce_call s.transformer (s.request request) s.log
    exact ⟨rfl, honce, fun out hout => hok out ((Reply.masked.inj h).trans hout)⟩

/-! ### The attached generator -/

/-- The generators that were accepted, the last one last. -/
def accepted (actions : List (Action rule)) : List Generator :=
  actions.filterMap fun
    | .attach g => if rule.required ≤ g.size then some g else none
    | _ => none

/-- One use replaces the generator just if it attaches one of enough bytes. -/
theorem generator_step (s : Session rule) (a : Action rule) :
    (s.step a).2.transformer.generator =
      (accepted [a]).getLast?.or s.transformer.generator := by
  cases a with
  | attach g =>
    by_cases hle : rule.required ≤ g.size
    · simp [(s.step_attach hle).2.1, accepted, hle]
    · simp [s.step_attach_of_lt (Nat.not_le.mp hle), accepted, hle]
  | transform v => rfl
  | call request => rfl

/-- **The attached generator** is the last one of enough bytes. -/
theorem generator_after (s : Session rule) (actions : List (Action rule)) :
    (s.after actions).transformer.generator =
      (accepted actions).getLast?.or s.transformer.generator := by
  -- on the uses from the last one backwards, since the last generator counts
  induction actions using List.reverseRecOn with
  | nil => rfl
  | append_singleton actions a ih =>
    rw [after_append_singleton, generator_step, ih, accepted, accepted, accepted,
      List.filterMap_append, List.getLast?_append, Option.or_assoc]

/-! ### Any use after any others -/

/-- **Sessions.** After any uses the rule is the one from the beginning, and the attached generator
is the last one of enough bytes. An exchange replaces it or, for too few bytes, changes nothing. A
value that the rule refuses and a call that brings along what cannot be served change nothing. All
else that is masked leaves the transformer alone and asks the generator at most once, and just once
if a value comes out; the log of a source then has one call more. -/
theorem step_law (start : Session rule) (actions : List (Action rule)) :
    let s := start.after actions
    let generator := (accepted actions).getLast?.or start.transformer.generator
    s.transformer.rule = start.transformer.rule ∧ s.transformer.generator = generator ∧
    (∀ g : Generator, rule.required ≤ g.size →
      (s.step (.attach g)).1 = .attached (.ok ()) ∧
      (s.step (.attach g)).2.transformer.generator = some g ∧
      (s.step (.attach g)).2.log = s.log) ∧
    (∀ g : Generator, g.size < rule.required →
      s.step (.attach g) =
        (.attached (.error { required := rule.required, available := g.size }), s)) ∧
    (∀ v e, rule.Refuses v e →
      s.step (.transform v) = (.masked (.error (.failure (.decode e))), s)) ∧
    (∀ (request : Request rule) e, request.Unservable e →
      s.step (.call request) = (.masked (.error (.failure e)), s)) ∧
    ∀ a result, (s.step a).1 = .masked result →
      (s.step a).2.transformer = s.transformer ∧
      (∃ count ≤ 1, Asked generator s.log count (s.step a).2.log) ∧
      ∀ v, result = .ok v → Asked generator s.log 1 (s.step a).2.log ∧
        ∀ source, generator = some (.source source) →
          (s.step a).2.log.toList.length = s.log.toList.length + 1 := by
  intro s generator
  have hgenerator : s.transformer.generator = generator := start.generator_after actions
  refine ⟨s.rule_eq.trans start.rule_eq.symm, hgenerator, fun g => s.step_attach,
    fun g => s.step_attach_of_lt, fun v e => s.step_transform_of_refuses,
    fun request e => s.step_call_of_unservable, fun a result hresult => ?_⟩
  obtain ⟨hkept, honce, hok⟩ := s.step_masked hresult
  rw [hgenerator] at honce hok
  refine ⟨hkept, honce, fun v hv => ⟨hok v hv, fun source hsource => ?_⟩⟩
  have hasked := hok v hv
  rw [hsource] at hasked
  exact hasked.length_toList

end Session

end ColumnMask
