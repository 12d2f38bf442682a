import Mathlib
import ColumnMask.Transformer

/-!
# Calls and refusals

What a call gives, and what is refused before anything is drawn.
-/

namespace ColumnMask

/-!
## Laws of calls

A call makes its plan, asks the generator at most once and reads the bytes that it needs. What it
gives depends on the answer of the generator only.

- `Log.run`: what a computation gives after some calls, with the calls made by then.
- `Transformer.run_call`: a call step by step, with all that can fail.
- `Request.outcome`: what a call gives for a block of exactly the needed bytes.
- `Request.Gives`: what a call gives for the block, whichever generator answers with it; by
  `Request.gives_iff` this is the outcome.
- `Request.results`: what a call can give at all, whatever the generator answers;
  `Request.results_eq` says that this is the outcome of every block.
-/

/-! ### Running -/

namespace Log

variable {ε ε' α β : Type} (log : Log)

/-- What a computation gives after some calls, with the calls made by then. -/
def run (x : ExceptT ε (StateM Log) α) : Except ε α × Log :=
  (x.run.run log).run

@[simp] theorem run_pure (a : α) : log.run (pure a : ExceptT ε (StateM Log) α) = (.ok a, log) := rfl

@[simp] theorem run_throw (e : ε) :
    log.run (throw e : ExceptT ε (StateM Log) α) = (.error e, log) := rfl

/-- A failure keeps the calls made by then, and nothing is done after it. -/
theorem run_bind (x : ExceptT ε (StateM Log) α) (f : α → ExceptT ε (StateM Log) β) :
    log.run (x >>= f) =
      match log.run x with
      | (.error e, log) => (.error e, log)
      | (.ok a, log) => log.run (f a) := by
  simp only [run, ExceptT.run_bind, StateT.run_bind, Id.run_bind]
  rcases (x.run.run log).run with ⟨e | a, log'⟩
  · rfl
  · rfl

/-- Something comes out if both parts give something. -/
theorem run_bind_eq_ok {log log' : Log} {x : ExceptT ε (StateM Log) α}
    {f : α → ExceptT ε (StateM Log) β} {b : β} :
    log.run (x >>= f) = (.ok b, log') ↔
      ∃ a middle, log.run x = (.ok a, middle) ∧ middle.run (f a) = (.ok b, log') := by
  rw [run_bind]
  rcases log.run x with ⟨e | a, middle⟩
  · simp
  · simp

/-- A failure comes from the first part, or from the second one after the first gave something. -/
theorem run_bind_eq_error {log log' : Log} {x : ExceptT ε (StateM Log) α}
    {f : α → ExceptT ε (StateM Log) β} {e : ε} :
    log.run (x >>= f) = (.error e, log') ↔
      log.run x = (.error e, log') ∨
        ∃ a middle, log.run x = (.ok a, middle) ∧ middle.run (f a) = (.error e, log') := by
  rw [run_bind]
  rcases log.run x with ⟨e' | a, middle⟩
  · simp
  · simp

theorem run_adapt (x : ExceptT ε (StateM Log) α) (f : ε → ε') :
    log.run (x.adapt f) = ((log.run x).1.mapError f, (log.run x).2) := rfl

theorem run_adapt_eq_ok {log log' : Log} {x : ExceptT ε (StateM Log) α} {f : ε → ε'} {a : α} :
    log.run (x.adapt f) = (.ok a, log') ↔ log.run x = (.ok a, log') := by
  rw [run_adapt]
  rcases log.run x with ⟨e | a', middle⟩
  · simp [Except.mapError]
  · simp [Except.mapError]

theorem run_adapt_eq_error {log log' : Log} {x : ExceptT ε (StateM Log) α} {f : ε → ε'} {e' : ε'} :
    log.run (x.adapt f) = (.error e', log') ↔ ∃ e, log.run x = (.error e, log') ∧ f e = e' := by
  rw [run_adapt]
  rcases log.run x with ⟨e | a', middle⟩
  · simp [Except.mapError, and_comm]
  · simp [Except.mapError]

/-- A computation is what it gives after any calls. -/
theorem run_ext {x y : ExceptT ε (StateM Log) α} (h : ∀ log : Log, log.run x = log.run y) : x = y :=
  funext h

/-- Errors are changed wherever they come from. -/
theorem adapt_bind (x : ExceptT ε (StateM Log) α) (f : α → ExceptT ε (StateM Log) β)
    (h : ε → ε') : (x >>= f).adapt h = x.adapt h >>= fun a => (f a).adapt h := by
  refine run_ext fun log => ?_
  rw [run_adapt, run_bind, run_bind, run_adapt]
  rcases log.run x with ⟨e | a, middle⟩
  · rfl
  · rfl

theorem adapt_id (x : ExceptT ε (StateM Log) α) : x.adapt id = x := by
  refine run_ext fun log => ?_
  rw [run_adapt]
  rcases log.run x with ⟨e | a, middle⟩
  · rfl
  · rfl

theorem adapt_adapt {ε'' : Type} (x : ExceptT ε (StateM Log) α) (f : ε → ε') (h : ε' → ε'') :
    (x.adapt f).adapt h = x.adapt (h ∘ f) := by
  refine run_ext fun log => ?_
  rw [run_adapt, run_adapt, run_adapt]
  rcases log.run x with ⟨e | a, middle⟩
  · rfl
  · rfl

@[simp] theorem adapt_pure (a : α) (h : ε → ε') :
    (pure a : ExceptT ε (StateM Log) α).adapt h = pure a := rfl

end Log

/-! ### A call -/

/-- Asking a generator gives as many bytes of its answer as are needed, if these are there. -/
theorem run_drawBlock (g : Generator) (required : Nat) (input : Bytes) (log : Log) :
    log.run (drawBlock (some g) required input) =
      match log.run (g.generate input) with
      | (.error e, log) => (.error e, log)
      | (.ok out, log) =>
        if out.length < required then (.error (.failure (.shortOutput required out.length)), log)
        else (.ok (out.take required), log) := by
  simp only [drawBlock, Log.run_bind, Draw.ensureLength]
  rcases log.run (g.generate input) with ⟨e | out, log'⟩
  · rfl
  · by_cases h : out.length < required
    · simp [h]
    · simp [h]

namespace Transformer

/-- The transformer of a rule that is served by a generator of enough bytes. -/
def attached (rule : Rule) (g : Generator) (h : rule.required ≤ g.size) : Transformer :=
  ⟨rule, some g, by simpa using h⟩

theorem attach?_ofRule {rule : Rule} {g : Generator} (h : rule.required ≤ g.size) :
    (ofRule rule).attach? g = .ok (attached rule g h) := dif_pos h

theorem call_of_error {t : Transformer} {request : Request t.rule} {e : TransformError}
    (h : request.plan = .error e) : t.call request = throw (.failure e) := by
  unfold call
  rw [h]

theorem call_of_ok {t : Transformer} {request : Request t.rule} {plan : Plan}
    (h : request.plan = .ok plan) : t.call request = plan.run t.generator t.rule.required := by
  unfold call
  rw [h]

theorem transform_of_error {t : Transformer} {v : Value} {e : DecodeError}
    (h : t.rule.request? v = .error e) : t.transform v = throw (.failure (.decode e)) := by
  unfold transform
  rw [h]

theorem transform_of_ok {t : Transformer} {v : Value} {request : Request t.rule}
    (h : t.rule.request? v = .ok request) : t.transform v = t.call request := by
  unfold transform
  rw [h]

/-- A call step by step: a request without a plan asks nothing, and what is read after the answer
of the generator leaves the log alone. -/
theorem run_call {rule : Rule} (g : Generator) (h : rule.required ≤ g.size)
    (request : Request rule) (log : Log) :
    log.run ((attached rule g h).call request) =
      match request.plan with
      | .error e => (.error (.failure e), log)
      | .ok plan =>
        match log.run (g.generate plan.input) with
        | (.error e, log) => (.error (e.map .generation), log)
        | (.ok out, log) =>
          if out.length < rule.required then
            (.error (.failure (.generation (.shortOutput rule.required out.length))), log)
          else (plan.read (out.take rule.required), log) := by
  rcases hplan : request.plan with e | plan
  · rw [call_of_error (t := attached rule g h) hplan]
    rfl
  · rw [call_of_ok (t := attached rule g h) hplan]
    show log.run (plan.run (some g) rule.required) = _
    simp only [Plan.run, Log.run_bind, Log.run_adapt, run_drawBlock]
    -- the generator fails, or answers with too few bytes, or with enough
    rcases log.run (g.generate plan.input) with ⟨e | out, log'⟩
    · rfl
    · by_cases hshort : out.length < rule.required
      · simp [hshort, Except.mapError]
      · simp only [if_neg hshort, Except.mapError]
        rcases plan.read (out.take rule.required) with e | v
        · rfl
        · rfl

end Transformer

/-! ### What a call can give -/

namespace Request

variable {rule : Rule}

/-- What a call gives for a block of exactly the needed bytes. -/
def outcome (request : Request rule) (block : Bytes) : Except (Stop TransformError) Value :=
  (request.plan.mapError .failure).bind fun plan => plan.read block

/-- Whether a generator answers the question of a call with the given bytes, after some calls. -/
def Answers (request : Request rule) (g : Generator) (log : Log) (block : Bytes) : Prop :=
  ∀ plan, request.plan = .ok plan → (log.run (g.generate plan.input)).1 = .ok block

/-- What a call gives as the attached generator ranges over all that answer with exactly as many
bytes as the rule takes. -/
def results (request : Request rule) : Set (Except (Stop TransformError) Value) :=
  {result | ∃ (g : Generator) (h : rule.required ≤ g.size) (log : Log) (block : Bytes),
    block.length = rule.required ∧ request.Answers g log block ∧
      (log.run ((Transformer.attached rule g h).call request)).1 = result}

/-- The result of a call depends on the answer of the generator only. -/
theorem run_call_of_answers {request : Request rule} {g : Generator} {log : Log} {block : Bytes}
    (h : rule.required ≤ g.size) (hlength : rule.required ≤ block.length)
    (hanswers : request.Answers g log block) :
    (log.run ((Transformer.attached rule g h).call request)).1 =
      request.outcome (block.take rule.required) := by
  rw [Transformer.run_call, outcome]
  rcases hplan : request.plan with e | plan
  · rfl
  · have hanswer := hanswers plan hplan
    rcases hrun : log.run (g.generate plan.input) with ⟨answer, log'⟩
    rw [hrun] at hanswer
    obtain rfl : answer = .ok block := hanswer
    simp only [hrun, if_neg (Nat.not_lt.mpr hlength)]
    rfl

/-- Whatever generator answers with the block, the call gives the result. -/
def Gives (request : Request rule) (block : Bytes) (result : Except (Stop TransformError) Value) :
    Prop :=
  ∀ (g : Generator) (h : rule.required ≤ g.size) (log : Log), request.Answers g log block →
    (log.run ((Transformer.attached rule g h).call request)).1 = result

theorem gives_outcome (request : Request rule) {block : Bytes}
    (hlength : block.length = rule.required) : request.Gives block (request.outcome block) := by
  intro g h log hanswers
  rw [run_call_of_answers h hlength.ge hanswers, ← hlength, List.take_length]

/-- For every block there is a generator that answers with it, whatever it is asked. -/
theorem answers_scripted (request : Request rule) (block : Bytes) (number size : Nat) (log : Log) :
    request.Answers (.source (.scripted number size [block])) log block := by
  intro plan _
  show (Source.scripted number size [block]).respond log plan.input = .ok block
  simp [Source.scripted, Nat.mod_one]

/-- Since some generator answers with the block, a call gives the outcome for it and no other
result. -/
theorem gives_iff (request : Request rule) {block : Bytes}
    {result : Except (Stop TransformError) Value} (hlength : block.length = rule.required) :
    request.Gives block result ↔ request.outcome block = result := by
  constructor
  · intro hgives
    have hanswers := answers_scripted request block 0 rule.required .empty
    rw [← hgives _ (le_refl _) .empty hanswers]
    exact (request.gives_outcome hlength _ _ _ hanswers).symm
  · rintro rfl
    exact request.gives_outcome hlength

/-- **What a call can give** is the outcome of every block of the needed length. -/
theorem results_eq (request : Request rule) :
    request.results = request.outcome '' {block | block.length = rule.required} := by
  ext result
  constructor
  · rintro ⟨g, h, log, block, hlength, hanswers, rfl⟩
    exact ⟨block, hlength, (request.gives_outcome hlength g h log hanswers).symm⟩
  · rintro ⟨block, hlength, rfl⟩
    have hanswers := answers_scripted request block 0 rule.required .empty
    exact ⟨_, le_refl _, .empty, block, hlength, hanswers,
      request.gives_outcome hlength _ _ _ hanswers⟩

end Request

/-!
## What is refused before the generator is asked

A value can be refused because the rule cannot take it, and a call because of what it brings along.
Both are said here without looking at how a request and its plan are made.

- `Value.Mismatch`: a value that is not one of the wanted kind, with the error that says so.
- `Rule.Refuses`, `Rule.request?_eq_error_iff`: the values that a rule refuses.
- `Request.Unservable`, `Request.plan_eq_error_iff`: the windows and subnets for a single call that
  cannot be served. A value that is not refused never comes with one.
-/

/-! ### Values of the wrong kind -/

namespace ValueKind

/-- Whether a value of one kind can be taken for one of another without being read as a text. -/
def Serves (got wanted : ValueKind) : Prop :=
  got = wanted ∨ (got = .integer ∧ (wanted = .float ∨ wanted = .decimal))

/-- Whether a text spells a value of a kind, blanks around it apart. Only the kinds that a rule can
want are read from texts. -/
def Spelled (s : String) : (wanted : ValueKind) → Prop
  | .integer => (Text.int64? (Text.trim s)).isSome
  | .float => (Binary64.parse? (Text.trim s)).isSome
  | .decimal => (Decimal.parse? (Text.trim s)).isSome
  | .timestamp => (Instant.parse? (Text.trim s)).isSome
  | .mac => (MacAddress.parse? (Text.trim s)).isSome
  | _ => False

/-- The error for a text that does not spell a value of a kind. -/
def misspelled (s : String) : (wanted : ValueKind) → DecodeError
  | .mac => .invalidMac (Text.trim s)
  | wanted => .parse wanted s

end ValueKind

namespace Value

/-- A value that cannot be taken for one of the wanted kind. -/
inductive Mismatch (wanted : ValueKind) : Value → DecodeError → Prop where
  | kind {v : Value} (htext : v.kind ≠ .text) (hkind : ¬ v.kind.Serves wanted) :
      Mismatch wanted v (.unexpectedValue wanted v.kind)
  | text {s : String} (hspelled : ¬ wanted.Spelled s) :
      Mismatch wanted (.text s) (wanted.misspelled s)

section

variable {wanted : ValueKind} {e : DecodeError}

theorem mismatch_text_iff {s : String} :
    Mismatch wanted (.text s) e ↔ ¬ wanted.Spelled s ∧ e = wanted.misspelled s := by
  constructor
  · intro h
    cases h with
    | kind htext _ => exact absurd rfl htext
    | text hspelled => exact ⟨hspelled, rfl⟩
  · rintro ⟨hspelled, rfl⟩
    exact .text hspelled

theorem mismatch_iff {v : Value} (htext : v.kind ≠ .text) :
    Mismatch wanted v e ↔ ¬ v.kind.Serves wanted ∧ e = .unexpectedValue wanted v.kind := by
  constructor
  · intro h
    cases h with
    | kind _ hkind => exact ⟨hkind, rfl⟩
    | text _ => exact absurd rfl htext
  · rintro ⟨hkind, rfl⟩
    exact .kind htext hkind

/-- Reading a text fails just if the text spells no value. -/
theorem parseText_eq_error_iff {α : Type} {parse? : String → Option α} {s : String} :
    parseText wanted parse? s = .error e ↔
      ¬ (parse? (Text.trim s)).isSome ∧ e = .parse wanted s := by
  rw [parseText]
  cases parse? (Text.trim s) with
  | none => simp [eq_comm]
  | some v => simp

end

section

variable {v : Value} {e : DecodeError}

/-- Values of a kind are told apart by their own kind, and texts by what they spell. -/
theorem eq_error_iff_mismatch {α : Type} {wanted : ValueKind} {read : Value → Except DecodeError α}
    (htext : ∀ s, read (.text s) = .error e ↔ ¬ wanted.Spelled s ∧ e = wanted.misspelled s)
    (hkind : ∀ v : Value, v.kind ≠ .text →
      (read v = .error e ↔ ¬ v.kind.Serves wanted ∧ e = .unexpectedValue wanted v.kind)) :
    read v = .error e ↔ v.Mismatch wanted e := by
  by_cases h : v.kind = .text
  · cases v with
    | text s => rw [mismatch_text_iff, htext]
    | _ => exact absurd h (by simp [kind])
  · rw [mismatch_iff h, hkind v h]

theorem integer?_eq_error_iff : v.integer? = .error e ↔ v.Mismatch .integer e := by
  refine eq_error_iff_mismatch (fun s => ?_) fun v hv => ?_
  · simp only [integer?, parseText_eq_error_iff, ValueKind.Spelled, ValueKind.misspelled]
  · cases v with
    | text s => exact absurd rfl hv
    | _ => simp [integer?, kind, ValueKind.Serves, eq_comm]

theorem float?_eq_error_iff : v.float? = .error e ↔ v.Mismatch .float e := by
  refine eq_error_iff_mismatch (fun s => ?_) fun v hv => ?_
  · simp only [float?, parseText_eq_error_iff, ValueKind.Spelled, ValueKind.misspelled]
  · cases v with
    | text s => exact absurd rfl hv
    | _ => simp [float?, kind, ValueKind.Serves, eq_comm]

theorem decimal?_eq_error_iff : v.decimal? = .error e ↔ v.Mismatch .decimal e := by
  refine eq_error_iff_mismatch (fun s => ?_) fun v hv => ?_
  · simp only [decimal?, parseText_eq_error_iff, ValueKind.Spelled, ValueKind.misspelled]
  · cases v with
    | text s => exact absurd rfl hv
    | _ => simp [decimal?, kind, ValueKind.Serves, eq_comm]

theorem timestamp?_eq_error_iff : v.timestamp? = .error e ↔ v.Mismatch .timestamp e := by
  refine eq_error_iff_mismatch (fun s => ?_) fun v hv => ?_
  · simp only [timestamp?, parseText_eq_error_iff, ValueKind.Spelled, ValueKind.misspelled]
  · cases v with
    | text s => exact absurd rfl hv
    | _ => simp [timestamp?, kind, ValueKind.Serves, eq_comm]

theorem mac?_eq_error_iff : v.mac? = .error e ↔ v.Mismatch .mac e := by
  refine eq_error_iff_mismatch (fun s => ?_) fun v hv => ?_
  · simp only [mac?, MacAddress.parse, ValueKind.Spelled, ValueKind.misspelled]
    cases MacAddress.parse? (Text.trim s) with
    | none => simp [eq_comm]
    | some a => simp
  · cases v with
    | text s => exact absurd rfl hv
    | _ => simp [mac?, kind, ValueKind.Serves, eq_comm]

end

end Value

namespace Rule

/-- The kind of value that a rule needs. Most rules take any value by its text. -/
def wanted? : Rule → Option ValueKind
  | noiseInteger _ => some .integer
  | noiseFloat _ => some .float
  | noiseDecimal _ => some .decimal
  | noiseTime _ => some .timestamp
  | randomMac r => if r.keepVendor then some .mac else none
  | _ => none

/-- Whether a rule needs a value of some kind that the given value is not. -/
def Refuses (rule : Rule) (v : Value) (e : DecodeError) : Prop :=
  ∃ wanted, rule.wanted? = some wanted ∧ v.Mismatch wanted e

theorem map_eq_error_iff {α β : Type} {x : Except DecodeError α} {f : α → β} {e : DecodeError} :
    x.map f = .error e ↔ x = .error e := by
  cases x with
  | error e' => simp [Except.map]
  | ok a => simp [Except.map]

/-- **A rule refuses** the values that it has no request for. -/
theorem request?_eq_error_iff {rule : Rule} {v : Value} {e : DecodeError} :
    rule.request? v = .error e ↔ rule.Refuses v e := by
  cases rule with
  | noiseInteger noise =>
    simp [request?, Refuses, wanted?, map_eq_error_iff, Value.integer?_eq_error_iff]
  | noiseFloat noise =>
    simp [request?, Refuses, wanted?, map_eq_error_iff, Value.float?_eq_error_iff]
  | noiseDecimal noise =>
    simp [request?, Refuses, wanted?, map_eq_error_iff, Value.decimal?_eq_error_iff]
  | noiseTime noise =>
    simp [request?, Refuses, wanted?, map_eq_error_iff, Value.timestamp?_eq_error_iff]
  -- an address is decoded only where its vendor is to be kept
  | randomMac r =>
    by_cases hkeep : r.keepVendor
    · simp [request?, Refuses, wanted?, hkeep, map_eq_error_iff, Value.mac?_eq_error_iff]
    · simp [request?, Refuses, wanted?, hkeep]
  | _ => simp [request?, Refuses, wanted?]

end Rule

/-! ### Windows and subnets for a single call -/

namespace Request

/-- A window for this call that needs more bytes than the rule draws, or a subnet for this call
without a usable address. -/
inductive Unservable : {rule : Rule} → Request rule → TransformError → Prop where
  | decimal {r : RandomDecimal} {input : Bytes} {w : DecimalWindow}
      (h : r.required < w.byteLength r.precision) :
      Unservable (.randomDecimal (r := r) input (some w))
        (.capacity { required := w.byteLength r.precision, available := r.required })
  | bigInteger {r : RandomBigInteger} {input : Bytes} {w : Window Int}
      (h : r.required < w.byteLength) :
      Unservable (.randomBigInteger (r := r) input (some w))
        (.capacity { required := w.byteLength, available := r.required })
  | address {r : RandomAddress} {input : Bytes} {subnet : Subnet} (h : subnet.hostBits ≤ 1) :
      Unservable (.randomAddress (r := r) input (some subnet))
        (.decode (.runtimeSubnet (.subnetTooSmall subnet.text)))

theorem checkCapacity_cases (required available : Nat) :
    (available < required ∧ checkCapacity required available = .error { required, available }) ∨
      (¬ available < required ∧ checkCapacity required available = .ok ()) := by
  by_cases h : available < required
  · exact .inl ⟨h, if_pos h⟩
  · exact .inr ⟨h, if_neg h⟩

section

variable {rule : Rule} {request : Request rule} {e : TransformError}

/-- What a call brings along is checked when its plan is made. -/
theorem Unservable.plan_eq (h : request.Unservable e) : request.plan = .error e := by
  cases h with
  | decimal h => simp [plan, RandomDecimal.plan, checkCapacity, h]
  | bigInteger h => simp [plan, RandomBigInteger.plan, checkCapacity, h]
  | address h => simp [plan, RandomAddress.plan, Subnet.usableHosts, h]

/-- Nothing else keeps a plan from being made. -/
theorem unservable_of_plan_eq (h : request.plan = .error e) : request.Unservable e := by
  cases request with
  | @randomDecimal r input window =>
    -- the window of the rule itself has been checked against its bytes
    cases window with
    | none => cases h
    | some w =>
      rcases checkCapacity_cases (w.byteLength r.precision) r.required with
        ⟨hlt, hcheck⟩ | ⟨-, hcheck⟩
      · simp only [plan, RandomDecimal.plan, hcheck, Except.error.injEq] at h
        exact h ▸ .decimal hlt
      · simp [plan, RandomDecimal.plan, hcheck] at h
  | @randomBigInteger r input window =>
    cases window with
    | none => cases h
    | some w =>
      rcases checkCapacity_cases w.byteLength r.required with ⟨hlt, hcheck⟩ | ⟨-, hcheck⟩
      · simp only [plan, RandomBigInteger.plan, hcheck, Except.error.injEq] at h
        exact h ▸ .bigInteger hlt
      · simp [plan, RandomBigInteger.plan, hcheck] at h
  | @randomAddress r input subnet =>
    cases subnet with
    | none =>
      -- the subnet of the rule itself always has a usable address
      have husable := r.usable
      simp [plan, RandomAddress.plan, Subnet.usableHosts, Nat.not_le.mpr husable] at h
    | some subnet =>
      by_cases hle : subnet.hostBits ≤ 1
      · simp only [plan, RandomAddress.plan, Subnet.usableHosts, Option.getD_some, if_pos hle,
          Except.error.injEq] at h
        exact h ▸ .address hle
      · simp [plan, RandomAddress.plan, Subnet.usableHosts, hle] at h
  | _ => cases h

/-- **A call has no plan** just if it brings along what cannot be served. -/
theorem plan_eq_error_iff : request.plan = .error e ↔ request.Unservable e :=
  ⟨unservable_of_plan_eq, Unservable.plan_eq⟩

end

end Request

end ColumnMask
