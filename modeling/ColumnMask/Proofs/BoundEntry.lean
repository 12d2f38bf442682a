import Mathlib
import ColumnMask.Config
import ColumnMask.Proofs.Saved

/-!
# One bound of a configuration

A configuration is read entry by entry. What is given for a bound decides the bound and nothing
else, and nothing else decides it.

- `BoundSide`: the lower and the upper bound, with their keys.
- `Fields.lookup?_other`, `Fields.lookup?_self_cases`: one entry among others.
- `RuleOptions.ofFields?_entry`, `Config.ofFields?_entry`: the options and the configuration of
  fields, as they depend on the entry of a bound.
- `Config.ofNode?`, `Config.ofNode?_boundNode`: the same for the mapping that is read.
-/

namespace ColumnMask

/-- The lower or the upper bound. -/
inductive BoundSide where
  | lower
  | upper
  deriving DecidableEq

namespace BoundSide

/-- The key of the bound. -/
def key : BoundSide → String
  | lower => "min"
  | upper => "max"

end BoundSide

/-! ## Bounds of options -/

namespace Bounds

variable {α ω : Type}

/-- One of the bounds. -/
def get (b : Bounds α ω) : BoundSide → Option α
  | .lower => b.min
  | .upper => b.max

/-- The bounds with another one on a side. -/
def set (b : Bounds α ω) (side : BoundSide) (a : α) : Bounds α ω :=
  match side with
  | .lower => { b with min := some a }
  | .upper => { b with max := some a }

@[simp] theorem get_set (b : Bounds α ω) (side : BoundSide) (a : α) :
    (b.set side a).get side = some a := by
  cases side <;> rfl

@[simp] theorem set_set (b : Bounds α ω) (side : BoundSide) (a a' : α) :
    (b.set side a).set side a' = b.set side a' := by
  cases side <;> rfl

end Bounds

/-- The rules with decimal bounds. -/
def RuleKind.HasDecimalBounds (kind : RuleKind) : Prop :=
  kind = .noiseDecimal ∨ kind = .randomDecimal ∨ kind = .randomBigInteger

namespace RuleOptions

/-- A bound of a rule with decimal bounds. -/
def bound? (side : BoundSide) : RuleOptions → Option Decimal
  | noiseDecimal _ _ b _ => b.get side
  | randomDecimal b _ => b.get side
  | randomBigInteger b => b.get side
  | _ => none

/-- Options of such a rule with another bound on a side. -/
def setBound (side : BoundSide) (d : Decimal) : RuleOptions → RuleOptions
  | noiseDecimal minRatio maxRatio b precision =>
    noiseDecimal minRatio maxRatio (b.set side d) precision
  | randomDecimal b precision => randomDecimal (b.set side d) precision
  | randomBigInteger b => randomBigInteger (b.set side d)
  | options => options

@[simp] theorem setBound_setBound (side : BoundSide) (d d' : Decimal) (o : RuleOptions) :
    (o.setBound side d).setBound side d' = o.setBound side d' := by
  cases o <;> simp [setBound]

@[simp] theorem kind_setBound (side : BoundSide) (d : Decimal) (o : RuleOptions) :
    (o.setBound side d).kind = o.kind := by
  cases o <;> rfl

theorem bound?_setBound {o : RuleOptions} (h : o.kind.HasDecimalBounds) (side : BoundSide)
    (d : Decimal) : (o.setBound side d).bound? side = some d := by
  cases o <;> simp [RuleKind.HasDecimalBounds, kind] at h <;> exact Bounds.get_set _ side d

end RuleOptions

/-! ## One entry among others -/

namespace Fields

variable {before after : Fields} {key k : String} {α : Type} {read? : Document → Option α}

/-- What is given for another key does not depend on the entry. -/
theorem lookup?_other (h : k ≠ key) (d : Document) :
    lookup? (before ++ (k, d) :: after) key = lookup? (before ++ after) key := by
  unfold lookup?
  rw [List.filter_append, List.filter_append, List.filter_cons_of_neg (by simpa using h)]

/-- What is given for the key itself is the entry, unless the key is given twice. -/
theorem lookup?_self_cases (before after : Fields) (key : String) :
    (∀ d, lookup? (before ++ (key, d) :: after) key = none) ∨
      ∀ d, lookup? (before ++ (key, d) :: after) key = some (some d) := by
  by_cases h : before.Absent key ∧ after.Absent key
  · exact .inr fun d => by rw [lookup?_append_right h.1, lookup?_cons_self d h.2]
  · refine .inl fun d => ?_
    unfold Absent at h
    unfold lookup?
    rw [List.filter_append, List.filter_cons_of_pos (by simp)]
    generalize before.filter (fun field => field.1 == key) = l at h ⊢
    generalize after.filter (fun field => field.1 == key) = r at h ⊢
    -- a second entry under the key spoils it, wherever it stands
    rcases l with - | ⟨a, l⟩
    · rcases r with - | ⟨b, r⟩
      · exact absurd ⟨rfl, rfl⟩ h
      · rfl
    · rcases l with - | ⟨b, l⟩ <;> rfl

theorem required?_other (h : k ≠ key) (d : Document) :
    required? (before ++ (k, d) :: after) key read? = required? (before ++ after) key read? := by
  rw [required?, required?, lookup?_other h]

theorem optional?_other (h : k ≠ key) (d : Document) :
    optional? (before ++ (k, d) :: after) key read? = optional? (before ++ after) key read? := by
  rw [optional?, optional?, lookup?_other h]

theorem defaulted?_other (h : k ≠ key) (d : Document) (default : α) :
    defaulted? (before ++ (k, d) :: after) key default read? =
      defaulted? (before ++ after) key default read? := by
  rw [defaulted?, defaulted?, lookup?_other h]

/-- An entry that is not null is read, unless its key is given twice. -/
theorem optional?_self_cases (before after : Fields) (key : String)
    (read? : Document → Option α) :
    (∀ d, optional? (before ++ (key, d) :: after) key read? = none) ∨
      ∀ d, d ≠ .null → optional? (before ++ (key, d) :: after) key read? = (read? d).map some := by
  rcases lookup?_self_cases before after key with h | h
  · exact .inl fun d => by rw [optional?, h]; rfl
  · refine .inr fun d hd => ?_
    rw [optional?, h]
    cases d with
    | null => exact absurd rfl hd
    | _ => rfl

end Fields

namespace Bounds

/-- Bounds depend on the entry by the bound that is read from it. -/
theorem ofFields?_entry (side : BoundSide) (before after : Fields) :
    ∃ rest : Option (Bounds Decimal UInt32), ∀ d, d ≠ .null →
      ofFields? (before ++ (side.key, d) :: after) Document.decimal? "digits" Document.uint32? =
        d.decimal?.bind fun x => rest.map (·.set side x) := by
  rcases Fields.optional?_self_cases before after side.key Document.decimal? with hself | hself
  · -- the key is given twice, and nothing is read
    refine ⟨.none, fun d _ => ?_⟩
    simp only [Option.map_none, Option.bind_fun_none]
    cases side with
    | lower =>
      rw [ofFields?, show "min" = BoundSide.lower.key from rfl, hself]
      rfl
    | upper =>
      rw [ofFields?, show "max" = BoundSide.upper.key from rfl, hself]
      exact Option.bind_fun_none _
  · cases side with
    -- the key is given once, and the rest is read without it
    | lower =>
      refine ⟨do
        let max ← (before ++ after).optional? "max" Document.decimal?
        let width ← (before ++ after).optional? "digits" Document.uint32?
        return ⟨.none, max, width⟩, fun d hd => ?_⟩
      rw [ofFields?, show "min" = BoundSide.lower.key from rfl, hself d hd,
        Fields.optional?_other (by decide), Fields.optional?_other (by decide)]
      cases d.decimal? with
      | none => rfl
      | some x => simp [set]
    | upper =>
      refine ⟨do
        let min ← (before ++ after).optional? "min" Document.decimal?
        let width ← (before ++ after).optional? "digits" Document.uint32?
        return ⟨min, .none, width⟩, fun d hd => ?_⟩
      rw [ofFields?, show "max" = BoundSide.upper.key from rfl, hself d hd,
        Fields.optional?_other (by decide), Fields.optional?_other (by decide)]
      cases d.decimal? with
      | none => simp
      | some x => simp [set]

end Bounds

namespace RuleOptions

/-- Options depend on the entry by the bound that is read from it. -/
theorem ofFields?_entry {kind : RuleKind} (hkind : kind.HasDecimalBounds) (side : BoundSide)
    (before after : Fields) :
    ∃ rest : Option RuleOptions, ∀ d, d ≠ .null →
      ofFields? (before ++ (side.key, d) :: after) kind =
        d.decimal?.bind fun x => rest.map (·.setBound side x) := by
  obtain ⟨bounds, hbounds⟩ := Bounds.ofFields?_entry side before after
  have hratio : side.key ≠ "min_ratio" ∧ side.key ≠ "max_ratio" ∧ side.key ≠ "precision" := by
    cases side <;> decide
  obtain ⟨hminRatio, hmaxRatio, hprecision⟩ := hratio
  -- whatever its kind, a rule reads its other fields as they stand without the entry
  rcases hkind with rfl | rfl | rfl
  · refine ⟨do
      let minRatio ← (before ++ after).required? "min_ratio" Document.float?
      let maxRatio ← (before ++ after).required? "max_ratio" Document.float?
      let b ← bounds
      let precision ← (before ++ after).optional? "precision" Document.uint32?
      return .noiseDecimal minRatio maxRatio b precision, fun d hd => ?_⟩
    rw [ofFields?, hbounds d hd, Fields.required?_other hminRatio, Fields.required?_other hmaxRatio,
      Fields.optional?_other hprecision]
    cases d.decimal? with
    | none => simp
    | some x => simp [setBound, Option.map_bind, Option.bind_map]
  · refine ⟨do
      let b ← bounds
      let precision ← (before ++ after).defaulted? "precision" 0 Document.uint32?
      return .randomDecimal b precision, fun d hd => ?_⟩
    rw [ofFields?, hbounds d hd, Fields.defaulted?_other hprecision]
    cases d.decimal? with
    | none => rfl
    | some x => simp [setBound, Option.map_bind, Option.bind_map]
  · refine ⟨do
      let b ← bounds
      return .randomBigInteger b, fun d hd => ?_⟩
    rw [ofFields?, hbounds d hd]
    cases d.decimal? with
    | none => rfl
    | some x => simp [setBound, Option.map_bind, Option.bind_map]

/-- Options are of the kind that they are read for. -/
theorem kind_of_ofFields? {fields : Fields} {kind : RuleKind} {o : RuleOptions}
    (h : ofFields? fields kind = some o) : o.kind = kind := by
  cases kind <;> simp only [ofFields?, Option.bind_eq_bind, Option.bind_eq_some_iff,
    Option.pure_def, Option.some.injEq] at h <;> grind [RuleOptions.kind]

end RuleOptions

namespace Config

/-- The configuration of fields. -/
def ofFields? (fields : Fields) : Option Config := do
  let engine ← fields.defaulted? "engine" .random (Document.named? Engine.all Engine.name)
  let salt ← fields.optional? "salt" Document.text?
  let kind ← fields.required? "transformer"
    (Document.ofNameOrIndex? RuleKind.all RuleKind.name)
  let rule ← RuleOptions.ofFields? fields kind
  return { engine, salt, rule }

theorem ofDocument?_eq (d : Document) : ofDocument? d = (Fields.ofDocument? d).bind ofFields? := rfl

/-- A configuration with another bound on a side. -/
def setBound (c : Config) (side : BoundSide) (d : Decimal) : Config :=
  { c with rule := c.rule.setBound side d }

@[simp] theorem setBound_setBound (c : Config) (side : BoundSide) (d d' : Decimal) :
    (c.setBound side d).setBound side d' = c.setBound side d' := by
  simp [setBound]

/-- The engine, the salt and the kind of rule do not depend on the entry. -/
theorem ofFields?_other (side : BoundSide) (before after : Fields) (d : Document) :
    ofFields? (before ++ (side.key, d) :: after) = do
      let engine ← (before ++ after).defaulted? "engine" .random
        (Document.named? Engine.all Engine.name)
      let salt ← (before ++ after).optional? "salt" Document.text?
      let kind ← (before ++ after).required? "transformer"
        (Document.ofNameOrIndex? RuleKind.all RuleKind.name)
      let rule ← RuleOptions.ofFields? (before ++ (side.key, d) :: after) kind
      return { engine, salt, rule } := by
  have hkeys : side.key ≠ "engine" ∧ side.key ≠ "salt" ∧ side.key ≠ "transformer" := by
    cases side <;> decide
  obtain ⟨hengine, hsalt, hkind⟩ := hkeys
  rw [ofFields?, Fields.defaulted?_other hengine, Fields.optional?_other hsalt,
    Fields.required?_other hkind]

/-- **A configuration depends on the entry** by the bound that is read from it, if it is one of a
rule with decimal bounds. -/
theorem ofFields?_entry (side : BoundSide) (before after : Fields) :
    (∀ d c, ofFields? (before ++ (side.key, d) :: after) = some c →
        ¬ c.rule.kind.HasDecimalBounds) ∨
      ∃ rest : Option Config, ∀ d, d ≠ .null →
        ofFields? (before ++ (side.key, d) :: after) =
          d.decimal?.bind fun x => rest.map (·.setBound side x) := by
  simp only [ofFields?_other]
  cases (before ++ after).required? "transformer"
      (Document.ofNameOrIndex? RuleKind.all RuleKind.name) with
  -- without a kind there is no configuration
  | none =>
    refine .inl fun d c h => ?_
    simp at h
  | some kind =>
    by_cases hkind : kind.HasDecimalBounds
    · obtain ⟨options, hoptions⟩ := RuleOptions.ofFields?_entry hkind side before after
      refine .inr ⟨do
        let engine ← (before ++ after).defaulted? "engine" .random
          (Document.named? Engine.all Engine.name)
        let salt ← (before ++ after).optional? "salt" Document.text?
        let rule ← options
        return { engine, salt, rule }, fun d hd => ?_⟩
      simp only [Option.bind_eq_bind, Option.bind_some, hoptions d hd]
      cases d.decimal? with
      | none => simp
      | some x => simp [setBound, Option.map_bind, Option.bind_map]
    · -- what is read has the kind that is named
      refine .inl fun d c h => ?_
      simp only [Option.bind_eq_bind, Option.bind_some, Option.bind_eq_some_iff] at h
      obtain ⟨engine, -, salt, -, rule, hrule, hc⟩ := h
      cases hc
      rwa [RuleOptions.kind_of_ofFields? hrule]

/-! ## Entries of a mapping -/

/-- The configuration of a mapping. -/
def ofNode? (n : Yaml.Node) : Option Config := (n.outermost? usage).bind ofDocument?

/-- The field of an entry. -/
def field? : Yaml.Node × Yaml.Node → Option (String × Document)
  | (.scalar _ _ key, value) => (value.usedAs? (usage key)).map fun d => (key, d)
  | _ => none

theorem fields_outermost? (tag : Option Yaml.Tag) (entries : List (Yaml.Node × Yaml.Node)) :
    ((Yaml.Node.mapping tag entries).outermost? usage).bind Fields.ofDocument? =
      entries.mapM field? := by
  unfold Yaml.Node.outermost? Fields.ofDocument?
  simp only [Option.bind_eq_bind, Option.pure_def, Option.bind_assoc, Option.bind_some]
  -- on the entries; one that cannot be used spoils both readings
  induction entries with
  | nil => rfl
  | cons e rest ih =>
    obtain ⟨k, v⟩ := e
    rw [List.mapM_cons, List.mapM_cons, ← ih]
    cases k with
    | scalar keyTag plain key =>
      simp only [field?]
      cases v.usedAs? (usage key) with
      | none => rfl
      | some d =>
        simp only [Option.bind_eq_bind, Option.bind_some, Option.map_some, Option.pure_def,
          Option.bind_assoc, List.mapM_cons]
    | sequence keyTag items => rfl
    | mapping keyTag items => rfl

/-- A configuration is read from the fields of its entries. -/
theorem ofNode?_mapping (tag : Option Yaml.Tag) (entries : List (Yaml.Node × Yaml.Node)) :
    ofNode? (.mapping tag entries) = (entries.mapM field?).bind ofFields? := by
  rw [ofNode?, funext ofDocument?_eq, ← Option.bind_assoc, fields_outermost?]

/-- A mapping with one entry for a bound among others. -/
def boundNode (tag : Option Yaml.Tag) (before after : List (Yaml.Node × Yaml.Node))
    (keyTag : Option Yaml.Tag) (keyPlain : Bool) (side : BoundSide) (value : Yaml.Node) :
    Yaml.Node :=
  .mapping tag (before ++ (.scalar keyTag keyPlain side.key, value) :: after)

variable (tag : Option Yaml.Tag) (before after : List (Yaml.Node × Yaml.Node))
variable (keyTag : Option Yaml.Tag) (keyPlain : Bool) (side : BoundSide)

/-- The fields of the other entries are the same whatever the value is. -/
theorem ofNode?_boundNode_cases :
    (∀ value, ofNode? (boundNode tag before after keyTag keyPlain side value) = none) ∨
      ∃ b a : Fields, ∀ value, ofNode? (boundNode tag before after keyTag keyPlain side value) =
        value.document?.bind fun d => ofFields? (b ++ (side.key, d) :: a) := by
  have hfield (value : Yaml.Node) : field? (.scalar keyTag keyPlain side.key, value) =
      value.document?.map fun d => (side.key, d) := by
    cases side <;> rfl
  simp only [boundNode, ofNode?_mapping, List.mapM_append, List.mapM_cons, hfield]
  -- an entry beside this one that is no field spoils the reading, whatever the value is
  cases before.mapM field? with
  | none => exact .inl fun value => rfl
  | some b =>
    cases after.mapM field? with
    | none =>
      refine .inl fun value => ?_
      cases value.document? <;> rfl
    | some a =>
      refine .inr ⟨b, a, fun value => ?_⟩
      cases value.document? <;> rfl

/-- **A configuration depends on the value of a bound** by the decimal that is read from it. -/
theorem ofNode?_boundNode :
    (∀ value c, ofNode? (boundNode tag before after keyTag keyPlain side value) = some c →
        ¬ c.rule.kind.HasDecimalBounds) ∨
      ∃ rest : Option Config, ∀ value, value.document? ≠ some .null →
        ofNode? (boundNode tag before after keyTag keyPlain side value) =
          (value.document?.bind Document.decimal?).bind fun x => rest.map (·.setBound side x) := by
  rcases ofNode?_boundNode_cases tag before after keyTag keyPlain side with hnone | ⟨b, a, hsome⟩
  · refine .inl fun value c h => ?_
    rw [hnone] at h
    cases h
  · simp only [hsome]
    rcases ofFields?_entry side b a with hkind | ⟨rest, hrest⟩
    · refine .inl fun value c h => ?_
      obtain ⟨d, -, hd⟩ := Option.bind_eq_some_iff.mp h
      exact hkind d c hd
    · refine .inr ⟨rest, fun value hnull => ?_⟩
      cases hvalue : value.document? with
      | none => rfl
      | some d => exact hrest d fun hd => hnull (by rw [hvalue, hd])

end Config

end ColumnMask
