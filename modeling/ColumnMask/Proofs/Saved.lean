import Mathlib
import ColumnMask.Config
import ColumnMask.Proofs.DecimalPrint
import ColumnMask.Proofs.InstantText

/-!
# Saved configurations

The document that is written for a configuration is read as the same configuration. The options
that are not given are left out of it and found missing again; those that are given have a form that
their reader takes, whatever their size, sign, scale or year.

- `Fields.lookup?_append_left` and its like: what is given for a key in entries put together.
- `Document.int64?_ofInt64` and its like: every written value is read as itself, decimals as the
  same number.
- `RuleOptions.ofFields?_fields`: the options of each rule.
- `Config.ofDocument?_document`: the whole.
-/

namespace ColumnMask

/-! ## Entries -/

namespace Fields

variable {fields a b : Fields} {key : String}

@[simp] theorem ofDocument?_entries (fields : Fields) :
    ofDocument? fields.document = some fields := by
  unfold document ofDocument?
  dsimp only
  induction fields with
  | nil => rfl
  | cons field rest ih =>
    rw [List.map_cons, List.mapM_cons, ih]
    rfl

/-- Nothing is given for the key. -/
def Absent (fields : Fields) (key : String) : Prop :=
  fields.filter (fun field => field.1 == key) = []

@[simp] theorem absent_nil : Absent [] key := rfl

@[simp] theorem absent_cons {k : String} {d : Document} :
    Absent ((k, d) :: fields) key ↔ k ≠ key ∧ fields.Absent key := by
  unfold Absent
  by_cases h : k = key
  · simp [h]
  · rw [List.filter_cons_of_neg (by simpa using h)]
    simp [h]

@[simp] theorem absent_append : Absent (a ++ b) key ↔ a.Absent key ∧ b.Absent key := by
  unfold Absent
  rw [List.filter_append, List.append_eq_nil_iff]

@[simp] theorem absent_optionalField {α : Type} {k : String} {write : α → Document} {o : Option α}
    (h : k ≠ key) : Absent (RuleOptions.optionalField k write o) key := by
  cases o with
  | none => exact absent_nil
  | some a => exact absent_cons.mpr ⟨h, absent_nil⟩

@[simp] theorem lookup?_append_left (h : b.Absent key) : lookup? (a ++ b) key = lookup? a key := by
  unfold Absent at h
  unfold lookup?
  rw [List.filter_append, h, List.append_nil]

@[simp] theorem lookup?_append_right (h : a.Absent key) : lookup? (a ++ b) key = lookup? b key := by
  unfold Absent at h
  unfold lookup?
  rw [List.filter_append, h, List.nil_append]

@[simp] theorem lookup?_cons_self (d : Document) (h : fields.Absent key) :
    lookup? ((key, d) :: fields) key = some (some d) := by
  unfold Absent at h
  unfold lookup?
  rw [List.filter_cons_of_pos (by simp), h]

@[simp] theorem lookup?_cons_of_ne {k : String} (d : Document) (h : k ≠ key) :
    lookup? ((k, d) :: fields) key = lookup? fields key := by
  unfold lookup?
  rw [List.filter_cons_of_neg (by simpa using h)]

@[simp] theorem lookup?_optionalField {α : Type} (write : α → Document) (o : Option α) :
    lookup? (RuleOptions.optionalField key write o) key = some (o.map write) := by
  cases o with
  | none => rfl
  | some a => exact lookup?_cons_self _ absent_nil

/-! ### Fields that have been written -/

variable {α : Type} {write : α → Document} {read? : Document → Option α}

theorem required?_eq {d : Document} (h : fields.lookup? key = some (some d)) :
    fields.required? key read? = read? d := by
  simp [required?, h]

theorem defaulted?_eq {d : Document} {default : α} (h : fields.lookup? key = some (some d)) :
    fields.defaulted? key default read? = read? d := by
  simp [defaulted?, h]

/-- An option is read where it is given. None of the written forms counts as nothing. -/
theorem optional?_eq {o : Option α} (h : fields.lookup? key = some (o.map write))
    (hnull : ∀ a, write a ≠ .null) :
    fields.optional? key read? = o.mapM fun a => read? (write a) := by
  cases o with
  | none => simp [optional?, h]
  | some a =>
    have ha := hnull a
    simp only [optional?, h, Option.map_some, Option.bind_eq_bind, Option.bind_some]
    rfl

theorem optional?_eq_some {o : Option α} (h : fields.lookup? key = some (o.map write))
    (hnull : ∀ a, write a ≠ .null) (hread : ∀ a, read? (write a) = some a) :
    fields.optional? key read? = some o := by
  rw [optional?_eq h hnull, funext hread]
  cases o <;> rfl

end Fields

/-! ## Values -/

namespace RuleOptions

theorem integerWithin?_ofInt {low high n : Int} (h : low ≤ n ∧ n ≤ high) :
    (Document.integer (.ofInt n)).integerWithin? low high = some n := by
  simp [Document.integerWithin?, h]

@[simp] theorem int64?_ofInt64 (n : Int64) : (ofInt64 n).int64? = some n := by
  have hlow := n.le_toInt
  have hhigh := n.toInt_lt
  unfold ofInt64 Document.int64?
  rw [Int64.toInt_minValue, Int64.toInt_maxValue, integerWithin?_ofInt (by omega), Option.map_some,
    Int64.ofInt_toInt]

@[simp] theorem uint64?_ofUInt64 (n : UInt64) : (ofUInt64 n).uint64? = some n := by
  have hhigh := n.toNat_lt
  unfold ofUInt64 Document.uint64?
  rw [integerWithin?_ofInt (by omega), Option.map_some, Int.toNat_natCast, UInt64.ofNat_toNat]

@[simp] theorem uint32?_ofUInt32 (n : UInt32) : (ofUInt32 n).uint32? = some n := by
  have hhigh := n.toNat_lt
  unfold ofUInt32 Document.uint32?
  rw [integerWithin?_ofInt (by omega), Option.map_some, Int.toNat_natCast, UInt32.ofNat_toNat]

@[simp] theorem instant?_ofInstant (t : Instant) : (ofInstant t).instant? = some t :=
  Instant.parseRelaxed?_text t

@[simp] theorem unit?_ofUnit (unit : CalendarUnit) : unit? (ofUnit unit) = some unit := by
  cases unit <;> rfl

@[simp] theorem texts?_map_text (items : List String) :
    (Document.sequence (items.map .text)).texts? = some items := by
  show (items.map Document.text).mapM Document.text? = _
  induction items with
  | nil => rfl
  | cons item rest ih =>
    rw [List.map_cons, List.mapM_cons, ih]
    rfl

@[simp] theorem oneOf?_castType (cast : CastType) :
    Document.oneOf? CastType.all CastType.name (.text cast.name) = some cast := by
  cases cast <;> rfl

@[simp] theorem oneOf?_managementType (management : ManagementType) :
    Document.oneOf? ManagementType.all ManagementType.name (.text management.name) =
      some management := by
  cases management <;> rfl

@[simp] theorem ofNameOrIndex?_kind (kind : RuleKind) :
    Document.ofNameOrIndex? RuleKind.all RuleKind.name (.text kind.name) = some kind := by
  cases kind <;> rfl

@[simp] theorem named?_engine (engine : Engine) :
    Document.named? Engine.all Engine.name (.text engine.name) = some engine := by
  cases engine <;> rfl

/-- A decimal is read as the same number, zero with another scale. -/
theorem exists_decimal?_ofDecimal {d : Decimal} (h : d.WordScale) :
    ∃ d', (ofDecimal d).decimal? = some d' ∧ sameDecimal d' d = true := by
  obtain ⟨d', hread, hsame⟩ := Decimal.parse?_displayText h
  exact ⟨d', hread, decide_eq_true hsame⟩

/-- A float that is a number is equal to itself. -/
theorem beq_self {x : Float} (h : x.isNaN = false) : (x == x) = true := by
  have hn : x.toModel.unpack.isNaN = false := h
  show x.toModel.unpack.beq x.toModel.unpack = true
  cases hx : x.toModel.unpack with
  | notANumber =>
    rw [hx] at hn
    cases hn
  | infinity s => cases s <;> rfl
  | zero s => cases s <;> rfl
  | finite s m e hm =>
    cases s <;> simp [Float.Model.UnpackedFloat.beq, Float.Model.UnpackedFloat.compare]

theorem sameOption_beq (o : Option Float) (h : ∀ x ∈ o, x.isNaN = false) :
    sameOption (· == ·) o o = true := by
  cases o with
  | none => rfl
  | some x => exact beq_self (h x rfl)

end RuleOptions

/-! ## Rules -/

/-- An option is read as one that is the same if its value is. -/
theorem exists_mapM_same {α : Type} {same : α → α → Bool} {read? : α → Option α} (o : Option α)
    (h : ∀ a ∈ o, ∃ a', read? a = some a' ∧ same a' a = true) :
    ∃ o', o.mapM read? = some o' ∧ sameOption same o' o = true := by
  cases o with
  | none => exact ⟨none, rfl, rfl⟩
  | some a =>
    obtain ⟨a', hread, hsame⟩ := h a rfl
    exact ⟨some a', by rw [Option.mapM, hread]; rfl, hsame⟩

namespace Bounds

variable {α ω : Type} {b : Bounds α ω} {fields : Fields} {bound? : Document → Option α}
  {widthKey : String} {width? : Document → Option ω} {write : α → Document}
  {writeWidth : ω → Document}

/-- The bounds that are given. -/
def given (b : Bounds α ω) : List α := b.min.toList ++ b.max.toList

theorem mem_given {a : α} : a ∈ b.given ↔ b.min = some a ∨ b.max = some a := by
  simp [given]

/-- What the fields of bounds are when they have been written. -/
structure WrittenIn (b : Bounds α ω) (fields : Fields) (write : α → Document) (widthKey : String)
    (writeWidth : ω → Document) : Prop where
  min : fields.lookup? "min" = some (b.min.map write)
  max : fields.lookup? "max" = some (b.max.map write)
  width : fields.lookup? widthKey = some (b.width.map writeWidth)
  bound_ne_null : ∀ a, write a ≠ .null
  width_ne_null : ∀ w, writeWidth w ≠ .null

/-- Bounds that are read as they were written. -/
theorem WrittenIn.ofFields?_eq (h : b.WrittenIn fields write widthKey writeWidth)
    (hread : ∀ a, bound? (write a) = some a) (hwidth : ∀ w, width? (writeWidth w) = some w) :
    ofFields? fields bound? widthKey width? = some b := by
  unfold ofFields?
  rw [Fields.optional?_eq_some h.min h.bound_ne_null hread,
    Fields.optional?_eq_some h.max h.bound_ne_null hread,
    Fields.optional?_eq_some h.width h.width_ne_null hwidth]
  rfl

/-- Bounds that are read as the same numbers. -/
theorem WrittenIn.exists_ofFields? [DecidableEq ω] {same : α → α → Bool}
    (h : b.WrittenIn fields write widthKey writeWidth)
    (hread : ∀ a ∈ b.given, ∃ a', bound? (write a) = some a' ∧ same a' a = true)
    (hwidth : ∀ w, width? (writeWidth w) = some w) :
    ∃ b', ofFields? fields bound? widthKey width? = some b' ∧ b'.same same b = true := by
  obtain ⟨min, hmin, hsameMin⟩ := exists_mapM_same b.min fun a ha =>
    hread a (mem_given.mpr (.inl ha))
  obtain ⟨max, hmax, hsameMax⟩ := exists_mapM_same b.max fun a ha =>
    hread a (mem_given.mpr (.inr ha))
  refine ⟨⟨min, max, b.width⟩, ?_, by simp [Bounds.same, hsameMin, hsameMax]⟩
  unfold ofFields?
  rw [Fields.optional?_eq h.min h.bound_ne_null, hmin, Fields.optional?_eq h.max h.bound_ne_null,
    hmax, Fields.optional?_eq_some h.width h.width_ne_null hwidth]
  rfl

/-- Bounds of floats that are numbers are the same as themselves. -/
theorem same_self (b : Bounds Float UInt64) (h : ∀ x ∈ b.given, x.isNaN = false) :
    b.same (· == ·) b = true := by
  have hmin := RuleOptions.sameOption_beq b.min fun x hx => h x (mem_given.mpr (.inl hx))
  have hmax := RuleOptions.sameOption_beq b.max fun x hx => h x (mem_given.mpr (.inr hx))
  simp [same, hmin, hmax]

end Bounds

namespace RuleOptions

/-- The floats among the options. -/
def floats : RuleOptions → List Float
  | noiseInteger minRatio maxRatio _ => [minRatio, maxRatio]
  | noiseFloat minRatio maxRatio b _ => minRatio :: maxRatio :: b.given
  | noiseDecimal minRatio maxRatio _ _ => [minRatio, maxRatio]
  | randomFloat b _ => b.given
  | _ => []

/-- The decimals among the options. -/
def decimals : RuleOptions → List Decimal
  | noiseDecimal _ _ b _ => b.given
  | randomDecimal b _ => b.given
  | randomBigInteger b => b.given
  | _ => []

open Fields in
/-- Only what is given for the keys of a rule counts. -/
theorem ofFields?_congr {a b : Fields} (kind : RuleKind)
    (h : ∀ key, key ≠ "engine" → key ≠ "salt" → key ≠ "transformer" →
      a.lookup? key = b.lookup? key) : ofFields? a kind = ofFields? b kind := by
  -- no rule has an option with one of the three keys
  cases kind <;>
    simp (disch := decide) only [ofFields?, Bounds.ofFields?, required?, optional?, defaulted?, h]

attribute [local simp] fields ratioFields limitFields Fields.required? Fields.defaulted?
  Document.float? Document.text? Document.bool?

variable {minRatio maxRatio : Float}

/-! ### Bounded numbers -/

theorem ofFields?_noiseInteger (b : Bounds Int64 UInt64) :
    ofFields? (noiseInteger minRatio maxRatio b).fields .noiseInteger =
      some (noiseInteger minRatio maxRatio b) := by
  have hb : b.WrittenIn (noiseInteger minRatio maxRatio b).fields ofInt64 "type_size" ofUInt64 :=
    ⟨by simp, by simp, by simp, fun _ => Document.noConfusion, fun _ => Document.noConfusion⟩
  rw [ofFields?, hb.ofFields?_eq int64?_ofInt64 uint64?_ofUInt64]
  simp

theorem ofFields?_noiseFloat (b : Bounds Float UInt64) (precision : Option UInt32) :
    ofFields? (noiseFloat minRatio maxRatio b precision).fields .noiseFloat =
      some (noiseFloat minRatio maxRatio b precision) := by
  have hb : b.WrittenIn (noiseFloat minRatio maxRatio b precision).fields .float "type_size"
      ofUInt64 :=
    ⟨by simp, by simp, by simp, fun _ => Document.noConfusion, fun _ => Document.noConfusion⟩
  rw [ofFields?, hb.ofFields?_eq (fun _ => rfl) uint64?_ofUInt64,
    Fields.optional?_eq_some (o := precision) (by simp) (fun _ => Document.noConfusion)
      uint32?_ofUInt32]
  simp

theorem exists_ofFields?_noiseDecimal (b : Bounds Decimal UInt32) (precision : Option UInt32)
    (h : ∀ d ∈ b.given, d.WordScale) :
    ∃ b', ofFields? (noiseDecimal minRatio maxRatio b precision).fields .noiseDecimal =
      some (noiseDecimal minRatio maxRatio b' precision) ∧ b'.same sameDecimal b = true := by
  have hb : b.WrittenIn (noiseDecimal minRatio maxRatio b precision).fields ofDecimal "digits"
      ofUInt32 :=
    ⟨by simp, by simp, by simp, fun _ => Document.noConfusion, fun _ => Document.noConfusion⟩
  obtain ⟨b', hread, hsame⟩ :=
    hb.exists_ofFields? (fun d hd => exists_decimal?_ofDecimal (h d hd)) uint32?_ofUInt32
  refine ⟨b', ?_, hsame⟩
  rw [ofFields?, hread, Fields.optional?_eq_some (o := precision) (by simp)
    (fun _ => Document.noConfusion) uint32?_ofUInt32]
  simp

theorem ofFields?_randomInteger (b : Bounds Int64 UInt64) :
    ofFields? (randomInteger b).fields .randomInteger = some (randomInteger b) := by
  have hb : b.WrittenIn (randomInteger b).fields ofInt64 "type_size" ofUInt64 :=
    ⟨by simp, by simp, by simp, fun _ => Document.noConfusion, fun _ => Document.noConfusion⟩
  rw [ofFields?, hb.ofFields?_eq int64?_ofInt64 uint64?_ofUInt64]
  rfl

theorem ofFields?_randomFloat (b : Bounds Float UInt64) (precision : Option UInt32) :
    ofFields? (randomFloat b precision).fields .randomFloat = some (randomFloat b precision) := by
  have hb : b.WrittenIn (randomFloat b precision).fields .float "type_size" ofUInt64 :=
    ⟨by simp, by simp, by simp, fun _ => Document.noConfusion, fun _ => Document.noConfusion⟩
  rw [ofFields?, hb.ofFields?_eq (fun _ => rfl) uint64?_ofUInt64,
    Fields.optional?_eq_some (o := precision) (by simp) (fun _ => Document.noConfusion)
      uint32?_ofUInt32]
  rfl

theorem exists_ofFields?_randomDecimal (b : Bounds Decimal UInt32) (precision : UInt32)
    (h : ∀ d ∈ b.given, d.WordScale) :
    ∃ b', ofFields? (randomDecimal b precision).fields .randomDecimal =
      some (randomDecimal b' precision) ∧ b'.same sameDecimal b = true := by
  have hb : b.WrittenIn (randomDecimal b precision).fields ofDecimal "digits" ofUInt32 :=
    ⟨by simp, by simp, by simp, fun _ => Document.noConfusion, fun _ => Document.noConfusion⟩
  obtain ⟨b', hread, hsame⟩ :=
    hb.exists_ofFields? (fun d hd => exists_decimal?_ofDecimal (h d hd)) uint32?_ofUInt32
  refine ⟨b', ?_, hsame⟩
  rw [ofFields?, hread]
  simp

theorem exists_ofFields?_randomBigInteger (b : Bounds Decimal UInt32)
    (h : ∀ d ∈ b.given, d.WordScale) :
    ∃ b', ofFields? (randomBigInteger b).fields .randomBigInteger =
      some (randomBigInteger b') ∧ b'.same sameDecimal b = true := by
  have hb : b.WrittenIn (randomBigInteger b).fields ofDecimal "digits" ofUInt32 :=
    ⟨by simp, by simp, by simp, fun _ => Document.noConfusion, fun _ => Document.noConfusion⟩
  obtain ⟨b', hread, hsame⟩ :=
    hb.exists_ofFields? (fun d hd => exists_decimal?_ofDecimal (h d hd)) uint32?_ofUInt32
  refine ⟨b', ?_, hsame⟩
  rw [ofFields?, hread]
  rfl

/-! ### Instants -/

theorem ofFields?_noiseTime (minRatio maxRatio : String) (min max : Option Instant)
    (truncate : Option CalendarUnit) :
    ofFields? (noiseTime minRatio maxRatio min max truncate).fields .noiseTime =
      some (noiseTime minRatio maxRatio min max truncate) := by
  rw [ofFields?,
    Fields.optional?_eq_some (o := min) (by simp) (fun _ => Document.noConfusion)
      instant?_ofInstant,
    Fields.optional?_eq_some (o := max) (by simp) (fun _ => Document.noConfusion)
      instant?_ofInstant,
    Fields.optional?_eq_some (o := truncate) (by simp) (fun _ => Document.noConfusion)
      unit?_ofUnit]
  simp

theorem ofFields?_randomTime (min max : Instant) (truncate : Option CalendarUnit) :
    ofFields? (randomTime min max truncate).fields .randomTime =
      some (randomTime min max truncate) := by
  rw [ofFields?, Fields.optional?_eq_some (o := truncate) (by simp)
    (fun _ => Document.noConfusion) unit?_ofUnit]
  simp

/-! ### Every rule -/

/-- **The options of a rule** are read from the fields that are written for them. -/
theorem ofFields?_fields (o : RuleOptions) (hfloats : ∀ x ∈ o.floats, x.isNaN = false)
    (hdecimals : ∀ d ∈ o.decimals, d.WordScale) :
    ∃ o', ofFields? o.fields o.kind = some o' ∧ o'.same o = true := by
  -- the options one by one; only floats and decimals may come back changed
  cases o with
  | noiseInteger minRatio maxRatio b =>
    have hmin := beq_self (hfloats minRatio (by simp [floats]))
    have hmax := beq_self (hfloats maxRatio (by simp [floats]))
    exact ⟨_, ofFields?_noiseInteger b, by simp [same, hmin, hmax]⟩
  | noiseFloat minRatio maxRatio b precision =>
    have hmin := beq_self (hfloats minRatio (by simp [floats]))
    have hmax := beq_self (hfloats maxRatio (by simp [floats]))
    have hb := b.same_self fun x hx => hfloats x (by simp [floats, hx])
    exact ⟨_, ofFields?_noiseFloat b precision, by simp [same, hmin, hmax, hb]⟩
  | noiseDecimal minRatio maxRatio b precision =>
    have hmin := beq_self (hfloats minRatio (by simp [floats]))
    have hmax := beq_self (hfloats maxRatio (by simp [floats]))
    obtain ⟨b', hread, hb⟩ := exists_ofFields?_noiseDecimal b precision hdecimals
    exact ⟨_, hread, by simp [same, hmin, hmax, hb]⟩
  | noiseTime minRatio maxRatio min max truncate =>
    exact ⟨_, ofFields?_noiseTime minRatio maxRatio min max truncate, by simp [same]⟩
  | randomInteger b => exact ⟨_, ofFields?_randomInteger b, by simp [same]⟩
  | randomFloat b precision =>
    exact ⟨_, ofFields?_randomFloat b precision, by simp [same, b.same_self hfloats]⟩
  | randomDecimal b precision =>
    obtain ⟨b', hread, hb⟩ := exists_ofFields?_randomDecimal b precision hdecimals
    exact ⟨_, hread, by simp [same, hb]⟩
  | randomBigInteger b =>
    obtain ⟨b', hread, hb⟩ := exists_ofFields?_randomBigInteger b hdecimals
    exact ⟨_, hread, by simp [same, hb]⟩
  | randomTime min max truncate =>
    exact ⟨_, ofFields?_randomTime min max truncate, by simp [same]⟩
  | randomText symbols minLength maxLength =>
    exact ⟨randomText symbols minLength maxLength, by simp [ofFields?, kind], by simp [same]⟩
  | randomUuid => exact ⟨randomUuid, rfl, rfl⟩
  | randomBool => exact ⟨randomBool, rfl, rfl⟩
  | randomChoice choices =>
    exact ⟨randomChoice choices, by simp [ofFields?, kind], by simp [same]⟩
  | randomAddress subnet =>
    exact ⟨randomAddress subnet, by simp [ofFields?, kind], by simp [same]⟩
  | randomMac cast management keepVendor =>
    exact ⟨randomMac cast management keepVendor, by simp [ofFields?, kind], by simp [same]⟩

open Fields in
/-- The keys of a configuration are not among those of its rule. -/
theorem absent_fields (o : RuleOptions) :
    o.fields.Absent "engine" ∧ o.fields.Absent "salt" ∧ o.fields.Absent "transformer" := by
  cases o <;> simp

end RuleOptions

/-! ## Configurations -/

namespace Config

/-- **A saved configuration** is read as one that says the same, whatever its rule and whichever of
its options are given, provided that its floats are numbers and the scales of its decimals words, as
those of all decimals are that have been read. -/
theorem ofDocument?_document (c : Config) (hfloats : ∀ x ∈ c.rule.floats, x.isNaN = false)
    (hdecimals : ∀ d ∈ c.rule.decimals, d.WordScale) :
    ∃ c', ofDocument? c.document = some c' ∧ c'.same c = true := by
  -- the options stand among the fields of the whole, which has three keys more
  obtain ⟨hengine, hsalt, htransformer⟩ := c.rule.absent_fields
  obtain ⟨rule, hread, hsame⟩ := c.rule.ofFields?_fields hfloats hdecimals
  have hrule : RuleOptions.ofFields? c.fields c.rule.kind = some rule := by
    rw [← hread]
    refine RuleOptions.ofFields?_congr _ fun key hengine hsalt htransformer => ?_
    simp [fields, hengine.symm, hsalt.symm, htransformer.symm]
  have hreadEngine : c.fields.defaulted? "engine" .random
      (Document.named? Engine.all Engine.name) = some c.engine := by
    rw [Fields.defaulted?_eq (d := .text c.engine.name) (by simp [fields, hengine])]
    exact RuleOptions.named?_engine c.engine
  have hreadSalt : c.fields.optional? "salt" Document.text? = some c.salt :=
    Fields.optional?_eq_some (by simp [fields, hsalt]) (fun _ => Document.noConfusion)
      fun s => show Document.text? (.text s) = some s from rfl
  have hreadKind : c.fields.required? "transformer"
      (Document.ofNameOrIndex? RuleKind.all RuleKind.name) = some c.rule.kind := by
    rw [Fields.required?_eq (d := .text c.rule.kind.name) (by simp [fields, htransformer])]
    exact RuleOptions.ofNameOrIndex?_kind c.rule.kind
  refine ⟨⟨c.engine, c.salt, rule⟩, ?_, by simp [same, hsame]⟩
  simp [ofDocument?, document, hreadEngine, hreadSalt, hreadKind, hrule]

/-- Noise on decimals between bounds with an exponent and with a sign. -/
def scaledNoise : Config where
  engine := .deterministic
  salt := some "00ff"
  rule := .noiseDecimal 0.5 1.5 ⟨some ⟨-15, 30⟩, some ⟨12, -40⟩, none⟩ (some 2)

theorem ofDocument?_document_scaledNoise :
    (∀ x ∈ scaledNoise.rule.floats, x.isNaN = false) ∧
      (∀ d ∈ scaledNoise.rule.decimals, d.WordScale) ∧
      ∃ c', ofDocument? scaledNoise.document = some c' ∧ c'.same scaledNoise = true := by
  have hfloats : ∀ x ∈ scaledNoise.rule.floats, x.isNaN = false := by decide
  have hdecimals : ∀ d ∈ scaledNoise.rule.decimals, d.WordScale := by
    unfold Decimal.WordScale
    decide
  exact ⟨hfloats, hdecimals, ofDocument?_document scaledNoise hfloats hdecimals⟩

end Config

end ColumnMask
