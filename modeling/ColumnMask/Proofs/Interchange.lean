import Mathlib
import ColumnMask.Proofs.Call
import ColumnMask.Proofs.DecimalArithmetic
import ColumnMask.Proofs.FloatText
import ColumnMask.Proofs.InstantText
import ColumnMask.Proofs.MacText

/-!
# Values and their texts

A value can be given as itself or as a text, and a text can spell it in many ways. Masking looks at
the value only: the generator is asked with the same bytes, and its answer is read alike.

- `Masking.Alike`: two maskings that leave the same calls behind and give the same value, decimals
  compared as numbers, or the same error.
- `Value.ReadAlike`: two values that are taken for the same value of a kind.
- `Value.Spells`: the texts that spell a value; `Value.Legible`: values whose canonical text does.
- `Transformer.transform_readAlike`: values that are read alike are masked alike.
- `Transformer.transform_interchange`: a value and its texts are interchangeable.
-/

namespace ColumnMask

open Text

/-! ## The same value -/

namespace Value

/-- The same value, decimals compared as numbers. -/
inductive Same : Value → Value → Prop where
  | decimal {a b : Decimal} (h : a.Same b) : Same (.decimal a) (.decimal b)
  | refl (v : Value) : Same v v

end Value

/-- Two maskings that, after any calls, make the same calls and give the same value or error. -/
def Masking.Alike (x y : Masking Value) : Prop :=
  ∀ log : Log, Agree Value.Same (log.run x).1 (log.run y).1 ∧ (log.run x).2 = (log.run y).2

namespace Masking

theorem Alike.refl (x : Masking Value) : Alike x x := fun _ => ⟨.refl Value.Same.refl _, rfl⟩

/-- Plans that ask the same and read the answers alike. -/
theorem alike_run {plan plan' : Plan} (hinput : plan.input = plan'.input)
    (hread : ∀ block, Agree Value.Same (plan.read block) (plan'.read block))
    (generator : Option Generator) (required : Nat) :
    Alike (plan.run generator required) (plan'.run generator required) := by
  -- the same block is drawn, or the same failure, and the same call stays in the log
  intro log
  unfold Plan.run
  rw [hinput, Log.run_bind, Log.run_bind]
  generalize (drawBlock generator required plan'.input).adapt
    (Stop.map TransformError.generation) = draw
  rcases log.run draw with ⟨e | block, log'⟩
  · exact ⟨.error e, rfl⟩
  · have hblock := hread block
    dsimp only
    generalize plan.read block = result at hblock ⊢
    generalize plan'.read block = result' at hblock ⊢
    cases hblock with
    | ok hsame => exact ⟨.ok hsame, rfl⟩
    | error e => exact ⟨.error e, rfl⟩

end Masking

/-- The answer for the same number is read as the same number. -/
theorem NoiseDecimal.Same.read_agree {noise noise' : NoiseDecimal} (hnoise : noise.Same noise')
    {window window' : Option DecimalWindow}
    (hwindow : Option.Rel DecimalWindow.Same window window') {a b : Decimal} (h : a.Same b)
    (block : Bytes) :
    Agree Value.Same ((noise.plan window a).read block) ((noise'.plan window' b).read block) := by
  have hagree := hnoise.apply_agree hwindow h block
  unfold NoiseDecimal.plan
  dsimp only
  generalize noise.apply window a block = result at hagree ⊢
  generalize noise'.apply window' b block = result' at hagree ⊢
  cases hagree with
  | ok hsame => exact .ok (.decimal hsame)
  | error e => exact .error _

/-! ## Reading values -/

namespace Value

/-- Two values that are taken for the same value of a kind, decimals compared as numbers. -/
inductive ReadAlike : ValueKind → Value → Value → Prop where
  | integer {v v' : Value} {n : Int64} (h : v.integer? = .ok n) (h' : v'.integer? = .ok n) :
    ReadAlike .integer v v'
  | float {v v' : Value} {x : Float} (h : v.float? = .ok x) (h' : v'.float? = .ok x) :
    ReadAlike .float v v'
  | decimal {v v' : Value} {a b : Decimal} (h : v.decimal? = .ok a) (h' : v'.decimal? = .ok b)
    (hsame : a.Same b) : ReadAlike .decimal v v'
  | timestamp {v v' : Value} {t : Instant} (h : v.timestamp? = .ok t) (h' : v'.timestamp? = .ok t) :
    ReadAlike .timestamp v v'
  | mac {v v' : Value} {a : MacAddress} (h : v.mac? = .ok a) (h' : v'.mac? = .ok a) :
    ReadAlike .mac v v'

end Value

namespace Transformer

variable {t : Transformer} {v v' : Value}

/-- The same request gives the same masking. -/
theorem alike_of_request? (h : t.rule.request? v = t.rule.request? v') :
    Masking.Alike (t.transform v) (t.transform v') := by
  have htransform : t.transform v = t.transform v' := by
    unfold transform
    rw [h]
  rw [htransform]
  exact .refl _

/-- Requests whose plans ask the same and read the answers alike give the same masking. -/
theorem alike_of_plan (request request' : Request t.rule) {plan plan' : Plan}
    (h : t.rule.request? v = .ok request) (h' : t.rule.request? v' = .ok request')
    (hplan : request.plan = .ok plan) (hplan' : request'.plan = .ok plan')
    (hinput : plan.input = plan'.input)
    (hread : ∀ block, Agree Value.Same (plan.read block) (plan'.read block)) :
    Masking.Alike (t.transform v) (t.transform v') := by
  rw [transform_of_ok h, transform_of_ok h', call_of_ok hplan, call_of_ok hplan']
  exact Masking.alike_run hinput hread _ _

/-- **Values that are read alike** are masked alike. -/
theorem transform_readAlike {kind : ValueKind} (hwanted : t.rule.wanted? = some kind)
    (h : v.ReadAlike kind v') : Masking.Alike (t.transform v) (t.transform v') := by
  obtain ⟨rule, generator, hrequired⟩ := t
  -- both texts give the kind that is wanted the same meaning, so both make the same request
  cases rule with
  | noiseInteger noise =>
    obtain rfl : ValueKind.integer = kind := Option.some.inj hwanted
    cases h with
    | integer h h' => exact alike_of_request? (by simp [Rule.request?, h, h'])
  | noiseFloat noise =>
    obtain rfl : ValueKind.float = kind := Option.some.inj hwanted
    cases h with
    | float h h' => exact alike_of_request? (by simp [Rule.request?, h, h'])
  | noiseDecimal noise =>
    obtain rfl : ValueKind.decimal = kind := Option.some.inj hwanted
    cases h with
    | decimal h h' hsame =>
      -- the plain text, with which the generator is asked, is that of the number
      refine alike_of_plan (.noiseDecimal _ none) (.noiseDecimal _ none)
        (by simp only [Rule.request?, h]; rfl) (by simp only [Rule.request?, h']; rfl) rfl rfl ?_
        ((NoiseDecimal.Same.refl noise).read_agree .none hsame)
      exact congrArg Bytes.ofString (Decimal.plainText_eq_of_same hsame)
  | noiseTime noise =>
    obtain rfl : ValueKind.timestamp = kind := Option.some.inj hwanted
    cases h with
    | timestamp h h' => exact alike_of_request? (by simp [Rule.request?, h, h'])
  | randomMac r =>
    by_cases hkeep : r.keepVendor
    · obtain rfl : ValueKind.mac = kind := by simpa [Rule.wanted?, hkeep] using hwanted
      cases h with
      | mac h h' => exact alike_of_request? (by simp [Rule.request?, hkeep, h, h'])
    · simp [Rule.wanted?, hkeep] at hwanted
  | _ => cases hwanted

end Transformer

/-! ## Texts that spell a value -/

namespace Value

/-- The texts that spell a value where a value of a kind is wanted, blanks around them apart. An
integer may have a plus sign and zeros in front; a decimal may be written with any scale and
exponent that give the same number, also where the float nearest to it is wanted, but there zero has
no minus sign; an instant may be told by the time at any distance from UTC where the year has four
digits; an address may have colons or dashes and digits of either case. -/
inductive Spells : ValueKind → Value → List Char → Prop where
  | integer {v : Int64} (sign : Sign) {ds : List Char} (hds : Digits ds) (hne : ds ≠ [])
    (hvalue : sign.apply (digitsValue ds) = v.toInt) :
    Spells .integer (.integer v) (sign.chars ++ ds)
  | rounded {v : Int64} (s : Decimal.Spelling) (hsame : (Decimal.ofInt v.toInt).Same s.decimal)
    (hsign : s.sign = .minus → v ≠ 0) : Spells .float (.integer v) s.chars
  | nearest {d : Decimal} (s : Decimal.Spelling) (hsame : d.Same s.decimal)
    (hsign : s.sign = .minus → d.coefficient ≠ 0) :
    Spells .float (.float (Binary64.nearest d)) s.chars
  | decimal {d : Decimal} (s : Decimal.Spelling) (hrange : s.InRange) (hsame : d.Same s.decimal) :
    Spells .decimal (.decimal d) s.chars
  | whole {v : Int64} (s : Decimal.Spelling) (hrange : s.InRange)
    (hsame : (Decimal.ofInt v.toInt).Same s.decimal) : Spells .decimal (.integer v) s.chars
  | timestamp {t there : Instant} (o : Offset) (hyear : 0 ≤ there.year ∧ there.year ≤ 9999)
    (hseconds : t.seconds = there.seconds - o.seconds) (hnanos : t.nanos = there.nanos) :
    Spells .timestamp (.timestamp t) (there.localText ++ o.chars)
  | mac {a : MacAddress} {cs : List Char} (h : a.Spelled cs) : Spells .mac (.mac a) cs

/-- Values whose canonical text is read back: an instant needs a year of four digits, a decimal a
scale that its type can hold. -/
def Legible : Value → Prop
  | .timestamp t => 0 ≤ t.year ∧ t.year ≤ 9999
  | .decimal d => d.WordScale
  | _ => True

variable {kind : ValueKind} {v : Value} {cs before after : List Char}

/-- There are no blanks in the spelling of a value. -/
theorem Spells.unblanked (h : Spells kind v cs) : Unblanked cs := by
  cases h with
  | integer sign hds hne hvalue => exact unblanked_append.mpr ⟨sign.unblanked, hds.unblanked⟩
  | rounded s hsame hsign => exact s.unblanked
  | nearest s hsame hsign => exact s.unblanked
  | decimal s hrange hsame => exact s.unblanked
  | whole s hrange hsame => exact s.unblanked
  | timestamp o hyear hseconds hnanos => exact Instant.unblanked_localText _ o
  | mac h => exact h.unblanked

/-- A text that spells a value is read as the value, with blanks around it as well. -/
theorem Spells.readAlike (h : Spells kind v cs) (hbefore : Blanks before) (hafter : Blanks after) :
    v.ReadAlike kind (.text (String.ofList (before ++ cs ++ after))) := by
  have htrim : trim (String.ofList (before ++ cs ++ after)) = String.ofList cs := by
    have hblanks := trim_blanks hbefore hafter (String.ofList cs)
    rwa [String.toList_ofList, trim_unblanked h.unblanked] at hblanks
  -- the blanks are trimmed and what is left is read
  cases h with
  | integer sign hds hne hvalue =>
    exact .integer rfl (by
      simp only [integer?, parseText, htrim, int64?_signed sign hds hne hvalue])
  | @rounded v s hsame hsign =>
    -- zero has no minus sign, and so the spelling of any other integer is rounded like the integer
    have hne : s.sign = .minus → (Decimal.ofInt v.toInt).coefficient ≠ 0 := fun hminus hzero =>
      hsign hminus (Int64.toInt_inj.mp hzero)
    have hread := Binary64.parse?_spelling s hsame hne
    rw [Binary64.nearest_ofInt] at hread
    exact .float rfl (by simp only [float?, parseText, htrim, hread])
  | nearest s hsame hsign =>
    exact .float rfl (by
      simp only [float?, parseText, htrim, Binary64.parse?_spelling s hsame hsign])
  | decimal s hrange hsame =>
    exact .decimal rfl (by simp only [decimal?, parseText, htrim, Decimal.parse?_spelling s hrange])
      hsame
  | whole s hrange hsame =>
    exact .decimal rfl (by simp only [decimal?, parseText, htrim, Decimal.parse?_spelling s hrange])
      hsame
  | timestamp o hyear hseconds hnanos =>
    exact .timestamp rfl (by
      simp only [timestamp?, parseText, htrim, Instant.parse?_localText hyear o hseconds hnanos])
  | mac h =>
    exact .mac rfl (by simp only [mac?, htrim, MacAddress.parse, MacAddress.parse?_spelled h])

/-- Blanks around a text that is read as a value do not count. -/
theorem readAlike_blanks {s : String} (hspelled : kind.Spelled s) (hbefore : Blanks before)
    (hafter : Blanks after) :
    ReadAlike kind (.text s) (.text (String.ofList (before ++ s.toList ++ after))) := by
  have htrim := trim_blanks hbefore hafter s
  -- the kinds that are read from texts; the others are never spelled
  cases kind with
  | integer =>
    obtain ⟨n, hn⟩ := Option.isSome_iff_exists.mp hspelled
    exact .integer (n := n) (by simp only [integer?, parseText, hn])
      (by simp only [integer?, parseText, htrim, hn])
  | float =>
    obtain ⟨x, hx⟩ := Option.isSome_iff_exists.mp hspelled
    exact .float (x := x) (by simp only [float?, parseText, hx])
      (by simp only [float?, parseText, htrim, hx])
  | decimal =>
    obtain ⟨d, hd⟩ := Option.isSome_iff_exists.mp hspelled
    exact .decimal (a := d) (b := d) (by simp only [decimal?, parseText, hd])
      (by simp only [decimal?, parseText, htrim, hd]) (.refl d)
  | timestamp =>
    obtain ⟨t, ht⟩ := Option.isSome_iff_exists.mp hspelled
    exact .timestamp (t := t) (by simp only [timestamp?, parseText, ht])
      (by simp only [timestamp?, parseText, htrim, ht])
  | mac =>
    obtain ⟨a, ha⟩ := Option.isSome_iff_exists.mp hspelled
    exact .mac (a := a) (by simp only [mac?, MacAddress.parse, ha])
      (by simp only [mac?, MacAddress.parse, htrim, ha])
  | text => exact hspelled.elim
  | uuid => exact hspelled.elim
  | bool => exact hspelled.elim
  | ip => exact hspelled.elim

/-- The digits of an integer spell it where a decimal is wanted as well. -/
theorem exists_spelling_ofInt (n : Int) : ∃ s : Decimal.Spelling, s.InRange ∧
    (Decimal.ofInt n).Same s.decimal ∧ (toString n).toList = s.chars := by
  obtain ⟨s, -, hnone, hchars, hdecimal⟩ := Decimal.exists_spelling_withPoint (Sign.ofInt n)
    (digits_ofNat n.natAbs) (ofNat_ne_nil n.natAbs) 0
  have hnumber : s.decimal = Decimal.ofInt n := by
    rw [hdecimal, digitsValue_ofNat, Sign.apply_ofInt]
    rfl
  refine ⟨s, Decimal.Spelling.inRange_of_none hnone ?_, ?_, ?_⟩
  · rw [hnumber]
    exact (by decide : SignedWord 0)
  · rw [hnumber]
    exact .refl _
  · rw [toString_int, String.toList_ofList, hchars]
    rfl

/-- The canonical text of a value spells it. -/
theorem spells_write (htext : v.kind ≠ .text) (hserves : v.kind.Serves kind) (hlegible : v.Legible)
    (hkind : kind = .integer ∨ kind = .decimal ∨ kind = .timestamp ∨ kind = .mac) :
    Spells kind v v.write.toList := by
  cases v with
  | integer v =>
    -- an integer serves for itself and for decimals
    rcases hserves with rfl | ⟨-, rfl | rfl⟩
    · rw [write, toString_int, String.toList_ofList]
      exact .integer _ (digits_ofNat _) (ofNat_ne_nil _) (by simp)
    · simp at hkind
    · obtain ⟨s, hrange, hsame, hchars⟩ := exists_spelling_ofInt v.toInt
      rw [write, hchars]
      exact .whole s hrange hsame
  | decimal d =>
    obtain rfl : ValueKind.decimal = kind := hserves.resolve_right (by simp [Value.kind])
    obtain ⟨s, hnone, hscale, hsame, hchars⟩ := Decimal.exists_spelling_plainText d
    have hword := hlegible.2
    have hnonneg := Decimal.Spelling.scale_nonneg hnone
    -- the scale of what is legible fits a word, and no exponent is written
    have hrange : s.InRange := Decimal.Spelling.inRange_of_none hnone (by omega)
    rw [write, hchars, String.toList_ofList]
    exact .decimal s hrange hsame.symm
  | timestamp t =>
    obtain rfl : ValueKind.timestamp = kind := hserves.resolve_right (by simp [Value.kind])
    rw [write, Instant.text, String.toList_ofList]
    exact .timestamp .utc hlegible (by simp [Offset.seconds]) rfl
  | mac a =>
    obtain rfl : ValueKind.mac = kind := hserves.resolve_right (by simp [Value.kind])
    exact .mac a.spelled_text
  | text s => exact absurd rfl htext
  -- the other kinds serve for themselves only, which is none of the four
  | _ =>
    obtain rfl := hserves.resolve_right (by simp [Value.kind])
    simp [Value.kind] at hkind

end Value

/-! ## Masking values and their texts -/

namespace Rule

/-- The kinds of which rules need values, apart from floats. -/
theorem wanted?_cases {rule : Rule} {kind : ValueKind} (h : rule.wanted? = some kind)
    (hfloat : rule.kind ≠ .noiseFloat) :
    kind = .integer ∨ kind = .decimal ∨ kind = .timestamp ∨ kind = .mac := by
  cases rule with
  | noiseInteger noise => exact .inl (Option.some.inj h).symm
  | noiseFloat noise => exact absurd rfl hfloat
  | noiseDecimal noise => exact .inr (.inl (Option.some.inj h).symm)
  | noiseTime noise => exact .inr (.inr (.inl (Option.some.inj h).symm))
  | randomMac r =>
    by_cases hkeep : r.keepVendor
    · obtain rfl : ValueKind.mac = kind := by simpa [wanted?, hkeep] using h
      exact .inr (.inr (.inr rfl))
    · simp [wanted?, hkeep] at h
  | _ => cases h

/-- A rule that takes any value asks with its canonical text. -/
theorem request?_write {rule : Rule} (h : rule.wanted? = none) (v : Value) :
    rule.request? v = rule.request? (.text v.write) := by
  cases rule with
  | randomMac r =>
    by_cases hkeep : r.keepVendor
    · simp [wanted?, hkeep] at h
    · simp only [request?, if_neg hkeep]
      rfl
  | noiseInteger noise => cases h
  | noiseFloat noise => cases h
  | noiseDecimal noise => cases h
  | noiseTime noise => cases h
  | _ => rfl

end Rule

namespace Transformer

variable {t : Transformer} {v : Value}

/-- **A value and its canonical text** are masked alike. -/
theorem transform_write (hfloat : t.rule.kind ≠ .noiseFloat) (hlegible : v.Legible)
    (haccepted : ∀ e, ¬ t.rule.Refuses v e) :
    Masking.Alike (t.transform v) (t.transform (.text v.write)) := by
  rcases hwanted : t.rule.wanted? with - | kind
  · -- a rule that wants no kind takes the text of the value as its input anyway
    exact alike_of_request? (Rule.request?_write hwanted v)
  · by_cases htext : v.kind = .text
    · -- a text is its own canonical text
      cases v with
      | text s => exact .refl _
      | _ => simp [Value.kind] at htext
    · have hserves : v.kind.Serves kind := by
        by_contra hnot
        exact haccepted _ ⟨kind, hwanted, .kind htext hnot⟩
      have hspells := Value.spells_write htext hserves hlegible (Rule.wanted?_cases hwanted hfloat)
      have hread := hspells.readAlike blanks_nil blanks_nil
      rw [List.nil_append, List.append_nil, String.ofList_toList] at hread
      exact transform_readAlike hwanted hread

/-- **A value and its texts are interchangeable.** A transformer that does not add noise to floats
masks every value that it accepts like the canonical text of the value. A transformer that needs a
value of some kind looks at this value only: what is taken for the same value is masked alike, and
so are all texts that spell a value, with any blanks around them. -/
theorem transform_interchange (t : Transformer) :
    (t.rule.kind ≠ .noiseFloat → ∀ v : Value, v.Legible → (∀ e, ¬ t.rule.Refuses v e) →
      Masking.Alike (t.transform v) (t.transform (.text v.write))) ∧
    ∀ kind, t.rule.wanted? = some kind →
      (∀ v v' : Value, v.ReadAlike kind v' → Masking.Alike (t.transform v) (t.transform v')) ∧
      (∀ (v : Value) (cs before after : List Char), v.Spells kind cs → Blanks before →
        Blanks after → Masking.Alike (t.transform v)
          (t.transform (.text (String.ofList (before ++ cs ++ after))))) ∧
      ∀ (s : String) (before after : List Char), kind.Spelled s → Blanks before → Blanks after →
        Masking.Alike (t.transform (.text s))
          (t.transform (.text (String.ofList (before ++ s.toList ++ after)))) := by
  refine ⟨fun hfloat v => transform_write hfloat, fun kind hwanted => ⟨fun v v' h => ?_, ?_, ?_⟩⟩
  · exact transform_readAlike hwanted h
  · intro v cs before after hspells hbefore hafter
    exact transform_readAlike hwanted (hspells.readAlike hbefore hafter)
  · intro s before after hspelled hbefore hafter
    exact transform_readAlike hwanted (Value.readAlike_blanks hspelled hbefore hafter)

/-- Half a second into the leap second at the end of 2016. -/
def leapSecond : Instant := (Instant.make? 1483228799 1500000000).get (by decide)

/-- The same instant by the clocks of a place nine and a half hours ahead of UTC. -/
def leapSecondAhead : Instant := (Instant.make? 1483262999 1500000000).get (by decide)

theorem transform_interchange_leapSecond :
    let rule : Rule := .noiseTime ⟨0, 1, by decide, by decide, by decide, by decide, none, none⟩
    let t := attached rule (.source (.digest 0 .sha3_224 [])) (by decide)
    Masking.Alike (t.transform (.timestamp leapSecond))
        (t.transform (.text "2016-12-31T23:59:60.500Z")) ∧
      Masking.Alike (t.transform (.timestamp leapSecond))
        (t.transform (.text " 2017-01-01T09:29:60.500+09:30")) := by
  intro rule t
  obtain ⟨hwrite, htexts⟩ := transform_interchange t
  have hcanonical := hwrite (by decide) (.timestamp leapSecond) ⟨by decide, by decide⟩ (by
    rintro e ⟨kind, hwanted, hmismatch⟩
    obtain rfl : ValueKind.timestamp = kind := Option.some.inj hwanted
    cases hmismatch with
    | kind _ hkind => exact hkind (.inl rfl))
  have hahead := (htexts .timestamp rfl).2.1 (.timestamp leapSecond)
    (leapSecondAhead.localText ++ (Offset.signed false 9 30).chars) [' '] []
    (.timestamp _ ⟨by decide, by decide⟩ (by decide) rfl) (by simp [Blanks]; decide) blanks_nil
  exact ⟨hcanonical, hahead⟩

end Transformer

end ColumnMask
