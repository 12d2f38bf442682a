import Mathlib
import ColumnMask.Proofs.BoundEntry
import ColumnMask.Proofs.Notation
import ColumnMask.Proofs.PlainScalar

/-!
# Bounds without quotes

A decimal bound may be written with quotes or without them. Without them the bound is the number
that the reader makes of it on the way: an integer of a word is kept, a longer one is refused, and
what has a point or an exponent is taken for the nearest float, of which every digit counts. So 0.5
is one half with quotes and without, and 0.1 without them is a little more than a tenth.

- `Decimal.Spelling.Kept`: the spellings that need no quotes whatever their digits are.
- `Yaml.Node.decimal?`: the decimal of a scalar, with lemmas for each of the outcomes.
- `RuleOptions.setBound_same`: bounds that stand for the same number.
- `Config.unquoted_bound`: what becomes of a bound without quotes.
-/

namespace ColumnMask

open Text

/-! ## Scalars -/

namespace Decimal.Spelling

variable (s : Spelling)

/-- An integer that is one of 64 bits or has zeros in front. -/
def Kept : Prop :=
  s.IsInteger ∧ (s.Padded ∨ Word s.decimal.coefficient)

/-- The text of the spelling. -/
def text : String := String.ofList s.chars

variable {s}

theorem IsInteger.decimal_eq (h : s.IsInteger) : s.decimal = ofInt s.decimal.coefficient := by
  rw [decimal, h.1, exponentValue, h.2]
  rfl

end Decimal.Spelling

namespace Yaml

open Decimal (Spelling)

/-- The decimal that is read where a decimal is expected. -/
def Node.decimal? (n : Node) : Option Decimal := n.document?.bind Document.decimal?

/-- A scalar that spells a decimal, in quotes or without. -/
def boundScalar (plain : Bool) (s : Spelling) : Node := .scalar none plain s.text

variable {s : Spelling}

theorem document?_ne_null (plain : Bool) (s : Spelling) :
    (boundScalar plain s).document? ≠ some .null := by
  cases plain with
  | false =>
    rw [boundScalar, Spelling.text, document?_quoted]
    simp
  | true =>
    rw [boundScalar, Spelling.text, document?_plain, ofPlain_spelling]
    repeat' split
    all_goals simp [Meaning.document?]

theorem decimal?_quoted (hrange : s.InRange) :
    (boundScalar false s).decimal? = some s.decimal :=
  Decimal.parse?_spelling s hrange

theorem decimal?_kept (hrange : s.InRange) (h : s.Kept) :
    (boundScalar true s).decimal? = some s.decimal := by
  obtain ⟨hinteger, hkept⟩ := h
  by_cases hpadded : s.Padded
  · rw [Node.decimal?, boundScalar, Spelling.text, document?_padded hpadded]
    exact Decimal.parse?_spelling s hrange
  · obtain ⟨n, hn, hdocument⟩ := document?_word hinteger hpadded (hkept.resolve_left hpadded)
    rw [Node.decimal?, boundScalar, Spelling.text, hdocument, Option.bind_some,
      hinteger.decimal_eq, ← hn]
    rfl

theorem decimal?_wide (h : s.Wide) : (boundScalar true s).decimal? = none := by
  rw [Node.decimal?, boundScalar, Spelling.text, document?_wide h]
  rfl

/-- Any other spelling gives the exact value of the nearest float. -/
theorem decimal?_float (hlargest : |s.decimal.toRat| ≤ Decimal.largestFloat) (hkept : ¬ s.Kept)
    (hwide : ¬ s.Wide) :
    (boundScalar true s).decimal? = Decimal.ofFloat? (Binary64.nearest s.decimal) := by
  obtain ⟨x, hx, hdocument⟩ := document?_float hlargest fun hinteger =>
    have hpadded : ¬ s.Padded := fun h => hkept ⟨hinteger, .inl h⟩
    ⟨hpadded, fun hrange =>
      hwide ⟨hinteger, hpadded, fun hword => hkept ⟨hinteger, .inr hword⟩, hrange⟩⟩
  rw [Node.decimal?, boundScalar, Spelling.text, hdocument, ← hx]
  rfl

end Yaml

/-! ## The same bound -/

/-- A bound that is set on a side of the same bounds. -/
theorem Bounds.set_same (b : Bounds Decimal UInt32) (side : BoundSide) {x y : Decimal}
    (h : x.Same y) : (b.set side x).Same (b.set side y) := by
  have hrefl (bound : Option Decimal) : Option.Rel Decimal.Same bound bound := by
    cases bound with
    | none => exact .none
    | some d => exact .some (.refl d)
  cases side with
  | lower => exact ⟨.some h, hrefl _, rfl⟩
  | upper => exact ⟨hrefl _, .some h, rfl⟩

namespace RuleOptions

/-- Bounds that stand for the same number, in options that are otherwise the same. -/
theorem setBound_same {o : RuleOptions} (hkind : o.kind.HasDecimalBounds) (side : BoundSide)
    {x y : Decimal} (h : x.Same y) : (o.setBound side x).Same (o.setBound side y) := by
  cases o with
  | noiseDecimal minRatio maxRatio b precision =>
    exact .noiseDecimal minRatio maxRatio (b.set_same side h) precision
  | randomDecimal b precision => exact .randomDecimal (b.set_same side h) precision
  | randomBigInteger b => exact .randomBigInteger (b.set_same side h)
  | _ => simp [RuleKind.HasDecimalBounds, kind] at hkind

end RuleOptions

/-! ## Bounds with and without quotes -/

namespace Config

/-- **A bound without quotes.** In a configuration of a rule with decimal bounds, with a bound that
is spelled in quotes, the bound is the number that is spelled. Without the quotes an integer of a
word, or with zeros in front, makes no difference, and a longer integer is refused. In place of any
other number within the range of floats stands the exact value of the nearest float: it is close to
the number, and the same exactly if the number has at most 53 bits; then the rules that are made
cannot be told apart. Whatever is read without quotes is read with them. -/
theorem unquoted_bound (s : Decimal.Spelling) (hrange : s.InRange)
    (hlargest : |s.decimal.toRat| ≤ Decimal.largestFloat) (side : BoundSide)
    (tag keyTag : Option Yaml.Tag) (keyPlain : Bool)
    (before after : List (Yaml.Node × Yaml.Node)) (c : Config)
    (hkind : c.rule.kind.HasDecimalBounds) :
    let config (plain : Bool) := ofNode?
      (boundNode tag before after keyTag keyPlain side (Yaml.boundScalar plain s))
    (config false = some c →
      c.rule.bound? side = some s.decimal ∧
      (s.Kept → config true = some c) ∧
      (s.Wide → config true = none) ∧
      (¬ s.Kept → ¬ s.Wide → ∃ f,
        Decimal.ofFloat? (Binary64.nearest s.decimal) = some f ∧
        |f.toRat - s.decimal.toRat| ≤ Binary64.tolerance |s.decimal.toRat| ∧
        config true = some (c.setBound side f) ∧
        (f.Same s.decimal ↔ s.decimal.FitsFloat) ∧
        (s.decimal.FitsFloat →
          Parallel Rule.Interchangeable c.rule.rule? (c.setBound side f).rule.rule?))) ∧
    (config true = some c → ∃ c', config false = some c') := by
  intro config
  -- the entry is read as a bound, or the rule has no such bounds at all
  rcases ofNode?_boundNode tag before after keyTag keyPlain side with hother | ⟨rest, hrest⟩
  · exact ⟨fun h => absurd hkind (hother _ c h), fun h => absurd hkind (hother _ c h)⟩
  have hread (plain : Bool) : config plain =
      (Yaml.boundScalar plain s).decimal?.bind fun x => rest.map (·.setBound side x) :=
    hrest _ (Yaml.document?_ne_null plain s)
  have hquoted : config false = rest.map (·.setBound side s.decimal) := by
    rw [hread, Yaml.decimal?_quoted hrange, Option.bind_some]
  constructor
  · intro h
    obtain ⟨r, hr, rfl⟩ := Option.map_eq_some_iff.mp (hquoted.symm.trans h)
    -- without quotes only this one bound may be another
    have hplain (d : Decimal) (hd : (Yaml.boundScalar true s).decimal? = some d) :
        config true = some ((r.setBound side s.decimal).setBound side d) := by
      rw [hread, hd, hr, setBound_setBound]
      rfl
    have hkind' : r.rule.kind.HasDecimalBounds := by
      rwa [setBound, RuleOptions.kind_setBound] at hkind
    refine ⟨RuleOptions.bound?_setBound hkind' side _, fun hkept => ?_, fun hwide => ?_,
      fun hkept hwide => ?_⟩
    · rw [hplain _ (Yaml.decimal?_kept hrange hkept), setBound_setBound]
    · rw [hread, Yaml.decimal?_wide hwide, Option.bind_none]
    · obtain ⟨f, hf, herror, hsame⟩ := Decimal.exists_ofFloat?_nearest hlargest
      have hfloat := (Yaml.decimal?_float hlargest hkept hwide).trans hf
      refine ⟨f, hf, herror, hplain f hfloat, hsame, fun hfits => ?_⟩
      have hoptions := RuleOptions.setBound_same hkind' side (hsame.mpr hfits).symm
      rw [setBound_setBound]
      exact hoptions.rule?.mono fun rule rule' => Rule.Same.interchangeable
  · -- an entry that is read without quotes is read with them, too
    intro h
    obtain ⟨d, -, hd⟩ := Option.bind_eq_some_iff.mp ((hread true).symm.trans h)
    obtain ⟨r, hr, -⟩ := Option.map_eq_some_iff.mp hd
    exact ⟨r.setBound side s.decimal, by rw [hquoted, hr]; rfl⟩

/-- The spelling of a number of tenths with one digit before the point. -/
def tenths (d : Char) (h : isDigit d = true) : Decimal.Spelling :=
  ⟨.none, ['0'], some [d], none, by simp; decide, by simpa using h, by simp⟩

/-- The configuration of random decimals with a lower bound. -/
def fromBound (plain : Bool) (s : Decimal.Spelling) : Option Config :=
  ofNode? (boundNode none [(.scalar none true "transformer", .scalar none true "random_decimal")] []
    none true .lower (Yaml.boundScalar plain s))

/-- One half has one bit, so the quotes make no difference. -/
theorem unquoted_bound_half :
    let half := tenths '5' (by decide)
    ∃ c f, fromBound false half = some c ∧ fromBound true half = some (c.setBound .lower f) ∧
      f.Same ⟨5, 1⟩ ∧
      Parallel Rule.Interchangeable c.rule.rule? (c.setBound .lower f).rule.rule? := by
  intro half
  have hread : (fromBound false half).map (·.rule.kind) = some .randomDecimal := by decide +kernel
  obtain ⟨c, hc, hkind⟩ := Option.map_eq_some_iff.mp hread
  have hnumber : half.decimal.toRat = 1 / 2 := by
    show Decimal.toRat ⟨5, 1⟩ = _
    norm_num [Decimal.toRat]
  have hlargest : |half.decimal.toRat| ≤ Decimal.largestFloat := by
    have hone : (1 : ℚ) ≤ 2 ^ (971 : Int) := one_le_zpow₀ (by norm_num) (by norm_num)
    rw [hnumber, Decimal.largestFloat, abs_of_pos (by norm_num)]
    generalize (2 : ℚ) ^ (971 : Int) = place at hone ⊢
    linarith only [hone]
  have hinteger : ¬ half.IsInteger := fun h => Option.some_ne_none _ h.1
  have hfits : half.decimal.FitsFloat := ⟨1, -1, by decide, by decide, by decide, by
    rw [hnumber]
    norm_num⟩
  have hrange : half.InRange := Decimal.Spelling.inRange_of_none rfl (by decide)
  obtain ⟨-, -, -, hfloat⟩ := (unquoted_bound half hrange hlargest .lower none none true _ _ c
    (.inr (.inl hkind))).1 hc
  obtain ⟨f, -, -, hplain, hsame, hrules⟩ := hfloat (fun h => hinteger h.1) fun h => hinteger h.1
  exact ⟨c, f, hc, hplain, hsame.mpr hfits, hrules hfits⟩

/-- A tenth without quotes is not a tenth. -/
theorem unquoted_bound_tenth :
    let tenth := tenths '1' (by decide)
    (fromBound false tenth).bind (·.rule.bound? .lower) = some ⟨1, 1⟩ ∧
      (fromBound true tenth).bind (·.rule.bound? .lower) =
        some ⟨1000000000000000055511151231257827021181583404541015625, 55⟩ ∧
      ¬ Decimal.Same ⟨1, 1⟩ ⟨1000000000000000055511151231257827021181583404541015625, 55⟩ := by
  decide +kernel

end Config

end ColumnMask
