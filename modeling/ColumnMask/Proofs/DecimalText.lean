import Mathlib
import ColumnMask.Binary64
import ColumnMask.Decimal
import ColumnMask.Proofs.Decimal
import ColumnMask.Proofs.Text

/-!
# Reading decimals

A number can be spelled in many ways: with a plus sign, with zeros at either end, with an exponent
of either case. Every spelling is read, and as the number that it stands for; in particular the
shortest text of every finite float is.

- `Decimal.Spelling`: digits on both sides of a point, with a sign and an exponent.
- `Decimal.parse?_spelling`: what a spelling is read as.
- `Decimal.exists_spelling_fullDigits`: all digits of a number are a spelling of it.
- `Binary64.exists_parse?_text`, `Binary64.parse?_text_of_not_finite`: the text of a float is read
  as a decimal if the float is finite, and otherwise it is not.
-/

namespace ColumnMask

namespace Decimal

open Text

/-- A scale that a signed 64-bit word holds. -/
abbrev WordScale (d : Decimal) : Prop := SignedWord d.scale

/-! ## Spellings -/

/-- An exponent as it is written. -/
structure Exponent where
  mark : Char
  sign : Sign
  digits : List Char
  mark_eq : mark = 'e' ∨ mark = 'E'
  digits_digits : Digits digits
  digits_ne_nil : digits ≠ []

namespace Exponent

/-- The exponent with its mark. -/
def chars (e : Exponent) : List Char := e.mark :: (e.sign.chars ++ e.digits)

/-- The exponent that is written. -/
def value (e : Exponent) : Int := e.sign.apply (digitsValue e.digits)

end Exponent

/-- A way to write a decimal number. There is a digit at least on one side of the point. -/
structure Spelling where
  sign : Sign
  whole : List Char
  /-- The digits after the point, if there is a point. -/
  fraction : Option (List Char)
  exponent : Option Exponent
  whole_digits : Digits whole
  fraction_digits : Digits (fraction.getD [])
  digits_ne_nil : whole ++ fraction.getD [] ≠ []

namespace Spelling

/-- All digits before the exponent. -/
def digits (s : Spelling) : List Char := s.whole ++ s.fraction.getD []

/-- The point and the digits after it. -/
def fractionText : Option (List Char) → List Char
  | none => []
  | some ds => '.' :: ds

@[simp] theorem fractionText_none : fractionText none = [] := rfl

@[simp] theorem fractionText_some (ds : List Char) : fractionText (some ds) = '.' :: ds := rfl

/-- The exponent with its mark. -/
def exponentText : Option Exponent → List Char
  | none => []
  | some e => e.chars

@[simp] theorem exponentText_none : exponentText none = [] := rfl

@[simp] theorem exponentText_some (e : Exponent) : exponentText (some e) = e.chars := rfl

/-- The text before the exponent. -/
def base (s : Spelling) : List Char := s.sign.chars ++ s.whole ++ fractionText s.fraction

/-- The whole text. -/
def chars (s : Spelling) : List Char := s.base ++ exponentText s.exponent

/-- The exponent, zero if none is written. -/
def exponentValue (s : Spelling) : Int := (s.exponent.map Exponent.value).getD 0

/-- The number that is written; the digits after the point and the exponent make up its scale. -/
def decimal (s : Spelling) : Decimal :=
  ⟨s.sign.apply (digitsValue s.digits), (s.fraction.getD []).length - s.exponentValue⟩

/-- Whether exponent and scale fit into the words that hold them. -/
def InRange (s : Spelling) : Prop :=
  (-Int.pow 2 127 ≤ s.exponentValue ∧ s.exponentValue < Int.pow 2 127) ∧ s.decimal.WordScale

theorem digits_digits (s : Spelling) : Digits s.digits :=
  s.whole_digits.append s.fraction_digits

/-- There are no blanks in a spelling. -/
theorem unblanked (s : Spelling) : Unblanked s.chars := by
  have hfraction : Unblanked (fractionText s.fraction) := by
    have hdigits := s.fraction_digits
    cases hds : s.fraction with
    | none => exact unblanked_nil
    | some ds =>
      rw [hds] at hdigits
      exact unblanked_cons.mpr ⟨by decide, hdigits.unblanked⟩
  -- piece by piece: the sign and the digits, the fraction, and then the exponent
  have hbase : Unblanked s.base :=
    unblanked_append.mpr ⟨unblanked_append.mpr ⟨s.sign.unblanked, s.whole_digits.unblanked⟩,
      hfraction⟩
  refine unblanked_append.mpr ⟨hbase, ?_⟩
  cases s.exponent with
  | none => exact unblanked_nil
  | some e =>
    have hmark : isBlank e.mark = false := by
      rcases e.mark_eq with hm | hm <;> rw [hm] <;> decide
    exact unblanked_cons.mpr
      ⟨hmark, unblanked_append.mpr ⟨e.sign.unblanked, e.digits_digits.unblanked⟩⟩

/-- Without an exponent the scale is the number of digits after the point. -/
theorem scale_nonneg {s : Spelling} (h : s.exponent = none) : 0 ≤ s.decimal.scale := by
  simp [decimal, exponentValue, h]

/-- Without an exponent only the digits after the point can be too many. -/
theorem inRange_of_none {s : Spelling} (h : s.exponent = none)
    (hscale : s.decimal.WordScale) : s.InRange := by
  have hvalue : s.exponentValue = 0 := by rw [exponentValue, h]; rfl
  refine ⟨?_, hscale⟩
  rw [hvalue]
  decide

end Spelling

/-! ## Reading -/

variable {digits : List Char}

theorem digits?_eq (hne : digits ≠ []) (h : Digits digits) :
    digits? digits = some (digitsValue digits) := by
  have hfilter : digits.filter isDigit = digits := List.filter_eq_self.mpr h
  have hall : (digits.all fun c => isDigit c || c == '_') = true := by
    rw [List.all_eq_true]
    intro c hc
    rw [h c hc]
    rfl
  unfold digits?
  split
  · contradiction
  · exact absurd rfl (ne_of_isDigit (h '_' (by simp)) (by decide))
  · rw [if_pos hall, hfilter]

theorem coefficient?_signed (sign : Sign) (hne : digits ≠ []) (h : Digits digits) :
    coefficient? (sign.chars ++ digits) = some (sign.apply (digitsValue digits)) := by
  cases sign with
  | plus =>
    show coefficient? ('+' :: digits) = _
    rw [coefficient?, digits?_eq hne h]
    rfl
  | minus =>
    show coefficient? ('-' :: digits) = _
    rw [coefficient?, digits?_eq hne h]
    rfl
  | none =>
    obtain ⟨c, rest, rfl⟩ := List.exists_cons_of_ne_nil hne
    -- a digit comes first, so the text is taken to have no sign
    obtain ⟨hminus, hplus⟩ := head_ne_sign h
    show coefficient? (c :: rest) = _
    unfold coefficient?
    split
    case h_1 heq => exact absurd (List.cons.inj heq).1 hminus
    case h_2 heq => exact absurd (List.cons.inj heq).1 hplus
    case h_3 =>
      rw [digits?_eq hne h]
      rfl

theorem exponent?_signed (sign : Sign) (hne : digits ≠ []) (h : Digits digits)
    (hrange : -Int.pow 2 127 ≤ sign.apply (digitsValue digits) ∧
      sign.apply (digitsValue digits) < Int.pow 2 127) :
    exponent? (sign.chars ++ digits) = some (sign.apply (digitsValue digits)) := by
  -- what stands behind the sign is one number, whatever the sign is
  have hall : digits.all isDigit = true := List.all_eq_true.mpr h
  have hnumber : (if (digits.isEmpty || !digits.all isDigit) = true then none
      else some (digitsValue digits : Int)) = some (digitsValue digits : Int) := by
    simp [hall, hne]
  cases sign with
  | plus =>
    simp only [Sign.apply] at hrange ⊢
    show exponent? ('+' :: digits) = _
    simp only [exponent?, hnumber]
    rw [Option.bind_eq_bind, Option.bind_some, if_pos hrange]
  | minus =>
    simp only [Sign.apply] at hrange ⊢
    show exponent? ('-' :: digits) = _
    simp only [exponent?, hnumber, Option.map_some]
    rw [Option.bind_eq_bind, Option.bind_some, if_pos hrange]
  | none =>
    obtain ⟨c, rest, rfl⟩ := List.exists_cons_of_ne_nil hne
    obtain ⟨hminus, hplus⟩ := head_ne_sign h
    -- again a digit comes first
    simp only [Sign.apply] at hrange ⊢
    show exponent? (c :: rest) = _
    unfold exponent?
    split
    case h_1 heq => exact absurd (List.cons.inj heq).1 hminus
    case h_2 heq => exact absurd (List.cons.inj heq).1 hplus
    case h_3 =>
      simp only [hnumber]
      rw [Option.bind_eq_bind, Option.bind_some, if_pos hrange]

/-- A sign is none of the characters that mean something else. -/
theorem ne_of_mem_sign {sign : Sign} {c other : Char} (h : c ∈ sign.chars)
    (hother : other ≠ '+' ∧ other ≠ '-') : c ≠ other := by
  rintro rfl
  cases sign with
  | none => simp [Sign.chars] at h
  | plus => exact hother.1 (List.mem_singleton.mp h)
  | minus => exact hother.2 (List.mem_singleton.mp h)

namespace Spelling

variable (s : Spelling)

/-- Before the point there are a sign and digits only. -/
theorem ne_of_mem_whole {c other : Char} (h : c ∈ s.sign.chars ++ s.whole)
    (hsign : other ≠ '+' ∧ other ≠ '-') (hdigit : isDigit other = false) : c ≠ other := by
  rcases List.mem_append.mp h with hc | hc
  · exact ne_of_mem_sign hc hsign
  · exact ne_of_isDigit (s.whole_digits c hc) hdigit

/-- There is no mark of an exponent before the exponent. -/
theorem base_unmarked : ∀ c ∈ s.base, (c != 'e' && c != 'E') = true := by
  intro c hc
  rw [Bool.and_eq_true, bne_iff_ne, bne_iff_ne]
  -- neither the sign, nor the digits, nor the point is a mark
  rcases List.mem_append.mp hc with hwhole | hrest
  · exact ⟨s.ne_of_mem_whole hwhole (by decide) (by decide),
      s.ne_of_mem_whole hwhole (by decide) (by decide)⟩
  · have hdigits := s.fraction_digits
    cases hfraction : s.fraction with
    | none => simp [hfraction] at hrest
    | some ds =>
      rw [hfraction] at hrest hdigits
      rcases List.mem_cons.mp hrest with rfl | hdigit
      · decide
      · have hc := hdigits c hdigit
        exact ⟨ne_of_isDigit hc (by decide), ne_of_isDigit hc (by decide)⟩

/-- The point, if there is one, is found. -/
theorem mantissa?_base :
    mantissa? s.base = some (s.sign.apply (digitsValue s.digits), (s.fraction.getD []).length) := by
  -- the first point is the one that was written, as there is none before it
  have hfront : ∀ c ∈ s.sign.chars ++ s.whole, (c != '.') = true := fun c hc =>
    bne_iff_ne.mpr (s.ne_of_mem_whole hc (by decide) (by decide))
  have htake : s.base.takeWhile (· != '.') = s.sign.chars ++ s.whole := by
    rw [base, List.takeWhile_append_of_pos hfront]
    cases s.fraction with
    | none => simp
    | some ds => simp
  have hdrop : (s.base.dropWhile (· != '.')).drop 1 = s.fraction.getD [] := by
    rw [base, List.dropWhile_append_of_pos hfront]
    cases s.fraction with
    | none => simp
    | some ds => simp
  -- no underscore takes away from the places
  have hplaces : (s.fraction.getD []).countP (· != '_') = (s.fraction.getD []).length := by
    rw [List.countP_eq_length]
    intro c hc
    rw [bne_iff_ne]
    exact ne_of_isDigit (s.fraction_digits c hc) (by decide)
  rw [mantissa?, htake, hdrop, hplaces, List.append_assoc,
    coefficient?_signed s.sign s.digits_ne_nil s.digits_digits]
  rfl

/-- The text is cut where the exponent begins. -/
theorem takeWhile_chars : s.chars.takeWhile (fun c => c != 'e' && c != 'E') = s.base := by
  rw [chars, List.takeWhile_append_of_pos s.base_unmarked]
  cases s.exponent with
  | none => simp
  | some e => rcases e.mark_eq with hm | hm <;> simp [Exponent.chars, hm]

theorem dropWhile_chars :
    s.chars.dropWhile (fun c => c != 'e' && c != 'E') = exponentText s.exponent := by
  rw [chars, List.dropWhile_append_of_pos s.base_unmarked]
  cases s.exponent with
  | none => simp
  | some e => rcases e.mark_eq with hm | hm <;> simp [Exponent.chars, hm]

end Spelling

/-- **A spelling** is read as the number that it stands for. -/
theorem parse?_spelling (s : Spelling) (h : s.InRange) :
    parse? (String.ofList s.chars) = some s.decimal := by
  obtain ⟨hexponent, hscale⟩ := h
  unfold WordScale at hscale
  have hdrop := s.dropWhile_chars
  unfold parse?
  rw [String.toList_ofList]
  dsimp only
  rw [s.takeWhile_chars, s.mantissa?_base]
  rcases hwritten : s.exponent with - | e
  · -- without an exponent the scale is the number of places
    rw [hwritten, Spelling.exponentText_none] at hdrop
    have hvalue : s.exponentValue = 0 := by rw [Spelling.exponentValue, hwritten]; rfl
    rw [Spelling.decimal, hvalue] at hscale ⊢
    simp only [hdrop]
    rw [Option.bind_eq_bind, Option.bind_some, Option.bind_eq_bind, Option.bind_some,
      if_pos hscale]
  · -- the exponent moves the scale, which stays in range as a whole
    rw [hwritten, Spelling.exponentText_some] at hdrop
    have hvalue : s.exponentValue = e.value := by rw [Spelling.exponentValue, hwritten]; rfl
    rw [hvalue] at hexponent
    rw [Spelling.decimal, hvalue] at hscale ⊢
    have hread := exponent?_signed e.sign e.digits_ne_nil e.digits_digits hexponent
    rw [← Exponent.value] at hread
    simp only [hdrop, Exponent.chars, hread]
    rw [Option.bind_eq_bind, Option.bind_some, Option.bind_eq_bind, Option.bind_some,
      if_pos hscale]

/-! ## All digits of a number -/

/-- Digits with a point among them, or with zeros between the point and them. -/
theorem exists_spelling_withPoint (sign : Sign) {ds : List Char} (h : Digits ds) (hne : ds ≠ [])
    (places : Nat) :
    ∃ s : Spelling, s.sign = sign ∧ s.exponent = none ∧
      s.chars = sign.chars ++ withPoint ds places ∧
      s.decimal = ⟨sign.apply (digitsValue ds), places⟩ := by
  unfold withPoint
  split_ifs with hzero hlt
  · -- no places, and no point
    subst hzero
    refine ⟨⟨sign, ds, none, none, h, by simp, by simpa using hne⟩, rfl, rfl, ?_, ?_⟩
    · simp [Spelling.chars, Spelling.base]
    · simp [Spelling.decimal, Spelling.digits, Spelling.exponentValue]
  · -- a point between the digits
    have htake : Digits (ds.take (ds.length - places)) :=
      fun c hc => h c (List.mem_of_mem_take hc)
    have hdrop : Digits (ds.drop (ds.length - places)) :=
      fun c hc => h c (List.mem_of_mem_drop hc)
    refine ⟨⟨sign, ds.take (ds.length - places), some (ds.drop (ds.length - places)), none, htake,
      hdrop, by simpa using hne⟩, rfl, rfl, ?_, ?_⟩
    · simp [Spelling.chars, Spelling.base]
    · have hlength : ds.length - (ds.length - places) = places := by omega
      simp [Spelling.decimal, Spelling.digits, Spelling.exponentValue, hlength]
  · -- zeros to fill the places in front of the digits
    have hzeros := digits_replicate_zero (places - ds.length)
    refine ⟨⟨sign, ['0'], some (List.replicate (places - ds.length) '0' ++ ds), none,
      digits_replicate_zero 1, hzeros.append h, by simp⟩, rfl, rfl, ?_, ?_⟩
    · simp [Spelling.chars, Spelling.base]
    · have hvalue : digitsValue ('0' :: (List.replicate (places - ds.length) '0' ++ ds)) =
          digitsValue ds := by
        rw [← digitsValue_zeros_append (places - ds.length + 1) ds, List.replicate_succ,
          List.cons_append]
      have hlength : places - ds.length + ds.length = places := by omega
      simp [Spelling.decimal, Spelling.digits, Spelling.exponentValue, hvalue, hlength]

/-- **All digits of a number** are a spelling of it without an exponent. -/
theorem exists_spelling_fullDigits (sign : Sign) (d : Decimal) :
    ∃ s : Spelling, s.sign = sign ∧ s.exponent = none ∧ s.chars = sign.chars ++ d.fullDigits ∧
      s.decimal.scale = max d.scale 0 ∧
      s.decimal.toRat = toRat ⟨sign.apply d.coefficient.natAbs, d.scale⟩ := by
  have hdigits := digits_ofNat d.coefficient.natAbs
  have hne := ofNat_ne_nil d.coefficient.natAbs
  obtain ⟨coefficient, scale⟩ := d
  cases scale with
  | ofNat places =>
    obtain ⟨s, hsign, hexponent, hchars, hdecimal⟩ :=
      exists_spelling_withPoint sign hdigits hne places
    refine ⟨s, hsign, hexponent, hchars, ?_, ?_⟩
    · simp [hdecimal]
    · rw [hdecimal, digitsValue_ofNat]
      rfl
  | negSucc n =>
    -- the zeros at the end are digits as well
    obtain ⟨s, hsign, hexponent, hchars, hdecimal⟩ := exists_spelling_withPoint sign
      (hdigits.append (digits_replicate_zero (n + 1))) (by simp [hne]) 0
    refine ⟨s, hsign, hexponent, hchars, ?_, ?_⟩
    · rw [hdecimal]
      simp only [Nat.cast_zero]
      omega
    · have hvalue : digitsValue (ofNat coefficient.natAbs ++ List.replicate (n + 1) '0') =
          coefficient.natAbs * 10 ^ (n + 1) := by simp [digitsValue_append]
      rw [hdecimal, hvalue, Sign.apply_mul, Nat.cast_pow, Nat.cast_ofNat, toRat_mul_pow]
      rfl

end Decimal

/-! ## Texts of floats -/

namespace Binary64

open Text Decimal

/-- The sign of a float as it is written. -/
def sign (negative : Bool) : Sign := if negative then .minus else .none

theorem signed_eq (negative : Bool) (cs : List Char) :
    signed negative cs = String.ofList ((sign negative).chars ++ cs) := by
  cases negative with
  | true => rfl
  | false => rfl

theorem stripZeros_exponent (fuel : Nat) (d : DecimalDigits) :
    d.exponent ≤ (stripZeros fuel d).exponent := by
  induction fuel generalizing d with
  | zero => exact le_refl _
  | succ fuel ih =>
    rw [stripZeros]
    split_ifs
    · exact le_trans (by simp) (ih _)
    · exact le_refl _

/-- There are never many digits after the point. -/
theorem le_shortest_exponent (tie : Tie) (m : Nat) (e : Int) :
    -418 ≤ (shortest tie m e).exponent := by
  unfold shortest
  dsimp only
  -- the shortest digits end at most sixteen places after the leading one
  cases hfound : (List.range 17).findSome? fun (n : Nat) =>
      (((interval m e).inUnits (leadingExponent (interval m e) - n)).nearest? tie).map fun digits =>
        stripZeros 17 ⟨digits, leadingExponent (interval m e) - n⟩ with
  | none =>
    rw [Option.getD_none]
    decide
  | some d =>
    obtain ⟨n, hn, hd⟩ := List.exists_of_findSome?_eq_some hfound
    obtain ⟨digits, -, rfl⟩ := Option.map_eq_some_iff.mp hd
    have hstrip := stripZeros_exponent 17 ⟨digits, leadingExponent (interval m e) - n⟩
    have hlead : -401 ≤ leadingExponent (interval m e) := by
      unfold leadingExponent
      omega
    have hbound := List.mem_range.mp hn
    rw [Option.getD_some]
    refine le_trans ?_ hstrip
    show (-418 : Int) ≤ leadingExponent (interval m e) - n
    omega

/-- Floats without an exponent are written as decimals are. -/
theorem positional_eq (d : DecimalDigits) :
    positional d = fullDigits ⟨d.digits, -d.exponent⟩ := by
  obtain ⟨digits, exponent⟩ := d
  cases exponent with
  | ofNat n =>
    cases n with
    | zero => simp [positional, fullDigits, withPoint]
    | succ n => rfl
  | negSucc n =>
    show _ = withPoint (Text.ofNat digits) (n + 1)
    rw [withPoint, if_neg (Nat.succ_ne_zero n)]
    rfl

/-- A float that is finite has a sign, a mantissa and an exponent. -/
theorem ofFloat_of_isFinite {x : Float} (h : x.isFinite = true) :
    ∃ negative m e, ofFloat x = finite negative m e := by
  unfold Float.isFinite Float.Model.isFinite at h
  unfold ofFloat
  cases hunpack : x.toModel.unpack with
  | notANumber =>
    rw [hunpack] at h
    contradiction
  | infinity sign =>
    rw [hunpack] at h
    contradiction
  | zero sign => exact ⟨_, _, _, rfl⟩
  | finite sign m e hm => exact ⟨_, _, _, rfl⟩

theorem text_of_pos {x : Float} {negative : Bool} {m : Nat} {e : Int}
    (hx : ofFloat x = finite negative m e) (hm : 0 < m) :
    text x = signed negative (positional (shortest .up m e)) := by
  obtain ⟨n, rfl⟩ := Nat.exists_eq_add_of_lt hm
  rw [text, hx]
  split
  · contradiction
  · contradiction
  · rename_i hzero
    obtain ⟨-, hzero, -⟩ := Binary64.finite.inj hzero
    omega
  · rename_i heq
    obtain ⟨rfl, rfl, rfl⟩ := Binary64.finite.inj heq
    rfl

/-- **The text of a finite float** is read as a decimal. -/
theorem exists_parse?_text {x : Float} (h : x.isFinite = true) :
    ∃ d, Decimal.parse? (text x) = some d := by
  obtain ⟨negative, m, e, hx⟩ := ofFloat_of_isFinite h
  -- the digits of some decimal with few digits after the point
  obtain ⟨d, hscale, htext⟩ : ∃ d : Decimal, d.scale ≤ 418 ∧
      text x = String.ofList ((sign negative).chars ++ d.fullDigits) := by
    rcases Nat.eq_zero_or_pos m with rfl | hpos
    · refine ⟨⟨0, 0⟩, by decide, ?_⟩
      rw [text, hx]
      exact signed_eq negative ['0']
    · have hexponent := le_shortest_exponent .up m e
      refine ⟨⟨(shortest .up m e).digits, -(shortest .up m e).exponent⟩,
        by simpa using by omega, ?_⟩
      rw [text_of_pos hx hpos, signed_eq, positional_eq]
  obtain ⟨s, -, hnone, hchars, hplaces, -⟩ := exists_spelling_fullDigits (sign negative) d
  have hrange : s.InRange := Spelling.inRange_of_none hnone (by omega)
  exact ⟨s.decimal, by rw [htext, ← hchars, parse?_spelling s hrange]⟩

/-- Any other text is not read as a decimal. -/
theorem parse?_text_of_not_finite {x : Float} (h : x.isFinite = false) :
    Decimal.parse? (text x) = none := by
  unfold Float.isFinite Float.Model.isFinite at h
  -- a float that is not finite is written as a word
  have hcases : ofFloat x = nan ∨ ∃ negative, ofFloat x = infinite negative := by
    unfold ofFloat
    cases hunpack : x.toModel.unpack with
    | notANumber => exact .inl rfl
    | infinity sign => exact .inr ⟨_, rfl⟩
    | zero sign =>
      rw [hunpack] at h
      contradiction
    | finite sign m e hm =>
      rw [hunpack] at h
      contradiction
  rcases hcases with hx | ⟨negative, hx⟩
  · rw [text, hx]
    decide
  · rw [text, hx]
    cases negative with
    | true => decide
    | false => decide

end Binary64

end ColumnMask
