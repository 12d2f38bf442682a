import Mathlib
import ColumnMask.Instant
import ColumnMask.Proofs.Text

/-!
# Texts of durations

A duration is written as terms one after the other, with a sign in front of all of them. Reading
accepts just these texts, as long as the sum of the terms is in range, and gives the sum.

- `Duration.Term`: a number and a unit. `Duration.spell` writes terms with a sign.
- `Duration.term?_eq_some`, `Duration.terms?_eq_some`: what is read of a text.
- `Duration.sum?`: reading with a sum that is checked after every term; by `Duration.sum?_eq_some`
  it comes to the same.
- `Duration.parse_exact`: which texts are read, and as what.
-/

namespace ColumnMask

open Text

namespace Duration

/-! ## Terms -/

/-- What a number of a term counts. -/
inductive TimeUnit where
  | nanosecond
  | microsecond
  | millisecond
  | second
  | minute
  | hour
  | day
  deriving DecidableEq

namespace TimeUnit

/-- The unit as it is written. -/
def symbol : TimeUnit → List Char
  | nanosecond => ['n', 's']
  | microsecond => ['u', 's']
  | millisecond => ['m', 's']
  | second => ['s']
  | minute => ['m']
  | hour => ['h']
  | day => ['d']

/-- The nanoseconds of the unit. -/
def nanos : TimeUnit → Nat
  | nanosecond => 1
  | microsecond => 10 ^ 3
  | millisecond => 10 ^ 6
  | second => 10 ^ 9
  | minute => 60 * 10 ^ 9
  | hour => 60 * 60 * 10 ^ 9
  | day => 24 * 60 * 60 * 10 ^ 9

theorem symbol_ne_nil (u : TimeUnit) : u.symbol ≠ [] := by
  cases u <;> simp [symbol]

theorem not_isDigit_of_mem_symbol (u : TimeUnit) : ∀ c ∈ u.symbol, isDigit c = false := by
  cases u <;> simp only [symbol, List.forall_mem_cons, List.not_mem_nil, false_implies,
    implies_true, and_true] <;> decide

end TimeUnit

/-- The units are written in these ways and no others. -/
theorem unit?_eq_some {cs : List Char} {n : Nat} :
    unit? (String.ofList cs) = some n ↔ ∃ u : TimeUnit, u.symbol = cs ∧ u.nanos = n := by
  constructor
  · intro h
    have hchars {s : String} (hs : String.ofList cs = s) : s.toList = cs := by
      rw [← hs, String.toList_ofList]
    unfold unit? at h
    split at h
    -- unit by unit
    case h_1 hs => exact ⟨.nanosecond, hchars hs, Option.some.inj h⟩
    case h_2 hs => exact ⟨.microsecond, hchars hs, Option.some.inj h⟩
    case h_3 hs => exact ⟨.millisecond, hchars hs, Option.some.inj h⟩
    case h_4 hs => exact ⟨.second, hchars hs, Option.some.inj h⟩
    case h_5 hs => exact ⟨.minute, hchars hs, Option.some.inj h⟩
    case h_6 hs => exact ⟨.hour, hchars hs, Option.some.inj h⟩
    case h_7 hs => exact ⟨.day, hchars hs, Option.some.inj h⟩
    case h_8 => contradiction
  · -- no two symbols are the same
    rintro ⟨u, rfl, rfl⟩
    cases u <;> rfl

/-- A number that fits a word with a sign, and what it counts. -/
structure Term where
  digits : List Char
  unit : TimeUnit
  digits_ne_nil : digits ≠ []
  isDigits : Digits digits
  value_lt : digitsValue digits < 2 ^ 63

namespace Term

/-- The term as it is written. -/
def chars (t : Term) : List Char := t.digits ++ t.unit.symbol

/-- The nanoseconds that the term stands for. -/
def nanos (t : Term) : Nat := digitsValue t.digits * t.unit.nanos

end Term

/-- The nanoseconds of terms taken together. -/
def total (terms : List Term) : Nat := (terms.map Term.nanos).sum

/-- Terms as they are written, behind a minus sign or not. -/
def spell (negative : Bool) (terms : List Term) : List Char :=
  (if negative then ['-'] else []) ++ terms.flatMap Term.chars

@[simp] theorem total_nil : total [] = 0 := rfl

@[simp] theorem total_cons (t : Term) (terms : List Term) :
    total (t :: terms) = t.nanos + total terms := by
  simp [total]

@[simp] theorem total_append (a b : List Term) : total (a ++ b) = total a + total b := by
  simp [total]

theorem total_perm {a b : List Term} (h : a.Perm b) : total a = total b :=
  (h.map Term.nanos).sum_eq

/-! ## What is read of a text -/

theorem noDigitHead_symbol (u : TimeUnit) (rest : List Char) : NoDigitHead (u.symbol ++ rest) := by
  intro c hc
  rw [List.head?_append_of_ne_nil _ u.symbol_ne_nil] at hc
  exact u.not_isDigit_of_mem_symbol c (List.mem_of_mem_head? hc)

/-- A text that is at its end or goes on with a digit. -/
def DigitHead (cs : List Char) : Prop := ∀ c ∈ cs.head?, isDigit c = true

theorem digitHead_terms (terms : List Term) : DigitHead (terms.flatMap Term.chars) := by
  intro c hc
  cases terms with
  | nil => simp at hc
  | cons t terms =>
    rw [List.flatMap_cons, Term.chars, List.append_assoc,
      List.head?_append_of_ne_nil _ t.digits_ne_nil] at hc
    exact t.isDigits c (List.mem_of_mem_head? hc)

theorem takeWhile_symbol (u : TimeUnit) {rest : List Char} (h : DigitHead rest) :
    (u.symbol ++ rest).takeWhile (fun c => !isDigit c) = u.symbol :=
  takeWhile_run (by simpa using u.not_isDigit_of_mem_symbol) fun c hc => by simp [h c hc]

theorem dropWhile_symbol (u : TimeUnit) {rest : List Char} (h : DigitHead rest) :
    (u.symbol ++ rest).dropWhile (fun c => !isDigit c) = rest :=
  dropWhile_run (by simpa using u.not_isDigit_of_mem_symbol) fun c hc => by simp [h c hc]

variable {cs rest : List Char} {n : Nat}

theorem signedWord_natCast_iff (n : Nat) : SignedWord n ↔ n < 2 ^ 63 := by omega

/-- A term is read from the front of a text if what follows it is another one or nothing. -/
theorem term?_eq_some : term? cs = some (n, rest) ↔
    ∃ t : Term, t.chars ++ rest = cs ∧ t.nanos = n ∧ DigitHead rest := by
  constructor
  · intro h
    simp only [term?, Option.bind_eq_bind, Option.bind_eq_some_iff] at h
    obtain ⟨unit, hunit, h⟩ := h
    obtain ⟨u, hsymbol, rfl⟩ := unit?_eq_some.mp hunit
    -- the digits are missing or too large for a word, or there is a term
    split at h
    case isTrue => contradiction
    case isFalse hdigits =>
      obtain ⟨hne, hlt⟩ := not_or.mp hdigits
      obtain ⟨rfl, rfl⟩ := Prod.mk.inj (Option.some.inj h)
      refine ⟨⟨cs.takeWhile isDigit, u, by simpa using hne, fun c => List.mem_takeWhile_imp,
        (signedWord_natCast_iff _).mp (not_not.mp hlt)⟩, ?_, rfl, ?_⟩
      · -- the digits, the letters after them and the rest make up the text
        rw [Term.chars, hsymbol, List.append_assoc, List.takeWhile_append_dropWhile,
          List.takeWhile_append_dropWhile]
      · -- the rest does not go on with a letter, so it starts with a digit or is empty
        intro c hc
        have hhead := List.head?_dropWhile_not (fun c => !isDigit c) (cs.dropWhile isDigit)
        rw [hc] at hhead
        simpa using hhead
  · -- a term that is written out ends where its digits and its letters end
    rintro ⟨t, rfl, rfl, hrest⟩
    have hterm : ¬ (t.digits.isEmpty ∨ ¬ SignedWord (digitsValue t.digits)) :=
      not_or.mpr ⟨by simpa using t.digits_ne_nil,
        not_not.mpr ((signedWord_natCast_iff _).mpr t.value_lt)⟩
    have hunit : unit? (String.ofList t.unit.symbol) = some t.unit.nanos :=
      unit?_eq_some.mpr ⟨t.unit, rfl, rfl⟩
    rw [term?, Term.chars, List.append_assoc, takeWhile_digits t.isDigits (noDigitHead_symbol _ _),
      dropWhile_digits t.isDigits (noDigitHead_symbol _ _), takeWhile_symbol _ hrest,
      dropWhile_symbol _ hrest, hunit]
    exact if_neg hterm

theorem Term.chars_ne_nil (t : Term) : t.chars ≠ [] := by
  simp [chars, t.digits_ne_nil]

theorem length_lt_of_term? (h : term? cs = some (n, rest)) : rest.length < cs.length := by
  obtain ⟨t, rfl, -, -⟩ := term?_eq_some.mp h
  rw [List.length_append]
  exact Nat.lt_add_of_pos_left (List.length_pos_of_ne_nil t.chars_ne_nil)

theorem flatMap_chars_eq_nil {terms : List Term} :
    terms.flatMap Term.chars = [] ↔ terms = [] := by
  cases terms with
  | nil => simp
  | cons t terms => simp [t.chars_ne_nil]

/-- The terms that make up a text are the one in front, which can be read, and those of the rest. -/
theorem exists_terms_iff (hne : cs ≠ []) {P : Nat → Prop} :
    (∃ terms, terms.flatMap Term.chars = cs ∧ P (total terms)) ↔
      ∃ first rest, term? cs = some (first, rest) ∧
        ∃ terms, terms.flatMap Term.chars = rest ∧ P (first + total terms) := by
  constructor
  · rintro ⟨terms, rfl, hP⟩
    obtain ⟨t, terms, rfl⟩ := List.exists_cons_of_ne_nil (mt flatMap_chars_eq_nil.mpr hne)
    rw [total_cons] at hP
    exact ⟨t.nanos, terms.flatMap Term.chars,
      term?_eq_some.mpr ⟨t, rfl, rfl, digitHead_terms terms⟩, terms, rfl, hP⟩
  · rintro ⟨first, rest, h, terms, rfl, hP⟩
    obtain ⟨t, rfl, rfl, -⟩ := term?_eq_some.mp h
    rw [← total_cons] at hP
    exact ⟨t :: terms, rfl, hP⟩

/-- What is read of a text is the sum of the terms that make it up, with any fuel that reaches to
the end. -/
theorem terms?_eq_some {fuel : Nat} (hne : cs ≠ []) (hfuel : cs.length ≤ fuel) :
    terms? fuel cs = some n ↔ ∃ terms, terms.flatMap Term.chars = cs ∧ total terms = n := by
  induction fuel generalizing cs n with
  | zero => exact absurd (List.length_eq_zero_iff.mp (Nat.le_zero.mp hfuel)) hne
  | succ fuel ih =>
    rw [exists_terms_iff hne (P := (· = n))]
    simp only [terms?, Option.bind_eq_bind, Option.bind_eq_some_iff, Prod.exists]
    refine exists_congr fun first => exists_congr fun rest => and_congr_right fun hterm => ?_
    cases rest with
    | nil =>
      simp only [List.isEmpty_nil, if_true, flatMap_chars_eq_nil, exists_eq_left, total_nil,
        Nat.add_zero]
      exact Option.some_inj
    | cons c rest =>
      -- the rest is shorter, so that the fuel that is left reaches to its end
      have hlength := length_lt_of_term? hterm
      have hrest : (c :: rest).length ≤ fuel := by omega
      simp only [List.isEmpty_cons, Bool.false_eq_true, if_false, Option.bind_eq_some_iff,
        ih (List.cons_ne_nil c rest) hrest]
      constructor
      · rintro ⟨_, ⟨terms, hchars, rfl⟩, hn⟩
        exact ⟨terms, hchars, Option.some.inj hn⟩
      · rintro ⟨terms, hchars, rfl⟩
        exact ⟨total terms, ⟨terms, hchars, rfl⟩, rfl⟩

/-! ## A sum that is checked after every term -/

/-- The sum so far and the terms that follow; a term that is out of range, or brings the sum out of
range, ends the reading. -/
def sum? (sofar : Nat) (cs : List Char) : Option Nat :=
  if cs.isEmpty then some sofar
  else
    match _h : term? cs with
    | none => none
    | some (first, rest) =>
      if longest < first ∨ longest < sofar + first then none else sum? (sofar + first) rest
termination_by cs.length
decreasing_by exact length_lt_of_term? _h

/-- The sum is in range after every term if it is in the end. -/
theorem sum?_eq_some {sofar : Nat} (h : sofar ≤ longest) :
    sum? sofar cs = some n ↔
      n ≤ longest ∧ ∃ terms, terms.flatMap Term.chars = cs ∧ sofar + total terms = n := by
  -- on the steps of the sum: the end, no term, a term too many and one more term
  fun_induction sum? sofar cs with
  | case1 sofar cs hnil =>
    obtain rfl := List.isEmpty_iff.mp hnil
    simp only [flatMap_chars_eq_nil, exists_eq_left, total_nil, Nat.add_zero, Option.some_inj]
    exact ⟨fun hn => ⟨hn ▸ h, hn⟩, And.right⟩
  | case2 sofar cs hne hterm =>
    rw [exists_terms_iff (by simpa using hne) (P := (sofar + · = n))]
    simp [hterm]
  | case3 sofar cs hne first rest hterm hout =>
    rw [exists_terms_iff (by simpa using hne) (P := (sofar + · = n))]
    simp only [reduceCtorEq, false_iff, hterm]
    rintro ⟨hle, _, _, ⟨⟩, terms, -, hn⟩
    omega
  | case4 sofar cs hne first rest hterm hin ih =>
    rw [ih (by omega), exists_terms_iff (by simpa using hne) (P := (sofar + · = n))]
    simp only [hterm, Option.some_inj, Prod.mk.injEq, and_assoc, exists_and_left, exists_eq_left',
      Nat.add_assoc]

/-! ## Signs -/

/-- What a sign makes of a sum. -/
def signed (negative : Bool) (n : Nat) : Duration := if negative then -(n : Int) else n

/-- Whether there is a minus sign at the front of a text, and what is left without it. -/
def unsigned (cs : List Char) : Bool × List Char :=
  match cs with
  | '-' :: rest => (true, rest)
  | _ => (false, cs)

/-- Terms do not begin with a minus sign themselves. -/
theorem eq_spell_iff {negative : Bool} {terms : List Term} :
    cs = spell negative terms ↔ unsigned cs = (negative, terms.flatMap Term.chars) := by
  constructor
  · rintro rfl
    cases negative with
    | true => rfl
    -- without a sign the text starts with the digit of a term
    | false =>
      have hhead := digitHead_terms terms
      show unsigned (terms.flatMap Term.chars) = _
      unfold unsigned
      split
      case h_1 heq =>
        rw [heq] at hhead
        exact absurd (hhead '-' rfl) (by decide)
      case h_2 => rfl
  · intro h
    unfold unsigned at h
    split at h
    case h_1 =>
      obtain ⟨rfl, rfl⟩ := Prod.mk.inj h
      rfl
    case h_2 =>
      obtain ⟨rfl, rfl⟩ := Prod.mk.inj h
      rfl

/-- Reading with a sum that is checked after every term. -/
def checked? (text : String) : Option Duration :=
  let (negative, body) := unsigned (trimChars text.toList)
  if body.isEmpty then none else (sum? 0 body).map (signed negative)

/-- The text consists of these terms behind this sign, with blanks around it. -/
def Spells (text : String) (negative : Bool) (terms : List Term) : Prop :=
  terms ≠ [] ∧ trimChars text.toList = spell negative terms

variable {text : String} {d : Duration}

/-- The terms of a text are those of what follows its sign, if anything does. -/
theorem exists_spells_iff {P : Bool → Nat → Prop} :
    (∃ negative terms, Spells text negative terms ∧ P negative (total terms)) ↔
      (unsigned (trimChars text.toList)).2 ≠ [] ∧
        ∃ terms, terms.flatMap Term.chars = (unsigned (trimChars text.toList)).2 ∧
          P (unsigned (trimChars text.toList)).1 (total terms) := by
  constructor
  · rintro ⟨negative, terms, ⟨hne, htext⟩, hP⟩
    rw [eq_spell_iff.mp htext]
    exact ⟨mt flatMap_chars_eq_nil.mp hne, terms, rfl, hP⟩
  · rintro ⟨hne, terms, hchars, hP⟩
    refine ⟨_, terms, ⟨?_, eq_spell_iff.mpr (Prod.ext rfl hchars.symm)⟩, hP⟩
    rintro rfl
    exact hne hchars.symm

theorem parse?_eq_some : parse? text = some d ↔
    ∃ negative terms, Spells text negative terms ∧ total terms ≤ longest ∧
      signed negative (total terms) = d := by
  rw [exists_spells_iff (P := fun negative n => n ≤ longest ∧ signed negative n = d)]
  have hparse : parse? text =
      (terms? (unsigned (trimChars text.toList)).2.length (unsigned (trimChars text.toList)).2).bind
        fun n => if longest < n then none
          else some (signed (unsigned (trimChars text.toList)).1 n) := rfl
  rw [hparse]
  generalize unsigned (trimChars text.toList) = signedBody
  obtain ⟨negative, body⟩ := signedBody
  by_cases hne : body = []
  · -- an empty text has no terms; otherwise the terms and their sum are read together
    subst hne
    simp [terms?]
  · simp only [Option.bind_eq_some_iff, terms?_eq_some hne le_rfl, Option.ite_none_left_eq_some,
      Option.some_inj, not_lt, ne_eq, hne, not_false_eq_true, true_and]
    constructor
    · rintro ⟨_, ⟨terms, hchars, rfl⟩, hd⟩
      exact ⟨terms, hchars, hd⟩
    · rintro ⟨terms, hchars, hd⟩
      exact ⟨total terms, ⟨terms, hchars, rfl⟩, hd⟩

theorem checked?_eq_some : checked? text = some d ↔
    ∃ negative terms, Spells text negative terms ∧ total terms ≤ longest ∧
      signed negative (total terms) = d := by
  rw [exists_spells_iff (P := fun negative n => n ≤ longest ∧ signed negative n = d), checked?]
  generalize unsigned (trimChars text.toList) = signedBody
  obtain ⟨negative, body⟩ := signedBody
  simp only [Option.ite_none_left_eq_some, List.isEmpty_iff, Option.map_eq_some_iff,
    sum?_eq_some (Nat.zero_le longest), Nat.zero_add]
  refine and_congr_right fun _ => ?_
  constructor
  · rintro ⟨_, ⟨hle, terms, hchars, rfl⟩, hd⟩
    exact ⟨terms, hchars, hle, hd⟩
  · rintro ⟨terms, hchars, hle, hd⟩
    exact ⟨total terms, ⟨hle, terms, hchars, rfl⟩, hd⟩

/-- A sum that is checked after every term finds the same as one that is checked in the end. -/
theorem checked?_eq_parse? (text : String) : checked? text = parse? text :=
  Option.ext fun _ => checked?_eq_some.trans parse?_eq_some.symm

/-- A text has one sign and one sum. -/
theorem Spells.unique {negative negative' : Bool} {terms terms' : List Term}
    (h : Spells text negative terms) (h' : Spells text negative' terms') :
    negative = negative' ∧ total terms = total terms' := by
  have hbody := (eq_spell_iff.mp h.2).symm.trans (eq_spell_iff.mp h'.2)
  obtain ⟨rfl, hchars⟩ := Prod.mk.inj hbody
  have hne : terms.flatMap Term.chars ≠ [] := mt flatMap_chars_eq_nil.mp h.1
  have hread := (terms?_eq_some hne le_rfl).mpr ⟨terms, rfl, rfl⟩
  have hread' := (terms?_eq_some hne le_rfl).mpr ⟨terms', hchars.symm, rfl⟩
  exact ⟨rfl, Option.some.inj (hread.symm.trans hread')⟩

/-- Only the sign and the sum of its terms matter for what is read of a text. -/
theorem parse?_of_spells {negative : Bool} {terms : List Term} (h : Spells text negative terms) :
    parse? text = if total terms ≤ longest then some (signed negative (total terms)) else none := by
  split
  case isTrue hle => exact parse?_eq_some.mpr ⟨negative, terms, h, hle, rfl⟩
  case isFalse hlong =>
    rw [Option.eq_none_iff_forall_ne_some]
    intro d hd
    obtain ⟨negative', terms', h', hle, -⟩ := parse?_eq_some.mp hd
    rw [(h.unique h').2] at hlong
    exact hlong hle

theorem parse?_congr {text' : String} {negative : Bool} {terms terms' : List Term}
    (h : Spells text negative terms) (h' : Spells text' negative terms')
    (htotal : total terms' = total terms) : parse? text' = parse? text := by
  rw [parse?_of_spells h, parse?_of_spells h', htotal]

theorem toOption_parse (text : String) : (parse text).toOption = parse? text := by
  unfold parse
  split <;> simp [Except.toOption, *]

theorem parse_eq_ok : parse text = .ok d ↔ parse? text = some d := by
  unfold parse
  split <;> simp [*]

theorem parse_eq_error {e : ConfigError} :
    parse text = .error e ↔ e = .invalidDuration text ∧ parse? text = none := by
  unfold parse
  split <;> simp [*, eq_comm]

/-- **Reading a duration**: a text is read if it consists of terms, behind a minus sign or not,
whose sum is in range, and gives this sum; every other text is an error. A sum that is checked after
every term gives the same, and neither the order of the terms matters nor how one of them is split
into several. -/
theorem parse_exact (text : String) :
    (∀ d, parse text = .ok d ↔
      ∃ negative terms, Spells text negative terms ∧ total terms ≤ (2 ^ 63 - 1) * 10 ^ 6 ∧
        (if negative then -(total terms : Int) else total terms) = d) ∧
    (∀ e, parse text = .error e ↔
      e = .invalidDuration text ∧
        ¬ ∃ negative terms, Spells text negative terms ∧ total terms ≤ (2 ^ 63 - 1) * 10 ^ 6) ∧
    (parse text).toOption = checked? text ∧
    ∀ negative terms text' terms', Spells text negative terms → Spells text' negative terms' →
      (terms'.Perm terms ∨ ∃ before t parts after, terms = before ++ t :: after ∧
        terms' = before ++ parts ++ after ∧ total parts = t.nanos) →
      (parse text').toOption = (parse text).toOption := by
  refine ⟨fun d => parse_eq_ok.trans parse?_eq_some, fun e => ?_, ?_, ?_⟩
  · rw [parse_eq_error, and_congr_right_iff]
    intro _
    rw [Option.eq_none_iff_forall_ne_some]
    constructor
    · rintro hnone ⟨negative, terms, hspells, hle⟩
      exact hnone _ (parse?_eq_some.mpr ⟨negative, terms, hspells, hle, rfl⟩)
    · intro hnone d hd
      -- the duration that would be read is a spelling within the bound
      obtain ⟨negative, terms, hspells, hle, -⟩ := parse?_eq_some.mp hd
      exact hnone ⟨negative, terms, hspells, hle⟩
  · rw [toOption_parse, checked?_eq_parse?]
  · intro negative terms text' terms' h h' hterms
    -- the order of the terms and the splitting of one of them leave the total as it is
    have htotal : total terms' = total terms := by
      obtain hperm | ⟨before, t, parts, after, rfl, rfl, hparts⟩ := hterms
      · exact total_perm hperm
      · simp only [total_append, total_cons, hparts, Nat.add_assoc]
    rw [toOption_parse, toOption_parse, parse?_congr h h' htotal]

end Duration

end ColumnMask
