import Mathlib
import ColumnMask.Text

/-!
# Digits and blanks

Facts about the parts that texts are made of.
-/

namespace ColumnMask

/-!
## Laws of decimal digits

The digits of a number are the only run of digits that stands for it and has no zero in front.

- `Text.digitsValue_append`: runs of digits one after the other.
- `Text.toDigits_digitsValue`: a run without a zero in front is found again from its value.
- `Text.ofNat_eq_toDigits`, `Text.digitsValue_ofNat`: what is written for a number.
- `Text.length_padded`, `Text.digitsValue_padded`: fields of a fixed width.
- `Text.Sign`: what may stand in front of digits; `Text.int64?_signed` reads both as an integer.
-/

namespace Text

/-! ### Runs of digits -/

/-- The characters of a text that are digits all of them. -/
def Digits (cs : List Char) : Prop := ∀ c ∈ cs, isDigit c = true

variable {a b cs : List Char} {c : Char}

@[simp] theorem digits_nil : Digits [] := by
  simp [Digits]

@[simp] theorem digits_cons : Digits (c :: cs) ↔ isDigit c = true ∧ Digits cs := by
  simp [Digits]

@[simp] theorem digits_append : Digits (a ++ b) ↔ Digits a ∧ Digits b := by
  simp only [Digits, List.mem_append]
  exact ⟨fun h => ⟨fun c hc => h c (.inl hc), fun c hc => h c (.inr hc)⟩,
    fun ⟨ha, hb⟩ c hc => hc.elim (ha c) (hb c)⟩

theorem Digits.append (ha : Digits a) (hb : Digits b) : Digits (a ++ b) :=
  digits_append.mpr ⟨ha, hb⟩

theorem digits_replicate_zero (n : Nat) : Digits (List.replicate n '0') := by
  intro c hc
  rw [List.eq_of_mem_replicate hc]
  decide

/-- A text that does not go on with a digit. -/
def NoDigitHead (cs : List Char) : Prop := ∀ c ∈ cs.head?, isDigit c = false

section

variable {p : Char → Bool} {rest : List Char}

/-- Characters of one kind are found again in front of one that is not of this kind. -/
theorem takeWhile_run (h : ∀ c ∈ cs, p c = true) (hrest : ∀ c ∈ rest.head?, p c = false) :
    (cs ++ rest).takeWhile p = cs := by
  rw [List.takeWhile_append_of_pos h]
  cases rest with
  | nil => simp
  | cons c rest => simp [hrest c rfl]

theorem dropWhile_run (h : ∀ c ∈ cs, p c = true) (hrest : ∀ c ∈ rest.head?, p c = false) :
    (cs ++ rest).dropWhile p = rest := by
  rw [List.dropWhile_append_of_pos h]
  cases rest with
  | nil => simp
  | cons c rest => simp [hrest c rfl]

theorem takeWhile_digits (h : Digits cs) (hrest : NoDigitHead rest) :
    (cs ++ rest).takeWhile isDigit = cs := takeWhile_run h hrest

theorem dropWhile_digits (h : Digits cs) (hrest : NoDigitHead rest) :
    (cs ++ rest).dropWhile isDigit = rest := dropWhile_run h hrest

end

/-- A digit is none of the characters that mean something else. -/
theorem ne_of_isDigit {other : Char} (h : isDigit c = true) (hother : isDigit other = false) :
    c ≠ other := by
  rintro rfl
  rw [h] at hother
  contradiction

theorem isDigit_iff : isDigit c = true ↔ 48 ≤ c.toNat ∧ c.toNat ≤ 57 := by
  have hbounds : '0' ≤ c ∧ c ≤ '9' ↔ 48 ≤ c.toNat ∧ c.toNat ≤ 57 := Iff.rfl
  rw [← hbounds, isDigit, digit?]
  by_cases h : '0' ≤ c ∧ c ≤ '9'
  · simp [h]
  · rw [if_neg h]
    simpa using h

theorem isDigit_digitChar {n : Nat} (h : n < 10) : isDigit (Nat.digitChar n) = true := by
  interval_cases n <;> rfl

/-- A digit is the one of its value. -/
theorem digitChar_sub (h : isDigit c = true) : Nat.digitChar (c.toNat - 48) = c := by
  obtain ⟨hlow, hhigh⟩ := isDigit_iff.mp h
  obtain ⟨n, hn⟩ : ∃ n, c.toNat = 48 + n := Nat.exists_eq_add_of_le hlow
  have hlt : n < 10 := by omega
  rw [hn, Nat.add_sub_cancel_left, ← Char.ofNat_toNat c, hn]
  interval_cases n <;> rfl

/-! ### Values -/

theorem digitsValue_eq_ofDigitChars (cs : List Char) :
    digitsValue cs = Nat.ofDigitChars 10 cs 0 := rfl

/-- The first of two runs counts as often as the second can count. -/
theorem digitsValue_append (a b : List Char) :
    digitsValue (a ++ b) = digitsValue a * 10 ^ b.length + digitsValue b := by
  simp only [digitsValue_eq_ofDigitChars, Nat.ofDigitChars_append]
  rw [Nat.ofDigitChars_eq_ofDigitChars_zero, Nat.mul_comm]

@[simp] theorem digitsValue_nil : digitsValue [] = 0 := rfl

@[simp] theorem digitsValue_singleton (c : Char) : digitsValue [c] = c.toNat - 48 := by
  simp [digitsValue]

@[simp] theorem digitsValue_replicate_zero (n : Nat) :
    digitsValue (List.replicate n '0') = 0 := by
  rw [digitsValue_eq_ofDigitChars, Nat.ofDigitChars_replicate_zero, Nat.mul_zero]

/-- Zeros in front do not count. -/
theorem digitsValue_zeros_append (n : Nat) (cs : List Char) :
    digitsValue (List.replicate n '0' ++ cs) = digitsValue cs := by
  rw [digitsValue_append, digitsValue_replicate_zero, Nat.zero_mul, Nat.zero_add]

theorem digitsValue_dropWhile_zero (cs : List Char) :
    digitsValue (cs.dropWhile (· == '0')) = digitsValue cs := by
  induction cs with
  | nil => rfl
  | cons c rest ih =>
    rw [List.dropWhile_cons]
    split
    case isTrue h =>
      obtain rfl : c = '0' := by simpa using h
      rw [ih]
      exact (digitsValue_zeros_append 1 rest).symm
    case isFalse h => rfl

theorem digitsValue_lt (h : Digits cs) : digitsValue cs < 10 ^ cs.length := by
  induction cs using List.reverseRecOn with
  | nil => simp
  | append_singleton rest c ih =>
    obtain ⟨hrest, hc⟩ := digits_append.mp h
    obtain ⟨-, hhigh⟩ := isDigit_iff.mp (hc c (by simp))
    have hlt := ih hrest
    rw [digitsValue_append, digitsValue_singleton, List.length_append, pow_add]
    simp only [List.length_singleton, pow_one]
    omega

/-- A zero at the end is the last digit of the value. -/
theorem getLast?_ne_zero (h : digitsValue cs % 10 ≠ 0) : cs.getLast? ≠ some '0' := by
  intro hlast
  obtain ⟨front, rfl⟩ := List.getLast?_eq_some_iff.mp hlast
  refine h ?_
  rw [digitsValue_append, digitsValue_singleton, List.length_singleton, pow_one]
  exact Nat.mul_mod_left _ _

/-- **Digits without a zero in front** are those that are written for their value. -/
theorem toDigits_digitsValue (h : Digits cs) (hne : cs ≠ []) (hhead : cs.head? ≠ some '0') :
    Nat.toDigits 10 (digitsValue cs) = cs := by
  -- from the last digit backwards; what stands before it has no zero in front either
  induction cs using List.reverseRecOn with
  | nil => contradiction
  | append_singleton rest c ih =>
    obtain ⟨hrest, hc⟩ := digits_append.mp h
    have hdigit : isDigit c = true := hc c (by simp)
    obtain ⟨hlow, hhigh⟩ := isDigit_iff.mp hdigit
    have hlast : Nat.toDigits 10 (c.toNat - 48) = [c] := by
      rw [Nat.toDigits_of_lt_base (by omega), digitChar_sub hdigit]
    rw [digitsValue_append, digitsValue_singleton, List.length_singleton, pow_one]
    by_cases hnil : rest = []
    · subst hnil
      simpa using hlast
    · rw [List.head?_append_of_ne_nil _ hnil] at hhead
      have hfront := ih hrest hnil hhead
      have hpos : 0 < digitsValue rest := by
        rw [Nat.pos_iff_ne_zero]
        intro hzero
        rw [hzero] at hfront
        rw [← hfront] at hhead
        exact hhead rfl
      rw [Nat.mul_comm, ← Nat.toDigits_append_toDigits (by decide) hpos (by omega), hfront, hlast]

/-! ### What is written -/

theorem digits_lastDigits (k n : Nat) : Digits (lastDigits k n) := by
  induction k generalizing n with
  | zero =>
    intro c hc
    rw [List.mem_singleton.mp hc]
    exact isDigit_digitChar (Nat.mod_lt _ (by decide))
  | succ k ih => exact (ih _).append (ih _)

@[simp] theorem length_lastDigits (k n : Nat) : (lastDigits k n).length = 2 ^ k := by
  induction k generalizing n with
  | zero => rfl
  | succ k ih => rw [lastDigits, List.length_append, ih, ih, pow_succ, Nat.mul_two]

theorem digitsValue_lastDigits (k n : Nat) : digitsValue (lastDigits k n) = n % 10 ^ 2 ^ k := by
  induction k generalizing n with
  | zero =>
    have hlt : n % 10 < 10 := Nat.mod_lt _ (by decide)
    rw [lastDigits, digitsValue_singleton, pow_zero, pow_one]
    generalize n % 10 = d at hlt
    interval_cases d <;> rfl
  | succ k ih =>
    rw [lastDigits, digitsValue_append, ih, ih, length_lastDigits, pow_succ 2 k, pow_mul, pow_two,
      Nat.mod_mul, Nat.mul_comm]
    show 10 ^ 2 ^ k * (n / 10 ^ 2 ^ k % 10 ^ 2 ^ k) + n % 10 ^ 2 ^ k % 10 ^ 2 ^ k = _
    rw [Nat.mod_mod, Nat.add_comm]

theorem digits_ofNat (n : Nat) : Digits (ofNat n) := by
  have hall := digits_lastDigits ((n.log2 + 1).log2 + 1) n
  unfold ofNat
  split
  · intro c hc
    rw [List.mem_singleton.mp hc]
    decide
  · intro c hc
    exact hall c ((List.dropWhile_sublist _).mem hc)

theorem ofNat_ne_nil (n : Nat) : ofNat n ≠ [] := by
  unfold ofNat
  split
  · simp
  · assumption

/-- A number has no more digits than are looked at. -/
theorem lt_pow_lastDigits (n : Nat) : n < 10 ^ 2 ^ ((n.log2 + 1).log2 + 1) :=
  calc n < 2 ^ (n.log2 + 1) := Nat.lt_log2_self
    _ ≤ 2 ^ 2 ^ ((n.log2 + 1).log2 + 1) := Nat.pow_le_pow_right (by decide) Nat.lt_log2_self.le
    _ ≤ 10 ^ 2 ^ ((n.log2 + 1).log2 + 1) := Nat.pow_le_pow_left (by decide) _

@[simp] theorem digitsValue_ofNat (n : Nat) : digitsValue (ofNat n) = n := by
  have hvalue := digitsValue_lastDigits ((n.log2 + 1).log2 + 1) n
  rw [Nat.mod_eq_of_lt (lt_pow_lastDigits n), ← digitsValue_dropWhile_zero] at hvalue
  unfold ofNat
  split
  case h_1 hnil =>
    rw [hnil] at hvalue
    exact hvalue
  case h_2 => exact hvalue

theorem head?_ofNat {n : Nat} (h : n ≠ 0) : (ofNat n).head? ≠ some '0' := by
  have hvalue := digitsValue_ofNat n
  unfold ofNat at hvalue ⊢
  split at hvalue
  case h_1 => exact absurd hvalue.symm h
  case h_2 =>
    intro hhead
    have hfirst := List.head?_dropWhile_not (· == '0') (lastDigits ((n.log2 + 1).log2 + 1) n)
    rw [hhead] at hfirst
    simp at hfirst

/-- **The digits of a number** are those of the standard library. -/
theorem ofNat_eq_toDigits (n : Nat) : ofNat n = Nat.toDigits 10 n := by
  by_cases h : n = 0
  · subst h
    rfl
  · have hdigits := toDigits_digitsValue (digits_ofNat n) (ofNat_ne_nil n) (head?_ofNat h)
    rw [digitsValue_ofNat] at hdigits
    exact hdigits.symm

theorem length_ofNat_le {width n : Nat} (hwidth : 0 < width) (h : n < 10 ^ width) :
    (ofNat n).length ≤ width := by
  rw [ofNat_eq_toDigits]
  exact (Nat.length_toDigits_le_iff (by decide) hwidth).mpr h

/-! ### Fields of a fixed width -/

variable {width n : Nat}

theorem digits_padded (width n : Nat) : Digits (padded width n) :=
  (digits_replicate_zero _).append (digits_ofNat n)

@[simp] theorem digitsValue_padded (width n : Nat) : digitsValue (padded width n) = n := by
  rw [padded, digitsValue_zeros_append, digitsValue_ofNat]

/-- A number that is small enough fills its field. -/
theorem length_padded (hwidth : 0 < width) (h : n < 10 ^ width) :
    (padded width n).length = width := by
  have hle := length_ofNat_le hwidth h
  rw [padded, List.length_append, List.length_replicate]
  omega

theorem padded_ne_nil (width n : Nat) : padded width n ≠ [] := by
  rw [padded]
  simp [ofNat_ne_nil]

/-! ### Signs -/

/-- A sign in front of digits, or none. -/
inductive Sign where
  | none
  | plus
  | minus
  deriving DecidableEq

namespace Sign

/-- The sign as it is written. -/
def chars : Sign → List Char
  | none => []
  | plus => ['+']
  | minus => ['-']

/-- The number with a sign and these digits. -/
def apply : Sign → Nat → Int
  | minus, n => -n
  | _, n => n

/-- The sign that is written for a number: none or a minus. -/
def ofInt (n : Int) : Sign := if n < 0 then minus else none

theorem apply_mul (sign : Sign) (n k : Nat) : sign.apply (n * k) = sign.apply n * k := by
  cases sign with
  | minus => simp [apply]
  | _ => rfl

@[simp] theorem apply_ofInt (n : Int) : (ofInt n).apply n.natAbs = n := by
  unfold ofInt
  split <;> simp only [apply] <;> omega

end Sign

/-- What follows no sign is no sign itself. -/
theorem head_ne_sign (h : Digits (c :: cs)) : c ≠ '-' ∧ c ≠ '+' :=
  ⟨ne_of_isDigit (digits_cons.mp h).1 (by decide), ne_of_isDigit (digits_cons.mp h).1 (by decide)⟩

theorem natural?_eq (h : Digits cs) (hne : cs ≠ []) : natural? cs = some (digitsValue cs) := by
  have hall : cs.all isDigit = true := List.all_eq_true.mpr h
  simp [natural?, hall, hne]

/-- Digits with a sign are read as the number with this sign. -/
theorem integer?_signed (sign : Sign) (h : Digits cs) (hne : cs ≠ []) :
    integer? (sign.chars ++ cs) = some (sign.apply (digitsValue cs)) := by
  cases sign with
  | plus =>
    show integer? ('+' :: cs) = _
    rw [integer?, natural?_eq h hne]
    rfl
  | minus =>
    show integer? ('-' :: cs) = _
    rw [integer?, natural?_eq h hne]
    rfl
  -- a digit comes first, and it is no sign
  | none =>
    obtain ⟨c, rest, rfl⟩ := List.exists_cons_of_ne_nil hne
    obtain ⟨hminus, hplus⟩ := head_ne_sign h
    show integer? (c :: rest) = _
    unfold integer?
    split
    case h_1 heq => exact absurd (List.cons.inj heq).1 hminus
    case h_2 heq => exact absurd (List.cons.inj heq).1 hplus
    case h_3 =>
      rw [natural?_eq h hne]
      rfl

/-- **Digits with a sign** are read as a word if the number fits into one. -/
theorem int64?_signed (sign : Sign) (h : Digits cs) (hne : cs ≠ []) {v : Int64}
    (hvalue : sign.apply (digitsValue cs) = v.toInt) :
    int64? (String.ofList (sign.chars ++ cs)) = some v := by
  have hrange : SignedWord v.toInt := ⟨v.le_toInt, v.toInt_lt⟩
  simp only [int64?, String.toList_ofList, integer?_signed sign h hne, hvalue, if_pos hrange,
    Int64.ofInt_toInt]

/-- The digits of an integer, with a sign if it is negative. -/
theorem toString_int (n : Int) :
    toString n = String.ofList ((Sign.ofInt n).chars ++ ofNat n.natAbs) := by
  rw [Int.toString_eq_repr, Int.repr_eq_if, ofNat_eq_toDigits, Sign.ofInt]
  by_cases h : n < 0
  · rw [if_neg (by omega), if_pos h, Nat.repr_eq_ofList_toDigits, String.ofList_append,
      show (-n).toNat = n.natAbs by omega]
    rfl
  · rw [if_pos (by omega), if_neg h, Nat.repr_eq_ofList_toDigits, show n.toNat = n.natAbs by omega]
    rfl

end Text

/-!
## Laws of blanks

Trimming passes over any blanks around a text, and leaves a text without blanks alone.

- `Text.Blanks`, `Text.Unblanked`: blanks only, and none at all.
- `Text.trim_blanks`: blanks around a text do not count.
- `Text.trim_unblanked`: nothing to trim.
-/

namespace Text

/-- The characters of a text that are blank all of them. -/
def Blanks (cs : List Char) : Prop := ∀ c ∈ cs, isBlank c = true

/-- The characters of a text none of which is blank. -/
def Unblanked (cs : List Char) : Prop := ∀ c ∈ cs, isBlank c = false

variable {a b cs : List Char} {c : Char}

theorem blanks_nil : Blanks [] := by
  simp [Blanks]

@[simp] theorem unblanked_nil : Unblanked [] := by
  simp [Unblanked]

@[simp] theorem unblanked_cons : Unblanked (c :: cs) ↔ isBlank c = false ∧ Unblanked cs := by
  simp [Unblanked]

@[simp] theorem unblanked_append : Unblanked (a ++ b) ↔ Unblanked a ∧ Unblanked b := by
  simp only [Unblanked, List.mem_append]
  exact ⟨fun h => ⟨fun c hc => h c (.inl hc), fun c hc => h c (.inr hc)⟩,
    fun ⟨ha, hb⟩ c hc => hc.elim (ha c) (hb c)⟩

theorem isBlank_of_isDigit (h : isDigit c = true) : isBlank c = false := by
  have hrange := isDigit_iff.mp h
  simp only [isBlank, Bool.or_eq_false_iff, Bool.and_eq_false_iff, beq_eq_false_iff_ne,
    decide_eq_false_iff_not]
  omega

theorem Digits.unblanked (h : Digits cs) : Unblanked cs := fun c hc => isBlank_of_isDigit (h c hc)

theorem Sign.unblanked (sign : Sign) : Unblanked sign.chars := by
  cases sign with
  | none => exact unblanked_nil
  | plus => simp [chars]; decide
  | minus => simp [chars]; decide

/-! ### Trimming -/

@[simp] theorem trimStart_nil : trimStart [] = [] := rfl

theorem trimStart_cons (h : isBlank c = false) (cs : List Char) :
    trimStart (c :: cs) = c :: cs := by
  simp [trimStart, h]

theorem trimStart_blanks (h : Blanks a) (cs : List Char) : trimStart (a ++ cs) = trimStart cs :=
  List.dropWhile_append_of_pos h

theorem trimStart_unblanked (h : Unblanked cs) : trimStart cs = cs := by
  cases cs with
  | nil => rfl
  | cons c cs => exact trimStart_cons (unblanked_cons.mp h).1 cs

/-- What stands after a text that is not all blank is not reached from the front. -/
theorem trimStart_append (h : trimStart a ≠ []) (b : List Char) :
    trimStart (a ++ b) = trimStart a ++ b := by
  induction a with
  | nil => contradiction
  | cons c a ih =>
    by_cases hc : isBlank c = true
    · have hskip (cs : List Char) : trimStart (c :: cs) = trimStart cs :=
        List.dropWhile_cons_of_pos hc
      rw [hskip] at h
      rw [List.cons_append, hskip, hskip, ih h]
    · rw [List.cons_append, trimStart_cons (by simpa using hc), trimStart_cons (by simpa using hc),
        List.cons_append]

theorem Blanks.trimStart_eq (h : Blanks a) : trimStart a = [] :=
  List.dropWhile_eq_nil_iff.mpr h

/-- Blanks around characters are passed over. -/
theorem trimChars_blanks (ha : Blanks a) (hb : Blanks b) (cs : List Char) :
    trimChars (a ++ cs ++ b) = trimChars cs := by
  have hreverse : Blanks b.reverse := fun c hc => hb c (List.mem_reverse.mp hc)
  unfold trimChars
  rw [List.append_assoc, trimStart_blanks ha]
  by_cases hcs : trimStart cs = []
  · have hall : Blanks (cs ++ b) := fun c hc =>
      (List.mem_append.mp hc).elim (List.dropWhile_eq_nil_iff.mp hcs c) (hb c)
    rw [hcs, hall.trimStart_eq]
  · rw [trimStart_append hcs, List.reverse_append, trimStart_blanks hreverse]

/-- **Blanks around a text** do not count. -/
theorem trim_blanks (ha : Blanks a) (hb : Blanks b) (s : String) :
    trim (String.ofList (a ++ s.toList ++ b)) = trim s := by
  rw [trim, String.toList_ofList, trimChars_blanks ha hb, trim]

theorem trimChars_unblanked (h : Unblanked cs) : trimChars cs = cs := by
  have hreverse : Unblanked cs.reverse := fun c hc => h c (List.mem_reverse.mp hc)
  rw [trimChars, trimStart_unblanked h, trimStart_unblanked hreverse, List.reverse_reverse]

/-- A text without blanks is left alone. -/
theorem trim_unblanked (h : Unblanked cs) : trim (String.ofList cs) = String.ofList cs := by
  rw [trim, String.toList_ofList, trimChars_unblanked h]

end Text

end ColumnMask
