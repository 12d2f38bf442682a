import Mathlib
import ColumnMask.Instant
import ColumnMask.Proofs.Instant
import ColumnMask.Proofs.Text

/-!
# Reading times

The text of an instant is read back as the instant, leap seconds and fractions of any width
included: in the relaxed notation for every instant, and in the strict one for every instant whose
year has four digits, also where the text tells the time at some distance from UTC.

- `Instant.localFields`: the parts that a text shows; `Instant.ofFields?_localFields` puts them
  together again.
- `Offset`: a distance from UTC as it is written.
- `Instant.parse?_localText`: the strict notation.
- `Instant.parseRelaxed?_text`: the relaxed notation.
-/

namespace ColumnMask

open Text

/-! ## Dates -/

namespace Calendar

/-- A day of a month is one of its days. -/
theorem dateOf_day_range (day : Int) :
    1 ≤ (dateOf day).day ∧
      (dateOf day).day ≤ daysInMonth (isLeapYear (dateOf day).year) (dateOf day).month := by
  obtain ⟨-, hlasts⟩ := dateOf_spec day
  have hback := dayNumber_dateOf day
  refine ⟨Nat.le_add_left _ _, ?_⟩
  simp only [dayNumber, daysInMonth] at hback hlasts ⊢
  omega

/-- The years of the days that can be represented. -/
theorem yearOf_range {day : Int} (h : firstDay ≤ day ∧ day ≤ lastDay) :
    -262143 ≤ yearOf day ∧ yearOf day ≤ 262142 := by
  obtain ⟨hbegun, hlasts⟩ := yearOf_spec day
  have hfirst : firstDay = yearStart (-262143) := by decide
  have hlast : lastDay < yearStart 262143 := by decide
  have hlow := yearStart_strictMono.lt_iff_lt.mp
    (by omega : yearStart (-262143) < yearStart (yearOf day + 1))
  have hhigh := yearStart_strictMono.lt_iff_lt.mp
    (by omega : yearStart (yearOf day) < yearStart 262143)
  omega

end Calendar

namespace Instant

/-! ## The parts of an instant -/

/-- The year that an instant falls into in UTC. -/
def year (t : Instant) : Int := (Calendar.dateOf (t.seconds / 86400)).year

/-- The second of the day. -/
def ofDay (t : Instant) : Nat := (t.seconds % 86400).toNat

/-- The second that is shown; in a leap second it is the sixtieth. -/
def shownSecond (t : Instant) : Nat := t.ofDay % 60 + if t.inLeapSecond then 1 else 0

theorem ofDay_lt (t : Instant) : t.ofDay < 86400 := by
  unfold ofDay
  omega

theorem ofDay_mod (t : Instant) : (t.ofDay % 60 : Nat) = (t.seconds % 60).toNat := by
  unfold ofDay
  omega

/-- The sixtieth second is shown for leap seconds only. -/
theorem shownSecond_cases (t : Instant) :
    (t.nanos < 1000000000 ∧ t.shownSecond = t.ofDay % 60) ∨
      (1000000000 ≤ t.nanos ∧ t.shownSecond = 60 ∧ t.ofDay % 60 = 59) := by
  unfold shownSecond inLeapSecond
  by_cases h : 1000000000 ≤ t.nanos
  · have hleap := t.leap h
    have hmod := t.ofDay_mod
    exact .inr ⟨h, by simp only [h, decide_true, if_true]; omega, by omega⟩
  · exact .inl ⟨by omega, by simp [h]⟩

/-- The parts that the text of an instant shows, taken at a distance from UTC. -/
def localFields (t : Instant) (offset : Int) : Fields where
  year := t.year
  month := (Calendar.dateOf (t.seconds / 86400)).month
  day := (Calendar.dateOf (t.seconds / 86400)).day
  hour := t.ofDay / 3600
  minute := t.ofDay / 60 % 60
  second := t.shownSecond
  nanos := t.nanos % 1000000000
  offset := offset

/-- **The parts of an instant** put it together again, moved by the distance from UTC. -/
theorem ofFields?_localFields (t : Instant) {offset : Int} (hoffset : offset.natAbs < 86400) :
    ofFields? (t.localFields offset) = make? (t.seconds - offset) t.nanos := by
  have hrange := t.inRange
  have hyear := Calendar.yearOf_range (by omega :
    Calendar.firstDay ≤ t.seconds / 86400 ∧ t.seconds / 86400 ≤ Calendar.lastDay)
  have hmonth := Calendar.dateOf_month_range (t.seconds / 86400)
  have hday := Calendar.dateOf_day_range (t.seconds / 86400)
  have hofDay := t.ofDay_lt
  have hsecond := t.shownSecond_cases
  have hnumber := Calendar.dayNumber_dateOf (t.seconds / 86400)
  have hseconds : (t.ofDay : Int) = t.seconds % 86400 := by
    unfold ofDay
    omega
  have hnanos := t.nanos_lt
  unfold ofFields?
  rw [if_pos ⟨hyear.1, hyear.2, hmonth.1, hmonth.2, hday.1, hday.2,
    by simp only [localFields]; omega, by simp only [localFields]; omega,
    by simp only [localFields]; omega, hoffset⟩]
  dsimp only
  -- a leap second is shown as second sixty, with the nanoseconds beyond a second taken off
  rcases hsecond with ⟨hsmall, hshown⟩ | ⟨hlarge, hshown, hlast⟩
  · have hne : (t.localFields offset).second ≠ 60 := by
      simp only [localFields]
      omega
    rw [if_neg hne, if_neg hne]
    simp only [localFields, year, hnumber, hshown]
    exact congrArg₂ make? (by omega) (by omega)
  · have heq : (t.localFields offset).second = 60 := hshown
    rw [if_pos heq, if_pos heq]
    simp only [localFields, year, hnumber]
    exact congrArg₂ make? (by omega) (by omega)

end Instant

/-! ## Distances from UTC -/

/-- A distance from UTC as it is written: `Z`, or a sign with hours and minutes. -/
inductive Offset where
  | utc
  | signed (behind : Bool) (hours : Fin 24) (minutes : Fin 60)

namespace Offset

/-- The distance as it is written. -/
def chars : Offset → List Char
  | utc => ['Z']
  | signed behind hours minutes =>
    (if behind then '-' else '+') :: padded 2 hours ++ ':' :: padded 2 minutes

/-- The seconds that the time is ahead of UTC. -/
def seconds : Offset → Int
  | utc => 0
  | signed behind hours minutes =>
    let n : Int := hours * 3600 + minutes * 60
    if behind then -n else n

theorem seconds_lt (o : Offset) : o.seconds.natAbs < 86400 := by
  cases o with
  | utc => decide
  | signed behind hours minutes =>
    have hhours := hours.isLt
    have hminutes := minutes.isLt
    simp only [seconds]
    split <;> omega

end Offset

namespace Instant

/-! ## Fields of digits -/

variable {width n : Nat} {rest : List Char}

theorem takeWhile_padded (hwidth : 0 < width) (h : n < 10 ^ width) :
    ((padded width n ++ rest).take width).takeWhile isDigit = padded width n := by
  rw [List.take_left' (length_padded hwidth h)]
  exact List.takeWhile_eq_self_iff.mpr (digits_padded width n)

/-- A field of fixed width is read by itself. -/
theorem fixed?_padded (hwidth : 0 < width) (h : n < 10 ^ width) :
    fixed? width (padded width n ++ rest) = some (n, rest) := by
  have hlength := length_padded hwidth h
  unfold fixed?
  simp only [takeWhile_padded hwidth h, digitsValue_padded]
  rw [if_neg (by omega), List.drop_left' hlength]

theorem number?_padded (hwidth : 0 < width) (h : n < 10 ^ width) :
    number? width (padded width n ++ rest) = some (n, rest) := by
  unfold number?
  simp only [takeWhile_padded hwidth h, digitsValue_padded]
  rw [if_neg (by simpa using padded_ne_nil width n), List.drop_left' rfl]

/-- A number of any width ends before what is no digit. -/
theorem number?_all (width n : Nat) (hrest : NoDigitHead rest) :
    number? (padded width n ++ rest).length (padded width n ++ rest) = some (n, rest) := by
  unfold number?
  simp only [List.take_length, takeWhile_digits (digits_padded width n) hrest, digitsValue_padded]
  rw [if_neg (by simpa using padded_ne_nil width n), List.drop_left' rfl]

/-! ## Fractions -/

/-- The digits of a fraction count from its first one. -/
theorem fraction?_padded (hwidth : 0 < width ∧ width ≤ 9) (h : n < 10 ^ width)
    (hrest : NoDigitHead rest) :
    fraction? ('.' :: padded width n ++ rest) = some (n * 10 ^ (9 - width), rest) := by
  have hlength := length_padded hwidth.1 h
  -- nine characters hold all digits of the fraction, and maybe more of the text
  have htake : ((padded width n ++ rest).take 9).takeWhile isDigit = padded width n := by
    rw [List.take_append, List.take_of_length_le (by omega)]
    refine takeWhile_digits (digits_padded width n) ?_
    intro c hc
    refine hrest c ?_
    rw [List.head?_take] at hc
    split at hc
    · simp at hc
    · exact hc
  have hdrop : rest.dropWhile isDigit = rest := by
    have h := dropWhile_digits digits_nil hrest
    simpa using h
  show fraction? ('.' :: (padded width n ++ rest)) = _
  unfold fraction?
  simp only [htake, digitsValue_padded]
  rw [if_neg (by simpa using padded_ne_nil width n), List.drop_left' rfl, hdrop, hlength]
  rfl

/-- The fraction that is written is read, whatever its width. -/
theorem fraction?_fractionText {nanos : Nat} (h : nanos < 1000000000) (hrest : NoDigitHead rest)
    (hpoint : rest.head? ≠ some '.') :
    fraction? (fractionText nanos ++ rest) = some (nanos, rest) := by
  unfold fractionText
  -- no fraction, or three, six or nine digits of it
  split_ifs with hzero hmillis hmicros
  · subst hzero
    rw [List.nil_append]
    unfold fraction?
    split
    case h_1 => exact absurd rfl hpoint
    case h_2 => rfl
  · rw [fraction?_padded (by decide) (by omega) hrest]
    exact congrArg (fun n => some (n, rest)) (by omega)
  · rw [fraction?_padded (by decide) (by omega) hrest]
    exact congrArg (fun n => some (n, rest)) (by omega)
  · rw [fraction?_padded (by decide) (by omega) hrest]
    exact congrArg (fun n => some (n, rest)) (by omega)

/-! ## The strict notation -/

/-- What follows the time begins with neither a digit nor a point. -/
theorem head_chars (o : Offset) : NoDigitHead o.chars ∧ o.chars.head? ≠ some '.' := by
  cases o with
  | utc => exact ⟨by simp [NoDigitHead, Offset.chars]; decide, by simp [Offset.chars]⟩
  | signed behind hours minutes =>
    cases behind with
    | true => exact ⟨by simp [NoDigitHead, Offset.chars]; decide, by simp [Offset.chars]⟩
    | false => exact ⟨by simp [NoDigitHead, Offset.chars]; decide, by simp [Offset.chars]⟩

/-- A distance from UTC is read as it is written. -/
theorem offset?_chars (o : Offset) : offset? (char? ':') o.chars = some (o.seconds, []) := by
  cases o with
  | utc => rfl
  | signed behind hours minutes =>
    have hhours : hours.val < 10 ^ 2 := by have := hours.isLt; omega
    have hminutes : minutes.val < 10 ^ 2 := by have := minutes.isLt; omega
    have hlt : ¬ 60 ≤ minutes.val := by have := minutes.isLt; omega
    have hend : fixed? 2 (padded 2 minutes.val ++ []) = some (minutes.val, []) :=
      fixed?_padded (by decide) hminutes
    rw [List.append_nil] at hend
    cases behind with
    -- the same digits with either sign
    | true =>
      simp [offset?, Offset.chars, Offset.seconds, fixed?_padded (by decide : 0 < 2) hhours, char?,
        hend, hlt]
    | false =>
      simp [offset?, Offset.chars, Offset.seconds, fixed?_padded (by decide : 0 < 2) hhours, char?,
        hend, hlt]

@[simp] theorem char?_self (c : Char) (rest : List Char) : char? c (c :: rest) = some rest :=
  if_pos rfl

/-- The fields of the text of an instant one after the other. -/
theorem localText_append (t : Instant) (rest : List Char) :
    t.localText ++ rest = yearText t.year ++ '-' :: (padded 2 (t.localFields 0).month ++
      '-' :: (padded 2 (t.localFields 0).day ++ 'T' :: (padded 2 (t.localFields 0).hour ++
      ':' :: (padded 2 (t.localFields 0).minute ++ ':' :: (padded 2 t.shownSecond ++
      (fractionText (t.nanos % 1000000000) ++ rest)))))) := by
  simp [localText, year, localFields, shownSecond, ofDay]

/-- Fields of two digits hold what is written into them. -/
theorem localFields_lt (t : Instant) :
    (t.localFields 0).month < 10 ^ 2 ∧ (t.localFields 0).day < 10 ^ 2 ∧
      (t.localFields 0).hour < 10 ^ 2 ∧ (t.localFields 0).minute < 10 ^ 2 ∧
      t.shownSecond < 10 ^ 2 := by
  have hmonth := Calendar.dateOf_month_range (t.seconds / 86400)
  have hday := Calendar.dateOf_day_range (t.seconds / 86400)
  have hofDay := t.ofDay_lt
  have hsecond := t.shownSecond_cases
  have hlength : ∀ leap, ∀ m ≤ 12, 1 ≤ m → Calendar.daysInMonth leap m ≤ 31 := by decide
  have hdays := hlength (Calendar.isLeapYear (Calendar.dateOf (t.seconds / 86400)).year) _ hmonth.2
    hmonth.1
  simp only [localFields]
  omega

theorem unblanked_padded (width n : Nat) : Unblanked (padded width n) :=
  (digits_padded width n).unblanked

/-- There are no blanks in a time. -/
theorem unblanked_localText (t : Instant) (o : Offset) : Unblanked (t.localText ++ o.chars) := by
  -- part by part: the year, the fraction and the offset
  have hyear : Unblanked (yearText t.year) := by
    unfold yearText
    split_ifs
    · exact unblanked_padded 4 _
    · exact unblanked_cons.mpr ⟨by decide, unblanked_padded 4 _⟩
    · exact unblanked_cons.mpr ⟨by decide, unblanked_padded 4 _⟩
  have hfraction (nanos : Nat) : Unblanked (fractionText nanos) := by
    unfold fractionText
    split_ifs
    · exact unblanked_nil
    · exact unblanked_cons.mpr ⟨by decide, unblanked_padded 3 _⟩
    · exact unblanked_cons.mpr ⟨by decide, unblanked_padded 6 _⟩
    · exact unblanked_cons.mpr ⟨by decide, unblanked_padded 9 _⟩
  have hoffset : Unblanked o.chars := by
    cases o with
    | utc => exact unblanked_cons.mpr ⟨by decide, unblanked_nil⟩
    | signed behind hours minutes =>
      have hsign : isBlank (if behind then '-' else '+') = false := by
        cases behind <;> decide
      exact unblanked_append.mpr ⟨unblanked_cons.mpr ⟨hsign, unblanked_padded 2 _⟩,
        unblanked_cons.mpr ⟨by decide, unblanked_padded 2 _⟩⟩
  have hdash : isBlank '-' = false := by decide
  have hcolon : isBlank ':' = false := by decide
  have hmark : isBlank 'T' = false := by decide
  simp only [localText_append, unblanked_append, unblanked_cons, hyear, hdash, hcolon, hmark,
    unblanked_padded, hfraction, hoffset, and_self]

/-- **The strict notation** tells an instant by its time at any distance from UTC, if the year there
has four digits. -/
theorem parse?_localText {t there : Instant} (hyear : 0 ≤ there.year ∧ there.year ≤ 9999)
    (o : Offset) (hseconds : t.seconds = there.seconds - o.seconds)
    (hnanos : t.nanos = there.nanos) :
    parse? (String.ofList (there.localText ++ o.chars)) = some t := by
  obtain ⟨hmonth, hday, hhour, hminute, hsecond⟩ := there.localFields_lt
  obtain ⟨hdigit, hpoint⟩ := head_chars o
  have hfraction := fraction?_fractionText (Nat.mod_lt there.nanos (by decide)) hdigit hpoint
  have hfour : there.year.toNat < 10 ^ 4 := by omega
  -- the fields are those of the time there, which the distance from UTC brings back to `t`
  have hfields := there.ofFields?_localFields o.seconds_lt
  rw [← hseconds, ← hnanos, make?_eq_some_iff.mpr ⟨rfl, rfl⟩] at hfields
  have hcast : (there.year.toNat : Int) = there.year := by omega
  have htwo : 0 < 2 := by decide
  unfold parse?
  dsimp only [Option.bind_eq_bind]
  rw [String.toList_ofList, localText_append, yearText, if_pos hyear]
  -- field after field, each with what separates it from the one before
  rw [fixed?_padded (by decide) hfour, Option.bind_some, char?_self, Option.bind_some,
    fixed?_padded htwo hmonth, Option.bind_some, char?_self, Option.bind_some,
    fixed?_padded htwo hday, Option.bind_some, separator?, if_pos (.inl rfl), Option.bind_some,
    fixed?_padded htwo hhour, Option.bind_some, char?_self, Option.bind_some,
    fixed?_padded htwo hminute, Option.bind_some, char?_self, Option.bind_some,
    fixed?_padded htwo hsecond, Option.bind_some, hfraction, Option.bind_some, offset?_chars,
    Option.bind_some]
  dsimp only
  rw [hcast, if_pos List.isEmpty_nil]
  exact hfields

/-! ## The relaxed notation -/

theorem isDigit_of_padded_append {c : Char} {cs : List Char}
    (h : padded width n ++ rest = c :: cs) : isDigit c = true := by
  have hdigits := digits_padded width n
  obtain ⟨d, ds, hpadded⟩ := List.exists_cons_of_ne_nil (padded_ne_nil width n)
  rw [hpadded] at h hdigits
  obtain ⟨rfl, -⟩ := List.cons.inj h
  exact (digits_cons.mp hdigits).1

theorem trimStart_padded (width n : Nat) (rest : List Char) :
    trimStart (padded width n ++ rest) = padded width n ++ rest := by
  obtain ⟨c, cs, h⟩ := List.exists_cons_of_ne_nil
    (by simp [padded_ne_nil] : padded width n ++ rest ≠ [])
  rw [h]
  exact trimStart_cons (isBlank_of_isDigit (isDigit_of_padded_append h)) cs

theorem relaxedNumber?_padded (h : n < 10 ^ 2) :
    relaxedNumber? (padded 2 n ++ rest) = some (n, rest) := by
  rw [relaxedNumber?, trimStart_padded, number?_padded (by decide) h]

theorem relaxedChar?_cons {c : Char} (h : isBlank c = false) (rest : List Char) :
    relaxedChar? c (c :: rest) = some rest := by
  rw [relaxedChar?, trimStart_cons h, char?, if_pos rfl]

/-- Years of any size are read, with a sign where they have one. -/
theorem relaxedYear?_yearText (year : Int) (hrest : NoDigitHead rest) :
    relaxedYear? (yearText year ++ rest) = some (year, rest) := by
  -- years of four digits have no sign, and a sign is never a digit
  by_cases hfour : 0 ≤ year ∧ year ≤ 9999
  · have hread : number? 4 (padded 4 year.toNat ++ rest) = some (year.toNat, rest) :=
      number?_padded (by decide) (by omega)
    rw [yearText, if_pos hfour, relaxedYear?, trimStart_padded]
    split
    case h_1 heq => exact absurd (isDigit_of_padded_append heq) (by decide)
    case h_2 heq => exact absurd (isDigit_of_padded_append heq) (by decide)
    case h_3 =>
      rw [hread, Option.map_some]
      exact congrArg (fun y => some (y, rest)) (Int.toNat_of_nonneg hfour.1)
  · rw [yearText, if_neg hfour]
    by_cases hneg : year < 0
    · rw [if_pos hneg, List.cons_append, relaxedYear?, trimStart_cons (by decide)]
      simp only [number?_all 4 year.natAbs hrest, Option.map_some]
      exact congrArg (fun y => some (y, rest)) (by omega)
    · rw [if_neg hneg, List.cons_append, relaxedYear?, trimStart_cons (by decide)]
      simp only [number?_all 4 year.natAbs hrest, Option.map_some]
      exact congrArg (fun y => some (y, rest)) (by omega)

/-- **The relaxed notation** reads the text of every instant. -/
theorem parseRelaxed?_text (t : Instant) : parseRelaxed? t.text = some t := by
  obtain ⟨hmonth, hday, hhour, hminute, hsecond⟩ := t.localFields_lt
  obtain ⟨hdigit, hpoint⟩ := head_chars .utc
  have hfraction := fraction?_fractionText (Nat.mod_lt t.nanos (by decide)) hdigit hpoint
  have hoffset : relaxedOffset? (trimStart Offset.utc.chars) = some (0, []) := rfl
  have hfields : ofFields? (t.localFields 0) = make? (t.seconds - 0) t.nanos :=
    t.ofFields?_localFields (by decide)
  rw [Int.sub_zero, make?_eq_some_iff.mpr ⟨rfl, rfl⟩] at hfields
  have htext : t.text = String.ofList (t.localText ++ Offset.utc.chars) := rfl
  have hdash : isBlank '-' = false := by decide
  have hcolon : isBlank ':' = false := by decide
  unfold parseRelaxed?
  dsimp only [Option.bind_eq_bind]
  -- field by field, each with the character that ends it
  rw [htext, String.toList_ofList, localText_append, relaxedYear?_yearText]
  · rw [Option.bind_some, relaxedChar?_cons hdash, Option.bind_some, relaxedNumber?_padded hmonth,
      Option.bind_some, relaxedChar?_cons hdash, Option.bind_some, relaxedNumber?_padded hday,
      Option.bind_some, separator?, if_pos (.inl rfl), Option.bind_some,
      relaxedNumber?_padded hhour, Option.bind_some, relaxedChar?_cons hcolon, Option.bind_some,
      relaxedNumber?_padded hminute, Option.bind_some, relaxedChar?_cons hcolon, Option.bind_some,
      relaxedNumber?_padded hsecond, Option.bind_some, hfraction, Option.bind_some, hoffset,
      Option.bind_some]
    dsimp only
    rw [trimStart_nil, if_pos List.isEmpty_nil]
    exact hfields
  · intro c hc
    simp at hc
    subst hc
    decide

end Instant

end ColumnMask
