import Mathlib
import ColumnMask.Proofs.DecimalPrint
import ColumnMask.Proofs.MacText
import ColumnMask.Proofs.ShortestDigits
import ColumnMask.Value

/-!
# Values in JSON

What JSON shows of a value is the value whose canonical text is shown without it. Texts stand in
quotes there, numbers may have other digits, and only a float that is not finite is lost.

- `Text.unquoted?`: reads a JSON string.
- `Text.unquoted?_quoted`: what was written in quotes is read back.
- `Value.SameInJson`: how the two texts of a value belong together.
- `Value.sameInJson`: they do so for every value.
-/

namespace ColumnMask

namespace Text

/-! ## Texts in quotes -/

/-- The character for which another one stands after a backslash. -/
def unescape? : Char → Option Char
  | '"' => some '"'
  | '\\' => some '\\'
  | '/' => some '/'
  | 'b' => some '\x08'
  | 'f' => some '\x0c'
  | 'n' => some '\n'
  | 'r' => some '\r'
  | 't' => some '\t'
  | _ => none

/-- The character with a number of four hexadecimal digits. -/
def unescapeNumber? (a b c d : Char) : Option Char := do
  let n := ((16 * (← hexValue? a) + (← hexValue? b)) * 16 + (← hexValue? c)) * 16 + (← hexValue? d)
  if n.isValidChar then some (Char.ofNat n) else none

/-- The characters of a JSON string from its opening quote on, up to the quote at the end. -/
def unescaped? : List Char → Option (List Char)
  | [] => none
  | '"' :: rest => if rest.isEmpty then some [] else none
  | '\\' :: 'u' :: a :: b :: c :: d :: rest => do
    let first ← unescapeNumber? a b c d
    return first :: (← unescaped? rest)
  | '\\' :: c :: rest => do
    let first ← unescape? c
    return first :: (← unescaped? rest)
  | c :: rest => if c.toNat < 32 then none else (unescaped? rest).map (c :: ·)

/-- Reads a JSON string. -/
def unquoted? (s : String) : Option String :=
  match s.toList with
  | '"' :: rest => (unescaped? rest).map String.ofList
  | _ => none

/-- The number of a control character has two zeros in front. -/
theorem unescapeNumber?_control {c : Char} (h : c.toNat < 32) :
    unescapeNumber? '0' '0' (hexDigit (c.toNat / 16)) (hexDigit (c.toNat % 16)) = some c := by
  have hzero : hexValue? '0' = some 0 := by decide
  have hhigh := hexValue?_hexDigit (c.toNat / 16) (by omega)
  have hlow := hexValue?_hexDigit (c.toNat % 16) (by omega)
  have hnumber : ((16 * 0 + 0) * 16 + c.toNat / 16) * 16 + c.toNat % 16 = c.toNat := by omega
  unfold unescapeNumber?
  rw [hzero, hhigh, hlow]
  simp only [Option.bind_eq_bind, Option.bind_some, hnumber]
  rw [if_pos (.inl (by omega)), Char.ofNat_toNat]

theorem unescaped?_escape (c : Char) (rest : List Char) :
    unescaped? (escape c ++ rest) = (unescaped? rest).map (c :: ·) := by
  unfold escape
  split
  case h_8 hquote hbackslash _ _ _ _ _ =>
    split_ifs with hcontrol
    · have hnumber := unescapeNumber?_control hcontrol
      simp [unescaped?, hnumber, Option.map_eq_bind]
    · rw [List.singleton_append, unescaped?, if_neg hcontrol]
      · exact hquote
      · exact fun _ _ _ _ _ heq => (hbackslash heq).elim
      · exact fun _ _ heq => (hbackslash heq).elim
  all_goals
    simp [unescaped?, unescape?, Option.map_eq_bind]

/-- **What was written in quotes** is read back. -/
theorem unquoted?_quoted (s : String) : unquoted? (quoted s) = some s := by
  have hread : ∀ cs, unescaped? (cs.flatMap escape ++ ['"']) = some cs := by
    intro cs
    induction cs with
    | nil => rfl
    | cons c cs ih => rw [List.flatMap_cons, List.append_assoc, unescaped?_escape, ih]; rfl
  rw [unquoted?, quoted, String.toList_ofList]
  show (unescaped? (s.toList.flatMap escape ++ ['"'])).map String.ofList = _
  rw [hread, Option.map_some, String.ofList_toList]

end Text

/-! ## Values -/

namespace Value

open Text

/-- How the two texts of a value belong together. Texts are the same but for the quotes, and numbers
are read from both as the same number; a float that is not finite is null in JSON. -/
def SameInJson (v : Value) : Prop :=
  match v with
  | integer _ | bool _ => v.json = v.write
  | float x =>
    if x.isFinite then Binary64.parse? v.json = some x ∧ Binary64.parse? v.write = some x
    else v.json = "null"
  | decimal d => d.WordScale → ∃ shown a b, unquoted? v.json = some shown ∧
      Decimal.parse? shown = some a ∧ a.Same d ∧ Decimal.parse? v.write = some b ∧ b.Same d
  | _ => unquoted? v.json = some v.write

theorem jsonFloat_of_not_finite {x : Float} (h : x.isFinite = false) :
    Binary64.marked jsonFloat x = "null" := by
  unfold Float.isFinite Float.Model.isFinite at h
  unfold Binary64.marked Binary64.ofFloat
  cases hunpack : x.toModel.unpack with
  | notANumber => rfl
  | infinity sign => rfl
  | zero sign =>
    rw [hunpack] at h
    contradiction
  | finite sign m e hm =>
    rw [hunpack] at h
    contradiction

/-- **In JSON a value is the same**, as far as JSON has it. -/
theorem sameInJson (v : Value) : v.SameInJson := by
  cases v with
  | integer n => exact rfl
  | bool b => exact rfl
  | float x =>
    -- JSON has no word for a float that is not finite
    cases hfinite : x.isFinite with
    | true =>
      rw [SameInJson, if_pos hfinite]
      exact ⟨Binary64.parse?_marked jsonFloat hfinite, Binary64.parse?_text hfinite⟩
    | false =>
      rw [SameInJson, if_neg (by rw [hfinite]; decide)]
      exact jsonFloat_of_not_finite hfinite
  | decimal d =>
    -- decimals are quoted, with an exponent where the plain text has zeros
    intro hscale
    obtain ⟨a, hshown, ha⟩ := Decimal.parse?_displayText hscale
    obtain ⟨b, hwritten, hb⟩ := Decimal.parse?_plainText hscale
    exact ⟨d.displayText, a, b, unquoted?_quoted _, hshown, ha, hwritten, hb⟩
  -- the other kinds are their plain texts in quotes
  | timestamp t => exact unquoted?_quoted t.text
  | text s => exact unquoted?_quoted s
  | uuid u => exact unquoted?_quoted u.text
  | ip a => exact unquoted?_quoted a.text
  | mac a => exact unquoted?_quoted a.text

end Value

end ColumnMask
