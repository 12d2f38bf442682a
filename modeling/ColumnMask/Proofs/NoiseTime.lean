import Mathlib
import ColumnMask.Proofs.CheckedRead
import ColumnMask.Proofs.Instant
import ColumnMask.Proofs.Noise

/-!
# Moved instants

Noise on an instant moves it by a duration that the block chooses, back or forth, and then brings it
into a window and down to a whole unit.

- `NoiseTime.size_mem`, `NoiseTime.exists_size`: the sizes are those from the least duration up to
  the greatest one, which is not reached itself, and each of them is chosen in both directions.
- `NoiseTime.settle`: what becomes of a moved instant. What it gives lies in the window and is a
  whole unit.
- `NoiseTime.call_moves_and_settles`: what a call gives for every block.
-/

namespace ColumnMask

namespace NoiseTime

variable (noise : NoiseTime) {t u v : Instant} {block : Bytes} {s : Int}

/-! ## The size of a move -/

/-- An even first byte moves back, an odd one forth. -/
theorem move_eq (block : Bytes) :
    noise.move block =
      if block.getD 0 0 % 2 = 0 then -noise.size block else noise.size block := by
  simp only [move, beq_iff_eq]
  rfl

/-- The sizes lie between the durations. -/
theorem size_mem (block : Bytes) :
    noise.least ≤ noise.size block ∧ noise.size block < noise.least + noise.distance := by
  have hoffset := noise.offset_lt block
  unfold size
  omega

/-- Every size is chosen by some block in either direction. -/
theorem exists_size (hs : noise.least ≤ s ∧ s < noise.least + noise.distance) (direction : UInt8) :
    ∃ block : Bytes, block.length = length ∧ block.getD 0 0 = direction ∧ noise.size block = s := by
  have hdistance := noise.distance_range
  have hfits : (s - noise.least).toNat < 2 ^ 63 := by omega
  refine ⟨direction :: (Bytes.ofNatLE 8 (s - noise.least).toNat ++ List.replicate 8 0), ?_, rfl, ?_⟩
  · simp [length]
  · have hword : ((direction :: (Bytes.ofNatLE 8 (s - noise.least).toNat ++
        List.replicate 8 0)).drop 1).take 8 = Bytes.ofNatLE 8 (s - noise.least).toNat :=
      List.take_left' (by simp)
    have hoffset : ((s - noise.least).toNat : Int) = s - noise.least := by omega
    -- an offset below the distance is its own remainder
    rw [size, offset, hword, Bytes.toInt_readInt64_ofNatLE hfits, hoffset,
      Int.tmod_eq_of_lt (by omega) (by omega)]
    omega

/-! ## What becomes of a moved instant -/

/-- A moved instant is brought into the window, if there is one, and truncated there, if whole units
are wanted. -/
def settle (window : Option OpenWindow) (unit : Option CalendarUnit) (moved : Instant) :
    Except DecodeError Instant :=
  let limited := window.elim moved fun w => w.clamp moved
  unit.elim (.ok limited) fun unit =>
    (unit.truncateWithin limited (window.bind (·.min)) (window.bind (·.max))).mapError
      .runtimeLimiter

/-- A call that cannot move the instant fails; any other one settles what it is moved to. -/
theorem apply_eq (override : Option OpenWindow) (t : Instant) (block : Bytes) :
    noise.apply override t block =
      match t.shift? (noise.move block) with
      | some moved => settle (override.or noise.window) noise.unit moved
      | none => .error (.timestampOutOfRange t.seconds t.nanos) := by
  unfold apply settle
  -- both sides shift, clamp and truncate, and differ in how a missing window is written
  cases t.shift? (noise.move block) with
  | none => rfl
  | some moved =>
    cases noise.unit with
    | none =>
      cases override.or noise.window with
      | none => rfl
      | some w => rfl
    | some unit =>
      cases override.or noise.window with
      | none =>
        dsimp only [bind, Except.bind, Option.elim, Option.bind]
        cases unit.truncateWithin moved none none with
        | error e => rfl
        | ok out => rfl
      | some w =>
        dsimp only [bind, Except.bind, Option.elim, Option.bind]
        cases unit.truncateWithin (w.clamp moved) w.min w.max with
        | error e => rfl
        | ok out => rfl

/-- **What is settled lies in the window and is a whole unit.** -/
theorem settle_ok {window : Option OpenWindow} {unit : Option CalendarUnit}
    (h : settle window unit u = .ok v) :
    (∀ w ∈ window, (∀ low ∈ w.min, low ≤ v) ∧ ∀ high ∈ w.max, v ≤ high) ∧
      ∀ p ∈ unit, p.truncate v = v := by
  unfold settle at h
  -- without a unit the clamped instant is returned; with one, truncating keeps to the bounds
  rcases unit with _ | unit
  · obtain rfl := Except.ok.inj h
    constructor
    · rintro w rfl
      exact ⟨w.min_le_clamp u, w.clamp_le_max u⟩
    · simp
  · obtain ⟨hwhole, hlow, hhigh⟩ := CalendarUnit.truncateWithin_ok (mapError_eq_ok.mp h)
    constructor
    · rintro w rfl
      exact ⟨hlow, hhigh⟩
    · rintro p ⟨⟩
      exact hwhole

/-- What cannot be settled has no whole unit to be brought to. -/
theorem settle_error {window : Option OpenWindow} {unit : Option CalendarUnit} {e : DecodeError}
    (h : settle window unit u = .error e) : ∃ error, e = .runtimeLimiter error := by
  unfold settle at h
  rcases unit with _ | unit
  · contradiction
  · dsimp only [Option.elim_some] at h
    rcases hrun : unit.truncateWithin _ _ _ with error | out
    · rw [hrun] at h
      exact ⟨error, (Except.error.inj h).symm⟩
    · rw [hrun] at h
      contradiction

/-! ## Calls -/

/-- What a call says of an instant or of a failure. -/
def answer : Except DecodeError Instant → Except (Stop TransformError) Value
  | .ok out => .ok (.timestamp out)
  | .error e => .error (.failure (.decode e))

/-- What is answered for a settled instant is an instant in the window, on a whole unit. -/
theorem answer_settle_ok {window : Option OpenWindow} {unit : Option CalendarUnit} {out : Value}
    (h : answer (settle window unit u) = .ok out) :
    ∃ v, out = .timestamp v ∧
      (∀ w ∈ window, (∀ low ∈ w.min, low ≤ v) ∧ ∀ high ∈ w.max, v ≤ high) ∧
      ∀ p ∈ unit, p.truncate v = v := by
  rcases hsettle : settle window unit u with e | v
  · rw [hsettle] at h
    contradiction
  · rw [hsettle] at h
    exact ⟨v, (Except.ok.inj h).symm, settle_ok hsettle⟩

/-- Settling does not fail for the range of instants. -/
theorem answer_settle_ne (window : Option OpenWindow) (unit : Option CalendarUnit) (u : Instant)
    (seconds : Int) (nanos : Nat) :
    answer (settle window unit u) ≠
      .error (.failure (.decode (.timestampOutOfRange seconds nanos))) := by
  rcases hsettle : settle window unit u with e | v
  · obtain ⟨error, rfl⟩ := settle_error hsettle
    simp [answer]
  · simp [answer]

theorem outcome_eq (override : Option OpenWindow) (t : Instant) (block : Bytes) :
    (Request.noiseTime t override : Request (.noiseTime noise)).outcome block =
      answer (noise.apply override t block) := by
  show (match noise.apply override t block with | .ok out => _ | .error e => _) = _
  rcases noise.apply override t block with e | out
  · rfl
  · rfl

variable {noise}

theorem outcome_of_reaches (h : t.Reaches (noise.move block) u) (override : Option OpenWindow) :
    (Request.noiseTime t override : Request (.noiseTime noise)).outcome block =
      answer (settle (override.or noise.window) noise.unit u) := by
  rw [outcome_eq, apply_eq, Instant.shift?_eq_some_iff.mpr h]

theorem outcome_of_not_reaches (h : ∀ u, ¬ t.Reaches (noise.move block) u)
    (override : Option OpenWindow) :
    (Request.noiseTime t override : Request (.noiseTime noise)).outcome block =
      .error (.failure (.decode (.timestampOutOfRange t.seconds t.nanos))) := by
  rw [outcome_eq, apply_eq, Instant.shift?_eq_none_iff.mpr h]
  rfl

theorem make?_eq_ok {least greatest : Duration} {window : Option OpenWindow}
    {unit : Option CalendarUnit} (h : make? least greatest window unit = .ok noise) :
    noise.least = least ∧ noise.least + noise.distance = greatest ∧ noise.window = window ∧
      noise.unit = unit := by
  unfold make? at h
  split_ifs at h
  obtain rfl := Except.ok.inj h
  refine ⟨rfl, ?_, rfl, rfl⟩
  simp only [Duration] at *
  omega

/-- **Noise moves an instant by every duration between the two it was made with**, the greater one
left out, and by no other. No operation on words overflows on the way. An even first byte moves back
and an odd one forth. The call fails for the range of instants exactly if the moved instant cannot
be represented; otherwise that instant is settled in the window of the call, or else of the rule,
and what comes out lies in this window and is a whole unit if such are wanted. -/
theorem call_moves_and_settles {least greatest : Duration} {window : Option OpenWindow}
    {unit : Option CalendarUnit} (hmake : make? least greatest window unit = .ok noise)
    (t : Instant) (override : Option OpenWindow) :
    let call : Request (.noiseTime noise) := .noiseTime t override
    let limits := override.or window
    (∀ block : Bytes, block.length = length → ∃ s result,
      noise.checkedSize block = some s ∧ least ≤ s ∧ s < greatest ∧ call.Gives block result ∧
      let d := if block.getD 0 0 % 2 = 0 then -s else s
      (result = .error (.failure (.decode (.timestampOutOfRange t.seconds t.nanos))) ↔
        ∀ u, ¬ t.Reaches d u) ∧
      (∀ u, t.Reaches d u → result = answer (settle limits unit u)) ∧
      ∀ v, result = .ok v → ∃ u, v = .timestamp u ∧
        (∀ w ∈ limits, (∀ low ∈ w.min, low ≤ u) ∧ ∀ high ∈ w.max, u ≤ high) ∧
        ∀ p ∈ unit, p.truncate u = u) ∧
    ∀ s, least ≤ s → s < greatest → ∀ direction, ∃ block : Bytes, block.length = length ∧
      block.getD 0 0 = direction ∧ noise.checkedSize block = some s := by
  obtain ⟨rfl, rfl, rfl, rfl⟩ := make?_eq_ok hmake
  intro call limits
  constructor
  · intro block hlength
    refine ⟨noise.size block, call.outcome block, noise.checkedSize_eq hlength,
      (noise.size_mem block).1, (noise.size_mem block).2, Request.gives_outcome call hlength, ?_⟩
    intro d
    have hmove : noise.move block = d := noise.move_eq block
    -- the move ends at an instant that there is, and settles there
    by_cases hreaches : ∃ u, t.Reaches d u
    · obtain ⟨u, hu⟩ := hreaches
      have hcall : call.outcome block = answer (settle limits noise.unit u) :=
        outcome_of_reaches (hmove ▸ hu) override
      rw [hcall]
      refine ⟨⟨fun h => absurd h (answer_settle_ne _ _ _ _ _), fun h => absurd hu (h u)⟩, ?_, ?_⟩
      · intro u' hu'
        rw [hu.unique hu']
      · intro v hv
        exact answer_settle_ok hv
    · -- or it ends at none, and the call says so
      have hnone : ∀ u, ¬ t.Reaches d u := not_exists.mp hreaches
      have hcall : call.outcome block =
          .error (.failure (.decode (.timestampOutOfRange t.seconds t.nanos))) :=
        outcome_of_not_reaches (hmove ▸ hnone) override
      rw [hcall]
      refine ⟨⟨fun _ => hnone, fun _ => rfl⟩, ?_, ?_⟩
      · intro u hu
        exact absurd hu (hnone u)
      · intro v hv
        contradiction
  · -- some block has this size, in either direction
    intro s hlow hhigh direction
    obtain ⟨block, hlength, hdirection, rfl⟩ := noise.exists_size ⟨hlow, hhigh⟩ direction
    exact ⟨block, hlength, hdirection, noise.checkedSize_eq hlength⟩

/-- Noise whose durations are as far apart as they may be, the least one being 146 years back, in a
window with an end only and on whole seconds. -/
def widest (limit : Instant) : NoiseTime where
  least := -4611686018427387904
  distance := 9223372036854775807
  distance_pos := by decide
  least_range := by decide
  greatest_range := by decide
  distance_range := by decide
  window := some ⟨none, some limit, by simp⟩
  unit := some .second

/-- In the middle of the leap second in the summer of 2012. -/
def summerLeap : Instant := (Instant.parse? "2012-06-30T23:59:60.5Z").get (by decide +kernel)

/-- Zeros take the least duration away, which moves the leap second on by 146 years. A window that
ends in this leap second brings it back. -/
theorem call_moves_and_settles_widest :
    let noise := widest summerLeap
    make? noise.least (noise.least + noise.distance) noise.window noise.unit = .ok noise ∧
      noise.checkedSize (List.replicate 17 0) = some noise.least ∧
      (Request.noiseTime summerLeap none : Request (.noiseTime noise)).Gives (List.replicate 17 0)
        (.ok (.timestamp (CalendarUnit.second.truncate summerLeap))) := by
  intro noise
  have hmake : make? noise.least (noise.least + noise.distance) noise.window noise.unit =
      .ok noise :=
    make?_of_range noise.distance_pos noise.least_range noise.greatest_range noise.distance_range ..
  -- zeros give the least duration, and an even first byte turns it around
  have hsize : noise.checkedSize (List.replicate 17 0) = some noise.least := by
    decide +kernel
  let later := (Instant.parse? "2158-08-20T23:53:37.927387904Z").get (by decide +kernel)
  have hlater : summerLeap.Reaches 4611686018427387904 later :=
    Instant.shift?_eq_some_iff.mp (by decide +kernel)
  have hsettle : settle noise.window noise.unit later =
      .ok (CalendarUnit.second.truncate summerLeap) := by
    decide +kernel
  -- it leads from the leap second to `later`, which is limited to the leap second and truncated
  obtain ⟨hcall, -⟩ := call_moves_and_settles hmake summerLeap none
  obtain ⟨s, result, hs, -, -, hgives, -, hresult, -⟩ := hcall (List.replicate 17 0) rfl
  obtain rfl : noise.least = s := Option.some.inj (hsize.symm.trans hs)
  have hanswer := hresult later hlater
  rw [Option.none_or, hsettle] at hanswer
  subst hanswer
  exact ⟨hmake, hsize, hgives⟩

end NoiseTime

end ColumnMask
