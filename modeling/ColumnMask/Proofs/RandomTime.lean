import Mathlib
import ColumnMask.Proofs.Bytes
import ColumnMask.Proofs.Call
import ColumnMask.Proofs.TimeWindow
import ColumnMask.Proofs.WholeUnits

/-!
# What random instants reach

A random instant is folded into a window and then truncated without leaving it.

- `RandomTime.targets`: the instants that are wanted, which are the whole units of a window outside
  leap seconds.
- `RandomTime.read_mem`, `RandomTime.exists_read`: what is read is wanted, and all that is wanted is
  read for some block.
- `RandomTime.call_results_eq`: over all generators a call gives exactly the wanted instants, and an
  error in their place only if the window of this call has none.
-/

namespace ColumnMask

namespace RandomTime

/-- The instants of a window outside leap seconds that a unit, if there is one, leaves alone. -/
def targets (w : Window Instant) (unit : Option CalendarUnit) : Set Instant :=
  {t | t.inLeapSecond = false ∧ (w.min ≤ t ∧ t ≤ w.max) ∧ ∀ u ∈ unit, u.truncate t = t}

/-- The error of a call whose window has no whole unit. -/
def noTarget (w : Window Instant) (unit : CalendarUnit) : DecodeError :=
  .runtimeLimiter (unit.emptyWindow (some w.min) (some w.max))

variable {r : RandomTime} {override : Option (Window Instant)}

/-! ## Reading a block -/

/-- A block is folded into the window first and then truncated. -/
theorem read_eq (r : RandomTime) (override : Option (Window Instant)) (block : Bytes) :
    ∃ t, (override.getD r.window).InParts t.seconds t.nanos ∧
      r.read override block =
        match r.unit with
        | none => .ok t
        | some unit =>
          (unit.truncateWithin t (some (override.getD r.window).min)
            (some (override.getD r.window).max)).mapError .runtimeLimiter := by
  obtain ⟨t, hfold, hparts⟩ := (override.getD r.window).foldTime_ok
    (UInt64.ofNat (Bytes.readInt64 (block.take 8)).toInt.natAbs)
    ((Bytes.readUInt64 ((block.drop 8).take 8)).toNat % 1000000000)
  refine ⟨t, hparts, ?_⟩
  simp only [read, hfold, bind, Except.bind]
  cases r.unit with
  | none => rfl
  | some unit =>
    dsimp only
    rcases unit.truncateWithin t _ _ with e | out
    · rfl
    · rfl

/-- Outside leap seconds truncation inside a window gives what is wanted of it. -/
theorem truncateWithin_mem_targets {w : Window Instant} {unit : CalendarUnit} {t u : Instant}
    (hmin : w.min.inLeapSecond = false) (ht : t.inLeapSecond = false)
    (h : unit.truncateWithin t (some w.min) (some w.max) = .ok u) : u ∈ targets w (some unit) := by
  obtain ⟨hraised, hhigh⟩ := CalendarUnit.raised_of_truncateWithin h
  have hwhole := hraised.whole ht (by simpa using hmin)
  exact ⟨hwhole.1, ⟨hraised.min_le _ rfl, hhigh _ rfl⟩, by simpa using hwhole.2⟩

/-- From an instant of the window truncation fails exactly if nothing is wanted of it. -/
theorem truncateWithin_eq_error_iff {w : Window Instant} {unit : CalendarUnit} {t : Instant}
    (hmin : w.min.inLeapSecond = false) (ht : t.inLeapSecond = false) (hmax : t ≤ w.max) :
    unit.truncateWithin t (some w.min) (some w.max) =
        .error (unit.emptyWindow (some w.min) (some w.max)) ↔ targets w (some unit) = ∅ := by
  rw [CalendarUnit.truncateWithin_eq_error_iff ht (by simpa using hmin) (by simpa using hmax),
    Set.eq_empty_iff_forall_notMem]
  constructor
  · rintro h v ⟨hv, ⟨hlow, hhigh⟩, hunit⟩
    exact h v ⟨hv, hunit unit rfl⟩ (by simpa using hlow) (by simpa using hhigh)
  · intro h v hv hlow hhigh
    exact h v ⟨hv.1, ⟨hlow _ rfl, hhigh _ rfl⟩, by simpa using hv.2⟩

/-- A block gives something wanted, or an error because nothing is. -/
theorem read_cases (r : RandomTime) {override : Option (Window Instant)}
    (hmin : (override.getD r.window).min.inLeapSecond = false) (block : Bytes) :
    (∃ t ∈ targets (override.getD r.window) r.unit, r.read override block = .ok t) ∨
      ∃ unit ∈ r.unit, targets (override.getD r.window) r.unit = ∅ ∧
        r.read override block = .error (noTarget (override.getD r.window) unit) := by
  obtain ⟨t, hparts, hread⟩ := read_eq r override block
  generalize override.getD r.window = w at *
  -- the folded instant is the target, or truncating it finds one or says that there is none
  cases hunit : r.unit with
  | none =>
    simp only [hunit] at hread
    exact Or.inl ⟨t, ⟨hparts.not_leap, ⟨hparts.min_le hmin, hparts.le_max⟩, by simp⟩, hread⟩
  | some unit =>
    simp only [hunit] at hread
    cases hwithin : unit.truncateWithin t (some w.min) (some w.max) with
    | ok u =>
      rw [hwithin] at hread
      exact Or.inl ⟨u, truncateWithin_mem_targets hmin hparts.not_leap hwithin, hread⟩
    | error e =>
      obtain rfl := CalendarUnit.truncateWithin_error hwithin
      have hempty := (truncateWithin_eq_error_iff hmin hparts.not_leap hparts.le_max).mp hwithin
      rw [hwithin] at hread
      exact Or.inr ⟨unit, rfl, hempty, hread⟩

/-- The block that is read as a number of seconds and one of nanoseconds. -/
def blockFor (seconds nanos : Nat) : Bytes :=
  Bytes.ofNatLE 8 seconds ++ Bytes.ofNatLE 8 nanos

theorem length_blockFor (seconds nanos : Nat) : (blockFor seconds nanos).length = length := by
  simp [blockFor, length]

/-- All that is wanted is read for some block. -/
theorem exists_read (r : RandomTime) (override : Option (Window Instant)) {t : Instant}
    (h : t ∈ targets (override.getD r.window) r.unit) :
    ∃ block, block.length = length ∧ r.read override block = .ok t := by
  obtain ⟨hleap, ⟨hlow, hhigh⟩, hunit⟩ := h
  -- the parts that fold to the instant; as it is whole, truncating leaves it alone
  obtain ⟨seconds, nanos, hs, hn, hfold⟩ := Window.exists_foldTime hleap hlow hhigh
  refine ⟨blockFor seconds nanos, length_blockFor seconds nanos, ?_⟩
  have hseconds : (Bytes.readInt64 ((blockFor seconds nanos).take 8)).toInt.natAbs = seconds := by
    rw [blockFor, List.take_left' (by simp), Bytes.toInt_readInt64_ofNatLE hs, Int.natAbs_natCast]
  have hnanos : (Bytes.readUInt64 (((blockFor seconds nanos).drop 8).take 8)).toNat % 1000000000 =
      nanos := by
    rw [blockFor, List.drop_left' (by simp), List.take_of_length_le (by simp),
      Bytes.toNat_readUInt64_ofNatLE (by omega), Nat.mod_eq_of_lt hn]
  simp only [read, hseconds, hnanos, hfold, bind, Except.bind]
  cases hr : r.unit with
  | none => rfl
  | some unit =>
    have hwithin : unit.truncateWithin t (some (override.getD r.window).min)
        (some (override.getD r.window).max) = .ok t :=
      CalendarUnit.truncateWithin_of_whole (hunit unit hr) (by simpa using hlow)
        (by simpa using hhigh)
    simp only [hwithin]
    rfl

/-! ## Calls -/

theorem make?_eq_ok {window : Window Instant} {unit : Option CalendarUnit}
    (h : make? window unit = .ok r) :
    r = ⟨window, unit⟩ ∧
      ∀ u ∈ unit, ∃ t, u.truncateWithin window.min (some window.min) (some window.max) = .ok t := by
  unfold make? at h
  cases unit with
  | none =>
    cases h
    exact ⟨rfl, by simp⟩
  | some unit =>
    cases hwithin : unit.truncateWithin window.min (some window.min) (some window.max) with
    | ok t =>
      simp only [hwithin] at h
      cases h
      exact ⟨rfl, fun u hu => ⟨t, Option.mem_some.mp hu ▸ hwithin⟩⟩
    | error e =>
      simp only [hwithin] at h
      cases h

/-- A rule that was made gives an instant of its window for every block, if it has a unit or the
lower bound is outside leap seconds. -/
theorem read_ok_of_make? {window : Window Instant} {unit : Option CalendarUnit}
    (hmake : make? window unit = .ok r)
    (h : unit.isSome = true ∨ window.min.inLeapSecond = false) (block : Bytes) :
    ∃ t, r.read none block = .ok t ∧ window.min ≤ t ∧ t ≤ window.max := by
  obtain ⟨rfl, hwithin⟩ := make?_eq_ok hmake
  obtain ⟨t, hparts, hread⟩ := read_eq ⟨window, unit⟩ none block
  simp only [Option.getD_none] at hparts hread
  cases unit with
  | none =>
    have hmin : window.min.inLeapSecond = false := h.resolve_left (by decide)
    exact ⟨t, hread, hparts.min_le hmin, hparts.le_max⟩
  | some unit =>
    -- whole units are found again from any instant, since there is one from the lower bound
    obtain ⟨first, hfirst⟩ := hwithin unit rfl
    obtain ⟨u, hu⟩ := CalendarUnit.truncateWithin_ok_of_min (by simpa using window.min_lt_max)
      (by simpa using hparts.le_max) hfirst
    obtain ⟨-, hlow, hhigh⟩ := CalendarUnit.truncateWithin_ok hu
    simp only [hu] at hread
    exact ⟨u, hread, hlow _ rfl, hhigh _ rfl⟩

/-- A unit is only accepted for a window of which something is wanted. -/
theorem targets_nonempty_of_make? {window : Window Instant} {unit : Option CalendarUnit}
    (h : make? window unit = .ok r) (hmin : window.min.inLeapSecond = false) :
    (targets window unit).Nonempty := by
  obtain ⟨-, hwithin⟩ := make?_eq_ok h
  cases unit with
  | none => exact ⟨window.min, hmin, ⟨le_refl _, le_of_lt window.min_lt_max⟩, by simp⟩
  | some unit =>
    obtain ⟨t, ht⟩ := hwithin unit rfl
    exact ⟨t, truncateWithin_mem_targets hmin hmin ht⟩

/-- The outcome of a call is what is read from the block. -/
theorem outcome_eq (r : RandomTime) (override : Option (Window Instant)) (input block : Bytes) :
    (Request.randomTime input override : Request (.randomTime r)).outcome block =
      match r.read override block with
      | .ok t => .ok (.timestamp t)
      | .error e => .error (.failure (.decode e)) := rfl

/-- **Random instants reach exactly what is wanted.** Over all answers of sixteen bytes, a call
gives every instant of its window that is outside leap seconds and that the unit leaves alone, and
nothing else. Only a window that is given for one call can have no such instant, and then every call
says so. -/
theorem call_results_eq {window : Window Instant} {unit : Option CalendarUnit}
    (hmake : make? window unit = .ok r) (override : Option (Window Instant))
    (hmin : (override.getD window).min.inLeapSecond = false) (input : Bytes) :
    let w := override.getD window
    let call : Request (.randomTime r) := .randomTime input override
    ((targets w unit).Nonempty →
      call.results = (fun t => .ok (.timestamp t)) '' targets w unit) ∧
    (override = none → (targets w unit).Nonempty) ∧
    (targets w unit = ∅ →
      ∃ u ∈ unit, call.results = {.error (.failure (.decode
        (.runtimeLimiter (u.emptyWindow (some w.min) (some w.max)))))}) := by
  obtain ⟨rfl, -⟩ := make?_eq_ok hmake
  intro w call
  rw [Request.results_eq]
  refine ⟨fun hsome => Set.ext fun result => ?_, ?_, fun hnone => ?_⟩
  · -- what is read is a target, and each target has a block
    constructor
    · rintro ⟨block, -, rfl⟩
      rcases read_cases ⟨window, unit⟩ hmin block with ⟨t, ht, hread⟩ | ⟨u, -, hempty, -⟩
      · exact ⟨t, ht, by rw [outcome_eq, hread]⟩
      · exact absurd hempty hsome.ne_empty
    · rintro ⟨t, ht, rfl⟩
      obtain ⟨block, hlength, hread⟩ := exists_read ⟨window, unit⟩ override ht
      exact ⟨block, hlength, by rw [outcome_eq, hread]⟩
  · rintro rfl
    exact targets_nonempty_of_make? hmake hmin
  · -- every block fails in the same way, and there is a block
    have hfail : ∀ block, ∃ u ∈ unit,
        call.outcome block = .error (.failure (.decode (noTarget w u))) := by
      intro block
      rcases read_cases ⟨window, unit⟩ hmin block with ⟨t, ht, -⟩ | ⟨u, hu, -, hread⟩
      · exact absurd hnone (Set.nonempty_of_mem ht).ne_empty
      · exact ⟨u, hu, by rw [outcome_eq, hread]⟩
    obtain ⟨u, hu, hfirst⟩ := hfail (blockFor 0 0)
    refine ⟨u, hu, Set.eq_singleton_iff_unique_mem.mpr ⟨⟨_, length_blockFor 0 0, hfirst⟩, ?_⟩⟩
    rintro _ ⟨block, -, rfl⟩
    obtain ⟨u', hu', hblock⟩ := hfail block
    rw [hblock, Option.mem_unique hu hu', noTarget]

/-- The months of a leap year that ends with a leap second, from within February on. -/
def leapYear : Window Instant where
  min := ⟨1455062400, 500000000, by decide +kernel, by decide, by decide⟩
  max := ⟨1483228799, 1500000000, by decide +kernel, by decide, by decide⟩
  min_lt_max := by decide

theorem call_results_eq_leapYear :
    make? leapYear (some .month) = .ok ⟨leapYear, some .month⟩ ∧
      leapYear.min.inLeapSecond = false ∧
      (Request.randomTime [] none : Request (.randomTime ⟨leapYear, some .month⟩)).results =
        (fun t => .ok (.timestamp t)) '' targets leapYear (some .month) := by
  have hmake : make? leapYear (some .month) = .ok ⟨leapYear, some .month⟩ := by rfl
  have hresults := call_results_eq hmake none (by decide) []
  exact ⟨hmake, by decide, hresults.1 (hresults.2.1 rfl)⟩

end RandomTime

end ColumnMask
