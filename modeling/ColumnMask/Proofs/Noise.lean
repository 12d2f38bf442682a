import Mathlib
import ColumnMask.Proofs.Config
import ColumnMask.Proofs.DecimalText
import ColumnMask.Proofs.WholeUnits

/-!
# When noise never fails

A noise rule that masks a value of its own kind can fail for a reason that was fixed when the rule
was made: its ratios give a share that is no number, or its window has no whole unit. Neither is
looked at then. Rules where neither can happen fail only for instants that cannot be moved.

- `Rule.masked`: what comes of a value for a block.
- `Rule.Foreseen`: what would have to be looked at when a noise rule is made. For instants this is
  the check that random instants get.
- `Rule.AsPromised`: a result that no rule can avoid.
- `Transformer.noise_as_promised_iff`: the noise rules that are foreseen are exactly those that
  never give another result.
-/

namespace ColumnMask

/-! ## Moving and limiting -/

namespace Window

/-- The bounds of a window are accepted again. -/
theorem make?_self {α : Type} [LT α] [DecidableLT α] (write : α → String) (w : Window α) :
    make? write w.min w.max = .ok w := dif_pos w.min_lt_max

/-- A window neither side of which is open. -/
def toOpen (w : Window Instant) : OpenWindow :=
  ⟨some w.min, some w.max, by simpa using w.min_lt_max⟩

end Window

namespace OpenWindow

theorem make?_toOpen (w : Window Instant) : make? (some w.min) (some w.max) = .ok w.toOpen :=
  dif_pos w.min_lt_max

variable (w : OpenWindow) (t : Instant)

/-- What is brought into a window is not above it. -/
theorem clamp_le_max : ∀ high ∈ w.max, w.clamp t ≤ high := by
  intro high hhigh
  unfold clamp
  -- without a lower bound only the upper one replaces the instant
  rcases hmin : w.min with _ | low
  · simp only [Option.mem_def.mp hhigh]
    split
    · exact le_refl high
    · exact not_lt.mp ‹_›
  · -- with one the smaller bound is below the upper one as well
    simp only [Option.mem_def.mp hhigh]
    split
    · exact (w.min_lt_max low hmin high hhigh).le
    · split
      · exact le_refl high
      · exact not_lt.mp ‹_›

/-- What is not above the lower bound is brought to it. -/
theorem clamp_of_le_min {low : Instant} (hlow : low ∈ w.min) (h : t ≤ low) : w.clamp t = low := by
  unfold clamp
  simp only [Option.mem_def.mp hlow]
  rcases h.lt_or_eq with hlt | rfl
  · rw [if_pos hlt]
  · rw [if_neg (lt_irrefl t)]
    rcases hmax : w.max with _ | high
    · rfl
    · exact if_neg (not_lt.mpr (w.min_lt_max t hlow high hmax).le)

/-- What is brought into a window is not below it. -/
theorem min_le_clamp : ∀ low ∈ w.min, low ≤ w.clamp t := by
  intro low hlow
  rcases le_or_gt t low with hle | hlt
  · rw [w.clamp_of_le_min t hlow hle]
  · unfold clamp
    simp only [Option.mem_def.mp hlow, if_neg (not_lt_of_gt hlt)]
    rcases hmax : w.max with _ | high
    · exact hlt.le
    · have hbounds := w.min_lt_max low hlow high hmax
      dsimp only
      split
      · exact hbounds.le
      · exact hlt.le

end OpenWindow

namespace Instant

/-- A move back by three centuries or less leads from some instant to one that is not after any
other. -/
theorem exists_shift?_isBot {d : Nat} (hd : SignedWord (-d)) :
    -- the whole seconds of the distance, counted from the first second of all
    ∃ t first, shift? t (-d : Int) = some first ∧ IsBot first := by
  have hrange : 86400 * Calendar.firstDay ≤ 86400 * Calendar.firstDay + (d / 1000000000 : Nat) ∧
      86400 * Calendar.firstDay + (d / 1000000000 : Nat) < 86400 * (Calendar.lastDay + 1) := by
    have hlong : 86400 * Calendar.firstDay + 9223372037 < 86400 * (Calendar.lastDay + 1) := by
      decide
    omega
  have hnanos : d % 1000000000 < 1000000000 := Nat.mod_lt d (by decide)
  obtain ⟨t, -, hseconds, ht⟩ := exists_of_inRange hrange hnanos
  obtain ⟨first, hfirst, hstart, hzero⟩ :=
    @exists_of_inRange (86400 * Calendar.firstDay) 0 (by decide) (by decide)
  have hwhole : ((d % 1000000000 : Nat) : Int) + -d = 1000000000 * -(d / 1000000000 : Nat) := by
    omega
  refine ⟨t, first, ?_, fun u => ?_⟩
  · rw [shift?_of_not_leap (ht ▸ hnanos), make?_eq_some_iff, hseconds, ht, hwhole,
      Int.mul_ediv_cancel_left _ (by decide), Int.mul_emod_right]
    exact ⟨hstart.trans (Int.add_neg_cancel_right _ _).symm, hzero⟩
  · -- no instant lies before the first second
    have hu := u.inRange.1
    rw [le_iff, hstart, hzero]
    omega

end Instant

namespace NoiseTime

/-- Durations that fit, as does their distance, are accepted. -/
theorem make?_of_range {least distance : Duration} (hpos : 0 < distance)
    (hleast : SignedWord least) (hgreatest : SignedWord (least + distance))
    (hdistance : SignedWord distance) (window : Option OpenWindow) (unit : Option CalendarUnit) :
    make? least (least + distance) window unit =
      .ok ⟨least, distance, hpos, hleast, hgreatest, hdistance, window, unit⟩ := by
  have hsub : least + distance - least = distance := by
    simp only [Duration] at *
    omega
  unfold make?
  rw [dif_pos (Int.lt_add_of_pos_right least hpos), dif_pos hleast,
    dif_pos hgreatest, dif_pos (hsub.symm ▸ hdistance)]
  simp only [hsub]

variable (noise : NoiseTime) {t moved : Instant} {block : Bytes}

/-- A moved instant, brought into the window. -/
def limit (moved : Instant) : Instant :=
  match noise.window with
  | some w => w.clamp moved
  | none => moved

theorem apply_of_not_moved (h : t.shift? (noise.move block) = none) :
    noise.apply none t block = .error (.timestampOutOfRange t.seconds t.nanos) := by
  unfold apply
  rw [h]
  rfl

/-- An instant that can be moved is brought into the window and truncated there. -/
theorem apply_of_moved (h : t.shift? (noise.move block) = some moved) :
    noise.apply none t block =
      match noise.unit with
      | none => .ok (noise.limit moved)
      | some unit =>
        (unit.truncateWithin (noise.limit moved) (noise.window.bind (·.min))
          (noise.window.bind (·.max))).mapError .runtimeLimiter := by
  -- both sides truncate what is limited, whatever the window leaves open
  unfold apply limit
  rw [h]
  rcases noise.unit with _ | unit
  · rfl
  · simp only [Option.none_or, bind, Except.bind]
    rcases noise.window with _ | w
    · dsimp only
      rcases unit.truncateWithin moved _ _ with e | out
      · rfl
      · rfl
    · dsimp only
      rcases unit.truncateWithin (w.clamp moved) _ _ with e | out
      · rfl
      · rfl

/-- The check of random instants, with bounds that may be missing. -/
def WindowChecked : Prop :=
  ∀ unit ∈ noise.unit, ∀ w ∈ noise.window, ∀ low ∈ w.min,
    ∃ u, unit.truncateWithin low (some low) w.max = .ok u

/-- In a window that was checked, truncation always finds a whole unit. -/
theorem apply_ok_of_windowChecked (hchecked : noise.WindowChecked)
    (h : t.shift? (noise.move block) = some moved) : ∃ u, noise.apply none t block = .ok u := by
  rw [noise.apply_of_moved h]
  rcases hunit : noise.unit with _ | unit
  · exact ⟨_, rfl⟩
  · dsimp only [limit]
    -- only a window with a lower bound can be without a whole unit
    rcases hwindow : noise.window with _ | w
    · refine ⟨unit.truncate moved, ?_⟩
      rw [Option.bind_none, Option.bind_none,
        CalendarUnit.truncateWithin_ok_of_open (by simp)]
      rfl
    · have hmax := w.clamp_le_max moved
      dsimp only [Option.bind_some]
      rcases hmin : w.min with _ | low
      · refine ⟨unit.truncate (w.clamp moved), ?_⟩
        rw [CalendarUnit.truncateWithin_ok_of_open hmax]
        rfl
      · obtain ⟨u, hu⟩ := hchecked unit hunit w hwindow low hmin
        obtain ⟨out, hout⟩ :=
          CalendarUnit.truncateWithin_ok_of_min (w.min_lt_max low hmin) hmax hu
        refine ⟨out, ?_⟩
        rw [hout]
        rfl

/-- With zeros behind its first byte a block chooses the least move. -/
theorem move_zeros (direction : UInt8) :
    noise.move (direction :: List.replicate 16 0) =
      if direction % 2 == 0 then -noise.least else noise.least := by
  have hoffset : ((Bytes.readInt64 (List.replicate 8 0)).toInt.tmod noise.distance).natAbs = 0 := by
    rw [show (Bytes.readInt64 (List.replicate 8 0)).toInt = 0 by decide, Int.zero_tmod]
    rfl
  have hsize : noise.least +
      (((Bytes.readInt64 (List.replicate 8 0)).toInt.tmod noise.distance).natAbs : Int) =
        noise.least := by
    rw [hoffset]
    exact Int.add_zero _
  exact congrArg (fun size => if direction % 2 == 0 then -size else size) hsize

/-- Some instant is moved to the first one of all, which is not above any window. -/
theorem exists_moved_isBot :
    ∃ (t first : Instant) (block : Bytes), block.length = length ∧
      t.shift? (noise.move block) = some first ∧ IsBot first := by
  have hleast := noise.least_range
  obtain ⟨t, first, ht, hfirst⟩ := Instant.exists_shift?_isBot (d := noise.least.natAbs) (by omega)
  rcases Int.le_total 0 noise.least with hnonneg | hneg
  · refine ⟨t, first, 0 :: List.replicate 16 0, rfl, ?_, hfirst⟩
    rw [noise.move_zeros, ← ht, Int.natAbs_of_nonneg hnonneg]
    rfl
  · refine ⟨t, first, 1 :: List.replicate 16 0, rfl, ?_, hfirst⟩
    rw [noise.move_zeros, ← ht, Int.ofNat_natAbs_of_nonpos hneg, Int.neg_neg]
    rfl

/-- A window that fails the check fails some call, since some instant is brought to its lower
bound. -/
theorem windowChecked_of_apply
    (h : ∀ (t : Instant) (block : Bytes), block.length = length →
      t.shift? (noise.move block) ≠ none → ∃ u, noise.apply none t block = .ok u) :
    noise.WindowChecked := by
  intro unit hunit w hwindow low hlow
  -- what is moved to the first instant is brought up to the lower bound
  obtain ⟨t, first, block, hlength, hmoved, hfirst⟩ := noise.exists_moved_isBot
  obtain ⟨u, hu⟩ := h t block hlength (by simp [hmoved])
  have hclamp := w.clamp_of_le_min first hlow (hfirst low)
  rw [noise.apply_of_moved hmoved, Option.mem_def.mp hunit] at hu
  dsimp only [limit] at hu
  rw [Option.mem_def.mp hwindow] at hu
  dsimp only [Option.bind_some] at hu
  rw [hclamp, Option.mem_def.mp hlow] at hu
  exact ⟨u, mapError_eq_ok.mp hu⟩

end NoiseTime

/-! ## Shares -/

namespace NoiseDecimal

variable (noise : NoiseDecimal) (v : Decimal) {block : Bytes}

/-- The share of a block serves exactly if it is finite; another one has no decimal text. -/
theorem apply_of_isFinite (h : (noise.ratio.multiplier block).isFinite = true) :
    ∃ out, noise.apply none v block = .ok out := by
  obtain ⟨m, hm⟩ := Binary64.exists_parse?_text h
  unfold apply
  simp only [hm, Option.none_or]
  rcases noise.window with _ | w
  · exact ⟨_, rfl⟩
  · exact ⟨_, rfl⟩

theorem apply_of_not_finite (h : (noise.ratio.multiplier block).isFinite = false) :
    noise.apply none v block =
      .error (.parse .decimal (Binary64.text (noise.ratio.multiplier block))) := by
  unfold apply
  simp only [Binary64.parse?_text_of_not_finite h]

end NoiseDecimal

/-! ## What noise rules give -/

namespace Rule

/-- The values that a noise rule masks without reading them first. -/
inductive OnOwnKind : Rule → Value → Prop where
  | integer (noise : NoiseInteger) (v : Int64) : OnOwnKind (.noiseInteger noise) (.integer v)
  | float (noise : NoiseFloat) (v : Float) : OnOwnKind (.noiseFloat noise) (.float v)
  | decimal (noise : NoiseDecimal) (v : Decimal) : OnOwnKind (.noiseDecimal noise) (.decimal v)
  | timestamp (noise : NoiseTime) (t : Instant) : OnOwnKind (.noiseTime noise) (.timestamp t)

/-- What a noise rule would have to be checked for, so that what is fixed when it is made cannot
fail a call. -/
def Foreseen : Rule → Prop
  | noiseDecimal noise =>
    ∀ block : Bytes, block.length = noiseLength → (noise.ratio.multiplier block).isFinite = true
  | noiseTime noise => noise.WindowChecked
  | _ => True

/-- The results that no check can rule out: a masked value, or the error for an instant that the
block moves out of the representable range. -/
inductive AsPromised (block : Bytes) :
    Rule → Value → Except (Stop TransformError) Value → Prop where
  | masked {rule : Rule} {v : Value} (out : Value) : AsPromised block rule v (.ok out)
  | outOfRange {noise : NoiseTime} {t : Instant} (h : t.shift? (noise.move block) = none) :
    AsPromised block (.noiseTime noise) (.timestamp t)
      (.error (.failure (.decode (.timestampOutOfRange t.seconds t.nanos))))

/-- What comes of a value for a block. -/
def masked (rule : Rule) (v : Value) (block : Bytes) : Except (Stop TransformError) Value :=
  match rule.request? v with
  | .ok request => request.outcome block
  | .error e => .error (.failure (.decode e))

theorem masked_noiseDecimal (noise : NoiseDecimal) (v : Decimal) (block : Bytes) :
    (noiseDecimal noise).masked (.decimal v) block =
      match noise.apply none v block with
      | .ok out => .ok (.decimal out)
      | .error e => .error (.failure (.decode e)) := rfl

theorem masked_noiseTime (noise : NoiseTime) (t : Instant) (block : Bytes) :
    (noiseTime noise).masked (.timestamp t) block =
      match noise.apply none t block with
      | .ok out => .ok (.timestamp out)
      | .error e => .error (.failure (.decode e)) := rfl

variable {rule : Rule} {v : Value} {block : Bytes}

/-- A rule that is foreseen keeps the promise. -/
theorem Foreseen.asPromised (hrule : rule.Foreseen) (hown : rule.OnOwnKind v)
    (hlength : block.length = rule.required) : AsPromised block rule v (rule.masked v block) := by
  -- numbers are always noised; only a multiplier or a move can fail
  cases hown with
  | integer noise v => exact .masked _
  | float noise v => exact .masked _
  | decimal noise v =>
    obtain ⟨out, hout⟩ := noise.apply_of_isFinite v (hrule block hlength)
    rw [masked_noiseDecimal, hout]
    exact .masked _
  | timestamp noise t =>
    rw [masked_noiseTime]
    rcases hmoved : t.shift? (noise.move block) with _ | moved
    · rw [noise.apply_of_not_moved hmoved]
      exact .outOfRange hmoved
    · obtain ⟨out, hout⟩ := noise.apply_ok_of_windowChecked hrule hmoved
      rw [hout]
      exact .masked _

/-- Only rules that are foreseen keep it for all values and blocks. -/
theorem foreseen_of_asPromised
    (h : ∀ v block, rule.OnOwnKind v → block.length = rule.required →
      AsPromised block rule v (rule.masked v block)) : rule.Foreseen := by
  cases rule with
  | noiseDecimal noise =>
    -- zero shows whether the multiplier of a block is finite
    intro block hlength
    have hzero := h (.decimal (.ofInt 0)) block (.decimal noise _) hlength
    rw [masked_noiseDecimal] at hzero
    by_contra hfinite
    rw [noise.apply_of_not_finite _ (Bool.eq_false_of_not_eq_true hfinite)] at hzero
    cases hzero
  | noiseTime noise =>
    -- an instant that can be moved shows whether the window has a whole unit
    refine noise.windowChecked_of_apply fun t block hlength hmoved => ?_
    have ht := h (.timestamp t) block (.timestamp noise t) hlength
    rw [masked_noiseTime] at ht
    rcases hout : noise.apply none t block with e | out
    · rw [hout] at ht
      cases ht with
      | outOfRange hnot => exact absurd hnot hmoved
    · exact ⟨out, rfl⟩
  | _ => trivial

end Rule

namespace Transformer

variable {rule : Rule} {v : Value} {g : Generator} {log : Log} {answer : Bytes}

/-- A generator answers the question that a value is masked with. -/
def Answered (rule : Rule) (v : Value) (g : Generator) (log : Log) (answer : Bytes) : Prop :=
  ∀ request, rule.request? v = .ok request → request.Answers g log answer

/-- A transformer gives what comes of the value for the first bytes of the answer. -/
theorem run_transform_masked (h : rule.required ≤ g.size) (hlength : rule.required ≤ answer.length)
    (hanswer : Answered rule v g log answer) :
    (log.run ((attached rule g h).transform v)).1 =
      rule.masked v (answer.take rule.required) := by
  unfold Rule.masked
  rcases hrequest : rule.request? v with e | request
  · rw [transform_of_error (t := attached rule g h) hrequest]
    rfl
  · rw [transform_of_ok (t := attached rule g h) hrequest]
    exact Request.run_call_of_answers h hlength (hanswer request hrequest)

/-- **Noise never fails for what is fixed by its rule exactly if the rule is foreseen**: then, for
all values of its kind and all bytes, only an instant that is moved out of the representable range
fails a call. -/
theorem noise_as_promised_iff (rule : Rule) :
    rule.Foreseen ↔
      ∀ (g : Generator) (h : rule.required ≤ g.size) (log : Log) (v : Value) (answer : Bytes),
        rule.OnOwnKind v → Answered rule v g log answer → rule.required ≤ answer.length →
          Rule.AsPromised (answer.take rule.required) rule v
            (log.run ((attached rule g h).transform v)).1 := by
  constructor
  · intro hrule g h log v answer hown hanswer hlength
    rw [run_transform_masked h hlength hanswer]
    exact hrule.asPromised hown (by rw [List.length_take, Nat.min_eq_left hlength])
  · intro hall
    refine Rule.foreseen_of_asPromised fun v block hown hlength => ?_
    -- some generator answers with the block
    have hanswer : Answered rule v (.source (.scripted 0 rule.required [block])) .empty block :=
      fun request _ => request.answers_scripted block 0 rule.required .empty
    have hsize : rule.required ≤ (Generator.source (.scripted 0 rule.required [block])).size :=
      le_refl _
    have hpromise := hall _ hsize .empty v block hown hanswer hlength.ge
    rw [run_transform_masked hsize hlength.ge hanswer, ← hlength, List.take_length] at hpromise
    exact hpromise

/-! ### A window without a midnight -/

/-- From one in the morning to eleven in the evening of a day. -/
def daytime : Window Instant where
  min := (Instant.parse? "2000-01-01T01:00:00Z").get (by decide +kernel)
  max := (Instant.parse? "2000-01-01T23:00:00Z").get (by decide +kernel)
  min_lt_max := by decide +kernel

/-- Noon of the same day. -/
def noon : Instant := (Instant.parse? "2000-01-01T12:00:00Z").get (by decide +kernel)

/-- Moves by one to seventy-two hours, to a beginning of a day. -/
def noiseByHours (window : Option OpenWindow) : NoiseTime where
  least := 3600 * Duration.second
  distance := 71 * 3600 * Duration.second
  distance_pos := by decide
  least_range := by decide
  greatest_range := by decide
  distance_range := by decide
  window := window
  unit := some .day

/-- What is said of the window where whole days are looked for. -/
def noMidnight : ConfigError :=
  .emptyTruncatedWindow "day" "2000-01-01T01:00:00+00:00" "2000-01-01T23:00:00+00:00"

theorem rule?_randomTime_daytime :
    (RuleOptions.randomTime daytime.min daytime.max (some .day)).rule? = .error noMidnight := by
  have hwindow : Window.ofInstants? daytime.min daytime.max = .ok daytime :=
    Window.make?_self _ daytime
  have hnone : CalendarUnit.day.truncateWithin daytime.min (some daytime.min) (some daytime.max) =
      .error noMidnight := by
    decide +kernel
  simp only [RuleOptions.rule?, hwindow, RandomTime.make?, hnone, bind, Except.bind]

theorem rule?_noiseTime_daytime :
    (RuleOptions.noiseTime "1h" "3d" (some daytime.min) (some daytime.max) (some .day)).rule? =
      .ok (.noiseTime (noiseByHours (some daytime.toOpen))) := by
  have hleast : Duration.parse "1h" = .ok (3600 * Duration.second) := rfl
  have hgreatest :
      Duration.parse "3d" = .ok (3600 * Duration.second + 71 * 3600 * Duration.second) := rfl
  have hnoise : NoiseTime.make? (3600 * Duration.second)
      (3600 * Duration.second + 71 * 3600 * Duration.second) none (some .day) =
        .ok (noiseByHours none) :=
    NoiseTime.make?_of_range ..
  have hwindow : OpenWindow.make? (some daytime.min) (some daytime.max) = .ok daytime.toOpen :=
    OpenWindow.make?_toOpen daytime
  simp only [RuleOptions.rule?, hleast, hgreatest, hnoise, hwindow, bind, Except.bind]
  rfl

/-- Random instants refuse the window together with whole days. Noise accepts both, and a call
fails for them. -/
theorem noise_fails_without_midnight :
    ∃ (rule : Rule) (g : Generator) (h : rule.required ≤ g.size),
      let low := daytime.min
      let high := daytime.max
      (RuleOptions.randomTime low high (some .day)).rule? = .error noMidnight ∧
      (RuleOptions.noiseTime "1h" "3d" (some low) (some high) (some .day)).rule? = .ok rule ∧
      (Log.empty.run ((attached rule g h).transform (.timestamp noon))).1 =
        .error (.failure (.decode (.runtimeLimiter noMidnight))) := by
  let noise := noiseByHours (some daytime.toOpen)
  let block : Bytes := List.replicate 17 0
  let g : Generator := .source (.scripted 0 NoiseTime.length [block])
  have hsize : (Rule.noiseTime noise).required ≤ g.size := le_refl _
  have hanswer : Answered (.noiseTime noise) (.timestamp noon) g .empty block :=
    fun request _ => request.answers_scripted block 0 NoiseTime.length .empty
  have hfails : noise.apply none noon block = .error (.runtimeLimiter noMidnight) := by
    decide +kernel
  refine ⟨.noiseTime noise, g, hsize, rule?_randomTime_daytime, rule?_noiseTime_daytime, ?_⟩
  rw [run_transform_masked hsize (by decide) hanswer]
  show (Rule.noiseTime noise).masked (.timestamp noon) block = _
  rw [Rule.masked_noiseTime, hfails]

end Transformer

end ColumnMask
