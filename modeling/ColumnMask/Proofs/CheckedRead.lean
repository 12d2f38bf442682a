import Mathlib
import ColumnMask.Proofs.DecimalWindow
import ColumnMask.Proofs.IntegerWindow
import ColumnMask.Proofs.RandomText
import ColumnMask.Proofs.Subnet
import ColumnMask.Proofs.TimeWindow

/-!
# Reading with checks

Every rule takes bytes out of the block in its own way and computes with them. Here a call is read
a second time with every access to the block, every division and every operation on words checked,
whichever window or subnet it brings along. Nothing stands for a check that fails. Where a plan
itself panics, for want of room, that is a result like others.

- `Access.noise`, `Access.noiseTime`, `Access.time`: what noise and instants take out of a block.
- `RandomInteger.checkedRead` and its like: the checked reading of a rule.
- `Request.checkedRead`: the checked reading of a call.
- `Request.checkedRead_eq`: no check fails on a block of the needed length, and what is read is the
  same.

Floats never fail, and numbers of any size are taken to fit into memory.
-/

namespace ColumnMask

/-! ## What the rules take out -/

namespace Access

/-- For noise on a number: a word, and the byte that chooses the sign. -/
def noise (block : Bytes) : Option Bytes := do
  let front ← Checked.slice block 0 8
  let word ← Checked.word 8 front
  let sign ← block[8]?
  return word ++ [sign]

/-- For noise on an instant: the byte that chooses the direction, and the word after it. -/
def noiseTime (block : Bytes) : Option Bytes := do
  let middle ← Checked.slice block 1 9
  let word ← Checked.word 8 middle
  let direction ← block[0]?
  return direction :: word

/-- For an instant: two words, one after the other. -/
def time (block : Bytes) : Option Bytes := do
  let front ← Checked.slice block 0 8
  let seconds ← Checked.word 8 front
  let back ← Checked.slice block 8 16
  let nanos ← Checked.word 8 back
  return seconds ++ nanos

variable {block : Bytes}

theorem noise_eq (h : block.length = noiseLength) : noise block = some block := by
  have hlength : block.length = 9 := h
  have hsign : block.drop 8 = [block[8]] := by
    rw [List.drop_eq_getElem_cons (by omega), List.drop_of_length_le (by omega)]
  simp only [noise, Option.bind_eq_bind]
  rw [Checked.bind_slice_word (by rfl) (by omega), List.getElem?_eq_getElem (by omega),
    Option.bind_some, ← hsign, List.drop_zero, List.take_append_drop]
  rfl

theorem noiseTime_eq (h : block.length = NoiseTime.length) :
    noiseTime block = some (block.take 9) := by
  have hlength : block.length = 17 := h
  have hall : block.take 9 = block[0] :: (block.drop 1).take 8 := by
    conv_lhs => rw [← List.drop_zero (l := block), List.drop_eq_getElem_cons (by omega)]
    rfl
  simp only [noiseTime, Option.bind_eq_bind]
  rw [Checked.bind_slice_word (by rfl) (by omega), List.getElem?_eq_getElem (by omega),
    Option.bind_some, hall]
  rfl

theorem time_eq (h : block.length = RandomTime.length) : time block = some block := by
  have hlength : block.length = 16 := h
  have hrest : (block.drop 8).take 8 = block.drop 8 :=
    List.take_of_length_le (by rw [List.length_drop]; omega)
  simp only [time, Option.bind_eq_bind]
  rw [Checked.bind_slice_word (by rfl) (by omega), Checked.bind_slice_word (by rfl) (by omega),
    hrest, List.drop_zero, List.take_append_drop]
  rfl

end Access

/-! ## Moves -/

namespace NoiseTime

variable (noise : NoiseTime) {block : Bytes}

/-- How far the move that a block chooses is above the least one. -/
def offset (block : Bytes) : Nat :=
  ((Bytes.readInt64 ((block.drop 1).take 8)).toInt.tmod noise.distance).natAbs

/-- The size of the move. -/
def size (block : Bytes) : Int := noise.least + noise.offset block

theorem offset_lt (block : Bytes) : (noise.offset block : Int) < noise.distance := by
  have hpos := noise.distance_pos
  have hrest := Nat.mod_lt (Bytes.readInt64 ((block.drop 1).take 8)).toInt.natAbs
    (by omega : 0 < noise.distance.natAbs)
  rw [← Int.natAbs_tmod] at hrest
  unfold offset
  omega

/-- The size with every access to the block and every operation on words of 64 bits checked. -/
def checkedSize (block : Bytes) : Option Int := do
  let taken ← Access.noiseTime block
  let rest ← Checked.remSigned 64 (Bytes.readInt64 (taken.drop 1)).toInt noise.distance
  let offset ← Checked.signed 64 rest.natAbs
  Checked.signed 64 (noise.least + offset)

/-- No access is out of range, nothing overflows, and the divisor is not zero. -/
theorem checkedSize_eq (h : block.length = length) :
    noise.checkedSize block = some (noise.size block) := by
  have hoffset := noise.offset_lt block
  have hleast := noise.least_range
  have hgreatest := noise.greatest_range
  have hdistance := noise.distance_range
  have hmiddle : (block.take 9).drop 1 = (block.drop 1).take 8 := List.drop_take
  have hword := (Bytes.readInt64 ((block.drop 1).take 8)).le_toInt
  have hword' := (Bytes.readInt64 ((block.drop 1).take 8)).toInt_lt
  simp only [checkedSize, Option.bind_eq_bind]
  rw [Access.noiseTime_eq h, Option.bind_some, hmiddle,
    Checked.remSigned_eq noise.distance_pos ⟨hword, hword'⟩, Option.bind_some]
  -- the remainder is below the distance, and the sum between the bounds
  show (Checked.signed 64 (noise.offset block)).bind _ = _
  rw [Checked.signed_eq ⟨by omega, by omega⟩, Option.bind_some]
  exact Checked.signed_eq ⟨by omega, by omega⟩

/-- Only the first nine bytes choose a move. -/
theorem move_take (block : Bytes) :
    noise.move (block.take 9) = noise.move block := by
  have hmiddle : ((block.take 9).drop 1).take 8 = (block.drop 1).take 8 := by
    rw [List.drop_take, List.take_take, Nat.min_self]
  have hfirst : (block.take 9).getD 0 0 = block.getD 0 0 := by
    rw [List.getD_eq_getElem?_getD, List.getD_eq_getElem?_getD,
      List.getElem?_take_of_lt (by decide)]
  simp only [move, hmiddle, hfirst]

end NoiseTime

/-! ## Numbers -/

namespace RandomInteger

/-- A word, folded with checks. -/
def checkedRead (r : RandomInteger) (window : Option (Window Int64)) (block : Bytes) :
    Option Int64 := do
  let word ← Checked.word 8 block
  (window.getD r.window).checkedFoldWord (Bytes.readUInt64 word)

theorem checkedRead_eq (r : RandomInteger) (window : Option (Window Int64)) (block : Bytes) :
    r.checkedRead window block = some (r.read window block) := by
  simp only [checkedRead, Option.bind_eq_bind]
  rw [Checked.word_eq, Option.bind_some, Bytes.readUInt64_pad, Window.checkedFoldWord_eq]
  rfl

end RandomInteger

namespace RandomDecimal

/-- A fold by a width that must not be zero, and a clamp between bounds that must be in order. -/
def checkedRead (r : RandomDecimal) (window : Option DecimalWindow) (block : Bytes) :
    Option Decimal := do
  let w := window.getD r.window
  let rest ← Checked.remDecimal ⟨Bytes.toNatBE block, r.precision⟩ w.width
  Checked.clamp w.window (w.round (w.min + rest))

theorem checkedRead_eq (r : RandomDecimal) (window : Option DecimalWindow) (block : Bytes) :
    r.checkedRead window block = some (r.read window block) := by
  have hwidth : (window.getD r.window).width.coefficient ≠ 0 := by
    intro hzero
    have hpos := (window.getD r.window).width_pos
    rw [Decimal.toRat, hzero, Int.cast_zero, zero_mul] at hpos
    exact lt_irrefl _ hpos
  have hbounds : ¬ (window.getD r.window).window.max < (window.getD r.window).window.min := by
    rw [Decimal.lt_iff_toRat]
    exact not_lt.mpr (window.getD r.window).min_lt_max.le
  simp only [checkedRead, Option.bind_eq_bind]
  rw [Checked.remDecimal_eq _ hwidth, Option.bind_some, Checked.clamp_eq hbounds]
  rfl

end RandomDecimal

namespace RandomBigInteger

/-- A fold by a width that must not be zero. -/
def checkedRead (r : RandomBigInteger) (window : Option (Window Int)) (block : Bytes) :
    Option Int := do
  let w := window.getD r.window
  let rest ← Checked.rem (Bytes.toNatBE block) w.count
  return w.min + rest

theorem checkedRead_eq (r : RandomBigInteger) (window : Option (Window Int)) (block : Bytes) :
    r.checkedRead window block = some (r.read window block) := by
  simp only [checkedRead, Option.bind_eq_bind]
  rw [Checked.rem_eq _ (window.getD r.window).count_pos.ne']
  rfl

end RandomBigInteger

/-! ## Instants -/

namespace RandomTime

/-- The instant with given parts, truncated within the window. -/
def place (window : Window Instant) (unit : Option CalendarUnit) (parts : Int × Nat) :
    Except DecodeError Instant := do
  let t ← (Instant.make? parts.1 parts.2).elim (.error (.timestampOutOfRange parts.1 parts.2)) .ok
  unit.elim (.ok t) fun unit =>
    (unit.truncateWithin t (some window.min) (some window.max)).mapError .runtimeLimiter

/-- Two words, folded with checks. Dates and their limits are checked by the calendar, which has an
error for them. -/
def checkedRead (r : RandomTime) (window : Option (Window Instant)) (block : Bytes) :
    Option (Except DecodeError Instant) := do
  let taken ← Access.time block
  let w := window.getD r.window
  let nanos ← Checked.rem (Bytes.readUInt64 ((taken.drop 8).take 8)).toNat 1000000000
  let seconds := UInt64.ofNat (Bytes.readInt64 (taken.take 8)).toInt.natAbs
  let parts ← w.checkedParts seconds nanos.toNat
  return place w r.unit parts

theorem read_eq_place (r : RandomTime) (window : Option (Window Instant)) (block : Bytes) :
    r.read window block = place (window.getD r.window) r.unit ((window.getD r.window).foldParts
      (UInt64.ofNat (Bytes.readInt64 (block.take 8)).toInt.natAbs)
      ((Bytes.readUInt64 ((block.drop 8).take 8)).toNat % 1000000000)) := by
  simp only [read, place, Window.foldTime]
  cases Instant.make? _ _ with
  | none => rfl
  | some t =>
    cases r.unit with
    | none => rfl
    | some unit =>
      simp only [bind, Except.bind, Option.elim_some]
      cases unit.truncateWithin t _ _ with
      | ok out => rfl
      | error e => rfl

theorem checkedRead_eq (r : RandomTime) (window : Option (Window Instant)) {block : Bytes}
    (h : block.length = length) : r.checkedRead window block = some (r.read window block) := by
  simp only [checkedRead, Option.bind_eq_bind]
  rw [Access.time_eq h, Option.bind_some, Checked.rem_eq _ (by decide), Option.bind_some,
    Window.checkedParts_eq, Option.bind_some, read_eq_place]
  rfl

end RandomTime

/-! ## Choices -/

namespace RandomChoice

/-- A word, a remainder by the number of choices, and a look at one of them. -/
def checkedRead (r : RandomChoice) (block : Bytes) : Option Value := do
  let word ← Checked.word 4 block
  let index ← Checked.rem (Bytes.readUInt32 word).toNat r.choices.length
  r.choices[index.toNat]?

theorem checkedRead_eq (r : RandomChoice) (block : Bytes) :
    r.checkedRead block = some (r.read block) := by
  have hindex := Nat.mod_lt (Bytes.readUInt32 block).toNat r.choices_pos
  have hlength : (r.choices.length : Int) ≠ 0 := by exact_mod_cast r.choices_pos.ne'
  simp only [checkedRead, Option.bind_eq_bind]
  rw [Checked.word_eq, Option.bind_some, Bytes.readUInt32_pad, Checked.rem_eq _ hlength,
    Option.bind_some, ← Int.natCast_emod, Int.toNat_natCast,
    List.getElem?_eq_getElem hindex]
  rfl

end RandomChoice

/-! ## Addresses -/

namespace RandomAddress

/-- A slice of the family's length, a remainder by the number of usable addresses, and a sum of 128
bits. -/
def checkedRead (subnet : Subnet) (block : Bytes) : Option IpAddress := do
  let bytes ← Checked.slice block 0 (subnet.network.family.bits / 8)
  let usable ← subnet.usableHosts.toOption
  let rest ← Checked.rem (Bytes.toNatBE bytes) usable
  let distance ← Checked.unsigned 128 (rest + 1)
  return subnet.host distance.toNat

theorem checkedRead_eq {subnet : Subnet} (husable : 1 < subnet.hostBits) {block : Bytes}
    (h : block.length = 16) :
    checkedRead subnet block = some (addressIn subnet (2 ^ subnet.hostBits - 2) block) := by
  -- the block is as long as the address of the longer family
  have hfamily : subnet.network.family.bits / 8 ≤ 16 := by
    cases subnet.network.family
    · decide
    · decide
  have hfour := Subnet.four_le_pow husable
  have hpow := subnet.pow_hostBits_le
  have hrest := Nat.mod_lt (number subnet.network.family block)
    (by omega : 0 < 2 ^ subnet.hostBits - 2)
  have hnumber : Bytes.toNatBE (block.take (subnet.network.family.bits / 8)) =
      number subnet.network.family block := rfl
  simp only [checkedRead, Option.bind_eq_bind, Subnet.usableHosts_eq husable, Except.toOption]
  rw [Checked.slice_eq ⟨Nat.zero_le _, by omega⟩, Option.bind_some, List.drop_zero, Nat.sub_zero,
    hnumber, Option.bind_some, Checked.rem_eq _ (by omega), Option.bind_some, ← Int.natCast_emod,
    Checked.unsigned_eq ⟨by omega, by omega⟩]
  rfl

/-- A subnet that a call is planned for has usable addresses, and one of these is read. -/
theorem read_of_plan {r : RandomAddress} {subnet : Option Subnet} {input : Bytes} {plan : Plan}
    (hplan : r.plan subnet input = .ok plan) (block : Bytes) :
    1 < (subnet.getD r.subnet).hostBits ∧
      plan.read block = .ok (.ip (addressIn (subnet.getD r.subnet)
        (2 ^ (subnet.getD r.subnet).hostBits - 2) block)) := by
  unfold RandomAddress.plan at hplan
  by_cases husable : 1 < (subnet.getD r.subnet).hostBits
  · simp only [Subnet.usableHosts_eq husable] at hplan
    obtain rfl := Except.ok.inj hplan
    exact ⟨husable, rfl⟩
  · have hsmall : (subnet.getD r.subnet).usableHosts = .error _ :=
      if_pos (Nat.not_lt.mp husable)
    simp only [hsmall] at hplan
    contradiction

end RandomAddress

/-! ## Numbers of any size -/

/-- A window for one call is read like that of the rule. -/
theorem RandomDecimal.read_of_plan {r : RandomDecimal} {window : Option DecimalWindow}
    {input : Bytes} {plan : Plan} (hplan : r.plan window input = .ok plan) (block : Bytes) :
    plan.read block = .ok (.decimal (r.read window block)) := by
  unfold RandomDecimal.plan at hplan
  cases window with
  | none =>
    obtain rfl := Except.ok.inj hplan
    rfl
  | some w =>
    dsimp only at hplan
    split at hplan
    · obtain rfl := Except.ok.inj hplan
      rfl
    · contradiction

theorem RandomBigInteger.read_of_plan {r : RandomBigInteger} {window : Option (Window Int)}
    {input : Bytes} {plan : Plan} (hplan : r.plan window input = .ok plan) (block : Bytes) :
    plan.read block = .ok (.decimal (.ofInt (r.read window block))) := by
  unfold RandomBigInteger.plan at hplan
  cases window with
  | none =>
    obtain rfl := Except.ok.inj hplan
    rfl
  | some w =>
    dsimp only at hplan
    split at hplan
    · obtain rfl := Except.ok.inj hplan
      rfl
    · contradiction

/-! ## Calls -/

/-- The checked reading of a call. -/
def Request.checkedRead : {rule : Rule} → Request rule → Bytes →
    Option (Except (Stop TransformError) Value)
  | .noiseInteger noise, noiseInteger v window, block =>
    (Access.noise block).map (noise.plan window v).read
  | .noiseFloat noise, noiseFloat v window, block =>
    (Access.noise block).map (noise.plan window v).read
  | .noiseDecimal noise, noiseDecimal v window, block =>
    (Access.noise block).map (noise.plan window v).read
  | .noiseTime noise, noiseTime t window, block => do
    let _ ← noise.checkedSize block
    let taken ← Access.noiseTime block
    return (noise.plan window t).read taken
  | .randomInteger r, randomInteger _ window, block =>
    (r.checkedRead window block).map fun v => .ok (.integer v)
  | .randomFloat r, randomFloat input window, block =>
    (Checked.word 8 block).map (r.plan window input).read
  | .randomDecimal r, randomDecimal _ window, block =>
    (r.checkedRead window block).map fun v => .ok (.decimal v)
  | .randomBigInteger r, randomBigInteger _ window, block =>
    (r.checkedRead window block).map fun v => .ok (.decimal (.ofInt v))
  | .randomTime r, randomTime _ window, block =>
    (r.checkedRead window block).map fun
      | .ok t => .ok (.timestamp t)
      | .error e => .error (.failure (.decode e))
  | .randomText r, randomText _, block =>
    (r.checkedRead block).map fun
      | some s => .ok (.text s)
      | none => .error .panic
  | .randomUuid, randomUuid input, block =>
    (Checked.slice block 0 16).map (RandomUuid.plan input).read
  | .randomBool, randomBool input, block =>
    block[0]?.map fun b => (RandomBool.plan input).read [b]
  | .randomChoice r, randomChoice _, block => (r.checkedRead block).map .ok
  | .randomAddress r, randomAddress _ subnet, block =>
    (RandomAddress.checkedRead (subnet.getD r.subnet) block).map fun a => .ok (.ip a)
  | .randomMac r, randomMac input, block => (Checked.slice block 0 6).map (r.plan input).read
  | .randomMac r, replaceMac a, block => (Checked.slice block 0 6).map (r.planFor a).read

/-- **No check fails** on a block of the needed length, and what is read with checks is what the
plan of the call reads. -/
theorem Request.checkedRead_eq {rule : Rule} {request : Request rule} {plan : Plan}
    {block : Bytes} (hplan : request.plan = .ok plan) (hblock : block.length = rule.required) :
    request.checkedRead block = some (plan.read block) := by
  -- kind by kind, as each has accesses of its own
  cases request with
  | noiseInteger v window =>
    obtain rfl := Except.ok.inj hplan
    rw [checkedRead, Access.noise_eq hblock, Option.map_some]
  | noiseFloat v window =>
    obtain rfl := Except.ok.inj hplan
    rw [checkedRead, Access.noise_eq hblock, Option.map_some]
  | noiseDecimal v window =>
    obtain rfl := Except.ok.inj hplan
    rw [checkedRead, Access.noise_eq hblock, Option.map_some]
  | @noiseTime noise t window =>
    obtain rfl := Except.ok.inj hplan
    simp only [checkedRead, Option.bind_eq_bind]
    rw [noise.checkedSize_eq hblock, Option.bind_some, Access.noiseTime_eq hblock,
      Option.bind_some]
    simp only [NoiseTime.plan, NoiseTime.apply, noise.move_take]
    rfl
  | @randomInteger r input window =>
    obtain rfl := Except.ok.inj hplan
    rw [checkedRead, r.checkedRead_eq, Option.map_some]
    rfl
  | @randomFloat r input window =>
    obtain rfl := Except.ok.inj hplan
    rw [checkedRead, Checked.word_eq, Option.map_some]
    simp only [RandomFloat.plan, RandomFloat.read, Bytes.readInt64_pad]
  | @randomDecimal r input window =>
    rw [checkedRead, r.checkedRead_eq, Option.map_some, RandomDecimal.read_of_plan hplan]
  | @randomBigInteger r input window =>
    rw [checkedRead, r.checkedRead_eq, Option.map_some, RandomBigInteger.read_of_plan hplan]
  | @randomTime r input window =>
    obtain rfl := Except.ok.inj hplan
    rw [checkedRead, r.checkedRead_eq window hblock, Option.map_some]
    rfl
  | @randomText r input =>
    obtain rfl := Except.ok.inj hplan
    rw [checkedRead, RandomText.checkedRead_eq hblock, Option.map_some]
    rfl
  | randomUuid input =>
    obtain rfl := Except.ok.inj hplan
    rw [checkedRead, Checked.slice_all (show block.length = 16 from hblock), Option.map_some]
  | randomBool input =>
    obtain rfl := Except.ok.inj hplan
    obtain ⟨b, rfl⟩ := List.length_eq_one_iff.mp hblock
    rfl
  | @randomChoice r input =>
    obtain rfl := Except.ok.inj hplan
    rw [checkedRead, r.checkedRead_eq, Option.map_some]
    rfl
  | randomAddress input subnet =>
    obtain ⟨husable, hread⟩ := RandomAddress.read_of_plan hplan block
    rw [checkedRead, RandomAddress.checkedRead_eq husable hblock, Option.map_some, hread]
  | randomMac input =>
    obtain rfl := Except.ok.inj hplan
    rw [checkedRead, Checked.slice_all (show block.length = 6 from hblock), Option.map_some]
  | replaceMac a =>
    obtain rfl := Except.ok.inj hplan
    rw [checkedRead, Checked.slice_all (show block.length = 6 from hblock), Option.map_some]

end ColumnMask
