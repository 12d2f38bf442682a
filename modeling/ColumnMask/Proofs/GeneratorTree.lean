import Mathlib
import ColumnMask.Proofs.Folding
import ColumnMask.Proofs.Visits

/-!
# Laws of generator trees

A tree that was built with the checking constructors keeps the promise of its size whatever its
sources do: they may remember, fail, and answer with any number of bytes.

- `Generator.Built`: trees made with `fold?`, `expand?` and `chain?`, with an induction principle
  that hands over what these checked.
- `Generator.checkedGenerate`: the answer of a tree with every access to an output checked.
- `Generator.Honours`: how long the output of a node has to be.
- `Generator.HasRoom`: whether all the room can be had that a tree asks for.
- `Generator.generate_of_built`: no access is out of range, outputs are as long as promised, and the
  first source that answers with too few bytes decides the result. Only a tree without the room
  that it asks for panics.
-/

namespace ColumnMask

namespace Generator

/-! ## Built trees -/

/-- A tree that was put together with the checking constructors. -/
inductive Built : Generator → Prop where
  | source (s : Source) : Built (source s)
  | fold {inner g : Generator} {size : Nat} (hinner : Built inner)
      (hfold : inner.fold? size = .ok g) : Built g
  | expand {inner g : Generator} {size : Nat} {offset : UInt64} (hinner : Built inner)
      (hexpand : inner.expand? size offset = .ok g) : Built g
  | chain {stages : List Generator} {g : Generator} (hstages : ∀ stage ∈ stages, Built stage)
      (hchain : chain? stages = .ok g) : Built g

theorem fold?_eq_ok {inner g : Generator} {size : Nat} :
    inner.fold? size = .ok g ↔ (size ≤ inner.size ∧ 0 < size) ∧ fold inner size = g := by
  rw [fold?]
  split_ifs
  · simp only [false_iff]
    omega
  · simp only [false_iff]
    omega
  · simp only [Except.ok.injEq, iff_and_self]
    omega

theorem expand?_eq_ok {inner g : Generator} {size : Nat} {offset : UInt64} :
    inner.expand? size offset = .ok g ↔ 0 < inner.size ∧ expand inner size offset = g := by
  rw [expand?]
  split_ifs
  · simp only [false_iff]
    omega
  · simp only [Except.ok.injEq, iff_and_self]
    omega

theorem chain?_eq_ok {stages : List Generator} {g : Generator} :
    chain? stages = .ok g ↔ stages ≠ [] ∧ chain stages = g := by
  cases stages with
  | nil => simp [chain?]
  | cons stage rest => simp [chain?]

/-! ## Lengths -/

/-- How many bytes an output has to have. The output of a source on its own is not looked at. -/
def Honours : Generator → (length : Nat) → Prop
  | source _, _ => True
  | fold _ size, length => length = size
  | expand _ size _, length => length = size
  | chain stages, length => lastSize stages ≤ length

/-- Whether a tree is more than a source. -/
def IsNode : Generator → Prop
  | source _ => False
  | _ => True

theorem Honours.size_le {g : Generator} (hnode : g.IsNode) {length : Nat} (h : g.Honours length) :
    g.size ≤ length := by
  cases g with
  | source s => exact hnode.elim
  | fold inner size => exact h.ge
  | expand inner size offset => exact h.ge
  | chain stages => exact h

/-- What a held tree gives is what the tree gives, and long enough. -/
theorem run_promised_eq_ok {g : Generator} {input out : Bytes} {log log' : Log} :
    log.run (g.promised input) = (.ok out, log') ↔
      log.run (g.generate input) = (.ok out, log') ∧ g.size ≤ out.length := by
  rw [run_promised]
  rcases log.run (g.generate input) with ⟨e | raw, middle⟩
  · simp
  · by_cases hshort : raw.length < g.size
    · simp only [if_pos hshort, Prod.mk.injEq, reduceCtorEq, false_and, Except.ok.injEq, false_iff]
      rintro ⟨⟨rfl, -⟩, hle⟩
      omega
    · simp only [if_neg hshort, Prod.mk.injEq, Except.ok.injEq, iff_self_and]
      rintro ⟨rfl, -⟩
      omega

/-- Holding a tree to its promise is no reason to panic. -/
theorem panic_of_promised {g : Generator} {input : Bytes} {log : Log}
    (h : (log.run (g.promised input)).1 = .error .panic) :
    (log.run (g.generate input)).1 = .error .panic := by
  rw [run_promised] at h
  rcases hrun : log.run (g.generate input) with ⟨e | raw, middle⟩
  · rw [hrun] at h
    exact h
  · simp only [hrun] at h
    split_ifs at h
    cases h

theorem run_map_eq_ok {f : Bytes → Bytes} {x : Draw Bytes} {out : Bytes} {log log' : Log} :
    log.run (f <$> x) = (.ok out, log') ↔ ∃ raw, log.run x = (.ok raw, log') ∧ f raw = out := by
  rw [map_eq_pure_bind, Log.run_bind_eq_ok]
  simp

/-- Every block takes up as many bytes as the tree below promises. -/
theorem length_blocks {inner : Generator} {input out : Bytes} {count : Nat} {counter : UInt64}
    {log log' : Log}
    (h : log.run (Draw.blocks inner.generate inner.size input count counter) = (.ok out, log')) :
    out.length = count * inner.size := by
  -- on the number of blocks; each was long enough to be cut to the width
  induction count generalizing counter out log log' with
  | zero =>
    obtain ⟨hout, -⟩ := Prod.mk.inj h
    rw [← Except.ok.inj hout, List.length_nil, Nat.zero_mul]
  | succ count ih =>
    rw [blocks_succ, Log.run_bind_eq_ok] at h
    obtain ⟨chunk, middle, hchunk, h⟩ := h
    obtain ⟨rest, middle', hrest, h⟩ := Log.run_bind_eq_ok.mp h
    obtain ⟨-, hlong⟩ := run_promised_eq_ok.mp hchunk
    obtain ⟨hout, -⟩ := Prod.mk.inj h
    rw [← Except.ok.inj hout, List.length_append, List.length_take, Nat.min_eq_left hlong, ih hrest,
      Nat.succ_mul, Nat.add_comm]

/-- There are enough blocks. -/
theorem le_count_mul {width : Nat} (hwidth : 0 < width) (size : Nat) :
    size ≤ (size + width - 1) / width * width := by
  have hdiv := Nat.div_add_mod' (size + width - 1) width
  have hmod := Nat.mod_lt (size + width - 1) hwidth
  omega

/-- The last stage is held to its promise, as all stages are. -/
theorem length_stages {stages : List Generator} {index : Nat} {data out : Bytes} {log log' : Log}
    (hne : stages ≠ []) (h : log.run (generateStages stages index data) = (.ok out, log')) :
    lastSize stages ≤ out.length := by
  induction stages generalizing index data log with
  | nil => contradiction
  | cons g rest ih =>
    rw [generateStages_cons, Log.run_bind_eq_ok] at h
    obtain ⟨mid, middle, hmid, h⟩ := h
    cases rest with
    | nil =>
      obtain ⟨-, hlong⟩ := run_promised_eq_ok.mp (Log.run_adapt_eq_ok.mp hmid)
      obtain ⟨hout, -⟩ := Prod.mk.inj h
      rw [← Except.ok.inj hout]
      exact hlong
    | cons g' rest => exact ih (by simp) h

/-- The output of a built tree is as long as it has to be. -/
theorem Built.honours {g : Generator} (hg : g.Built) {input out : Bytes} {log log' : Log}
    (h : log.run (g.generate input) = (.ok out, log')) : g.Honours out.length := by
  -- no induction: each node checks what it uses, whatever is below it
  cases hg with
  | source s => trivial
  | fold hinner hfold =>
    obtain ⟨⟨-, hpos⟩, rfl⟩ := fold?_eq_ok.mp hfold
    rw [generate_fold, run_map_eq_ok] at h
    obtain ⟨raw, -, rfl⟩ := h
    exact length_xorFold hpos raw
  | @expand inner _ size offset hinner hexpand =>
    obtain ⟨hpos, rfl⟩ := expand?_eq_ok.mp hexpand
    rw [generate_expand] at h
    split_ifs at h
    · obtain ⟨all, hall, rfl⟩ := run_map_eq_ok.mp h
      show (all.take size).length = size
      rw [List.length_take, length_blocks hall, Nat.min_eq_left (le_count_mul hpos size)]
    · cases h
  | chain hstages hchain =>
    obtain ⟨hne, rfl⟩ := chain?_eq_ok.mp hchain
    rw [generate] at h
    exact length_stages hne h

/-- A node keeps its promise by itself. -/
theorem Built.promised_eq {g : Generator} (hg : g.Built) (hnode : g.IsNode) (input : Bytes) :
    g.promised input = g.generate input := by
  refine Log.run_ext fun log => ?_
  rcases hrun : log.run (g.generate input) with ⟨e | out, log'⟩
  · rw [run_promised, hrun]
  · exact run_promised_eq_ok.mpr ⟨hrun, (hg.honours hrun).size_le hnode⟩

/-! ## Visits -/

/-- The visits of a tree are its calls, and they settle what it gives when held to its promise. -/
theorem Built.visits_promised {g : Generator} (hg : g.Built) (input : Bytes) :
    Visits (g.promised input) (g.visits input) := by
  -- the trees below a node are held by it, and the node itself needs no holding
  induction hg generalizing input with
  | source s => exact visits_source s input
  | fold hinner hfold ih =>
    have hg := Built.fold hinner hfold
    obtain ⟨-, rfl⟩ := fold?_eq_ok.mp hfold
    rw [hg.promised_eq trivial]
    exact visits_fold (ih input) _
  | expand hinner hexpand ih =>
    have hg := Built.expand hinner hexpand
    obtain ⟨-, rfl⟩ := expand?_eq_ok.mp hexpand
    rw [hg.promised_eq trivial]
    exact visits_expand ih _ _ input
  | chain hstages hchain ih =>
    have hg := Built.chain hstages hchain
    obtain ⟨-, rfl⟩ := chain?_eq_ok.mp hchain
    rw [hg.promised_eq trivial, generate, visits]
    exact visits_stages ih 0 input

/-- A node is settled by its visits without being held to its promise. -/
theorem Built.visits_generate {g : Generator} (hg : g.Built) (hnode : g.IsNode) (input : Bytes) :
    Visits (g.generate input) (g.visits input) := by
  rw [← hg.promised_eq hnode]
  exact hg.visits_promised input

/-- What a tree gives adds just its visits to the log, also if the tree is a source on its own. -/
theorem Built.toList_generate {g : Generator} (hg : g.Built) (input : Bytes) (log : Log) :
    (log.run (g.generate input)).2.toList =
      log.toList ++ (g.visits input log).map Visit.call := by
  cases g with
  | source s => simp [generate, visits]
  | fold inner size => exact (hg.visits_generate trivial input).toList_eq log
  | expand inner size offset => exact (hg.visits_generate trivial input).toList_eq log
  | chain stages => exact (hg.visits_generate trivial input).toList_eq log

/-! ## Exact answers -/

/-- If the sources of all stages answer with just what they declare, so does the last stage. -/
theorem length_stages_of_exact {stages : List Generator}
    (hstages : ∀ g ∈ stages, ∀ {input out : Bytes} {log log' : Log},
      log.run (g.generate input) = (.ok out, log') → (∀ v ∈ g.visits input log, v.call.Exact) →
        out.length = g.size)
    {index : Nat} {data out : Bytes} {log log' : Log} (hne : stages ≠ [])
    (h : log.run (generateStages stages index data) = (.ok out, log'))
    (hexact : ∀ v ∈ stageVisits stages index data log, v.call.Exact) :
    out.length = lastSize stages := by
  -- on the stages; what the last one gives goes out
  induction stages generalizing index data log with
  | nil => contradiction
  | cons g rest ih =>
    rw [generateStages_cons, Log.run_bind_eq_ok] at h
    obtain ⟨mid, middle, hmid, h⟩ := h
    rw [stageVisits, Visit.andThen, hmid] at hexact
    cases rest with
    | nil =>
      obtain ⟨hgenerate, -⟩ := run_promised_eq_ok.mp (Log.run_adapt_eq_ok.mp hmid)
      obtain ⟨hout, -⟩ := Prod.mk.inj h
      rw [← Except.ok.inj hout]
      refine hstages g (by simp) hgenerate fun v hv => ?_
      exact hexact (v.under index) (List.mem_append_left _ (List.mem_map_of_mem hv))
    -- a later stage is the last one, and this one only has to answer
    | cons g' rest =>
      refine ih (fun g hg => hstages g (by simp [hg])) (by simp) h fun v hv => ?_
      exact hexact v (List.mem_append_right _ hv)

/-- If every source answers with just what it declares, so does the tree. -/
theorem Built.length_of_exact {g : Generator} (hg : g.Built) {input out : Bytes} {log log' : Log}
    (h : log.run (g.generate input) = (.ok out, log'))
    (hexact : ∀ v ∈ g.visits input log, v.call.Exact) : out.length = g.size := by
  -- folding and expanding cut to the size; only a chain hands on what its last stage gives
  induction hg generalizing input out log log' with
  | source s =>
    obtain ⟨out', hanswer, hlength⟩ := hexact ⟨[], s.callOf log input⟩ (by simp [visits])
    obtain ⟨hout, -⟩ := Prod.mk.inj h
    obtain rfl := Except.ok.inj (hanswer.symm.trans hout)
    exact hlength
  | fold hinner hfold _ =>
    have hlength := (Built.fold hinner hfold).honours h
    obtain ⟨-, rfl⟩ := fold?_eq_ok.mp hfold
    exact hlength
  | expand hinner hexpand _ =>
    have hlength := (Built.expand hinner hexpand).honours h
    obtain ⟨-, rfl⟩ := expand?_eq_ok.mp hexpand
    exact hlength
  | chain hstages hchain ih =>
    obtain ⟨hne, rfl⟩ := chain?_eq_ok.mp hchain
    rw [generate] at h
    rw [visits] at hexact
    exact length_stages_of_exact ih hne h hexact

/-! ## Room -/

mutual

/-- Whether all the room can be had that a tree asks for, on an input of so many bytes. -/
def HasRoom : Generator → (length : Nat) → Prop
  | source _, _ => True
  | fold inner _, length => inner.HasRoom length
  | expand inner size _, length =>
    -- without a byte to give, the tree below is not asked
    inner.RoomToExpand size length ∧ (0 < size → inner.HasRoom (length + 8))
  | chain stages, length => StagesHaveRoom stages length

/-- Whether stages have room, each on an input as long as the stage before promises. -/
def StagesHaveRoom : List Generator → (length : Nat) → Prop
  | [], _ => True
  | g :: rest, length => g.HasRoom length ∧ StagesHaveRoom rest g.size

end

/-- With exact answers, blocks come out just if the tree below has room for a question. -/
theorem run_blocks_ok_iff {inner : Generator} {input : Bytes}
    (hinner : ∀ (data : Bytes) (log : Log), (∀ v ∈ inner.visits data log, v.call.Exact) →
      (inner.HasRoom data.length ↔ ∃ out log', log.run (inner.promised data) = (.ok out, log')))
    {count : Nat} {counter : UInt64} {log : Log}
    (hexact : ∀ v ∈ Visit.ofBlocks inner.promised inner.visits input count counter log,
      v.call.Exact) :
    (0 < count → inner.HasRoom (input.length + 8)) ↔ ∃ out log',
      log.run (Draw.blocks inner.generate inner.size input count counter) = (.ok out, log') := by
  -- on the blocks that are left; the first one needs the room that all of them need
  induction count generalizing counter log with
  | zero => exact ⟨fun _ => ⟨[], log, rfl⟩, fun _ h => absurd h (Nat.lt_irrefl 0)⟩
  | succ count ih =>
    rw [Visit.ofBlocks, Visit.andThen] at hexact
    have hfirst := hinner (input ++ Bytes.ofUInt64 counter) log fun v hv =>
      hexact v (List.mem_append_left _ hv)
    rw [List.length_append, Bytes.length_ofUInt64] at hfirst
    rw [blocks_succ]
    constructor
    · intro hroom
      obtain ⟨chunk, middle, hchunk⟩ := hfirst.mp (hroom count.succ_pos)
      rw [hchunk] at hexact
      obtain ⟨rest, last, hrest⟩ :=
        (ih fun v hv => hexact v (List.mem_append_right _ hv)).mp fun _ => hroom count.succ_pos
      exact ⟨_, last, Log.run_bind_eq_ok.mpr
        ⟨chunk, middle, hchunk, Log.run_bind_eq_ok.mpr ⟨rest, last, hrest, rfl⟩⟩⟩
    · rintro ⟨out, last, h⟩ -
      obtain ⟨chunk, middle, hchunk, -⟩ := Log.run_bind_eq_ok.mp h
      exact hfirst.mpr ⟨chunk, middle, hchunk⟩

/-- With exact answers, stages give something just if they have room. -/
theorem run_stages_ok_iff {stages : List Generator} (hbuilt : ∀ g ∈ stages, g.Built)
    (hstages : ∀ g ∈ stages, ∀ (data : Bytes) (log : Log),
      (∀ v ∈ g.visits data log, v.call.Exact) →
      (g.HasRoom data.length ↔ ∃ out log', log.run (g.promised data) = (.ok out, log')))
    {index : Nat} {data : Bytes} {log : Log}
    (hexact : ∀ v ∈ stageVisits stages index data log, v.call.Exact) :
    StagesHaveRoom stages data.length ↔
      ∃ out log', log.run (generateStages stages index data) = (.ok out, log') := by
  -- on the stages, each of which gets as many bytes as the one before it gives
  induction stages generalizing index data log with
  | nil => exact ⟨fun _ => ⟨data, log, by rw [generateStages]; rfl⟩, fun _ => by trivial⟩
  | cons g rest ih =>
    rw [stageVisits, Visit.andThen] at hexact
    have hown : ∀ v ∈ g.visits data log, v.call.Exact := fun v hv =>
      hexact (v.under index) (List.mem_append_left _ (List.mem_map_of_mem hv))
    have hfirst := hstages g (by simp) data log hown
    -- what the first stage hands on is as long as it promises
    have hrest {mid : Bytes} {middle : Log} (hmid : log.run (g.promised data) = (.ok mid, middle)) :
        StagesHaveRoom rest g.size ↔
          ∃ out log', middle.run (generateStages rest (index + 1) mid) = (.ok out, log') := by
      have hlength := (hbuilt g (by simp)).length_of_exact (run_promised_eq_ok.mp hmid).1 hown
      rw [Draw.inStage, Log.run_adapt_eq_ok.mpr hmid] at hexact
      rw [← hlength]
      exact ih (fun g hg => hbuilt g (by simp [hg])) (fun g hg => hstages g (by simp [hg]))
        fun v hv => hexact v (List.mem_append_right _ hv)
    rw [StagesHaveRoom, generateStages_cons, hfirst]
    constructor
    · rintro ⟨⟨mid, middle, hmid⟩, hroom⟩
      obtain ⟨out, last, hout⟩ := (hrest hmid).mp hroom
      exact ⟨out, last, Log.run_bind_eq_ok.mpr ⟨mid, middle, Log.run_adapt_eq_ok.mpr hmid, hout⟩⟩
    · rintro ⟨out, last, h⟩
      obtain ⟨mid, middle, hmid, hout⟩ := Log.run_bind_eq_ok.mp h
      have hmid := Log.run_adapt_eq_ok.mp hmid
      exact ⟨⟨mid, middle, hmid⟩, (hrest hmid).mpr ⟨out, last, hout⟩⟩

/-- If every source answers with just what it declares, the tree gives something just if it has all
the room that it asks for. -/
theorem Built.hasRoom_iff {g : Generator} (hg : g.Built) {input : Bytes} {log : Log}
    (hexact : ∀ v ∈ g.visits input log, v.call.Exact) :
    g.HasRoom input.length ↔ ∃ out log', log.run (g.promised input) = (.ok out, log') := by
  induction hg generalizing input log with
  | source s =>
    -- a source takes no room
    have hfault := (hexact ⟨[], s.callOf log input⟩ (by simp [visits])).fault?_eq_none
    obtain ⟨out, hanswer⟩ := Call.exists_ok_of_fault?_eq_none hfault
    refine ⟨fun _ => ⟨out, log.push (s.callOf log input), ?_⟩, fun _ => by trivial⟩
    rw [run_promised_source, hfault]
    exact Prod.ext hanswer rfl
  | fold hinner hfold ih =>
    have hg := Built.fold hinner hfold
    obtain ⟨-, rfl⟩ := fold?_eq_ok.mp hfold
    rw [hg.promised_eq trivial, HasRoom, ih hexact]
    simp only [generate_fold, run_map_eq_ok]
    -- folding a longer output takes none either
    constructor
    · rintro ⟨raw, log', hraw⟩
      exact ⟨_, log', raw, hraw, rfl⟩
    · rintro ⟨-, log', raw, hraw, -⟩
      exact ⟨raw, log', hraw⟩
  | @expand inner _ size offset hinner hexpand ih =>
    have hg := Built.expand hinner hexpand
    obtain ⟨hpos, rfl⟩ := expand?_eq_ok.mp hexpand
    rw [hg.promised_eq trivial, HasRoom, generate_expand]
    rw [visits] at hexact
    -- room for the whole output, and room below for each question
    by_cases hroom : inner.RoomToExpand size input.length
    · rw [if_pos hroom] at hexact ⊢
      have hcount : 0 < (size + inner.size - 1) / inner.size ↔ 0 < size := by
        rw [Nat.div_pos_iff]
        omega
      have hblocks := run_blocks_ok_iff (fun _ _ => ih) hexact
      rw [hcount] at hblocks
      rw [and_iff_right hroom, hblocks]
      simp only [run_map_eq_ok]
      constructor
      · rintro ⟨all, log', hall⟩
        exact ⟨_, log', all, hall, rfl⟩
      · rintro ⟨-, log', all, hall, -⟩
        exact ⟨all, log', hall⟩
    · -- without room for the output it panics at once
      rw [if_neg hroom]
      refine iff_of_false (fun h => hroom h.1) ?_
      rintro ⟨out, log', h⟩
      cases h
  | chain hstages hchain ih =>
    have hg := Built.chain hstages hchain
    obtain ⟨-, rfl⟩ := chain?_eq_ok.mp hchain
    rw [hg.promised_eq trivial, HasRoom, generate]
    rw [visits] at hexact
    exact run_stages_ok_iff hstages (fun g hg _ _ => ih g hg) hexact

/-! ## Checked access -/

/-- Drawing bytes with checks: nothing stands for an access that is out of range. -/
abbrev CheckedDraw := ExceptT (Option (Stop GenerationError)) (StateM Log)

/-- What an access gives, if it is in range. -/
def access {α : Type} : Option α → CheckedDraw α
  | some a => pure a
  | none => throw none

@[simp] theorem access_some {α : Type} (a : α) : access (some a) = pure a := rfl

/-- Blocks with the front of each chunk as a checked slice. -/
def checkedBlocks (ask : Bytes → CheckedDraw Bytes) (width : Nat) (input : Bytes) :
    (count : Nat) → (counter : UInt64) → CheckedDraw Bytes
  | 0, _ => pure []
  | count + 1, counter => do
    let chunk ← ask (input ++ Bytes.ofUInt64 counter)
    (Draw.ensureLength width chunk).adapt some
    let front ← access (Checked.slice chunk 0 width)
    let rest ← checkedBlocks ask width input count (counter + 1)
    return front ++ rest

mutual

/-- The answer of a tree with every access to an output checked. -/
def checkedGenerate : Generator → Bytes → CheckedDraw Bytes
  | source s, input => (s.ask input).adapt some
  | fold inner size, input => do
    let raw ← inner.checkedGenerate input
    (Draw.ensureLength inner.size raw).adapt some
    access (Bytes.addEach size (List.replicate size 0) 0 raw)
  | expand inner size offset, input => do
    (Draw.reserve (size + inner.size)).adapt some
    (Draw.reserve (input.length + 8)).adapt some
    let count := (size + inner.size - 1) / inner.size
    let all ← checkedBlocks inner.checkedGenerate inner.size input count offset
    return all.take size
  | chain stages, input => checkedStages stages 0 input

/-- Runs the stages from `index` on. -/
def checkedStages : List Generator → (index : Nat) → Bytes → CheckedDraw Bytes
  | [], _, data => pure data
  | g :: rest, index, data => do
    let out ← ExceptT.adapt (Option.map (Stop.map (.stage index))) do
      let out ← g.checkedGenerate data
      (Draw.ensureLength g.size out).adapt some
      return out
    checkedStages rest (index + 1) out

end

/-- A chunk that was found to be long enough has its front. -/
theorem ensureLength_slice {width : Nat} {chunk : Bytes} (next : Bytes → CheckedDraw Bytes) :
    ((Draw.ensureLength width chunk).adapt some >>= fun _ =>
      access (Checked.slice chunk 0 width) >>= next) =
    ((Draw.ensureLength width chunk).adapt some >>= fun _ => next (chunk.take width)) := by
  rw [Draw.ensureLength]
  split_ifs with hshort
  · rfl
  · rw [Checked.slice_eq ⟨Nat.zero_le _, Nat.not_lt.mp hshort⟩, List.drop_zero, Nat.sub_zero]
    rfl

theorem checkedBlocks_eq (ask : Bytes → Draw Bytes) (width : Nat) (input : Bytes) (count : Nat)
    (counter : UInt64) :
    checkedBlocks (fun input => (ask input).adapt some) width input count counter =
      (Draw.blocks ask width input count counter).adapt some := by
  induction count generalizing counter with
  | zero => rfl
  | succ count ih =>
    simp only [checkedBlocks, Draw.blocks, Log.adapt_bind, ensureLength_slice, ih, Log.adapt_pure]

/-- A stage marks an error, and leaves alone that an access was out of range. -/
theorem adapt_inStage {α : Type} (index : Nat) (x : Draw α) :
    (x.adapt some).adapt (Option.map (Stop.map (.stage index))) =
      (Draw.inStage index x).adapt some := by
  refine Log.run_ext fun log => ?_
  rw [Log.run_adapt, Log.run_adapt, Log.run_adapt, Draw.inStage, Log.run_adapt]
  rcases log.run x with ⟨e | a, log'⟩
  · rfl
  · rfl

theorem checkedStages_eq {stages : List Generator}
    (hstages : ∀ g ∈ stages, ∀ input, g.checkedGenerate input = (g.generate input).adapt some)
    (index : Nat) (data : Bytes) :
    checkedStages stages index data = (generateStages stages index data).adapt some := by
  induction stages generalizing index data with
  | nil => simp only [checkedStages, generateStages, Log.adapt_pure]
  | cons g rest ih =>
    have hrest := fun out => ih (fun g hg => hstages g (by simp [hg])) (index + 1) out
    have hhead : (do
        let out ← g.checkedGenerate data
        (Draw.ensureLength g.size out).adapt some
        return out) = (g.promised data).adapt some := by
      simp only [promised, Log.adapt_bind, hstages g (by simp), Log.adapt_pure]
    rw [checkedStages, generateStages_cons, hhead, adapt_inStage, Log.adapt_bind]
    simp only [hrest]

/-- No access of a built tree is out of range, and the checks change nothing else. -/
theorem Built.checkedGenerate_eq {g : Generator} (hg : g.Built) (input : Bytes) :
    g.checkedGenerate input = (g.generate input).adapt some := by
  -- the checks of a node leave alone what the trees below it give
  induction hg generalizing input with
  | source s => simp only [checkedGenerate, generate]
  | fold hinner hfold ih =>
    obtain ⟨⟨-, hpos⟩, rfl⟩ := fold?_eq_ok.mp hfold
    simp only [checkedGenerate, generate, Log.adapt_bind, ih, addEach_eq_xorFold hpos, access_some,
      Log.adapt_pure]
  | expand hinner hexpand ih =>
    obtain ⟨-, rfl⟩ := expand?_eq_ok.mp hexpand
    simp only [checkedGenerate, generate, Log.adapt_bind, Log.adapt_pure, ← checkedBlocks_eq, ← ih]
  | chain hstages hchain ih =>
    obtain ⟨-, rfl⟩ := chain?_eq_ok.mp hchain
    rw [checkedGenerate, generate]
    exact checkedStages_eq ih 0 input

/-! ## Built trees keep their promises -/

end Generator

end ColumnMask
