import Ooverlap.Pipeline.WindowPipeline
import Ooverlap.Support.RingSlots

/-! The invariant of the chunk loops: how far loads, waits, stores and drains have come. -/

namespace Ooverlap.Pipeline

open Thread

namespace Mbarrier

theorem completeTx_all (size : Nat) : completeTx ⟨1, 0, 0, size⟩ size = ⟨1, 1, 1, 0⟩ := by
  simp [completeTx, settle]

theorem arriveExpectTx_init (positive : 0 < size) :
    (init 1).arriveExpectTx size = ⟨1, 0, 0, size⟩ := by
  simp [arriveExpectTx, settle, init, Nat.ne_of_gt positive]

end Mbarrier

namespace ChunkLoop

variable (loop : ChunkLoop) (depths : Depths)

def chunk (iter : Nat) : PipelineChunk := (loop.stage iter 0).chunk

def tile (iter : Nat) : Tile where
  src := (loop.chunk iter).src
  bytes := (loop.chunk iter).bytes

def bulk (iter : Nat) : Nat := (loop.chunk iter).bytes / 16 * 16

def load (iter : Nat) : BulkLoad where
  slot := iter % depths.stageDepth
  src := (loop.chunk iter).src
  bytes := (loop.chunk iter).bytes

/-- Groups committed by the first iterations. -/
def groups (count : Nat) : Nat :=
  (List.range count).countP fun iter => loop.bulk iter != 0

def stores (iter : Nat) : List BulkStore :=
  if loop.bulk iter = 0 then []
  else (loop.dsts iter (loop.stage iter 0)).map fun dst =>
    { op := loop.op
      slot := iter % depths.stageDepth
      dst := dst
      bytes := loop.bulk iter
      group := loop.groups iter }

def storesBefore (count : Nat) : List BulkStore :=
  (List.range count).flatMap (loop.stores depths)

/-- No chunk is empty, and either every chunk but the last has a bulk part or none has. -/
structure Filled : Prop where
  bytes_pos : ∀ iter, iter < loop.chunks → 0 < (loop.chunk iter).bytes
  bulk_pos : (∀ iter, loop.bulk iter = 0) ∨ ∀ iter, iter + 1 < loop.chunks → loop.bulk iter ≠ 0

/-- How many chunks are loaded, observed as landed, stored, and drained from their slots. -/
structure Progress where
  loaded : Nat
  waited : Nat
  stored : Nat
  drained : Nat

/-- `fresh` is the barrier of the slot being refilled, `part` the stores of a group not committed yet. -/
structure Ring (progress : Progress) (fresh : Option Mbarrier) (part : List BulkStore)
    (state : BulkState) : Prop where
  loaded_le : progress.loaded ≤ loop.chunks
  waited_le : progress.waited ≤ progress.loaded
  stored_le : progress.stored ≤ progress.waited
  drained_le : progress.drained ≤ progress.stored
  ahead : progress.loaded ≤ progress.waited + depths.loadFillDepth
  room : progress.loaded ≤ progress.drained + depths.stageDepth
  loads : state.loads = (List.range progress.loaded).map (loop.load depths)
  stores : state.stores = loop.storesBefore depths progress.stored ++ part
  commits : state.commits = loop.groups progress.stored
  landed_lt : ∀ iter ∈ state.landed, iter < progress.loaded
  landed : ∀ iter, iter < progress.waited → iter ∈ state.landed
  barrier : ∀ iter, iter < progress.loaded →
    (progress.loaded < iter + depths.stageDepth ∨
      progress.loaded = iter + depths.stageDepth ∧ fresh = none) →
    state.barriers (iter % depths.stageDepth) =
      if iter ∈ state.landed then ⟨1, 1, 1, 0⟩ else ⟨1, 0, 0, (loop.chunk iter).bytes⟩
  filling : ∀ barrier, fresh = some barrier →
    state.barriers (progress.loaded % depths.stageDepth) = barrier ∧ barrier.phase = 0
  tile : ∀ iter, iter < progress.loaded → progress.loaded ≤ iter + depths.stageDepth → iter ∈ state.landed →
    state.smem (iter % depths.stageDepth) = some (loop.tile iter)
  read_lt : ∀ index ∈ state.read, index < state.stores.length
  owned : ∀ index store, state.stores[index]? = some store →
    ∃ iter, iter < progress.waited ∧ store ∈ loop.stores depths iter ∧
      (index ∈ state.read → state.taken index = some (loop.tile iter)) ∧
      (iter < progress.drained → index ∈ state.read)
  written : state.written ⊆ state.read
  part_open : part ≠ [] → progress.stored < progress.waited
  part_begins : part <+: loop.stores depths progress.stored

variable {loop depths} {progress : Progress} {fresh : Option Mbarrier} {part : List BulkStore}
  {state after : BulkState}

theorem loadFill_lt (depths : Depths) : depths.loadFillDepth < depths.stageDepth := by
  have := depths.within
  have := depths.fill_pos
  omega

theorem slot_of_mem_stores (member : store ∈ loop.stores depths iter) :
    store.slot = iter % depths.stageDepth := by
  unfold stores at member
  split at member
  · cases member
  · obtain ⟨dst, _, rfl⟩ := List.mem_map.mp member
    rfl

theorem group_of_mem_stores (member : store ∈ loop.stores depths iter) :
    store.group = loop.groups iter ∧ loop.bulk iter ≠ 0 := by
  unfold stores at member
  split at member
  · cases member
  · obtain ⟨dst, _, rfl⟩ := List.mem_map.mp member
    exact ⟨rfl, ‹_›⟩

theorem groups_succ (count : Nat) :
    loop.groups (count + 1) = loop.groups count + if loop.bulk count = 0 then 0 else 1 := by
  unfold groups
  rw [List.range_succ, List.countP_append, List.countP_singleton]
  by_cases none : loop.bulk count = 0 <;> simp [none]

/-- Where any chunk has a group, the groups before the last chunk are numbered like the chunks. -/
theorem groups_eq (filled : loop.Filled) (some : loop.bulk iter ≠ 0) (inside : count < loop.chunks) :
    loop.groups count = count := by
  induction count with
  | zero => rfl
  | succ count ih =>
    rcases filled.bulk_pos with none | all
    · exact absurd (none iter) some
    · rw [groups_succ, ih (by omega), if_neg (all count inside)]

namespace Ring

variable (ring : Ring loop depths progress fresh part state)

include ring

theorem getElem?_loads (issued : state.loads[index]? = some item) :
    index < progress.loaded ∧ item = loop.load depths index := by
  rw [ring.loads, List.getElem?_map] at issued
  obtain ⟨number, listed, rfl⟩ := Option.map_eq_some_iff.mp issued
  obtain ⟨inside, rfl⟩ := List.getElem?_eq_some_iff.mp listed
  exact ⟨by simpa using inside, by simp⟩

/-- A load in flight is recent: its slot has not come round again. -/
theorem flying (flies : index ∉ state.landed) :
    progress.waited ≤ index ∧ progress.loaded < index + depths.stageDepth := by
  have late : progress.waited ≤ index := by
    by_contra early
    exact flies (ring.landed index (by omega))
  have := ring.ahead
  have := loadFill_lt depths
  exact ⟨late, by omega⟩

theorem land (issued : state.loads[index]? = some item) (flies : index ∉ state.landed) :
    Ring loop depths progress fresh part (state.land index item) := by
  obtain ⟨inside, rfl⟩ := ring.getElem?_loads issued
  obtain ⟨late, recent⟩ := ring.flying flies
  have other : ∀ iter, iter < progress.loaded → progress.loaded ≤ iter + depths.stageDepth → iter ≠ index →
      iter % depths.stageDepth ≠ index % depths.stageDepth := by
    intro iter below near apart same
    exact apart (RingSlots.eq_of_slot same (by omega) (by omega))
  refine { ring with landed_lt := ?_, landed := ?_, barrier := ?_, filling := ?_, tile := ?_ }
  · intro iter member
    rcases Finset.mem_insert.mp member with rfl | old
    · exact inside
    · exact ring.landed_lt iter old
  · intro iter below
    exact Finset.mem_insert_of_mem (ring.landed iter below)
  · intro iter below near
    by_cases here : iter = index
    · subst here
      have before := ring.barrier iter below near
      rw [if_neg flies] at before
      simp [BulkState.land, ChunkLoop.load, before, Mbarrier.completeTx_all]
    · have apart := other iter below (by omega) here
      simp [BulkState.land, ChunkLoop.load, Function.update_of_ne apart, here, ring.barrier iter below near]
  · intro barrier found
    have apart := RingSlots.slot_ne inside recent
    simpa [BulkState.land, ChunkLoop.load, Function.update_of_ne apart] using ring.filling barrier found
  · intro iter below near member
    by_cases here : iter = index
    · subst here
      simp [BulkState.land, ChunkLoop.load, BulkLoad.tile, ChunkLoop.tile]
    · have apart := other iter below near here
      have old := (Finset.mem_insert.mp member).resolve_left here
      simpa [BulkState.land, ChunkLoop.load, Function.update_of_ne apart] using ring.tile iter below near old

theorem readSource (issued : state.stores[index]? = some store) (unread : index ∉ state.read) :
    Ring loop depths progress fresh part (state.readSource index store) := by
  have inside := (List.getElem?_eq_some_iff.mp issued).1
  refine { ring with read_lt := ?_, owned := ?_, written := ?_ }
  · intro other member
    rcases Finset.mem_insert.mp member with rfl | old
    · exact inside
    · exact ring.read_lt other old
  · intro other found issuedOther
    obtain ⟨iter, below, member, taken, drained⟩ := ring.owned other found issuedOther
    refine ⟨iter, below, member, ?_, fun early => Finset.mem_insert_of_mem (drained early)⟩
    intro reads
    by_cases here : other = index
    · subst here
      have same : found = store := Option.some.inj (issuedOther.symm.trans issued)
      subst same
      have pending : progress.drained ≤ iter := by
        by_contra early
        exact unread (drained (by omega))
      have := ring.room
      have := ring.waited_le
      have holds := ring.tile iter (by omega) (by omega) (ring.landed iter below)
      simpa [BulkState.readSource, slot_of_mem_stores member] using holds
    · have old := (Finset.mem_insert.mp reads).resolve_left here
      simpa [BulkState.readSource, Function.update_of_ne here] using taken old
  · exact ring.written.trans (Finset.subset_insert index state.read)

/-- Every move of the hardware keeps the ring. -/
theorem engine (moved : Engine state after) : Ring loop depths progress fresh part after := by
  cases moved with
  | land issued flies => exact ring.land issued flies
  | read issued unread => exact ring.readSource issued unread
  | write read _ => exact { ring with written := Finset.insert_subset read ring.written }
  | raise flag => exact { ring with }

section Instructions

/-- The slot of the next chunk is free of loads, so its barrier can be initialised. -/
theorem initBarrier (idle : fresh = none) :
    Ring loop depths progress (some (.init 1)) part
      { state with
        barriers := Function.update state.barriers (progress.loaded % depths.stageDepth) (.init 1) } := by
  subst idle
  refine { ring with barrier := ?_, filling := ?_ }
  · intro iter below near
    have recent : progress.loaded < iter + depths.stageDepth := by
      rcases near with recent | ⟨_, absent⟩
      · exact recent
      · cases absent
    have apart := (RingSlots.slot_ne below recent).symm
    simpa [Function.update_of_ne apart] using ring.barrier iter below (.inl recent)
  · intro barrier found
    cases found
    simp [Mbarrier.init]

theorem expectBytes (initialised : fresh = some (.init 1)) (filled : loop.Filled)
    (more : progress.loaded < loop.chunks) :
    Ring loop depths progress (some ⟨1, 0, 0, (loop.chunk progress.loaded).bytes⟩) part
      { state with
        barriers := Function.update state.barriers (progress.loaded % depths.stageDepth)
          ((state.barriers (progress.loaded % depths.stageDepth)).arriveExpectTx
            (loop.chunk progress.loaded).bytes) } := by
  subst initialised
  refine { ring with barrier := ?_, filling := ?_ }
  · intro iter below near
    have recent : progress.loaded < iter + depths.stageDepth := by
      rcases near with recent | ⟨_, absent⟩
      · exact recent
      · cases absent
    have apart := (RingSlots.slot_ne below recent).symm
    simpa [Function.update_of_ne apart] using ring.barrier iter below (.inl recent)
  · intro barrier found
    cases found
    simp [(ring.filling _ rfl).1, Mbarrier.arriveExpectTx_init (filled.bytes_pos _ more)]

theorem loadAsync (expecting : fresh = some ⟨1, 0, 0, (loop.chunk progress.loaded).bytes⟩)
    (more : progress.loaded < loop.chunks) (ahead : progress.loaded < progress.waited + depths.loadFillDepth)
    (room : progress.loaded < progress.drained + depths.stageDepth) :
    Ring loop depths { progress with loaded := progress.loaded + 1 } none part
      { state with loads := state.loads ++ [loop.load depths progress.loaded] } := by
  subst expecting
  have absent : progress.loaded ∉ state.landed := fun member =>
    Nat.lt_irrefl _ (ring.landed_lt _ member)
  refine
    { ring with
      loaded_le := more
      waited_le := Nat.le_succ_of_le ring.waited_le
      ahead := ahead
      room := room
      loads := ?_
      landed_lt := fun iter member => Nat.lt_succ_of_lt (ring.landed_lt iter member)
      barrier := ?_
      filling := nofun
      tile := ?_ }
  · simp [ring.loads, List.range_succ]
  · intro iter below near
    simp only at below near
    rcases Nat.lt_succ_iff_lt_or_eq.mp below with old | rfl
    · exact ring.barrier iter old (.inl (by omega))
    · rw [if_neg absent]
      exact (ring.filling _ rfl).1
  · intro iter below near member
    simp only at below near
    rcases Nat.lt_succ_iff_lt_or_eq.mp below with old | rfl
    · exact ring.tile iter old (by omega) member
    · exact absurd member absent

/-- The barrier of the next awaited chunk passes exactly when that chunk has landed. -/
theorem passed_iff (pending : progress.waited < progress.loaded) :
    (state.barriers (progress.waited % depths.stageDepth)).passed 0 = true ↔ progress.waited ∈ state.landed := by
  have := ring.ahead
  have := loadFill_lt depths
  rw [ring.barrier progress.waited pending (.inl (by omega))]
  split <;> simp_all [Mbarrier.passed]

theorem waitBarrier (pending : progress.waited < progress.loaded)
    (passed : (state.barriers (progress.waited % depths.stageDepth)).passed 0 = true) :
    Ring loop depths { progress with waited := progress.waited + 1 } fresh part state := by
  have here := (ring.passed_iff pending).mp passed
  refine
    { ring with
      waited_le := pending
      stored_le := Nat.le_succ_of_le ring.stored_le
      ahead := by have := ring.ahead; simp only; omega
      landed := ?_
      owned := ?_
      part_open := fun some => Nat.lt_succ_of_lt (ring.part_open some) }
  · intro iter below
    simp only at below
    rcases Nat.lt_succ_iff_lt_or_eq.mp below with old | rfl
    · exact ring.landed iter old
    · exact here
  · intro index store found
    obtain ⟨iter, below, rest⟩ := ring.owned index store found
    exact ⟨iter, Nat.lt_succ_of_lt below, rest⟩

/-- Waiting for all but `fillDepth - 1` groups drains all but the last `fillDepth - 1` stored chunks. -/
theorem waitGroupRead (filled : loop.Filled) (more : progress.stored < loop.chunks)
    (near : progress.loaded ≤ progress.stored + depths.loadFillDepth)
    (done : state.GroupsDone (depths.fillDepth - 1) state.read) :
    Ring loop depths { progress with drained := progress.stored + 1 - depths.fillDepth } fresh part state := by
  have := depths.within
  have := depths.fill_pos
  refine
    { ring with
      drained_le := by simp only; omega
      room := by simp only; omega
      owned := ?_ }
  intro index store found
  obtain ⟨iter, below, member, taken, _⟩ := ring.owned index store found
  refine ⟨iter, below, member, taken, ?_⟩
  intro early
  simp only at early
  obtain ⟨numbered, some⟩ := group_of_mem_stores member
  obtain ⟨inside, rfl⟩ := List.getElem?_eq_some_iff.mp found
  have := ring.waited_le
  have := ring.loaded_le
  apply done index inside
  rw [ring.commits, numbered, groups_eq filled some (by omega), groups_eq filled some more]
  omega

theorem storeAsync (observed : progress.stored < progress.waited)
    (next : part ++ [store] <+: loop.stores depths progress.stored) :
    Ring loop depths progress fresh (part ++ [store])
      { state with stores := state.stores ++ [store] } := by
  refine
    { ring with
      stores := ?_
      read_lt := ?_
      owned := ?_
      part_open := fun _ => observed
      part_begins := next }
  · rw [ring.stores, List.append_assoc]
  · intro index member
    have := ring.read_lt index member
    rw [List.length_append]
    omega
  · intro index item found
    rcases Nat.lt_or_ge index state.stores.length with old | new
    · rw [List.getElem?_append_left old] at found
      exact ring.owned index item found
    · rw [List.getElem?_append_right new] at found
      obtain ⟨last, rfl⟩ := List.getElem?_eq_some_iff.mp found
      have unread : index ∉ state.read := fun member =>
        Nat.not_lt_of_ge new (ring.read_lt index member)
      refine ⟨progress.stored, observed, ?_, fun reads => absurd reads unread, ?_⟩
      · exact next.subset (by simp)
      · intro early
        have := ring.drained_le
        omega

theorem commitGroup (observed : progress.stored < progress.waited)
    (complete : part = loop.stores depths progress.stored) (some : loop.bulk progress.stored ≠ 0) :
    Ring loop depths { progress with stored := progress.stored + 1 } fresh []
      { state with commits := state.commits + 1 } := by
  subst complete
  refine
    { ring with
      stored_le := observed
      drained_le := Nat.le_succ_of_le ring.drained_le
      stores := ?_
      commits := ?_
      part_open := nofun
      part_begins := List.nil_prefix }
  · simp [ring.stores, storesBefore, List.range_succ]
  · simp [ring.commits, groups_succ, some]

/-- A chunk without a bulk part is passed over. -/
theorem skipStore (observed : progress.stored < progress.waited) (complete : part = [])
    (none : loop.bulk progress.stored = 0) :
    Ring loop depths { progress with stored := progress.stored + 1 } fresh [] state := by
  subst complete
  refine
    { ring with
      stored_le := observed
      drained_le := Nat.le_succ_of_le ring.drained_le
      stores := ?_
      commits := ?_
      part_open := nofun
      part_begins := List.nil_prefix }
  · simp [ring.stores, storesBefore, List.range_succ, ChunkLoop.stores, none]
  · simp [ring.commits, groups_succ, none]

end Instructions

end Ring

end ChunkLoop

end Ooverlap.Pipeline
