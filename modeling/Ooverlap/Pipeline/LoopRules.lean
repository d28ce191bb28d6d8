import Ooverlap.Pipeline.StageRing

/-! Triples for the pieces of a chunk loop, and for the loop with its hooks. -/

namespace Ooverlap.Pipeline

open Thread

/-- Nothing is left for the hardware to do, up to the writes when these are held back. -/
structure Calm (writes : Bool) (state : BulkState) : Prop where
  landed : ∀ index, index < state.loads.length → index ∈ state.landed
  read : ∀ index, index < state.stores.length → index ∈ state.read
  written : if writes then ∀ index, index < state.stores.length → index ∈ state.written
    else state.written = ∅

theorem performs (effect : state.exec instr = some after) (calm : Calm writes after) :
    ∃ final, Runs bulkMachine [instr] state [] final ∧ Calm writes final :=
  ⟨after, .perform effect .refl, calm⟩

theorem Calm.land (calm : Calm writes state) (item : BulkLoad) :
    ∃ final, Runs bulkMachine [.loadAsync item.slot item.src item.bytes] state [] final ∧
      Calm writes final := by
  by_cases already : state.loads.length ∈ state.landed
  · refine performs rfl ⟨?_, calm.read, calm.written⟩
    intro index inside
    rw [List.length_append, List.length_singleton] at inside
    rcases Nat.lt_succ_iff_lt_or_eq.mp inside with old | rfl
    · exact calm.landed index old
    · exact already
  · have issued : (state.loads ++ [item])[state.loads.length]? = some item := by simp
    refine ⟨_, .perform rfl (.drift (.land issued already) .refl), ?_, calm.read, calm.written⟩
    intro index inside
    simp only [BulkState.land, List.length_append, List.length_singleton] at inside ⊢
    rcases Nat.lt_succ_iff_lt_or_eq.mp inside with old | rfl
    · exact Finset.mem_insert_of_mem (calm.landed index old)
    · exact Finset.mem_insert_self _ _

/-- A new store can read at once, and write at once unless writes are held back. -/
theorem Calm.store (calm : Calm writes state) (unread : state.stores.length ∉ state.read)
    (ordered : state.written ⊆ state.read) (op : BulkOp) (slot : Nat) (dst : Lowering.Pointer) (bytes : Nat) :
    ∃ final, Runs bulkMachine [.storeAsync op slot dst bytes] state [] final ∧ Calm writes final := by
  let item : BulkStore := ⟨op, slot, dst, bytes, state.commits⟩
  have issued : (state.stores ++ [item])[state.stores.length]? = some item := by simp
  have extend : ∀ done : Finset Nat, (∀ index, index < state.stores.length → index ∈ done) →
      ∀ index, index < (state.stores ++ [item]).length → index ∈ insert state.stores.length done := by
    intro done all index inside
    rw [List.length_append, List.length_singleton] at inside
    rcases Nat.lt_succ_iff_lt_or_eq.mp inside with old | rfl
    · exact Finset.mem_insert_of_mem (all index old)
    · exact Finset.mem_insert_self _ _
  cases writes with
  | false =>
    exact ⟨_, .perform rfl (.drift (.read issued unread) .refl), calm.landed, extend _ calm.read, calm.written⟩
  | true =>
    have unwritten : state.stores.length ∉ state.written := fun member => unread (ordered member)
    refine ⟨_, .perform rfl (.drift (.read issued unread) (.drift (.write ?_ unwritten) .refl)), calm.landed,
      extend _ calm.read, extend _ calm.written⟩
    exact Finset.mem_insert_self _ _

namespace ChunkLoop

variable (loop : ChunkLoop) (depths : Depths)

/-- No slot is overwritten under a store, no store runs ahead of its load, no barrier reaches a
second phase, and nothing is loaded or stored twice. -/
structure RingSafe (state : BulkState) : Prop where
  apart : ∀ index item, state.loads[index]? = some item → index ∉ state.landed →
    ∀ place store, state.stores[place]? = some store → place ∉ state.read → item.slot ≠ store.slot
  ownData : ∀ place store, state.stores[place]? = some store →
    ∃ iter, iter < loop.chunks ∧ store ∈ loop.stores depths iter ∧
      state.loads[iter]? = some (loop.load depths iter) ∧ iter ∈ state.landed ∧
      (place ∈ state.read → state.taken place = some (loop.tile iter))
  parity : ∀ index item, state.loads[index]? = some item →
    (state.barriers item.slot).phase ≤ 1 ∧
      (index ∉ state.landed → (state.barriers item.slot).passed 0 = false)
  loadedOnce : state.loads <+: (List.range loop.chunks).map (loop.load depths)
  storedOnce : state.stores <+: loop.storesBefore depths loop.chunks

/-- Every chunk is loaded, and its stores have read and written. -/
structure Transferred (state : BulkState) : Prop where
  loads : state.loads = (List.range loop.chunks).map (loop.load depths)
  landed : ∀ iter, iter < loop.chunks → iter ∈ state.landed
  stores : state.stores = loop.storesBefore depths loop.chunks
  read : ∀ place, place < state.stores.length → place ∈ state.read
  written : ∀ place, place < state.stores.length → place ∈ state.written

variable {loop depths} {progress : Progress} {fresh : Option Mbarrier} {part : List BulkStore}
  {state after : BulkState}

theorem storesBefore_le (short : count ≤ total) :
    loop.storesBefore depths count <+: loop.storesBefore depths total := by
  obtain ⟨more, rfl⟩ := Nat.exists_eq_add_of_le short
  unfold storesBefore
  rw [List.range_add, List.flatMap_append]
  exact List.prefix_append _ _

/-- The last chunk loaded into the slot of an earlier one. -/
theorem latest_in_slot (inside : iter < count) (positive : 0 < size) :
    ∃ last, iter ≤ last ∧ last < count ∧ count ≤ last + size ∧ last % size = iter % size := by
  refine ⟨iter + size * ((count - 1 - iter) / size), by omega, ?_, ?_, ?_⟩
  · have := Nat.mul_div_le (count - 1 - iter) size
    omega
  · have := Nat.lt_mul_div_succ (count - 1 - iter) positive
    rw [Nat.mul_add] at this
    omega
  · exact Nat.add_mul_mod_self_left iter size _

namespace Ring

variable (ring : Ring loop depths progress fresh part state)

include ring

theorem phase_le (inside : index < progress.loaded) :
    (state.barriers (index % depths.stageDepth)).phase ≤ 1 := by
  obtain ⟨last, _, below, near, same⟩ :=
    latest_in_slot inside (Nat.lt_of_le_of_lt (Nat.zero_le _) (loadFill_lt depths))
  rw [← same]
  cases filling : fresh with
  | none =>
    rw [ring.barrier last below (by simp [filling]; omega)]
    split <;> simp
  | some barrier =>
    rcases Nat.lt_or_ge progress.loaded (last + depths.stageDepth) with recent | reused
    · rw [ring.barrier last below (.inl recent)]
      split <;> simp
    · obtain ⟨here, start⟩ := ring.filling barrier filling
      have equal : progress.loaded = last + depths.stageDepth := by omega
      rw [equal, Nat.add_mod_right] at here
      rw [here, start]
      exact Nat.zero_le 1

theorem storesBefore_part : state.stores <+: loop.storesBefore depths loop.chunks := by
  have := ring.stored_le
  have := ring.waited_le
  have := ring.loaded_le
  rw [ring.stores]
  by_cases empty : part = []
  · subst empty
    rw [List.append_nil]
    exact storesBefore_le (by omega)
  · have short := ring.part_open empty
    have whole : loop.storesBefore depths (progress.stored + 1) =
        loop.storesBefore depths progress.stored ++ loop.stores depths progress.stored := by
      simp [storesBefore, List.range_succ]
    apply List.IsPrefix.trans _ (storesBefore_le (show progress.stored + 1 ≤ loop.chunks by omega))
    rw [whole]
    exact (List.prefix_append_right_inj _).mpr ring.part_begins

theorem safe : loop.RingSafe depths state where
  apart := by
    intro index item issued flies place store found unread same
    obtain ⟨inside, rfl⟩ := ring.getElem?_loads issued
    obtain ⟨late, _⟩ := ring.flying flies
    obtain ⟨iter, below, member, _, drained⟩ := ring.owned place store found
    have pending : progress.drained ≤ iter := by
      by_contra early
      exact unread (drained (by omega))
    rw [slot_of_mem_stores member] at same
    have := ring.room
    have := RingSlots.add_le_of_slot (show iter < index by omega) same
    omega
  ownData := by
    intro place store found
    obtain ⟨iter, below, member, taken, _⟩ := ring.owned place store found
    have := ring.waited_le
    have := ring.loaded_le
    refine ⟨iter, by omega, member, ?_, ring.landed iter below, taken⟩
    rw [ring.loads, List.getElem?_map, List.getElem?_range (by omega)]
    rfl
  parity := by
    intro index item issued
    obtain ⟨inside, rfl⟩ := ring.getElem?_loads issued
    refine ⟨ring.phase_le inside, fun flies => ?_⟩
    have barrier := ring.barrier index inside (.inl (ring.flying flies).2)
    rw [if_neg flies] at barrier
    simp [ChunkLoop.load, barrier, Mbarrier.passed]
  loadedOnce := by
    rw [ring.loads]
    obtain ⟨more, total⟩ := Nat.exists_eq_add_of_le ring.loaded_le
    rw [total, List.range_add, List.map_append]
    exact List.prefix_append _ _
  storedOnce := ring.storesBefore_part

end Ring

section Triples

variable {watch : BulkState → Prop} {writes : Bool} {extra extra' : List Nat → List Nat → Prop}

/-- The ring, with what the hooks keep about published and observed flags. -/
def Held (loop : ChunkLoop) (depths : Depths) (progress : Progress) (fresh : Option Mbarrier)
    (part : List BulkStore) (extra : List Nat → List Nat → Prop) (state : BulkState) : Prop :=
  Ring loop depths progress fresh part state ∧ extra state.published state.observed

def Watched (loop : ChunkLoop) (depths : Depths) (watch : BulkState → Prop) (state : BulkState) : Prop :=
  loop.RingSafe depths state ∧ watch state

/-- The flags kept imply what is watched as long as at most `count` chunks are loaded. -/
def Guards (watch : BulkState → Prop) (count : Nat) (extra : List Nat → List Nat → Prop) : Prop :=
  ∀ state : BulkState, state.loads.length ≤ count → extra state.published state.observed → watch state

theorem Guards.mono (guards : Guards watch many extra) (fewer : count ≤ many) : Guards watch count extra :=
  fun state short flags => guards state (Nat.le_trans short fewer) flags

/-- The triple of a piece of loop code. -/
abbrev LoopTriple (loop : ChunkLoop) (depths : Depths) (watch : BulkState → Prop) (writes : Bool)
    (pre : BulkState → Prop) (code : List BulkInstr) (post : BulkState → Prop) : Prop :=
  Triple bulkMachine (Watched loop depths watch) (Calm writes) pre code post

theorem engine_flags (moved : Engine state after) :
    after.published = state.published ∧ after.observed = state.observed := by
  cases moved <;> exact ⟨rfl, rfl⟩

theorem Held.engine (held : Held loop depths progress fresh part extra state) (moved : Engine state after) :
    Held loop depths progress fresh part extra after := by
  obtain ⟨samePublished, sameObserved⟩ := engine_flags moved
  refine ⟨held.1.engine moved, ?_⟩
  rw [samePublished, sameObserved]
  exact held.2

theorem Held.steady (guards : Guards watch progress.loaded extra) :
    Steady bulkMachine (Watched loop depths watch) (Held loop depths progress fresh part extra) where
  sound state held := by
    refine ⟨held.1.safe, guards state ?_ held.2⟩
    simp [held.1.loads]
  stable _ _ held moved := held.engine moved

theorem initBarrier_triple (guards : Guards watch progress.loaded extra) :
    LoopTriple loop depths watch writes (Held loop depths progress none part extra)
      [.initBarrier (progress.loaded % depths.stageDepth) 1]
      (Held loop depths progress (some (.init 1)) part extra) := by
  apply Triple.single (Held.steady guards) (Held.steady guards)
  · rintro state _ ⟨ring, flags⟩ ⟨⟩
    exact ⟨ring.initBarrier rfl, flags⟩
  · intro state held calm
    exact performs rfl ⟨calm.landed, calm.read, calm.written⟩

theorem expectBytes_triple (guards : Guards watch progress.loaded extra) (filled : loop.Filled)
    (more : progress.loaded < loop.chunks) :
    LoopTriple loop depths watch writes (Held loop depths progress (some (.init 1)) part extra)
      [.expectBytes (progress.loaded % depths.stageDepth) (loop.chunk progress.loaded).bytes]
      (Held loop depths progress (some ⟨1, 0, 0, (loop.chunk progress.loaded).bytes⟩) part extra) := by
  apply Triple.single (Held.steady guards) (Held.steady guards)
  · rintro state _ ⟨ring, flags⟩ ⟨⟩
    exact ⟨ring.expectBytes rfl filled more, flags⟩
  · intro state held calm
    exact performs rfl ⟨calm.landed, calm.read, calm.written⟩

theorem loadAsync_triple (guards : Guards watch (progress.loaded + 1) extra)
    (more : progress.loaded < loop.chunks) (ahead : progress.loaded < progress.waited + depths.loadFillDepth)
    (room : progress.loaded < progress.drained + depths.stageDepth) :
    LoopTriple loop depths watch writes
      (Held loop depths progress (some ⟨1, 0, 0, (loop.chunk progress.loaded).bytes⟩) part extra)
      [.loadAsync (progress.loaded % depths.stageDepth) (loop.chunk progress.loaded).src
        (loop.chunk progress.loaded).bytes]
      (Held loop depths { progress with loaded := progress.loaded + 1 } none part extra) := by
  apply Triple.single (Held.steady (guards.mono (Nat.le_succ _))) (Held.steady guards)
  · rintro state _ ⟨ring, flags⟩ ⟨⟩
    exact ⟨ring.loadAsync rfl more ahead room, flags⟩
  · intro state held calm
    exact calm.land (loop.load depths progress.loaded)

theorem issue_stage (iter slot : Nat) :
    PipelineTMALoad.issue (loop.stage iter slot) =
      [.initBarrier slot 1] ++ ([.expectBytes slot (loop.chunk iter).bytes] ++
        [.loadAsync slot (loop.chunk iter).src (loop.chunk iter).bytes]) := by
  unfold PipelineTMALoad.issue chunk
  rw [loop.stage_slot, loop.stage_chunk]
  rfl

/-- Issuing the load of the next chunk into its slot. -/
theorem issue_triple (guards : Guards watch (progress.loaded + 1) extra) (filled : loop.Filled)
    (more : progress.loaded < loop.chunks) (ahead : progress.loaded < progress.waited + depths.loadFillDepth)
    (room : progress.loaded < progress.drained + depths.stageDepth) :
    LoopTriple loop depths watch writes (Held loop depths progress none part extra)
      (PipelineTMALoad.issue (loop.stage progress.loaded (progress.loaded % depths.stageDepth)))
      (Held loop depths { progress with loaded := progress.loaded + 1 } none part extra) := by
  have fewer := guards.mono (Nat.le_succ progress.loaded)
  rw [issue_stage]
  apply (initBarrier_triple fewer).append
  apply (expectBytes_triple fewer filled more).append
  exact loadAsync_triple guards more ahead room

theorem waitReady_triple (guards : Guards watch progress.loaded extra)
    (pending : progress.waited < progress.loaded) :
    LoopTriple loop depths watch writes (Held loop depths progress none part extra)
      (PipelineTMALoad.waitReady (loop.stage progress.waited (progress.waited % depths.stageDepth)))
      (Held loop depths { progress with waited := progress.waited + 1 } none part extra) := by
  unfold PipelineTMALoad.waitReady
  rw [loop.stage_slot]
  refine Triple.single (Held.steady guards) ?_ ?_ ?_
  · exact Held.steady guards
  · rintro state next ⟨ring, flags⟩ effect
    simp only [bulkMachine, BulkState.exec, Option.ite_none_right_eq_some, Option.some.injEq] at effect
    obtain ⟨passed, rfl⟩ := effect
    exact ⟨ring.waitBarrier pending passed, flags⟩
  · rintro state ⟨ring, flags⟩ calm
    have here : progress.waited ∈ state.landed := by
      apply calm.landed
      simpa [ring.loads] using pending
    apply performs _ calm
    simp [BulkState.exec, (ring.passed_iff pending).mpr here]

theorem waitBeforeStageReuse_triple (guards : Guards watch progress.loaded extra) (filled : loop.Filled)
    (more : progress.stored < loop.chunks) (near : progress.loaded ≤ progress.stored + depths.loadFillDepth) :
    LoopTriple loop depths watch writes (Held loop depths progress none part extra)
      (waitBeforeStageReuse depths)
      (Held loop depths { progress with drained := progress.stored + 1 - depths.fillDepth } none part extra) := by
  refine Triple.single (Held.steady guards) ?_ ?_ ?_
  · exact Held.steady guards
  · rintro state next ⟨ring, flags⟩ effect
    simp only [bulkMachine, BulkState.exec, Option.ite_none_right_eq_some, Option.some.injEq] at effect
    obtain ⟨done, rfl⟩ := effect
    exact ⟨ring.waitGroupRead filled more near done, flags⟩
  · rintro state ⟨ring, flags⟩ calm
    have done : state.GroupsDone (depths.fillDepth - 1) state.read := fun index inside _ =>
      calm.read index inside
    apply performs _ calm
    simp [BulkState.exec, done]

theorem storeAsync_triple (guards : Guards watch progress.loaded extra) (store : BulkStore)
    (observed : progress.stored < progress.waited)
    (next : part ++ [store] <+: loop.stores depths progress.stored) :
    LoopTriple loop depths watch writes (Held loop depths progress none part extra)
      [.storeAsync store.op store.slot store.dst store.bytes]
      (Held loop depths progress none (part ++ [store]) extra) := by
  have member : store ∈ loop.stores depths progress.stored := next.subset (by simp)
  apply Triple.single (Held.steady guards) (Held.steady guards)
  · rintro state _ ⟨ring, flags⟩ ⟨⟩
    have same : (⟨store.op, store.slot, store.dst, store.bytes, state.commits⟩ : BulkStore) = store := by
      rw [ring.commits, ← (group_of_mem_stores member).1]
    rw [same]
    exact ⟨ring.storeAsync observed next, flags⟩
  · rintro state ⟨ring, flags⟩ calm
    have unread : state.stores.length ∉ state.read := fun member =>
      Nat.lt_irrefl _ (ring.read_lt _ member)
    exact calm.store unread ring.written _ _ _ _

/-- The stores of one chunk, one destination after the other. -/
theorem storeList_triple (guards : Guards watch progress.loaded extra)
    (observed : progress.stored < progress.waited) (rest : List BulkStore)
    (next : part ++ rest = loop.stores depths progress.stored) :
    LoopTriple loop depths watch writes (Held loop depths progress none part extra)
      (rest.map fun store => .storeAsync store.op store.slot store.dst store.bytes)
      (Held loop depths progress none (loop.stores depths progress.stored) extra) := by
  induction rest generalizing part with
  | nil =>
    rw [List.append_nil] at next
    subst next
    exact Triple.nil (Held.steady guards)
  | cons store rest ih =>
    have whole : part ++ [store] ++ rest = loop.stores depths progress.stored := by simpa using next
    rw [List.map_cons, ← List.singleton_append]
    exact (storeAsync_triple guards store observed ⟨rest, whole⟩).append (ih whole)

theorem commitGroup_triple (guards : Guards watch progress.loaded extra)
    (observed : progress.stored < progress.waited) (some : loop.bulk progress.stored ≠ 0) :
    LoopTriple loop depths watch writes
      (Held loop depths progress none (loop.stores depths progress.stored) extra) [.commitGroup]
      (Held loop depths { progress with stored := progress.stored + 1 } none [] extra) := by
  refine Triple.single (Held.steady guards) ?_ ?_ ?_
  · exact Held.steady guards
  · rintro state _ ⟨ring, flags⟩ ⟨⟩
    exact ⟨ring.commitGroup observed rfl some, flags⟩
  · intro state held calm
    exact performs rfl ⟨calm.landed, calm.read, calm.written⟩

theorem storeBulk_stage (depths : Depths) (iter slot : Nat) (inSlot : slot = iter % depths.stageDepth) :
    storeBulk loop.op (loop.stage iter slot) (loop.dsts iter (loop.stage iter slot)) =
      if loop.bulk iter = 0 then []
      else ((loop.stores depths iter).map fun store =>
        BulkInstr.storeAsync store.op store.slot store.dst store.bytes) ++ [.commitGroup] := by
  have bytes : pipelineStageBulkBytes (loop.stage iter slot) = loop.bulk iter := by
    unfold pipelineStageBulkBytes bulk chunk
    rw [loop.stage_chunk]
  unfold storeBulk stores
  rw [bytes, loop.dsts_slot, loop.stage_slot]
  split
  · rfl
  · simp [inSlot, Function.comp_def]

/-- Storing the next observed chunk, as one group unless it has no bulk part. -/
theorem storeBulk_triple (guards : Guards watch progress.loaded extra)
    (observed : progress.stored < progress.waited) :
    LoopTriple loop depths watch writes (Held loop depths progress none [] extra)
      (storeBulk loop.op (loop.stage progress.stored (progress.stored % depths.stageDepth))
        (loop.dsts progress.stored (loop.stage progress.stored (progress.stored % depths.stageDepth))))
      (Held loop depths { progress with stored := progress.stored + 1 } none [] extra) := by
  rw [storeBulk_stage depths _ _ rfl]
  split
  · rename_i empty
    apply (Triple.nil (Held.steady guards)).weaken (fun _ held => held)
    rintro state ⟨ring, flags⟩
    exact ⟨ring.skipStore observed rfl empty, flags⟩
  · rename_i some
    apply (storeList_triple guards observed _ (List.nil_append _)).append
    exact commitGroup_triple guards observed some

theorem awaitFlag_triple (guards : Guards watch progress.loaded extra)
    (later : Guards watch progress.loaded extra') (flag : Nat)
    (kept : ∀ published observed, extra published observed → extra' published (observed ++ [flag])) :
    LoopTriple loop depths watch writes (Held loop depths progress none part extra) [.awaitFlag flag]
      (Held loop depths progress none part extra') := by
  apply Triple.single (Held.steady guards) (Held.steady later)
  · rintro state next ⟨ring, flags⟩ effect
    simp only [bulkMachine, BulkState.exec, Option.ite_none_right_eq_some, Option.some.injEq] at effect
    obtain ⟨_, rfl⟩ := effect
    exact ⟨{ ring with }, kept _ _ flags⟩
  · rintro state held calm
    have raised : flag ∈ (state.raise flag).raised := Finset.mem_insert_self _ _
    refine ⟨_, .drift (.raise flag) (.perform (if_pos raised) .refl), ?_⟩
    exact ⟨calm.landed, calm.read, calm.written⟩

theorem publish_triple (guards : Guards watch progress.loaded extra)
    (later : Guards watch progress.loaded extra') (flag : Nat)
    (kept : ∀ published observed, extra published observed → extra' (published ++ [flag]) observed) :
    LoopTriple loop depths watch writes (Held loop depths progress none part extra) [.publish flag]
      (Held loop depths progress none part extra') := by
  apply Triple.single (Held.steady guards) (Held.steady later)
  · rintro state _ ⟨ring, flags⟩ ⟨⟩
    exact ⟨{ ring with }, kept _ _ flags⟩
  · intro state held calm
    exact performs rfl ⟨calm.landed, calm.read, calm.written⟩

end Triples

section Loops

variable {Local : Type} {watch : BulkState → Prop} {writes : Bool} {hooks : LoopHooks Local}
  {extra ready : Nat → Local → List Nat → List Nat → Prop}

/-- Rules of code with thread-local variables, for the loop pieces. -/
abbrev LoopHolds (loop : ChunkLoop) (depths : Depths) (watch : BulkState → Prop) (writes : Bool)
    (pre : Local → BulkState → Prop) (code : Emit Local BulkInstr) (post : Local → BulkState → Prop) : Prop :=
  Emit.Holds bulkMachine (Watched loop depths watch) (Calm writes) pre code post

/-- `extra count` is what the hooks keep once `count` chunks are loaded, `ready count` what they keep
when the next one may be loaded. -/
structure HookRules (loop : ChunkLoop) (depths : Depths) (watch : BulkState → Prop) (writes : Bool)
    (hooks : LoopHooks Local) (extra ready : Nat → Local → List Nat → List Nat → Prop) : Prop where
  guards : ∀ count vars, Guards watch count (extra count vars)
  readyGuards : ∀ count vars, Guards watch count (ready count vars)
  beforeLoad : ∀ progress, progress.loaded < loop.chunks →
    LoopHolds loop depths watch writes
      (fun vars => Held loop depths progress none [] (extra progress.loaded vars))
      (hooks.beforeLoad progress.loaded)
      (fun vars => Held loop depths progress none [] (ready progress.loaded vars))
  afterReuseWait : ∀ progress iter, progress.loaded = iter + depths.loadFillDepth →
    progress.loaded < loop.chunks → depths.stageDepth ≤ progress.loaded →
    LoopHolds loop depths watch writes
      (fun vars => Held loop depths progress none [] (ready progress.loaded vars))
      (hooks.afterReuseWait iter)
      (fun vars => Held loop depths progress none [] (extra (progress.loaded + 1) vars))
  noReuse : ∀ count vars published observed, count < loop.chunks → count < depths.stageDepth →
    ready count vars published observed → extra (count + 1) vars published observed

/-- Chunks drained from their slots once `loaded` chunks are loaded. -/
def drainedAt (depths : Depths) (loaded : Nat) : Nat :=
  if depths.stageDepth < loaded then loaded - depths.loadFillDepth - depths.fillDepth else 0

def warmProgress (warm : Nat) : Progress where
  loaded := warm
  waited := 0
  stored := 0
  drained := 0

def WarmHeld (loop : ChunkLoop) (depths : Depths) (extra : Nat → Local → List Nat → List Nat → Prop)
    (warm : Nat) (vars : Local) : BulkState → Prop :=
  Held loop depths (warmProgress warm) none [] (extra warm vars)

/-- Where the loops stand at the start of an iteration. -/
def iterProgress (loop : ChunkLoop) (depths : Depths) (iter : Nat) : Progress where
  loaded := min (iter + depths.loadFillDepth) loop.chunks
  waited := iter
  stored := iter
  drained := drainedAt depths (min (iter + depths.loadFillDepth) loop.chunks)

def IterHeld (loop : ChunkLoop) (depths : Depths) (extra : Nat → Local → List Nat → List Nat → Prop)
    (iter : Nat) (vars : Local) : BulkState → Prop :=
  Held loop depths (iterProgress loop depths iter) none [] (extra (iterProgress loop depths iter).loaded vars)

theorem warmLoad_holds (rules : HookRules loop depths watch writes hooks extra ready) (filled : loop.Filled)
    (warm : Nat) (more : warm < loop.chunks) (within : warm < depths.loadFillDepth) :
    LoopHolds loop depths watch writes (WarmHeld loop depths extra warm) (loop.warmLoad hooks warm)
      (WarmHeld loop depths extra (warm + 1)) := by
  have := loadFill_lt depths
  have slot : warm % depths.stageDepth = warm := Nat.mod_eq_of_lt (by omega)
  have gated : LoopHolds loop depths watch writes (WarmHeld loop depths extra warm) (hooks.beforeLoad warm)
      (fun vars => Held loop depths (warmProgress warm) none [] (extra (warm + 1) vars)) :=
    (rules.beforeLoad (warmProgress warm) more).weaken (fun _ _ held => held)
      fun vars _ held => ⟨held.1, rules.noReuse warm vars _ _ more (by omega) held.2⟩
  apply Emit.Holds.append gated
  apply Emit.Holds.emit
  intro vars
  have issued : LoopTriple loop depths watch writes
      (Held loop depths (warmProgress warm) none [] (extra (warm + 1) vars))
      (PipelineTMALoad.issue (loop.stage warm (warm % depths.stageDepth)))
      (Held loop depths (warmProgress (warm + 1)) none [] (extra (warm + 1) vars)) :=
    issue_triple (rules.guards (warm + 1) vars) filled more (by simp only [warmProgress]; omega)
      (by simp only [warmProgress]; omega)
  rwa [slot] at issued

/-- In an iteration, between the wait for its chunk and its stores. -/
def aheadProgress (depths : Depths) (iter loaded : Nat) : Progress where
  loaded := loaded
  waited := iter + 1
  stored := iter
  drained := drainedAt depths loaded

/-- The slot of a chunk that is loaded ahead is waited for once every slot has been used. -/
theorem reuseWait_holds (rules : HookRules loop depths watch writes hooks extra ready) (filled : loop.Filled)
    (iter future : Nat) (here : future = iter + depths.loadFillDepth) (more : future < loop.chunks) :
    LoopHolds loop depths watch writes
      (fun vars => Held loop depths (aheadProgress depths iter future) none [] (ready future vars))
      (if depths.stageDepth ≤ future then
        Emit.emit (waitBeforeStageReuse depths) ++ hooks.afterReuseWait iter
      else Emit.skip)
      (fun vars => Held loop depths
        { aheadProgress depths iter future with drained := drainedAt depths (future + 1) } none []
        (extra (future + 1) vars)) := by
  split
  · rename_i reused
    have drains : drainedAt depths (future + 1) = iter + 1 - depths.fillDepth := by
      unfold drainedAt
      rw [if_pos (by omega)]
      omega
    rw [drains]
    apply Emit.Holds.append
    · apply Emit.Holds.emit
      intro vars
      exact waitBeforeStageReuse_triple (rules.readyGuards future vars) filled (by simp only [aheadProgress]; omega)
        (by simp only [aheadProgress]; omega)
    · exact rules.afterReuseWait
        { aheadProgress depths iter future with drained := iter + 1 - depths.fillDepth } iter here more reused
  · rename_i first
    have drains : drainedAt depths (future + 1) = drainedAt depths future := by
      unfold drainedAt
      rw [if_neg (by omega), if_neg (by omega)]
    rw [drains]
    exact (Emit.Holds.skip fun vars => Held.steady (rules.readyGuards future vars)).weaken
      (fun _ _ held => held) fun vars state held =>
        ⟨held.1, rules.noReuse future vars _ _ more (by omega) held.2⟩

theorem loadAhead_holds (rules : HookRules loop depths watch writes hooks extra ready) (filled : loop.Filled)
    (iter : Nat) :
    LoopHolds loop depths watch writes
      (fun vars => Held loop depths { iterProgress loop depths iter with waited := iter + 1 } none []
        (extra (iterProgress loop depths iter).loaded vars))
      (loop.loadAhead depths hooks iter)
      (fun vars => Held loop depths { iterProgress loop depths (iter + 1) with stored := iter } none []
        (extra (iterProgress loop depths (iter + 1)).loaded vars)) := by
  have loaded : (iterProgress loop depths (iter + 1)).loaded = min (iter + 1 + depths.loadFillDepth) loop.chunks := rfl
  unfold loadAhead iterProgress
  dsimp only
  split
  · rename_i more
    rw [Nat.min_eq_left (show iter + depths.loadFillDepth ≤ loop.chunks by omega),
      Nat.min_eq_left (show iter + 1 + depths.loadFillDepth ≤ loop.chunks by omega),
      show iter + 1 + depths.loadFillDepth = iter + depths.loadFillDepth + 1 by omega]
    apply Emit.Holds.append
    · apply Emit.Holds.append
      · exact rules.beforeLoad (aheadProgress depths iter (iter + depths.loadFillDepth)) more
      · exact reuseWait_holds rules filled iter _ rfl more
    · apply Emit.Holds.emit
      intro vars
      have := depths.within
      have := depths.fill_pos
      have room : iter + depths.loadFillDepth <
          drainedAt depths (iter + depths.loadFillDepth + 1) + depths.stageDepth := by
        unfold drainedAt
        split <;> omega
      exact issue_triple (rules.guards _ vars) filled more (by simp only [aheadProgress]; omega) room
  · rename_i last
    rw [Nat.min_eq_right (show loop.chunks ≤ iter + depths.loadFillDepth by omega),
      Nat.min_eq_right (show loop.chunks ≤ iter + 1 + depths.loadFillDepth by omega)]
    exact Emit.Holds.skip fun vars => Held.steady (rules.guards _ vars)

theorem iteration_holds (rules : HookRules loop depths watch writes hooks extra ready) (filled : loop.Filled)
    (iter : Nat) (inside : iter < loop.chunks) :
    LoopHolds loop depths watch writes (IterHeld loop depths extra iter) (loop.iteration depths hooks iter)
      (IterHeld loop depths extra (iter + 1)) := by
  have := depths.loadFill_pos
  have pending : iter < (iterProgress loop depths iter).loaded := by
    unfold iterProgress
    simp only
    omega
  unfold iteration
  apply Emit.Holds.append
  · apply Emit.Holds.append
    · apply Emit.Holds.emit
      intro vars
      exact waitReady_triple (rules.guards _ vars) pending
    · exact loadAhead_holds rules filled iter
  · apply Emit.Holds.emit
    intro vars
    exact storeBulk_triple (rules.guards _ vars) (Nat.lt_succ_self iter)

theorem iterHeld_chunks (loop : ChunkLoop) (depths : Depths) (vars : Local) (state : BulkState) :
    IterHeld loop depths extra loop.chunks vars state ↔
      Held loop depths (iterProgress loop depths loop.chunks) none [] (extra loop.chunks vars) state := by
  have whole : (iterProgress loop depths loop.chunks).loaded = loop.chunks := by
    unfold iterProgress
    simp only
    omega
  unfold IterHeld
  rw [whole]

theorem warmHeld_iterHeld (loop : ChunkLoop) (depths : Depths) :
    WarmHeld loop depths extra (min depths.loadFillDepth loop.chunks) = IterHeld loop depths extra 0 := by
  have := loadFill_lt depths
  have none : drainedAt depths (min depths.loadFillDepth loop.chunks) = 0 := by
    unfold drainedAt
    rw [if_neg (by omega)]
  funext vars
  unfold WarmHeld IterHeld
  simp only [warmProgress, iterProgress, Nat.zero_add, none]

/-- From nothing loaded to every chunk stored. -/
theorem body_holds (rules : HookRules loop depths watch writes hooks extra ready) (filled : loop.Filled) :
    LoopHolds loop depths watch writes (WarmHeld loop depths extra 0) (loop.body depths hooks)
      (IterHeld loop depths extra loop.chunks) := by
  have warm : LoopHolds loop depths watch writes (WarmHeld loop depths extra 0)
      (Emit.loop (loop.warmLoad hooks) (min depths.loadFillDepth loop.chunks) 0)
      (WarmHeld loop depths extra (0 + min depths.loadFillDepth loop.chunks)) := by
    apply Emit.Holds.loop
    · intro vars
      exact Held.steady (rules.guards _ vars)
    · intro index _ below
      exact warmLoad_holds rules filled index (by omega) (by omega)
  have turns : LoopHolds loop depths watch writes (IterHeld loop depths extra 0)
      (Emit.loop (loop.iteration depths hooks) loop.chunks 0)
      (IterHeld loop depths extra (0 + loop.chunks)) := by
    apply Emit.Holds.loop
    · intro vars
      exact Held.steady (rules.guards _ vars)
    · intro index _ below
      exact iteration_holds rules filled index (by omega)
  rw [Nat.zero_add, warmHeld_iterHeld] at warm
  rw [Nat.zero_add] at turns
  exact warm.append turns

end Loops

end ChunkLoop

end Ooverlap.Pipeline
