import Ooverlap.Pipeline.RingSafety

/-! Loads gated by the ready flags of their windows. -/

namespace Ooverlap.Pipeline

open Lowering (Pointer)
open Thread

section Erasure

/-- Everything but the waits for ready flags. -/
def movesData : BulkInstr → Bool
  | .awaitFlag _ => false
  | _ => true

variable {Local : Type} (loop : ChunkLoop) (depths : Depths)

/-- Hooks that only wait for flags. -/
structure OnlyWaits (hooks : LoopHooks Local) : Prop where
  beforeLoad : ∀ iter, Emit.Erases movesData (hooks.beforeLoad iter) Emit.skip
  afterReuseWait : ∀ iter, Emit.Erases movesData (hooks.afterReuseWait iter) Emit.skip

theorem issue_movesData (stage : PipelineStage) :
    ∀ instr ∈ PipelineTMALoad.issue stage, movesData instr = true := by
  simp [PipelineTMALoad.issue, movesData]

theorem storeBulk_movesData (op : BulkOp) (stage : PipelineStage) (dsts : List Pointer) :
    ∀ instr ∈ storeBulk op stage dsts, movesData instr = true := by
  intro instr member
  unfold storeBulk at member
  split at member
  · cases member
  · rcases List.mem_append.mp member with store | commit
    · obtain ⟨dst, _, rfl⟩ := List.mem_map.mp store
      rfl
    · rw [List.mem_singleton.mp commit]
      rfl

variable {hooks : LoopHooks Local} (waits : OnlyWaits hooks)

include waits

theorem warmLoad_erases (warm : Nat) :
    Emit.Erases movesData (loop.warmLoad hooks warm) (loop.warmLoad .none warm) :=
  (waits.beforeLoad warm).append (.emit (issue_movesData _))

theorem loadAhead_erases (iter : Nat) :
    Emit.Erases movesData (loop.loadAhead depths hooks iter) (loop.loadAhead depths .none iter) := by
  unfold ChunkLoop.loadAhead
  dsimp only
  split
  · apply Emit.Erases.append
    · apply Emit.Erases.append (waits.beforeLoad _)
      split
      · exact Emit.Erases.append (.emit (by simp [waitBeforeStageReuse, movesData])) (waits.afterReuseWait iter)
      · exact Emit.Erases.emit nofun
    · exact Emit.Erases.emit (issue_movesData _)
  · exact Emit.Erases.emit nofun

/-- Without the waits the code is that of the loop without hooks. -/
theorem body_erases : Emit.Erases movesData (loop.body depths hooks) (loop.body depths .none) := by
  unfold ChunkLoop.body
  apply Emit.Erases.append
  · exact Emit.Erases.loop (warmLoad_erases loop waits) _ _
  · apply Emit.Erases.loop
    intro iter
    apply Emit.Erases.append
    · apply Emit.Erases.append
      · exact Emit.Erases.emit (by simp [PipelineTMALoad.waitReady, movesData])
      · exact loadAhead_erases loop depths waits iter
    · exact Emit.Erases.emit (storeBulk_movesData _ _ _)

end Erasure

section Gate

variable (flags : Pointer) (base beginChunk windowChunks : Int)

/-- Every load issued came after its window's flag was seen set, and no flag was waited for twice. -/
structure Gated (state : BulkState) : Prop where
  observedFirst : ∀ iter, iter < state.loads.length → ∀ flag,
    windowFlag flags base ((beginChunk + iter) / windowChunks) = some flag → flag ∈ state.observed
  waitedOnce : state.observed.Nodup

/-- What is known once `count` chunks have been let through: the flags seen belong to windows up to
the last one waited for, which is the window of the last chunk. -/
structure Waited (count : Nat) (lastWaitedWindow : Int) (published observed : List Nat) : Prop where
  none : published = []
  seen : ∀ iter, iter < count → ∀ flag,
    windowFlag flags base ((beginChunk + iter) / windowChunks) = some flag → flag ∈ observed
  once : observed.Nodup
  upTo : ∀ flag ∈ observed, ∃ window, window ≤ lastWaitedWindow ∧ windowFlag flags base window = some flag
  last : lastWaitedWindow = if count = 0 then -1 else (beginChunk + (count - 1 : Nat)) / windowChunks

variable {flags base beginChunk windowChunks}

theorem readyHooks_onlyWaits : OnlyWaits (readyHooks beginChunk windowChunks flags base) where
  beforeLoad iter := by
    intro last
    simp only [readyHooks]
    split
    · unfold waitWindowSignalForWindow
      cases windowFlag flags base ((beginChunk + iter) / windowChunks) <;> rfl
    · rfl
  afterReuseWait _ _ := rfl

section Chunk

variable {count : Nat} {last : Int} {published observed : List Nat}
  (waited : Waited flags base beginChunk windowChunks count last published observed)
  (nonneg : 0 ≤ beginChunk) (positive : 0 < windowChunks)

include waited nonneg positive

/-- Windows only go up, from below the first one. -/
theorem Waited.last_le : last ≤ (beginChunk + count) / windowChunks := by
  rw [waited.last]
  split
  · have := Int.ediv_nonneg (show 0 ≤ beginChunk + count by omega) (Int.le_of_lt positive)
    omega
  · exact Int.ediv_le_ediv positive (by omega)

/-- The next chunk is in the window waited for last. -/
theorem Waited.sameWindow (same : (beginChunk + count) / windowChunks = last) :
    Waited flags base beginChunk windowChunks (count + 1) last published observed where
  none := waited.none
  seen := by
    intro iter below flag found
    rcases Nat.lt_succ_iff_lt_or_eq.mp below with old | rfl
    · exact waited.seen iter old flag found
    · have nonzero : iter ≠ 0 := by
        rintro rfl
        have low := waited.last
        rw [if_pos rfl] at low
        have := Int.ediv_nonneg (show 0 ≤ beginChunk + (0 : Nat) by omega) (Int.le_of_lt positive)
        omega
      have previous := waited.last
      rw [if_neg nonzero, ← same] at previous
      exact waited.seen (iter - 1) (by omega) flag (previous ▸ found)
  once := waited.once
  upTo := waited.upTo
  last := by rw [if_neg (Nat.succ_ne_zero _), Nat.add_sub_cancel, same]

/-- The next chunk opens a window, whose flag, if it has one, is new. -/
theorem Waited.nextWindow (other : (beginChunk + count) / windowChunks ≠ last) (more : List Nat)
    (shape : more = (windowFlag flags base ((beginChunk + count) / windowChunks)).toList) :
    Waited flags base beginChunk windowChunks (count + 1) ((beginChunk + count) / windowChunks) published
      (observed ++ more) where
  none := waited.none
  seen := by
    intro iter below flag found
    rcases Nat.lt_succ_iff_lt_or_eq.mp below with old | rfl
    · exact List.mem_append_left _ (waited.seen iter old flag found)
    · apply List.mem_append_right
      rw [shape, found]
      exact List.mem_singleton_self flag
  once := by
    have above := waited.last_le nonneg positive
    apply waited.once.append
    · rw [shape]
      cases windowFlag flags base ((beginChunk + count) / windowChunks) <;> simp
    · intro flag old new
      obtain ⟨window, upTo, found⟩ := waited.upTo flag old
      rw [shape, Option.mem_toList] at new
      have same := windowFlag_inj found new
      omega
  upTo := by
    have above := waited.last_le nonneg positive
    intro flag member
    rcases List.mem_append.mp member with old | new
    · obtain ⟨window, upTo, found⟩ := waited.upTo flag old
      exact ⟨window, upTo.trans above, found⟩
    · rw [shape, Option.mem_toList] at new
      exact ⟨_, Int.le_refl _, new⟩
  last := by rw [if_neg (Nat.succ_ne_zero _), Nat.add_sub_cancel]

end Chunk

theorem waited_guards (count : Nat) (last : Int) :
    ChunkLoop.Guards (Gated flags base beginChunk windowChunks) count
      (Waited flags base beginChunk windowChunks count last) := by
  intro state short waited
  exact ⟨fun iter below => waited.seen iter (by omega), waited.once⟩

theorem waited_idle : Waited flags base beginChunk windowChunks 0 (-1) [] [] where
  none := rfl
  seen := nofun
  once := List.nodup_nil
  upTo := nofun
  last := rfl

theorem readyHooks_rules (loop : ChunkLoop) (depths : Depths) (writes : Bool) (nonneg : 0 ≤ beginChunk)
    (positive : 0 < windowChunks) :
    ChunkLoop.HookRules loop depths (Gated flags base beginChunk windowChunks) writes
      (readyHooks beginChunk windowChunks flags base)
      (Waited flags base beginChunk windowChunks)
      (fun count => Waited flags base beginChunk windowChunks (count + 1)) where
  guards := waited_guards
  readyGuards count last := (waited_guards _ _).mono (Nat.le_succ count)
  noReuse _ _ _ _ _ _ waited := waited
  beforeLoad progress more := by
    intro last
    have before : ChunkLoop.Guards (Gated flags base beginChunk windowChunks) progress.loaded
        (Waited flags base beginChunk windowChunks progress.loaded last) := waited_guards _ _
    simp only [readyHooks]
    split
    · rename_i other
      unfold waitWindowSignalForWindow
      cases found : windowFlag flags base ((beginChunk + progress.loaded) / windowChunks) with
      | none =>
        apply (Triple.nil (ChunkLoop.Held.steady before)).weaken (fun _ held => held)
        rintro state ⟨ring, waited⟩
        refine ⟨ring, ?_⟩
        have next := waited.nextWindow nonneg positive other [] (by rw [found]; rfl)
        rwa [List.append_nil] at next
      | some flag =>
        apply ChunkLoop.awaitFlag_triple before
        · exact (waited_guards _ _).mono (Nat.le_succ _)
        · intro published observed waited
          exact waited.nextWindow nonneg positive other [flag] (by rw [found]; rfl)
    · rename_i same
      apply (Triple.nil (ChunkLoop.Held.steady before)).weaken (fun _ held => held)
      rintro state ⟨ring, waited⟩
      exact ⟨ring, waited.sameWindow nonneg positive (not_not.mp same)⟩
  afterReuseWait progress iter _ _ _ := Emit.Holds.skip fun last =>
    ChunkLoop.Held.steady ((waited_guards _ last).mono (Nat.le_succ _))

/-- A flag is seen set only after a producer has raised it. -/
theorem observed_raised (run : Runs bulkMachine code start rest state)
    (here : ∀ flag ∈ start.observed, flag ∈ start.raised) : ∀ flag ∈ state.observed, flag ∈ state.raised := by
  induction run with
  | refl => exact here
  | @perform instr before after _ _ _ effect _ ih =>
    apply ih
    cases instr with
    | awaitFlag flag =>
      simp only [bulkMachine, BulkState.exec, Option.ite_none_right_eq_some, Option.some.injEq] at effect
      obtain ⟨raised, rfl⟩ := effect
      intro other member
      rcases List.mem_append.mp member with old | new
      · exact here other old
      · rwa [List.mem_singleton.mp new]
    | waitBarrier | waitGroupRead | waitGroup =>
      simp only [bulkMachine, BulkState.exec, Option.ite_none_right_eq_some, Option.some.injEq] at effect
      obtain ⟨_, rfl⟩ := effect
      exact here
    | initBarrier | expectBytes | loadAsync | storeAsync | commitGroup | publish =>
      cases effect
      exact here
  | drift moved _ ih =>
    apply ih
    cases moved with
    | land | read | write => exact here
    | raise flag => exact fun other member => Finset.mem_insert_of_mem (here other member)

end Gate

section WindowRange

variable (depths : Depths) {chunkBytes : Nat} (op : BulkOp) (srcBase dstBase : Pointer) (totalBytes : Nat)
  (beginWindow endWindow windowChunks : Int) (flags : Pointer) (base : Int)

/-- The early returns of the gated loop leave out no chunks. -/
theorem range_of_returns (early : beginWindow ≥ endWindow ∨ windowChunks ≤ 0 ∨ totalBytes = 0) :
    chunkRangeForWindowRange beginWindow endWindow (chunkCountForBytes chunkBytes totalBytes) windowChunks =
      {} := by
  unfold chunkRangeForWindowRange
  apply if_pos
  rcases early with before | none | rfl
  · exact .inl before
  · exact .inr (.inr none)
  · exact .inr (.inl (Int.le_refl 0))

/-- Without its waits, the gated loop is the ungated one on the same windows. -/
theorem runWindowRangeAfterReady_erased :
    (runWindowRangeAfterReady depths chunkBytes op srcBase dstBase totalBytes beginWindow endWindow windowChunks
      flags base).filter movesData =
    runWindowRange depths chunkBytes op srcBase dstBase totalBytes beginWindow endWindow windowChunks := by
  unfold runWindowRangeAfterReady runWindowRange runChunkRange
  dsimp only
  split
  · rename_i early
    rw [if_pos]
    · rfl
    · left
      rw [range_of_returns _ _ _ _ early]
  · rename_i proper
    split
    · rename_i empty
      rw [if_pos (.inl empty)]
      rfl
    · rename_i some
      rw [if_neg (by tauto), List.filter_append, body_erases _ depths readyHooks_onlyWaits]
      rfl

/-- What holds in every execution of gated code over chunks from `beginChunk` on. -/
def GatedRuns (loop : ChunkLoop) (beginChunk : Int) (code : List BulkInstr) : Prop :=
  ∀ barriers smem raised rest state, Runs bulkMachine code (idleState barriers smem raised) rest state →
    Gated flags base beginChunk windowChunks state ∧ (∀ flag ∈ state.observed, flag ∈ state.raised) ∧
      loop.RingSafe depths state ∧ (rest = [] → loop.Transferred depths state)

theorem nil_gatedRuns (loop : ChunkLoop) (beginChunk : Int) (empty : loop.chunks = 0) :
    GatedRuns depths windowChunks flags base loop beginChunk [] := by
  intro barriers smem raised rest state run
  have pipelined : loop.Pipelined depths [] := ChunkLoop.nil_pipelined empty
  obtain ⟨safe, ends⟩ := pipelined barriers smem raised rest state run
  have steady : Steady bulkMachine (fun _ => True) (fun state : BulkState => state.observed = []) :=
    ⟨fun _ _ => trivial, fun _ _ none moved => (ChunkLoop.engine_flags moved).2.trans none⟩
  obtain ⟨done, none⟩ := steady.runs_nil rfl run
  have loads : state.loads = [] := by
    rw [(ends done).loads, empty]
    rfl
  refine ⟨⟨?_, ?_⟩, observed_raised run nofun, safe, ends⟩
  · intro iter below
    rw [loads] at below
    cases below
  · rw [none]
    exact List.nodup_nil

theorem body_gatedRuns (loop : ChunkLoop) (filled : loop.Filled) (beginChunk : Int) (nonneg : 0 ≤ beginChunk)
    (positive : 0 < windowChunks) :
    GatedRuns depths windowChunks flags base loop beginChunk
      ((loop.body depths (readyHooks beginChunk windowChunks flags base) (-1)).1 ++ waitComplete) := by
  intro barriers smem raised rest state run
  have rules : ChunkLoop.HookRules loop depths (Gated flags base beginChunk windowChunks) true
      (readyHooks beginChunk windowChunks flags base) _ _ := readyHooks_rules loop depths true nonneg positive
  have whole := (ChunkLoop.body_holds rules filled (-1)).append
    ((ChunkLoop.waitComplete_triple (waited_guards _ _)).weaken
      (fun state held => (ChunkLoop.iterHeld_chunks loop depths _ state).mp held) fun _ complete => complete)
  have start := ChunkLoop.ring_idle loop depths barriers smem raised
  obtain ⟨⟨safe, gated⟩, ends⟩ := whole.always _ ⟨start, waited_idle⟩ rest state run
  exact ⟨gated, observed_raised run nofun, safe, fun empty => (ends empty).transferred⟩

/-- No chunk is loaded before its window's flag was seen set, no flag is waited for twice, and apart from
its waits the gated loop is the ungated loop on the same windows. -/
theorem runWindowRangeAfterReady_gated (positive : 0 < chunkBytes) :
    let chunks := chunkRangeForWindowRange beginWindow endWindow (chunkCountForBytes chunkBytes totalBytes)
      windowChunks
    let code := runWindowRangeAfterReady depths chunkBytes op srcBase dstBase totalBytes beginWindow endWindow
      windowChunks flags base
    code.filter movesData =
        runWindowRange depths chunkBytes op srcBase dstBase totalBytes beginWindow endWindow windowChunks ∧
      GatedRuns depths windowChunks flags base
        (chunkRangeLoop chunkBytes op srcBase dstBase totalBytes chunks.beginChunk chunks.endChunk)
        chunks.beginChunk code := by
  intro chunks code
  refine ⟨runWindowRangeAfterReady_erased depths op srcBase dstBase totalBytes beginWindow endWindow windowChunks
    flags base, ?_⟩
  have early : chunks.beginChunk ≥ chunks.endChunk → GatedRuns depths windowChunks flags base
      (chunkRangeLoop chunkBytes op srcBase dstBase totalBytes chunks.beginChunk chunks.endChunk)
      chunks.beginChunk [] := fun empty =>
    nil_gatedRuns depths windowChunks flags base _ _ (by simp only [chunkRangeLoop]; omega)
  unfold code runWindowRangeAfterReady
  dsimp only
  split
  · rename_i none
    apply early
    simp [chunks, range_of_returns _ _ _ _ none]
  · rename_i proper
    split
    · rename_i empty
      exact early empty
    · rename_i some
      let span := windowSpan chunkBytes totalBytes beginWindow endWindow windowChunks (Int.not_le.mp some)
      exact body_gatedRuns depths windowChunks flags base _ (span.filled positive _ rfl fun _ => rfl)
        chunks.beginChunk span.nonneg (by omega)

/-- Four windows of two chunks, each with a flag. -/
theorem runWindowRangeAfterReady_gated_four :
    GatedRuns kernelDepths 2 4096 0 (chunkRangeLoop 8192 .reduce 8192 131072 60000 0 8) 0
      (runWindowRangeAfterReady kernelDepths 8192 .reduce 8192 131072 60000 0 4 2 4096 0) :=
  (runWindowRangeAfterReady_gated kernelDepths .reduce 8192 131072 60000 0 4 2 4096 0 (by decide)).2

end WindowRange

end Ooverlap.Pipeline
