import Ooverlap.Pipeline.LoopRules

/-! Shared-memory slots, barriers and groups of the chunk loops, in every execution. -/

namespace Ooverlap.Pipeline

open Lowering (Pointer)
open Plan Thread Word

/-- Chunks of a transfer, as the window helpers hand them to the loops. -/
structure ChunkSpan (chunkBytes totalBytes : Nat) where
  beginChunk : Int
  endChunk : Int
  nonneg : 0 ≤ beginChunk
  inside : endChunk ≤ chunkCountForBytes chunkBytes totalBytes

theorem toInt32_le (value : Nat) : toInt32 value ≤ value := by
  unfold toInt32
  rw [Int.bmod_def]
  split <;> omega

theorem chunkCountForBytes_le (chunkBytes totalBytes : Nat) :
    chunkCountForBytes chunkBytes totalBytes ≤ ((totalBytes + chunkBytes - 1) / chunkBytes : Nat) := by
  unfold chunkCountForBytes ceilDivInt64ToInt
  split
  · exact Int.natCast_nonneg _
  · apply (toInt32_le _).trans
    have wrapped : toUInt64 (totalBytes + chunkBytes - 1) ≤ totalBytes + chunkBytes - 1 := Nat.mod_le _ _
    exact_mod_cast Nat.div_le_div_right wrapped

theorem windowBeginChunk_nonneg (window windowChunks : Int) : 0 ≤ windowBeginChunk window windowChunks := by
  unfold windowBeginChunk
  split
  · exact Int.le_refl 0
  · exact Int.mul_nonneg (by omega) (by omega)

/-- The chunks of a window range. -/
def windowSpan (chunkBytes totalBytes : Nat) (beginWindow endWindow windowChunks : Int)
    (some : (chunkRangeForWindowRange beginWindow endWindow (chunkCountForBytes chunkBytes totalBytes)
      windowChunks).beginChunk <
        (chunkRangeForWindowRange beginWindow endWindow (chunkCountForBytes chunkBytes totalBytes)
          windowChunks).endChunk) : ChunkSpan chunkBytes totalBytes where
  beginChunk := (chunkRangeForWindowRange beginWindow endWindow
    (chunkCountForBytes chunkBytes totalBytes) windowChunks).beginChunk
  endChunk := (chunkRangeForWindowRange beginWindow endWindow
    (chunkCountForBytes chunkBytes totalBytes) windowChunks).endChunk
  nonneg := by
    have low := windowBeginChunk_nonneg beginWindow windowChunks
    unfold chunkRangeForWindowRange at some ⊢
    split at some
    · exact absurd some (Int.lt_irrefl _)
    · rename_i proper
      rw [if_neg proper]
      dsimp only at some ⊢
      split at some <;> omega
  inside := by
    unfold chunkRangeForWindowRange at some ⊢
    split at some
    · exact absurd some (Int.lt_irrefl _)
    · rename_i proper
      rw [if_neg proper]
      exact Int.min_le_right _ _

/-- Every chunk of a span begins before the end of the transfer. -/
theorem ChunkSpan.offset_lt (span : ChunkSpan chunkBytes totalBytes) (positive : 0 < chunkBytes)
    (iter : Nat) (below : span.beginChunk + iter < span.endChunk) :
    chunkOffsetBytes chunkBytes (span.beginChunk + iter) < totalBytes := by
  have count := span.inside.trans (chunkCountForBytes_le chunkBytes totalBytes)
  have nonneg := span.nonneg
  have short : (span.beginChunk + iter).toNat + 1 ≤ (totalBytes + chunkBytes - 1) / chunkBytes := by omega
  have fits := (Nat.le_div_iff_mul_le positive).mp short
  unfold chunkOffsetBytes
  rw [Nat.add_mul, Nat.one_mul] at fits
  omega

theorem chunkSizeBytesAbs_le (chunkBytes : Nat) (chunk : Int) (totalBytes : Nat) :
    chunkSizeBytesAbs chunkBytes chunk totalBytes ≤ chunkBytes := by
  unfold chunkSizeBytesAbs
  split <;> omega

/-- A chunk before the last one of a span is whole. -/
theorem ChunkSpan.size_eq (span : ChunkSpan chunkBytes totalBytes) (positive : 0 < chunkBytes)
    (iter : Nat) (below : span.beginChunk + (iter + 1 : Nat) < span.endChunk) :
    chunkSizeBytesAbs chunkBytes (span.beginChunk + iter) totalBytes = chunkBytes := by
  have next := span.offset_lt positive (iter + 1) below
  have nonneg := span.nonneg
  have step : chunkOffsetBytes chunkBytes (span.beginChunk + (iter + 1 : Nat)) =
      chunkOffsetBytes chunkBytes (span.beginChunk + iter) + chunkBytes := by
    unfold chunkOffsetBytes
    rw [← Nat.succ_mul]
    congr 1
    omega
  unfold chunkSizeBytesAbs
  split <;> omega

/-- A loop over a span whose chunks have the sizes of the transfer. -/
theorem ChunkSpan.filled (span : ChunkSpan chunkBytes totalBytes) (positive : 0 < chunkBytes)
    (loop : ChunkLoop) (chunks : loop.chunks = (span.endChunk - span.beginChunk).toNat)
    (sizes : ∀ iter, (loop.chunk iter).bytes = chunkSizeBytesAbs chunkBytes (span.beginChunk + iter) totalBytes) :
    loop.Filled where
  bytes_pos iter below := by
    have start := span.offset_lt positive iter (by omega)
    rw [sizes]
    unfold chunkSizeBytesAbs
    split <;> omega
  bulk_pos := by
    rcases Nat.lt_or_ge chunkBytes 16 with small | large
    · left
      intro iter
      have := chunkSizeBytesAbs_le chunkBytes (span.beginChunk + iter) totalBytes
      unfold ChunkLoop.bulk
      rw [sizes]
      omega
    · right
      intro iter below
      unfold ChunkLoop.bulk
      rw [sizes, span.size_eq positive iter (by omega)]
      omega

namespace ChunkLoop

variable {loop : ChunkLoop} {depths : Depths} {watch : BulkState → Prop}
  {extra : List Nat → List Nat → Prop}

/-- The end of a loop: every chunk stored, every store written. -/
def Complete (loop : ChunkLoop) (depths : Depths) (extra : List Nat → List Nat → Prop) (state : BulkState) : Prop :=
  Held loop depths (iterProgress loop depths loop.chunks) none [] extra state ∧
    ∀ place, place < state.stores.length → place ∈ state.written

theorem groups_mono (short : count ≤ total) : loop.groups count ≤ loop.groups total := by
  unfold groups
  exact (List.range_sublist.mpr short).countP_le

theorem groups_lt (below : iter < count) (some : loop.bulk iter ≠ 0) : loop.groups iter < loop.groups count := by
  have next : loop.groups (iter + 1) ≤ loop.groups count := groups_mono below
  rw [groups_succ, if_neg some] at next
  omega

theorem engine_written (moved : Engine state after) (member : place ∈ state.written) :
    place ∈ after.written := by
  cases moved with
  | land | read | raise => exact member
  | write => exact Finset.mem_insert_of_mem member

theorem engine_stores (moved : Engine state after) : after.stores = state.stores := by
  cases moved <;> rfl

theorem held_steady_end (guards : Guards watch loop.chunks extra) :
    Steady bulkMachine (Watched loop depths watch)
      (Held loop depths (iterProgress loop depths loop.chunks) none [] extra) :=
  Held.steady (guards.mono (Nat.min_le_right _ _))

theorem Complete.steady (watched : ∀ state, Complete loop depths extra state → watch state) :
    Steady bulkMachine (Watched loop depths watch) (Complete loop depths extra) where
  sound state complete := ⟨complete.1.1.safe, watched state complete⟩
  stable state after complete moved := by
    refine ⟨complete.1.engine moved, ?_⟩
    intro place inside
    rw [engine_stores moved] at inside
    exact engine_written moved (complete.2 place inside)

/-- With every chunk stored, waiting for all groups waits for all writes. -/
theorem waitComplete_triple (guards : Guards watch loop.chunks extra) :
    LoopTriple loop depths watch true
      (Held loop depths (iterProgress loop depths loop.chunks) none [] extra) waitComplete
      (Complete loop depths extra) := by
  have watched : ∀ state, Complete loop depths extra state → watch state := fun state complete =>
    ((held_steady_end guards).sound state complete.1).2
  apply Triple.single (held_steady_end guards) (Complete.steady watched)
  · rintro state next ⟨ring, flags⟩ effect
    simp only [bulkMachine, BulkState.exec, Option.ite_none_right_eq_some, Option.some.injEq] at effect
    obtain ⟨done, rfl⟩ := effect
    refine ⟨⟨ring, flags⟩, fun place inside => done place inside ?_⟩
    obtain ⟨iter, below, member, _⟩ := ring.owned place state.stores[place] (List.getElem?_eq_getElem inside)
    obtain ⟨numbered, some⟩ := group_of_mem_stores member
    rw [ring.commits, numbered, Nat.add_zero]
    exact groups_lt below some
  · rintro state ⟨ring, flags⟩ calm
    have done : state.GroupsDone 0 state.written := fun index inside _ => calm.written index inside
    apply performs _ calm
    simp [BulkState.exec, done]

theorem Complete.transferred (complete : Complete loop depths extra state) : loop.Transferred depths state := by
  obtain ⟨⟨ring, _⟩, written⟩ := complete
  have whole : (iterProgress loop depths loop.chunks).loaded = loop.chunks := by
    unfold iterProgress
    simp only
    omega
  exact
    { loads := by rw [ring.loads, whole]
      landed := ring.landed
      stores := by rw [ring.stores, List.append_nil]; rfl
      read := fun place inside => ring.written (written place inside)
      written := written }

/-- Nothing is loaded and nothing stored. -/
theorem ring_idle (loop : ChunkLoop) (depths : Depths) (barriers : Nat → Mbarrier) (smem : Nat → Option Tile)
    (raised : Finset Nat) : Ring loop depths (warmProgress 0) none [] (idleState barriers smem raised) where
  loaded_le := Nat.zero_le _
  waited_le := Nat.le_refl _
  stored_le := Nat.le_refl _
  drained_le := Nat.le_refl _
  ahead := Nat.zero_le _
  room := Nat.zero_le _
  loads := rfl
  stores := rfl
  commits := rfl
  landed_lt := nofun
  landed := nofun
  barrier := nofun
  filling := nofun
  tile := nofun
  read_lt := nofun
  owned := nofun
  written := Finset.empty_subset _
  part_open := nofun
  part_begins := List.nil_prefix

theorem hookRules_none (loop : ChunkLoop) (depths : Depths) (writes : Bool) :
    HookRules loop depths (fun _ => True) writes .none (fun _ _ _ _ => True) (fun _ _ _ _ => True) where
  guards _ _ _ _ _ := trivial
  readyGuards _ _ _ _ _ := trivial
  noReuse _ _ _ _ _ _ _ := trivial
  beforeLoad _ _ := Emit.Holds.skip fun _ => Held.steady fun _ _ _ => trivial
  afterReuseWait _ _ _ _ _ := Emit.Holds.skip fun _ => Held.steady fun _ _ _ => trivial

/-- The whole loop, from its first load to its last wait. -/
theorem code_triple (filled : loop.Filled) :
    LoopTriple loop depths (fun _ => True) true
      (Held loop depths (warmProgress 0) none [] fun _ _ => True) (loop.code depths)
      (Complete loop depths fun _ _ => True) := by
  have body := body_holds (hookRules_none loop depths true) filled ()
  apply (body.weaken (fun _ held => held) fun state held => (iterHeld_chunks loop depths () state).mp held).append
  exact waitComplete_triple fun _ _ _ => trivial

/-- In every execution of the code the ring of the loop is safe, and at its end all is transferred. -/
def Pipelined (loop : ChunkLoop) (depths : Depths) (code : List BulkInstr) : Prop :=
  ∀ barriers smem raised rest state, Runs bulkMachine code (idleState barriers smem raised) rest state →
    loop.RingSafe depths state ∧ (rest = [] → loop.Transferred depths state)

theorem code_pipelined (filled : loop.Filled) : loop.Pipelined depths (loop.code depths) := by
  intro barriers smem raised rest state run
  have start : loop.Held depths (warmProgress 0) none [] (fun _ _ => True) (idleState barriers smem raised) :=
    ⟨ring_idle loop depths barriers smem raised, trivial⟩
  obtain ⟨safe, ends⟩ := (code_triple filled).always _ start rest state run
  exact ⟨safe.1, fun empty => (ends empty).transferred⟩

/-- A loop without chunks needs no code. -/
theorem nil_pipelined (empty : loop.chunks = 0) : loop.Pipelined depths [] := by
  intro barriers smem raised rest state run
  have steady : Steady bulkMachine (loop.RingSafe depths) (Ring loop depths (warmProgress 0) none []) :=
    ⟨fun _ ring => ring.safe, fun _ _ ring moved => ring.engine moved⟩
  obtain ⟨-, ring⟩ := steady.runs_nil (ring_idle loop depths barriers smem raised) run
  have none : state.stores = [] := ring.stores
  refine ⟨ring.safe, fun _ => ?_⟩
  exact
    { loads := by rw [ring.loads, empty]; rfl
      landed := fun iter below => absurd below (by omega)
      stores := by rw [none, empty]; rfl
      read := fun place inside => absurd inside (by simp [none])
      written := fun place inside => absurd inside (by simp [none]) }

/-- The loop can always return. -/
theorem code_returns (filled : loop.Filled) (barriers : Nat → Mbarrier) (smem : Nat → Option Tile)
    (raised : Finset Nat) :
    ∃ final, Runs bulkMachine (loop.code depths) (idleState barriers smem raised) [] final := by
  have start : loop.Held depths (warmProgress 0) none [] (fun _ _ => True) (idleState barriers smem raised) :=
    ⟨ring_idle loop depths barriers smem raised, trivial⟩
  have quiet : Calm true (idleState barriers smem raised) := ⟨nofun, nofun, nofun⟩
  obtain ⟨final, run, _⟩ := (code_triple filled).finishes _ start quiet
  exact ⟨final, run⟩

end ChunkLoop

section Loops

variable {chunkBytes totalBytes : Nat} (depths : Depths) (span : ChunkSpan chunkBytes totalBytes)

/-- A transfer without bytes has no chunks. -/
theorem ChunkSpan.empty (none : totalBytes = 0) : span.endChunk ≤ span.beginChunk := by
  subst none
  have := span.inside
  have := span.nonneg
  unfold chunkCountForBytes Plan.ceilDivInt64ToInt at *
  simp only [true_or, if_true] at *
  omega

theorem runChunkRange_pipelined (positive : 0 < chunkBytes) (op : BulkOp) (srcBase dstBase : Pointer) :
    (chunkRangeLoop chunkBytes op srcBase dstBase totalBytes span.beginChunk span.endChunk).Pipelined depths
      (runChunkRange depths chunkBytes op srcBase dstBase totalBytes span.beginChunk span.endChunk) := by
  unfold runChunkRange
  split
  · rename_i early
    have short : span.endChunk ≤ span.beginChunk := early.elim id (span.empty ·)
    exact ChunkLoop.nil_pipelined (by simp only [chunkRangeLoop]; omega)
  · exact ChunkLoop.code_pipelined (span.filled positive _ rfl fun _ => rfl)

theorem runChunkRangeFanout_pipelined (positive : 0 < chunkBytes) (op : BulkOp) (srcBase : Pointer)
    (fanoutDsts : List Pointer) (fanoutDstCount : Int) (source : srcBase ≠ 0) (some : 0 < fanoutDstCount) :
    (fanoutLoop chunkBytes op srcBase fanoutDsts (clampFanoutDstCount fanoutDstCount) totalBytes span.beginChunk
        span.endChunk).Pipelined depths
      (runChunkRangeFanout depths chunkBytes op srcBase (.some fanoutDsts) fanoutDstCount totalBytes
        span.beginChunk span.endChunk) := by
  have counted : clampFanoutDstCount fanoutDstCount ≠ 0 := by
    unfold clampFanoutDstCount Plan.tmaTwoGpuPeerMaxFanoutDsts
    split
    · omega
    · split <;> omega
  unfold runChunkRangeFanout
  dsimp only
  split
  · rename_i early
    have short : span.endChunk ≤ span.beginChunk := by
      rcases early with before | none | null | zero
      · exact before
      · exact span.empty none
      · exact absurd null source
      · exact absurd zero counted
    exact ChunkLoop.nil_pipelined (by simp only [fanoutLoop]; omega)
  · exact ChunkLoop.code_pipelined (span.filled positive _ rfl fun _ => rfl)

/-- The three chunk loops keep their ring of shared-memory slots safe, for all depths and chunk counts:
no load into a slot that a store may still read, every store after the load of its own chunk, no barrier
past its first phase, and every chunk loaded once and its bulk part stored once when the loop returns. -/
theorem chunkLoops_pipelined (positive : 0 < chunkBytes) (srcBase : Pointer) :
    (∀ op dstBase,
      (chunkRangeLoop chunkBytes op srcBase dstBase totalBytes span.beginChunk span.endChunk).Pipelined depths
        (runChunkRange depths chunkBytes op srcBase dstBase totalBytes span.beginChunk span.endChunk)) ∧
    ∀ fanoutDsts fanoutDstCount, srcBase ≠ 0 → 0 < fanoutDstCount →
      (fanoutLoop chunkBytes .store srcBase fanoutDsts (clampFanoutDstCount fanoutDstCount) totalBytes
          span.beginChunk span.endChunk).Pipelined depths
        (runChunkRangeTmaCopyFanout depths chunkBytes srcBase (some fanoutDsts) fanoutDstCount totalBytes
          span.beginChunk span.endChunk) ∧
      (fanoutLoop chunkBytes .reduce srcBase fanoutDsts (clampFanoutDstCount fanoutDstCount) totalBytes
          span.beginChunk span.endChunk).Pipelined depths
        (runChunkRangeTmaReduceFanout depths chunkBytes srcBase (some fanoutDsts) fanoutDstCount totalBytes
          span.beginChunk span.endChunk) := by
  constructor
  · intro op dstBase
    exact runChunkRange_pipelined depths span positive op srcBase dstBase
  · intro fanoutDsts fanoutDstCount source some
    constructor
    · exact runChunkRangeFanout_pipelined depths span positive .store srcBase fanoutDsts _ source some
    · exact runChunkRangeFanout_pipelined depths span positive .reduce srcBase fanoutDsts _ source some

end Loops

theorem kernelFill_pos : 0 < 8 := by decide

/-- The depths the kernels are compiled with. -/
def kernelDepths : Depths where
  stageDepth := 16
  fillDepth := 8
  loadFillDepth := 8
  fill_pos := kernelFill_pos
  loadFill_pos := kernelFill_pos
  within := by decide

/-- Twenty chunks of 8192 bytes, the last one shorter, hold 160000 bytes. -/
def twentyChunks : ChunkSpan 8192 160000 where
  beginChunk := 0
  endChunk := 20
  nonneg := by decide
  inside := by decide

/-- The last four chunks take the stages of the first four. -/
theorem chunkLoops_pipelined_twenty :
    (chunkRangeLoop 8192 .reduce 4096 262144 160000 0 20).Pipelined kernelDepths
      (runChunkRange kernelDepths 8192 .reduce 4096 262144 160000 0 20) ∧
    (fanoutLoop 8192 .store 4096 [262144, 0, 524288] 3 160000 0 20).Pipelined kernelDepths
      (runChunkRangeTmaCopyFanout kernelDepths 8192 4096 (some [262144, 0, 524288]) 3 160000 0 20) :=
  ⟨(chunkLoops_pipelined kernelDepths twentyChunks (by decide) 4096).1 .reduce 262144,
    ((chunkLoops_pipelined kernelDepths twentyChunks (by decide) 4096).2 [262144, 0, 524288] 3
      (by decide) (by decide)).1⟩

/-- Eight bytes are one chunk. -/
def oneShortChunk : ChunkSpan 8192 8 where
  beginChunk := 0
  endChunk := 1
  nonneg := by decide
  inside := by decide

/-- A chunk of fewer than 16 bytes is loaded, and the fanout returns without storing it. -/
theorem shortChunk_unstored :
    ∃ final, Runs bulkMachine (runChunkRangeTmaCopyFanout kernelDepths 8192 4096 (some [65536]) 1 8 0 1)
        (idleState (fun _ => .init 1) (fun _ => none) ∅) [] final ∧
      final.loads = [⟨0, 4096, 8⟩] ∧ final.stores = [] := by
  have filled := oneShortChunk.filled (by decide) (fanoutLoop 8192 .store 4096 [65536] 1 8 0 1) rfl fun _ => rfl
  have returns : ∃ final, Runs bulkMachine
      ((fanoutLoop 8192 .store 4096 [65536] 1 8 0 1).code kernelDepths)
      (idleState (fun _ => .init 1) (fun _ => none) ∅) [] final :=
    ChunkLoop.code_returns filled _ _ _
  obtain ⟨final, run⟩ := returns
  have transferred := (ChunkLoop.code_pipelined filled _ _ _ _ _ run).2 rfl
  exact ⟨final, run, transferred.loads.trans (by decide), transferred.stores.trans (by decide)⟩

end Ooverlap.Pipeline
