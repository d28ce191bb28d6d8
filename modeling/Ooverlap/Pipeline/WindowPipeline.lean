import Ooverlap.Pipeline.BulkAsync
import Ooverlap.Plan.Config

/-! The chunk loops of the window pipeline, as the instructions thread 0 issues. -/

namespace Ooverlap.Pipeline

open Lowering (Pointer)
open Plan (ceilDivInt64ToInt tmaTwoGpuPeerMaxFanoutDsts)
open Thread

/-- Template depths with the assertions they are compiled under. -/
structure Depths where
  stageDepth : Nat
  fillDepth : Nat
  loadFillDepth : Nat
  fill_pos : 0 < fillDepth
  loadFill_pos : 0 < loadFillDepth
  within : loadFillDepth + fillDepth ≤ stageDepth

structure ChunkRange where
  beginChunk : Int := 0
  endChunk : Int := 0
  deriving DecidableEq, Repr

section Chunks

variable (chunkBytes : Nat)

def chunkCountForBytes (byteCount : Nat) : Int :=
  ceilDivInt64ToInt byteCount chunkBytes

def chunkOffsetBytes (chunk : Int) : Nat :=
  chunk.toNat * chunkBytes

def chunkSizeBytesAbs (chunk : Int) (totalBytes : Nat) : Nat :=
  if totalBytes ≤ chunkOffsetBytes chunkBytes chunk then 0
  else min chunkBytes (totalBytes - chunkOffsetBytes chunkBytes chunk)

end Chunks

def windowBeginChunk (window windowChunks : Int) : Int :=
  if window < 0 ∨ windowChunks ≤ 0 then 0 else window * windowChunks

def windowEndChunkRaw (window windowChunks : Int) : Int :=
  if window < 0 ∨ windowChunks ≤ 0 then 0 else (window + 1) * windowChunks

def windowEndChunkClamped (window totalChunks windowChunks : Int) : Int :=
  min (windowEndChunkRaw window windowChunks) totalChunks

def chunkRangeForWindowRange (beginWindow endWindow totalChunks windowChunks : Int) : ChunkRange :=
  if beginWindow ≥ endWindow ∨ totalChunks ≤ 0 ∨ windowChunks ≤ 0 then {}
  else
    let beginChunk := min (windowBeginChunk beginWindow windowChunks) totalChunks
    let endChunk := min (windowBeginChunk endWindow windowChunks) totalChunks
    { beginChunk := if beginChunk > endChunk then endChunk else beginChunk
      endChunk := endChunk }

structure PipelineChunk where
  src : Pointer
  dst : Pointer
  bytes : Nat
  deriving DecidableEq, Repr

/-- The slot is both the shared-memory tile and the load barrier of the stage. -/
structure PipelineStage where
  chunk : PipelineChunk
  slot : Nat
  deriving DecidableEq, Repr

def pipelineStageBulkBytes (stage : PipelineStage) : Nat :=
  stage.chunk.bytes / 16 * 16

section Stages

variable (chunkBytes : Nat)

def makeStageForAbsChunk (srcBase dstBase : Pointer) (totalBytes : Nat) (chunk : Int) (slot : Nat) :
    PipelineStage where
  chunk :=
    { src := srcBase + chunkOffsetBytes chunkBytes chunk
      dst := dstBase + chunkOffsetBytes chunkBytes chunk
      bytes := chunkSizeBytesAbs chunkBytes chunk totalBytes }
  slot := slot

def makeFanoutStageForAbsChunk (srcBase : Pointer) (totalBytes : Nat) (chunk : Int) (slot : Nat) :
    PipelineStage where
  chunk :=
    { src := srcBase + chunkOffsetBytes chunkBytes chunk
      dst := 0
      bytes := chunkSizeBytesAbs chunkBytes chunk totalBytes }
  slot := slot

end Stages

namespace PipelineTMALoad

/-- The barrier is initialised anew for every load, so each wait is for parity 0. -/
def issue (stage : PipelineStage) : List BulkInstr :=
  [.initBarrier stage.slot 1, .expectBytes stage.slot stage.chunk.bytes,
    .loadAsync stage.slot stage.chunk.src stage.chunk.bytes]

def waitReady (stage : PipelineStage) : List BulkInstr :=
  [.waitBarrier stage.slot 0]

end PipelineTMALoad

def waitBeforeStageReuse (depths : Depths) : List BulkInstr :=
  [.waitGroupRead (depths.fillDepth - 1)]

def waitComplete : List BulkInstr :=
  [.waitGroup 0]

/-- The bulk part of a stage to each destination, as one group; fewer than 16 bytes are no group. -/
def storeBulk (op : BulkOp) (stage : PipelineStage) (dsts : List Pointer) : List BulkInstr :=
  if pipelineStageBulkBytes stage = 0 then []
  else
    dsts.map (fun dst => .storeAsync op stage.slot dst (pipelineStageBulkBytes stage)) ++ [.commitGroup]

/-- What a loop does besides loading and storing: before the load of an iteration's chunk, and
after the wait for the slot that a later chunk will reuse. -/
structure LoopHooks (Local : Type) where
  beforeLoad : Nat → Emit Local BulkInstr
  afterReuseWait : Nat → Emit Local BulkInstr

def LoopHooks.none : LoopHooks Unit where
  beforeLoad _ := Emit.skip
  afterReuseWait _ := Emit.skip

/-- One chunk loop: the stage of each iteration's chunk in a slot, and where its bulk part goes. -/
structure ChunkLoop where
  chunks : Nat
  op : BulkOp
  stage : Nat → Nat → PipelineStage
  dsts : Nat → PipelineStage → List Pointer
  stage_slot : ∀ iter slot, (stage iter slot).slot = slot
  stage_chunk : ∀ iter slot, (stage iter slot).chunk = (stage iter 0).chunk
  dsts_slot : ∀ iter slot, dsts iter (stage iter slot) = dsts iter (stage iter 0)

namespace ChunkLoop

variable {Local : Type} (loop : ChunkLoop) (depths : Depths) (hooks : LoopHooks Local)

def warmLoad (warm : Nat) : Emit Local BulkInstr :=
  hooks.beforeLoad warm ++ Emit.emit (PipelineTMALoad.issue (loop.stage warm warm))

def loadAhead (iter : Nat) : Emit Local BulkInstr :=
  let future := iter + depths.loadFillDepth
  if future < loop.chunks then
    hooks.beforeLoad future ++
      (if depths.stageDepth ≤ future then
        Emit.emit (waitBeforeStageReuse depths) ++ hooks.afterReuseWait iter
      else Emit.skip) ++
      Emit.emit (PipelineTMALoad.issue (loop.stage future (future % depths.stageDepth)))
  else Emit.skip

def iteration (iter : Nat) : Emit Local BulkInstr :=
  let current := loop.stage iter (iter % depths.stageDepth)
  Emit.emit (PipelineTMALoad.waitReady current) ++ loop.loadAhead depths hooks iter ++
    Emit.emit (storeBulk loop.op current (loop.dsts iter current))

/-- Warm loads, then one iteration a chunk. -/
def body : Emit Local BulkInstr :=
  Emit.loop (loop.warmLoad hooks) (min depths.loadFillDepth loop.chunks) 0 ++
    Emit.loop (loop.iteration depths hooks) loop.chunks 0

def code : List BulkInstr :=
  (loop.body depths .none ()).1 ++ waitComplete

end ChunkLoop

section Loops

variable (depths : Depths) (chunkBytes : Nat)

def chunkRangeLoop (op : BulkOp) (srcBase dstBase : Pointer) (totalBytes : Nat)
    (beginChunk endChunk : Int) : ChunkLoop where
  chunks := (endChunk - beginChunk).toNat
  op := op
  stage iter slot := makeStageForAbsChunk chunkBytes srcBase dstBase totalBytes (beginChunk + iter) slot
  dsts _ stage := [stage.chunk.dst]
  stage_slot _ _ := rfl
  stage_chunk _ _ := rfl
  dsts_slot _ _ := rfl

def runChunkRange (op : BulkOp) (srcBase dstBase : Pointer) (totalBytes : Nat)
    (beginChunk endChunk : Int) : List BulkInstr :=
  if beginChunk ≥ endChunk ∨ totalBytes = 0 then []
  else (chunkRangeLoop chunkBytes op srcBase dstBase totalBytes beginChunk endChunk).code depths

def clampFanoutDstCount (count : Int) : Nat :=
  if count < 0 then 0 else if count > tmaTwoGpuPeerMaxFanoutDsts then tmaTwoGpuPeerMaxFanoutDsts else count.toNat

/-- The chunk's place in each destination; null destinations are skipped. -/
def fanoutChunkDsts (fanoutDsts : List Pointer) (count : Nat) (offset : Nat) : List Pointer :=
  ((fanoutDsts.take count).filter (· != 0)).map (· + offset)

def fanoutLoop (op : BulkOp) (srcBase : Pointer) (fanoutDsts : List Pointer) (count : Nat)
    (totalBytes : Nat) (beginChunk endChunk : Int) : ChunkLoop where
  chunks := (endChunk - beginChunk).toNat
  op := op
  stage iter slot := makeFanoutStageForAbsChunk chunkBytes srcBase totalBytes (beginChunk + iter) slot
  dsts iter _ := fanoutChunkDsts fanoutDsts count (chunkOffsetBytes chunkBytes (beginChunk + iter))
  stage_slot _ _ := rfl
  stage_chunk _ _ := rfl
  dsts_slot _ _ := rfl

/-- `fanoutDsts` is absent for a null array. -/
def runChunkRangeFanout (op : BulkOp) (srcBase : Pointer) (fanoutDsts : Option (List Pointer))
    (fanoutDstCount : Int) (totalBytes : Nat) (beginChunk endChunk : Int) : List BulkInstr :=
  match fanoutDsts with
  | none => []
  | some dsts =>
    let count := clampFanoutDstCount fanoutDstCount
    if beginChunk ≥ endChunk ∨ totalBytes = 0 ∨ srcBase = 0 ∨ count = 0 then []
    else (fanoutLoop chunkBytes op srcBase dsts count totalBytes beginChunk endChunk).code depths

def runChunkRangeTmaCopyFanout : Pointer → Option (List Pointer) → Int → Nat → Int → Int → List BulkInstr :=
  runChunkRangeFanout depths chunkBytes .store

def runChunkRangeTmaReduceFanout : Pointer → Option (List Pointer) → Int → Nat → Int → Int → List BulkInstr :=
  runChunkRangeFanout depths chunkBytes .reduce

def runWindowRange (op : BulkOp) (srcBase dstBase : Pointer) (totalBytes : Nat)
    (beginWindow endWindow windowChunks : Int) : List BulkInstr :=
  let totalChunks := chunkCountForBytes chunkBytes totalBytes
  let chunks := chunkRangeForWindowRange beginWindow endWindow totalChunks windowChunks
  runChunkRange depths chunkBytes op srcBase dstBase totalBytes chunks.beginChunk chunks.endChunk

end Loops

/-- The flag of a window, absent for a null flag array and for windows below the base. -/
def windowFlag (flags : Pointer) (base window : Int) : Option Nat :=
  if flags = 0 then none else if 0 ≤ window - base then some (window - base).toNat else none

theorem windowFlag_inj (first : windowFlag flags base window = some flag)
    (second : windowFlag flags base other = some flag) : window = other := by
  unfold windowFlag at first second
  split at first
  · cases first
  · rename_i present
    rw [if_neg present] at second
    split at first <;> split at second <;> simp only [Option.some.injEq, reduceCtorEq] at first second
    omega

def publishWindow (flags : Pointer) (base window : Int) : List BulkInstr :=
  (windowFlag flags base window).toList.map .publish

def waitWindowSignalForWindow (flags : Pointer) (window base : Int) : List BulkInstr :=
  (windowFlag flags base window).toList.map .awaitFlag

structure WindowSignalCursor where
  endWindow : Int
  nextWindow : Int
  nextWindowEndChunk : Int
  totalChunks : Int
  windowChunks : Int
  readyWindowBase : Int
  windowReadyFlags : Pointer
  deriving DecidableEq, Repr

def makeWindowSignalCursor (beginWindow endWindow totalChunks windowChunks : Int)
    (windowReadyFlags : Pointer) (readyWindowBase : Int) : WindowSignalCursor where
  endWindow := endWindow
  nextWindow := beginWindow
  nextWindowEndChunk := windowEndChunkClamped beginWindow totalChunks windowChunks
  totalChunks := totalChunks
  windowChunks := windowChunks
  readyWindowBase := readyWindowBase
  windowReadyFlags := windowReadyFlags

/-- At most one window is published a call. -/
def advanceWindowSignalCursor (safeCompletedChunk : Int) : Emit WindowSignalCursor BulkInstr :=
  fun cursor =>
    if cursor.windowReadyFlags = 0 then ([], cursor)
    else if cursor.nextWindow ≥ cursor.endWindow then ([], cursor)
    else if safeCompletedChunk < cursor.nextWindowEndChunk then ([], cursor)
    else
      let next := cursor.nextWindow + 1
      (publishWindow cursor.windowReadyFlags cursor.readyWindowBase cursor.nextWindow,
        { cursor with
          nextWindow := next
          nextWindowEndChunk :=
            if next < cursor.endWindow then
              windowEndChunkClamped next cursor.totalChunks cursor.windowChunks
            else cursor.nextWindowEndChunk })

def publishRemainingWindows (cursor : WindowSignalCursor) : List BulkInstr :=
  (List.range (cursor.endWindow - cursor.nextWindow).toNat).flatMap fun (index : Nat) =>
    publishWindow cursor.windowReadyFlags cursor.readyWindowBase (cursor.nextWindow + index)

section WindowLoops

variable (depths : Depths) (chunkBytes : Nat)

def signalHooks (beginChunk : Int) : LoopHooks WindowSignalCursor where
  beforeLoad _ := Emit.skip
  afterReuseWait iter := advanceWindowSignalCursor (beginChunk + (iter - depths.fillDepth + 1))

/-- The flags follow the groups whose sources have been read. -/
def runWindowRangeSignal (op : BulkOp) (srcBase dstBase : Pointer) (totalBytes : Nat)
    (beginWindow endWindow windowChunks : Int) (windowReadyFlags : Pointer) (readyWindowBase : Int) :
    List BulkInstr :=
  let totalChunks := chunkCountForBytes chunkBytes totalBytes
  let chunks := chunkRangeForWindowRange beginWindow endWindow totalChunks windowChunks
  if chunks.beginChunk ≥ chunks.endChunk then []
  else
    let loop := chunkRangeLoop chunkBytes op srcBase dstBase totalBytes chunks.beginChunk chunks.endChunk
    let cursor := makeWindowSignalCursor beginWindow endWindow totalChunks windowChunks windowReadyFlags
      readyWindowBase
    let (code, cursor) := loop.body depths (signalHooks depths chunks.beginChunk) cursor
    code ++ waitComplete ++ publishRemainingWindows cursor

/-- The variable is the window waited for last. -/
def readyHooks (beginChunk windowChunks : Int) (windowReadyFlags : Pointer) (readyWindowBase : Int) :
    LoopHooks Int where
  beforeLoad iter := fun lastWaitedWindow =>
    let window := (beginChunk + iter) / windowChunks
    if window ≠ lastWaitedWindow then
      (waitWindowSignalForWindow windowReadyFlags window readyWindowBase, window)
    else ([], lastWaitedWindow)
  afterReuseWait _ := Emit.skip

def runWindowRangeAfterReady (op : BulkOp) (srcBase dstBase : Pointer) (totalBytes : Nat)
    (beginWindow endWindow windowChunks : Int) (windowReadyFlags : Pointer) (readyWindowBase : Int) :
    List BulkInstr :=
  if beginWindow ≥ endWindow ∨ windowChunks ≤ 0 ∨ totalBytes = 0 then []
  else
    let totalChunks := chunkCountForBytes chunkBytes totalBytes
    let chunks := chunkRangeForWindowRange beginWindow endWindow totalChunks windowChunks
    if chunks.beginChunk ≥ chunks.endChunk then []
    else
      let loop := chunkRangeLoop chunkBytes op srcBase dstBase totalBytes chunks.beginChunk chunks.endChunk
      (loop.body depths
        (readyHooks chunks.beginChunk windowChunks windowReadyFlags readyWindowBase) (-1)).1 ++ waitComplete

end WindowLoops

end Ooverlap.Pipeline
