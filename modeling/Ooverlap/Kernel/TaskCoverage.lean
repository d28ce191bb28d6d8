import Ooverlap.Lowering.Agreement
import Ooverlap.Pipeline.RangeCoverage

/-! The bytes that a lowered copy or reduce task writes when its CTAs execute their windows. -/

namespace Ooverlap.Kernel

open Lowering Pipeline Plan Thread Word

/-- Compile-time parameters of a kernel with the assertions they are compiled under. -/
structure Variant extends Depths where
  chunkBytes : Nat
  large : 16 ≤ chunkBytes
  narrow : chunkBytes < 2 ^ 31
  aligned : chunkBytes % 16 = 0

namespace Variant

variable (variant : Variant)

theorem chunk_pos : 0 < variant.chunkBytes :=
  Nat.lt_of_lt_of_le Nat.two_pos (Nat.le_trans (Nat.le_add_left 2 14) variant.large)

def fanoutRange (payload : WindowTaskFanoutPayload)
    (run : Pointer → Option (List Pointer) → Int → Nat → Int → Int → List BulkInstr) : List BulkInstr :=
  let chunks := chunkRangeForWindowRange payload.beginWindow payload.endWindow
    (chunkCountForBytes variant.chunkBytes payload.totalBytes) payload.windowChunks
  if chunks.beginChunk ≥ chunks.endChunk then []
  else
    run payload.src (some payload.fanoutDsts) payload.fanoutDstCount payload.totalBytes chunks.beginChunk
      chunks.endChunk

def copyWindowRangeTmaFanout (payload : WindowTaskFanoutPayload) : List BulkInstr :=
  variant.fanoutRange payload (runChunkRangeTmaCopyFanout variant.toDepths variant.chunkBytes)

def reduceWindowRangeTmaFanout (payload : WindowTaskFanoutPayload) : List BulkInstr :=
  variant.fanoutRange payload (runChunkRangeTmaReduceFanout variant.toDepths variant.chunkBytes)

def windowRange (op : BulkOp) (payload : WindowTaskWindowPayload) : List BulkInstr :=
  runWindowRange variant.toDepths variant.chunkBytes op payload.src payload.dst payload.totalBytes
    payload.beginWindow payload.endWindow payload.windowChunks

/-- Data movement of `execute_window_task`; the other operations move none. -/
def executeWindowTask (task : WindowTask) : List BulkInstr :=
  match task.op, task.payload with
  | .reduceTma, .window payload => variant.windowRange .reduce payload
  | .copyTma, .window payload => variant.windowRange .store payload
  | .copyTmaFanout, .fanout payload => variant.copyWindowRangeTmaFanout payload
  | .reduceTmaFanout, .fanout payload => variant.reduceWindowRangeTmaFanout payload
  | _, _ => []

/-- What a CTA executes of the transfer task at a position. -/
def executeTaskAt (stripe : List (Nat × WindowTask)) (index : Nat) : List BulkInstr :=
  (stripe.filter fun entry => entry.1 = index).flatMap fun entry => variant.executeWindowTask entry.2

end Variant

section Stripes

variable {stripe : List (Nat × WindowTask)} {index : Nat} {task : WindowTask}

theorem filter_index_of_mem (ordered : (stripe.map Prod.fst).Pairwise (· < ·)) (member : (index, task) ∈ stripe) :
    (stripe.filter fun entry => entry.1 = index) = [(index, task)] := by
  induction stripe with
  | nil => cases member
  | cons entry rest ih =>
    rw [List.map_cons, List.pairwise_cons] at ordered
    obtain ⟨first, later⟩ := ordered
    rcases List.mem_cons.mp member with rfl | inRest
    · rw [List.filter_cons_of_pos (by rw [decide_eq_true_eq])]
      congr 1
      rw [List.filter_eq_nil_iff]
      intro other inRest
      have after := first other.1 (List.mem_map_of_mem inRest)
      rw [decide_eq_true_eq]
      exact (Nat.ne_of_gt after)
    · have before := first index (List.mem_map_of_mem inRest)
      rw [List.filter_cons_of_neg (by rw [decide_eq_true_eq]; exact Nat.ne_of_lt before)]
      exact ih later inRest

theorem filter_index_of_not_mem (absent : ∀ task, (index, task) ∉ stripe) :
    (stripe.filter fun entry => entry.1 = index) = [] := by
  rw [List.filter_eq_nil_iff]
  rintro ⟨position, task⟩ member same
  rw [decide_eq_true_eq] at same
  subst same
  exact absent task member

end Stripes

/-- Tasks over all the windows of their bytes. -/
def Sliced (variant : Variant) (transfer : TransferTask) : Prop :=
  transfer.endWindow = windowCountForBytes transfer.bytes variant.chunkBytes transfer.windowChunks

def bulkOp (op : TransferOp) : BulkOp :=
  if op = .reduce then .reduce else .store

/-- From every idle start each CTA can return, and when all have returned they have stored each byte of the
destination exactly once, with the task's operation, and no byte outside it. -/
structure CoversOnce (ctaCount : Nat) (code : Nat → List BulkInstr) (op : BulkOp) (dst : Pointer) (bytes : Nat) :
    Prop where
  returns : ∀ cta < ctaCount, ∀ barriers smem raised,
    ∃ final, Runs bulkMachine (code cta) (idleState barriers smem raised) [] final
  stored : ∀ final : Nat → BulkState,
    (∀ cta < ctaCount, ∃ barriers smem raised,
      Runs bulkMachine (code cta) (idleState barriers smem raised) [] (final cta)) →
    (∀ cta < ctaCount, (∀ store ∈ (final cta).stores, store.op = op) ∧
      ∀ place, place < (final cta).stores.length → place ∈ (final cta).written) ∧
    ∀ address, ((List.range ctaCount).map fun cta => timesWritten (final cta).stores address).sum =
      Split.covers dst (dst + bytes) address

section Arithmetic

theorem ceilDivInt_reaches (nonneg : 0 ≤ num) (bounded : num < 2 ^ 31) (some : 0 < ceilDivInt num den) :
    num ≤ ceilDivInt num den * den := by
  have proper : ¬(num ≤ 0 ∨ den ≤ 0) := by
    intro none
    rw [ceilDivInt, if_pos none] at some
    exact absurd some (Int.lt_irrefl 0)
  rcases lt_or_ge (num + den - 1) (2 ^ 31) with fits | wraps
  · exact (ceilDivInt_le_iff (by omega) (by omega) fits).mp (Int.le_refl _)
  · have small : toInt32 (num + den - 1) < den := by
      unfold toInt32
      rw [Int.bmod_def]
      omega
    have none : ceilDivInt num den ≤ 0 := by
      rw [ceilDivInt, if_neg proper]
      rcases lt_or_ge (toInt32 (num + den - 1)) 0 with negative | positive
      · have mirrored : 0 ≤ (-toInt32 (num + den - 1)).tdiv den := Int.tdiv_nonneg (by omega) (by omega)
        rw [Int.neg_tdiv] at mirrored
        omega
      · exact le_of_eq (Int.tdiv_eq_zero_of_lt positive small)
    omega

/-- The windows of a task begin at its destination and end after its whole vectors. -/
theorem windowBoundary_whole (variant : Variant) {bytes : Nat} (fits : bytes < 2 ^ 32) (dst : Pointer)
    (windows : 0 < windowChunks) (some : 0 < windowCountForBytes bytes variant.chunkBytes windowChunks) :
    windowBoundary variant.chunkBytes dst bytes windowChunks 0 = dst ∧
      windowBoundary variant.chunkBytes dst bytes windowChunks
        (windowCountForBytes bytes variant.chunkBytes windowChunks) = dst + vectorBytes bytes := by
  have counts := counts_of_lt variant.large variant.narrow fits
  have proper : ¬(bytes = 0 ∨ variant.chunkBytes = 0 ∨ windowChunks ≤ 0) := by
    intro none
    rw [windowCountForBytes, if_pos none] at some
    exact absurd some (Int.lt_irrefl 0)
  have count : windowCountForBytes bytes variant.chunkBytes windowChunks =
      ceilDivInt (chunkCountForBytes variant.chunkBytes bytes) windowChunks := if_neg proper
  constructor
  · rw [windowBoundary, windowBeginChunk, Int.zero_mul, ite_self, chunkBoundary, chunkOffsetBytes, Int.toNat_zero,
      Nat.zero_mul, Nat.zero_min, Nat.add_zero]
  · have reaches := ceilDivInt_reaches counts.nonneg (lt_of_le_of_lt counts.few (by omega)) (count ▸ some)
    have offset : bytes ≤ chunkOffsetBytes variant.chunkBytes
        (windowCountForBytes bytes variant.chunkBytes windowChunks * windowChunks) := by
      apply counts.reaches.trans
      rw [count]
      exact Nat.mul_le_mul_right _ (Int.toNat_le_toNat reaches)
    rw [windowBoundary, windowBeginChunk, if_neg (by omega), chunkBoundary]
    unfold vectorBytes
    omega

end Arithmetic

section Launched

variable {limits : LoweringLimits} {plan : TransferPlan} {binding : RankPointerBinding}
  {options : LoweringPassOptions} {windowPlan destination : WindowTaskExecutorPlan}
  {ctx : LoweringContext} {buffer : RankTransferTaskBuffer} {shape : LoweringShape} {index : Nat}
  {transfer : TransferTask} (variant : Variant)

theorem copyOrReduce_windowed (op : transfer.op = .copy ∨ transfer.op = .reduce) :
    transferTaskIsWindowed transfer = true := by
  rcases op with op | op <;> simp [transferTaskIsWindowed, op]

theorem executeWindowTask_range (op : transfer.op = .copy ∨ transfer.op = .reduce)
    (ctaMask : WindowTaskCtaMask) (beginWindow endWindow : Int) :
    variant.executeWindowTask (transferWindows limits binding transfer ctaMask beginWindow endWindow) =
      runWindowRange variant.toDepths variant.chunkBytes (bulkOp transfer.op) (transferSrc limits binding transfer)
        (transferDst limits binding transfer) transfer.bytes beginWindow endWindow transfer.windowChunks := by
  rcases op with op | op <;>
    simp [Variant.executeWindowTask, transferWindows, windowOp, transferPayload, op, bulkOp, Variant.windowRange]

/-- The windows that a CTA owns of the transfer task at a position. -/
abbrev ownedWindows (ctx : LoweringContext) (shape : LoweringShape) (buffer : RankTransferTaskBuffer) (index : Nat)
    (transfer : TransferTask) (ctaIdx : Nat) : WindowRange :=
  taskRange ctx shape buffer.windowCount ctaIdx (reducesBefore buffer.tasks index) transfer

/-- Where the share of a window begins in the destination of a task. -/
abbrev taskBoundary (limits : LoweringLimits) (binding : RankPointerBinding) (transfer : TransferTask) (window : Int) :
    Nat :=
  windowBoundary variant.chunkBytes (transferDst limits binding transfer) transfer.bytes transfer.windowChunks window

/-- Each CTA stores the whole vectors of its windows. -/
theorem executeTaskAt_stores (launches : Launches limits plan binding options windowPlan ctx buffer shape)
    (wellFormed : WellFormed plan.tasks) (room : limits.maxWindowTasks ≤ destination.tasks.length)
    (found : buffer.tasks[index]? = some transfer) (op : transfer.op = .copy ∨ transfer.op = .reduce)
    (fits : transfer.bytes < 2 ^ 32) (windows : 0 < transfer.windowChunks) (ctaIdx : Nat)
    (below : (ctaIdx : Int) < shape.ctaCount) :
    StoresRange
      (variant.executeTaskAt (executeWindowTaskStripe (windowTaskExecutorPlanPack windowPlan destination) ctaIdx) index)
      (bulkOp transfer.op)
      (taskBoundary variant limits binding transfer (ownedWindows ctx shape buffer index transfer ctaIdx).beginWindow)
      (taskBoundary variant limits binding transfer (ownedWindows ctx shape buffer index transfer ctaIdx).endWindow) := by
  have windowed := copyOrReduce_windowed op
  have performs := launches.performs_iff wellFormed.terminals room ctaIdx below index
  have counts := counts_of_lt variant.large variant.narrow fits
  rcases lt_or_ge (ownedWindows ctx shape buffer index transfer ctaIdx).beginWindow
    (ownedWindows ctx shape buffer index transfer ctaIdx).endWindow with nonempty | empty
  · have member := (performs _).mpr ⟨transfer, found, .windows windowed nonempty⟩
    rw [Variant.executeTaskAt, filter_index_of_mem (executeWindowTaskStripe_ordered ..) member,
      List.flatMap_singleton, executeWindowTask_range variant op]
    exact runWindowRange_stores _ variant.chunk_pos variant.aligned counts _ _ _ windows _ _
  · have absent : ∀ task, (index, task) ∉
        executeWindowTaskStripe (windowTaskExecutorPlanPack windowPlan destination) ctaIdx := by
      intro task member
      obtain ⟨same, foundSame, performed⟩ := (performs task).mp member
      rw [found, Option.some.injEq] at foundSame
      subst foundSame
      cases performed with
      | barrier active =>
        simp only [activeBarrier, Bool.and_eq_true] at active
        rw [barrier_not_windowed active.1] at windowed
        cases windowed
      | windows _ nonempty => exact absurd nonempty (not_lt.mpr empty)
    rw [Variant.executeTaskAt, filter_index_of_not_mem absent]
    exact storesRange_nil _ (windowBoundary_mono _ _ _ _ empty)

/-- The sizes that lowering has checked. -/
theorem launches_sized (launches : Launches limits plan binding options windowPlan ctx buffer shape)
    (wellFormed : WellFormed plan.tasks) (found : buffer.tasks[index]? = some transfer)
    (op : transfer.op = .copy ∨ transfer.op = .reduce) :
    0 < transfer.windowChunks ∧ 0 < transfer.bytes ∧ transfer.bytes < 2 ^ 32 := by
  have starts : ∀ task ∈ plan.tasks, 0 ≤ task.beginWindow := fun task inPlan =>
    le_of_eq (wellFormed.starts task inPlan).symm
  obtain ⟨windows, some, limit⟩ :=
    (launches.lowerable starts (List.mem_of_getElem? found) (copyOrReduce_windowed op)).2.1
  exact ⟨windows, some, Nat.lt_of_le_of_lt limit (Nat.sub_lt (Nat.two_pow_pos 32) Nat.one_pos)⟩

/-- The CTAs of a launch together store the whole vectors of a task, each byte once. -/
theorem executeTaskAt_covers (launches : Launches limits plan binding options windowPlan ctx buffer shape)
    (wellFormed : WellFormed plan.tasks) (room : limits.maxWindowTasks ≤ destination.tasks.length)
    (found : buffer.tasks[index]? = some transfer) (op : transfer.op = .copy ∨ transfer.op = .reduce)
    (sliced : Sliced variant transfer) (final : Nat → BulkState)
    (stored : ∀ ctaIdx < shape.ctaCount.toNat, ∃ barriers smem raised, Runs bulkMachine
      (variant.executeTaskAt (executeWindowTaskStripe (windowTaskExecutorPlanPack windowPlan destination) ctaIdx) index)
      (idleState barriers smem raised) [] (final ctaIdx)) :
    (∀ ctaIdx < shape.ctaCount.toNat, (∀ store ∈ (final ctaIdx).stores, store.op = bulkOp transfer.op) ∧
      ∀ place, place < (final ctaIdx).stores.length → place ∈ (final ctaIdx).written) ∧
    ∀ address, ((List.range shape.ctaCount.toNat).map fun ctaIdx =>
        timesWritten (final ctaIdx).stores address).sum =
      Split.covers (transferDst limits binding transfer)
        (transferDst limits binding transfer + vectorBytes transfer.bytes) address := by
  have member := List.mem_of_getElem? found
  have windowed := copyOrReduce_windowed op
  have start : transfer.beginWindow = 0 := by
    rw [launches.tasks] at member
    exact wellFormed.starts transfer (List.mem_of_mem_filter (List.mem_of_mem_filter member))
  obtain ⟨windows, _, fits⟩ := launches_sized launches wellFormed found op
  have nonempty := executable_windows (launches.executable transfer member) windowed
  obtain ⟨count, reaches⟩ := launches.counted.reaches transfer member windowed
  rw [← launches.shaped.maxEndWindow] at reaches
  have some : 0 < windowCountForBytes transfer.bytes variant.chunkBytes transfer.windowChunks := by
    rw [← sliced, ← start]
    exact nonempty
  have each : ∀ ctaIdx < shape.ctaCount.toNat, Stored (bulkOp transfer.op)
      (taskBoundary variant limits binding transfer (ownedWindows ctx shape buffer index transfer ctaIdx).beginWindow)
      (taskBoundary variant limits binding transfer (ownedWindows ctx shape buffer index transfer ctaIdx).endWindow)
      (final ctaIdx) := by
    intro ctaIdx below
    obtain ⟨barriers, smem, raised, run⟩ := stored ctaIdx below
    exact (executeTaskAt_stores variant launches wellFormed room found op fits windows ctaIdx (by omega)).stored
      barriers smem raised (final ctaIdx) run
  refine ⟨fun ctaIdx below => ⟨(each ctaIdx below).ops, (each ctaIdx below).written⟩, fun address => ?_⟩
  obtain ⟨first, last⟩ := windowBoundary_whole variant fits (transferDst limits binding transfer) windows some
  have shares : ∀ ctaIdx ∈ List.range shape.ctaCount.toNat, timesWritten (final ctaIdx).stores address =
      Split.covers
        (taskBoundary variant limits binding transfer (ownedWindows ctx shape buffer index transfer ctaIdx).beginWindow)
        (taskBoundary variant limits binding transfer (ownedWindows ctx shape buffer index transfer ctaIdx).endWindow)
        address :=
    fun ctaIdx inRange => (each ctaIdx (List.mem_range.mp inRange)).bytes address
  have cover := taskRange_cover launches.checked launches.shaped.ctas count (le_of_eq start.symm) nonempty.le reaches
    (reducesBefore buffer.tasks index)
  rw [List.map_congr_left shares,
    Split.covers_boundary_sum (windowBoundary_mono (transferDst limits binding transfer) transfer.windowChunks)
      (List.range shape.ctaCount.toNat) (fun ctaIdx => (ownedWindows ctx shape buffer index transfer ctaIdx).beginWindow)
      (fun ctaIdx => (ownedWindows ctx shape buffer index transfer ctaIdx).endWindow) transfer.beginWindow
      transfer.endWindow cover, start, sliced, first, last]

end Launched

theorem vectorBytes_eq_iff {bytes : Nat} (some : 0 < bytes) (dst : Nat) :
    (∀ address, Split.covers dst (dst + vectorBytes bytes) address = Split.covers dst (dst + bytes) address) ↔
      16 ∣ bytes := by
  constructor
  · intro same
    have last : Split.covers dst (dst + bytes) (dst + (bytes - 1)) = 1 :=
      Split.covers_eq_one ⟨Nat.le_add_right _ _, by omega⟩
    rw [← same] at last
    have inside := (Split.covers_pos_iff.mp (last ▸ Nat.one_pos)).2
    unfold vectorBytes at inside
    omega
  · intro whole address
    rw [vectorBytes, Nat.div_mul_cancel whole]

section Launched

variable {limits : LoweringLimits} {plan : TransferPlan} {binding : RankPointerBinding}
  {options : LoweringPassOptions} {windowPlan destination : WindowTaskExecutorPlan}
  {ctx : LoweringContext} {buffer : RankTransferTaskBuffer} {shape : LoweringShape} {index : Nat}
  {transfer : TransferTask} (variant : Variant)

/-- A launched task covers its destination exactly if its bytes are whole vectors of 16. -/
theorem coversOnce_iff (launches : Launches limits plan binding options windowPlan ctx buffer shape)
    (wellFormed : WellFormed plan.tasks) (room : limits.maxWindowTasks ≤ destination.tasks.length)
    (found : buffer.tasks[index]? = some transfer) (op : transfer.op = .copy ∨ transfer.op = .reduce)
    (sliced : Sliced variant transfer) :
    CoversOnce shape.ctaCount.toNat
        (fun ctaIdx => variant.executeTaskAt
          (executeWindowTaskStripe (windowTaskExecutorPlanPack windowPlan destination) ctaIdx) index)
        (bulkOp transfer.op) (transferDst limits binding transfer) transfer.bytes ↔
      16 ∣ transfer.bytes := by
  have sized := launches_sized launches wellFormed found op
  have stores := executeTaskAt_stores variant launches wellFormed room found op (by omega) sized.1
  have covers := executeTaskAt_covers variant launches wellFormed room found op sliced
  constructor
  · rintro ⟨returns, stored⟩
    have ends : ∀ ctaIdx : Nat, ∃ final, ctaIdx < shape.ctaCount.toNat → ∃ barriers smem raised,
        Runs bulkMachine (variant.executeTaskAt
          (executeWindowTaskStripe (windowTaskExecutorPlanPack windowPlan destination) ctaIdx) index)
          (idleState barriers smem raised) [] final := by
      intro ctaIdx
      by_cases below : ctaIdx < shape.ctaCount.toNat
      · obtain ⟨final, run⟩ := returns ctaIdx below (fun _ => .init 1) (fun _ => none) ∅
        exact ⟨final, fun _ => ⟨_, _, _, run⟩⟩
      · exact ⟨idleState (fun _ => .init 1) (fun _ => none) ∅, fun inside => absurd inside below⟩
    choose final runs using ends
    have promised := (stored final runs).2
    have reached := (covers final runs).2
    exact (vectorBytes_eq_iff sized.2.1 _).mp fun address => (reached address).symm.trans (promised address)
  · intro whole
    refine ⟨fun ctaIdx below => (stores ctaIdx (by omega)).returns, fun final runs => ?_⟩
    obtain ⟨done, once⟩ := covers final runs
    exact ⟨done, fun address => (once address).trans ((vectorBytes_eq_iff sized.2.1 _).mpr whole address)⟩

/-- Whatever is lowered, the launched CTAs write a copy or reduce task's destination exactly once, byte for byte,
if and only if its bytes are whole vectors of 16: the tail of a chunk is never stored. -/
theorem loweredTask_coversOnce_iff (wellFormed : WellFormed plan.tasks)
    (lowered : lowerTransferPlanForRank limits plan binding launchConfig options = (true, windowPlan, numBlocks))
    (room : limits.maxWindowTasks ≤ destination.tasks.length)
    (found : (executableTasks plan binding.currentRank)[index]? = some transfer)
    (op : transfer.op = .copy ∨ transfer.op = .reduce) (sliced : Sliced variant transfer) :
    CoversOnce numBlocks.toNat
        (fun ctaIdx => variant.executeTaskAt
          (executeWindowTaskStripe (windowTaskExecutorPlanPack windowPlan destination) ctaIdx) index)
        (bulkOp transfer.op) (transferDst limits binding transfer) transfer.bytes ↔
      16 ∣ transfer.bytes := by
  have starts : ∀ task ∈ plan.tasks, 0 ≤ task.beginWindow := fun task inPlan =>
    le_of_eq (wellFormed.starts task inPlan).symm
  rcases lowerTransferPlanForRank_cases starts lowered with
    ⟨empty, _, _⟩ | ⟨ctx, buffer, shape, rfl, launches⟩
  · rw [empty] at found
    cases found
  · rw [← launches.tasks] at found
    exact coversOnce_iff variant launches wellFormed room found op sliced

end Launched

section TwoRanks

/-- The kernel that the launchers compile. -/
def launchedVariant : Variant where
  toDepths := kernelDepths
  chunkBytes := 8192
  large := by decide
  narrow := by decide
  aligned := by decide

/-- All-reduce of two ranks without peer access to the fast kernel. -/
def twoRankAllreduce (count : Nat) : TransferPlanBuildInput where
  worldSize := 2
  count := count
  dtypeSize := 2

def twoRankPlan (count : Nat) : TransferPlan :=
  (AllReduce.buildAllreduceTransferPlan 512 {} (twoRankAllreduce count)).2

def twoRankBinding : RankPointerBinding where
  currentRank := 0
  worldSize := 2
  rankBuffer rank := 65536 * (rank.toNat + 1)

def allreduceOptions : LoweringPassOptions where
  enableReduceCtaGroups := true
  ctaBarrierStart := 0

def twoRankLowered (count : Nat) : Bool × WindowTaskExecutorPlan × Int :=
  lowerTransferPlanForRank {} (twoRankPlan count) twoRankBinding {} allreduceOptions

def emptySlots : WindowTaskExecutorPlan where
  tasks := List.replicate 112 {}

/-- The reduction of rank 0's own slice. -/
def reduceTask (count : Nat) : TransferTask :=
  (executableTasks (twoRankPlan count) 0).headD {}

def reduceCode (count ctaIdx : Nat) : List BulkInstr :=
  launchedVariant.executeTaskAt
    (executeWindowTaskStripe (windowTaskExecutorPlanPack (twoRankLowered count).2.1 emptySlots) ctaIdx) 0

theorem emptySlots_room : ({} : LoweringLimits).maxWindowTasks ≤ emptySlots.tasks.length := by decide

theorem loweredTask_coversOnce_three : CoversOnce 3 (reduceCode 20000) .reduce 65536 20000 := by
  have planned : Planned (twoRankPlan 20000) := .allreduce (by decide +kernel)
  have lowered : lowerTransferPlanForRank {} (twoRankPlan 20000) twoRankBinding {} allreduceOptions =
      (true, (twoRankLowered 20000).2.1, 3) := by
    decide +kernel
  have task : (executableTasks (twoRankPlan 20000) 0)[0]? = some (reduceTask 20000) := by decide +kernel
  have op : (reduceTask 20000).op = .reduce := by decide +kernel
  have dst : transferDst {} twoRankBinding (reduceTask 20000) = 65536 := by decide +kernel
  have bytes : (reduceTask 20000).bytes = 20000 := by decide +kernel
  have sliced : Sliced launchedVariant (reduceTask 20000) := by
    unfold Sliced
    decide +kernel
  have covers := loweredTask_coversOnce_iff launchedVariant planned.wellFormed lowered emptySlots_room task
    (.inr op) sliced
  rw [op, dst, bytes] at covers
  exact covers.mpr (by decide)

/-- Four elements leave each rank a slice of four bytes, which no reduction stores. -/
theorem loweredTask_tail_unstored : ¬CoversOnce 1 (reduceCode 4) .reduce 65536 4 := by
  have planned : Planned (twoRankPlan 4) := .allreduce (by decide +kernel)
  have lowered : lowerTransferPlanForRank {} (twoRankPlan 4) twoRankBinding {} allreduceOptions =
      (true, (twoRankLowered 4).2.1, 1) := by
    decide +kernel
  have task : (executableTasks (twoRankPlan 4) 0)[0]? = some (reduceTask 4) := by decide +kernel
  have op : (reduceTask 4).op = .reduce := by decide +kernel
  have dst : transferDst {} twoRankBinding (reduceTask 4) = 65536 := by decide +kernel
  have bytes : (reduceTask 4).bytes = 4 := by decide +kernel
  have sliced : Sliced launchedVariant (reduceTask 4) := by
    unfold Sliced
    decide +kernel
  have starts : ∀ task ∈ (twoRankPlan 4).tasks, 0 ≤ task.beginWindow := fun task inPlan =>
    le_of_eq (planned.wellFormed.starts task inPlan).symm
  rcases lowerTransferPlanForRank_cases starts lowered with ⟨_, _, none⟩ | ⟨ctx, buffer, shape, count, launches⟩
  · cases none
  · rw [show executableTasks (twoRankPlan 4) 0 = buffer.tasks from launches.tasks.symm] at task
    have covers := coversOnce_iff launchedVariant launches planned.wellFormed emptySlots_room task (.inr op) sliced
    rw [op, dst, bytes, ← count] at covers
    intro once
    exact absurd (covers.mp once) (by decide)

end TwoRanks

end Ooverlap.Kernel
