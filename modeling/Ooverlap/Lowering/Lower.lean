import Ooverlap.Lowering.WindowTask
import Ooverlap.Plan.Topology

/-! Lowering of one rank's transfer tasks into per-CTA stripes of window tasks. -/

namespace Ooverlap.Lowering

open Plan Word

/-- One rank's own view of every rank's buffers. -/
structure RankPointerBinding where
  currentRank : Int := -1
  worldSize : Int := 0
  rankBuffer : Int → Pointer := fun _ => 0
  rankInput : Int → Pointer := fun _ => 0
  rankOutput : Int → Pointer := fun _ => 0
  shmStaging : Int → Pointer := fun _ => 0

/-- Sizes that the launchers fix at compile time. -/
structure LoweringLimits where
  maxTransferTasks : Nat := 512
  maxWindowTasks : Nat := 112
  maxRanks : Nat := 16
  maxStagingSlots : Nat := 4

section Pointers

variable (limits : LoweringLimits) (ref : LogicalBufferRef) (binding : RankPointerBinding)

def offsetBytes (base : Pointer) (byteOffset : Nat) : Pointer :=
  if base = 0 then 0 else base + byteOffset

def resolveLogicalConstPtr : Pointer :=
  match ref.role with
  | .rankBuffer =>
    if ref.ownerRank < 0 ∨ ref.ownerRank ≥ limits.maxRanks then 0
    else offsetBytes (binding.rankBuffer ref.ownerRank) ref.byteOffset
  | .rankInput =>
    if ref.ownerRank < 0 ∨ ref.ownerRank ≥ limits.maxRanks then 0
    else offsetBytes (binding.rankInput ref.ownerRank) ref.byteOffset
  | .rankOutput =>
    if ref.ownerRank < 0 ∨ ref.ownerRank ≥ limits.maxRanks then 0
    else offsetBytes (binding.rankOutput ref.ownerRank) ref.byteOffset
  | .shmStaging =>
    if ref.stagingSlot < 0 ∨ ref.stagingSlot ≥ limits.maxStagingSlots then 0
    else offsetBytes (binding.shmStaging ref.stagingSlot) ref.byteOffset

/-- As for sources, except that an input buffer is never a destination. -/
def resolveLogicalMutPtr : Pointer :=
  match ref.role with
  | .rankInput => 0
  | _ => resolveLogicalConstPtr limits ref binding

end Pointers

section Tasks

variable (task : TransferTask)

def transferTransportDirect (transport : TransportKind) : Bool :=
  transport = .directNvlink || transport = .directPcie

def transferTaskUsesShmStaging : Bool :=
  task.src.role = .shmStaging || task.dst.role = .shmStaging

def transferShouldUseFastCopy : Bool := false

def transferTaskIsReady : Bool :=
  task.op = .readyPublish || task.op = .readyWait

/-- Ready tasks that the kernel's own entry rendezvous stands for. -/
def transferReadyTaskIsKernelPrologue (currentRank : Int) : Bool :=
  transferTaskIsReady task && task.executorRank = currentRank && task.readyPhase = 0 &&
    task.readyChannel = ReadySignalChannel.deviceMemory.index

def transferTaskIsBarrier : Bool :=
  task.op = .barrier

def transferTaskIsWindowed : Bool :=
  task.op = .copy || task.op = .reduce || task.op = .copyFanout || task.op = .reduceFanout

def selectCopyWindowOp : WindowTaskOp :=
  if transferShouldUseFastCopy then .copyFast else .copyTma

def lowerTransferTaskToWindowTask (src dst : Pointer) (beginWindow endWindow : Int) : Option WindowTask :=
  if src = 0 ∨ dst = 0 ∨ beginWindow ≥ endWindow ∨ task.windowChunks ≤ 0 ∨ task.bytes = 0 ∨
      task.bytes > kWindowTaskMaxBytes then none
  else
    let copyUsesShmStaging := task.op = .copy && transferTaskUsesShmStaging task
    let reduceFromShmStaging :=
      task.op = .reduce && task.src.role = .shmStaging && task.dst.role ≠ .shmStaging
    if !transferTransportDirect task.transport && !copyUsesShmStaging && !reduceFromShmStaging then none
    else
      match task.op with
      | .reduce =>
        if !task.requiresTmaReduce then none
        else some (makeReduceTmaTask src dst task.bytes beginWindow endWindow task.windowChunks task.terminal)
      | .copy =>
        match selectCopyWindowOp with
        | .copyFast =>
          some (makeCopyFastTask src dst task.bytes beginWindow endWindow task.windowChunks task.terminal)
        | .copyTma =>
          some (makeCopyTmaTask src dst task.bytes beginWindow endWindow task.windowChunks task.terminal)
        | _ => none
      | _ => none

def lowerFanoutTransferTaskToWindowTask (src : Pointer) (fanoutDsts : List Pointer)
    (beginWindow endWindow : Int) : Option WindowTask :=
  if src = 0 ∨ beginWindow ≥ endWindow ∨ task.windowChunks ≤ 0 ∨ task.bytes = 0 ∨
      task.bytes > kWindowTaskMaxBytes ∨ task.fanoutDstCount ≤ 0 ∨
      task.fanoutDstCount > tmaTwoGpuPeerMaxFanoutDsts then none
  else if fanoutDsts.any (· = 0) then none
  else if !transferTransportDirect task.transport then none
  else
    match task.op with
    | .copyFanout =>
      if !task.requiresTmaLoad || !task.requiresTmaStore then none
      else some (makeCopyTmaFanoutTask src fanoutDsts task.bytes beginWindow endWindow task.windowChunks
        task.terminal)
    | .reduceFanout =>
      if !task.requiresTmaLoad || !task.requiresTmaReduce then none
      else some (makeReduceTmaFanoutTask src fanoutDsts task.fanoutReduceScope task.bytes beginWindow
        endWindow task.windowChunks task.terminal)
    | _ => none

end Tasks

structure LoweringPassOptions where
  enableTransferPasses : Bool := true
  enableWindowPasses : Bool := true
  enableReduceCtaGroups : Bool := false
  maxCtasPerReduceTask : Int := 8
  ctaBarrierStart : Nat := 1
  enforceExecutorTaskLimit : Bool := false
  maxExecutableTasksPerCta : Int := 2

structure LoweringContext where
  currentRank : Int
  worldSize : Int
  launchConfig : LaunchConfig
  options : LoweringPassOptions

def makeLoweringContext (limits : LoweringLimits) (binding : RankPointerBinding)
    (launchConfig : LaunchConfig) (options : LoweringPassOptions) : Option LoweringContext :=
  if binding.currentRank < 0 ∨ binding.currentRank ≥ binding.worldSize ∨ binding.worldSize ≤ 0 ∨
      binding.worldSize > limits.maxRanks ∨ launchConfig.maxCtas ≤ 0 ∨
      launchConfig.maxCtas > kWindowTaskMaxCtas ∨
      (options.enableReduceCtaGroups ∧
        (options.maxCtasPerReduceTask ≤ 0 ∨ options.maxCtasPerReduceTask > kWindowTaskMaxCtas)) then none
  else
    some { currentRank := binding.currentRank, worldSize := binding.worldSize, launchConfig, options }

/-- Executable tasks of one rank with the counts that lowering keeps of them. -/
structure RankTransferTaskBuffer where
  tasks : List TransferTask := []
  barrierCount : Int := 0
  windowCount : Int := 0
  maxEndWindow : Int := 0

/-- One step of the recount; a ready or unknown task makes it fail. -/
def countRankTask (buffer : RankTransferTaskBuffer) (transfer : TransferTask) :
    Option RankTransferTaskBuffer :=
  if transferTaskIsBarrier transfer then some { buffer with barrierCount := buffer.barrierCount + 1 }
  else if transferTaskIsReady transfer then none
  else if !transferTaskIsWindowed transfer then none
  else
    some { buffer with
      windowCount := buffer.windowCount + 1
      maxEndWindow := max buffer.maxEndWindow transfer.endWindow }

def recomputeRankTransferTaskStats (tasks : List TransferTask) : Option RankTransferTaskBuffer :=
  tasks.foldlM countRankTask { tasks }

/-- Scan of the plan; ready tasks are dropped only while no executable task was seen. -/
def collectFrom (currentRank : Int) : Bool → List TransferTask → Option (List TransferTask)
  | _, [] => some []
  | sawExecutableTask, transfer :: rest =>
    if transfer.executorRank ≠ currentRank then collectFrom currentRank sawExecutableTask rest
    else if !transferTaskHasWork transfer then none
    else if transferTaskIsBarrier transfer then (collectFrom currentRank true rest).map (transfer :: ·)
    else if transferTaskIsReady transfer then
      if sawExecutableTask || !transferReadyTaskIsKernelPrologue transfer currentRank then none
      else collectFrom currentRank sawExecutableTask rest
    else if !transferTaskIsWindowed transfer then none
    else (collectFrom currentRank true rest).map (transfer :: ·)

def collectRankTransferTasks (limits : LoweringLimits) (plan : TransferPlan) (ctx : LoweringContext) :
    Option RankTransferTaskBuffer :=
  if plan.tasks.length > limits.maxTransferTasks then none
  else (collectFrom ctx.currentRank false plan.tasks).bind recomputeRankTransferTaskStats

def passValidateTransferTasks (ctx : LoweringContext) (tasks : List TransferTask) : Bool :=
  tasks.all fun transfer =>
    transfer.executorRank = ctx.currentRank && transferTaskHasWork transfer &&
      (transferTaskIsBarrier transfer ||
        (!transferTaskIsReady transfer && transferTaskIsWindowed transfer))

def runTransferTaskLoweringPasses (ctx : LoweringContext) (buffer : RankTransferTaskBuffer) :
    Option RankTransferTaskBuffer :=
  if !ctx.options.enableTransferPasses then recomputeRankTransferTaskStats buffer.tasks
  else if !passValidateTransferTasks ctx buffer.tasks then none
  else
    (recomputeRankTransferTaskStats buffer.tasks).bind fun counted =>
      if passValidateTransferTasks ctx counted.tasks then some counted else none

structure LoweringShape where
  tasksPerCta : Int := 0
  ctaCount : Int := 0
  totalWindowTasks : Int := 0
  maxEndWindow : Int := 0
  deriving DecidableEq, Repr

structure ReduceCtaGroup where
  mask : WindowTaskCtaMask := 0
  firstCta : Int := 0
  ctaCount : Int := 0
  deriving DecidableEq, Repr

def makeContiguousCtaMask (firstCta ctaCount : Int) : WindowTaskCtaMask :=
  if firstCta < 0 ∨ ctaCount ≤ 0 ∨ firstCta ≥ kWindowTaskMaxCtas then 0
  else
    let endCta := min (firstCta + ctaCount) kWindowTaskMaxCtas
    (List.range (endCta - firstCta).toNat).foldl
      (fun mask step => mask ||| (1 : WindowTaskCtaMask) <<< (firstCta.toNat + step)) 0

def reduceCtaGroupForTask (reduceTaskIndex launchedCtas maxCtasPerReduceTask : Int) : ReduceCtaGroup :=
  if reduceTaskIndex < 0 ∨ launchedCtas ≤ 0 ∨ maxCtasPerReduceTask ≤ 0 then {}
  else
    let usableCtas := min launchedCtas kWindowTaskMaxCtas
    let groupSize := min maxCtasPerReduceTask usableCtas
    let groupCount := ceilDivInt usableCtas groupSize
    let groupIndex := reduceTaskIndex % groupCount
    let firstCta := groupIndex * groupSize
    let ctaCount := min groupSize (usableCtas - firstCta)
    { firstCta, ctaCount, mask := makeContiguousCtaMask firstCta ctaCount }

def reducesBefore (tasks : List TransferTask) (index : Nat) : Nat :=
  (tasks.take index).countP fun task => task.op = .reduce

/-- Whether the task right before a barrier already ran on every launched CTA. -/
def barrierFollowsFullCtaReduce (ctx : LoweringContext) (tasks : List TransferTask)
    (barrierTaskIndex : Nat) (launchedCtas : Int) : Bool :=
  match barrierTaskIndex with
  | 0 => false
  | producerIndex + 1 =>
    match tasks[producerIndex]? with
    | none => false
    | some producer =>
      if producer.op = .reduceFanout then true
      else if producer.op ≠ .reduce then false
      else if !ctx.options.enableReduceCtaGroups then true
      else
        let group := reduceCtaGroupForTask (reducesBefore tasks producerIndex) launchedCtas
          ctx.options.maxCtasPerReduceTask
        group.firstCta = 0 && group.ctaCount = launchedCtas

def tasksPerCta (buffer : RankTransferTaskBuffer) : Int :=
  buffer.barrierCount + buffer.windowCount

/-- CTAs that the windows, the task capacity and the mask width all admit. -/
def launchedCtaCount (limits : LoweringLimits) (ctx : LoweringContext) (buffer : RankTransferTaskBuffer) :
    Int :=
  let byWindows :=
    if buffer.windowCount > 0 then ctaCountForWindows buffer.maxEndWindow ctx.launchConfig.maxCtas else 1
  let byPlan := min byWindows ((limits.maxWindowTasks : Int) / tasksPerCta buffer)
  if ctx.options.enableReduceCtaGroups then min byPlan kWindowTaskMaxCtas else byPlan

def computeLoweringShape (limits : LoweringLimits) (ctx : LoweringContext)
    (buffer : RankTransferTaskBuffer) : Option LoweringShape :=
  if buffer.barrierCount = 0 ∧ buffer.windowCount = 0 then some { maxEndWindow := buffer.maxEndWindow }
  else if tasksPerCta buffer ≤ 0 ∨ tasksPerCta buffer > limits.maxWindowTasks then none
  else if (limits.maxWindowTasks : Int) / tasksPerCta buffer ≤ 0 then none
  else if launchedCtaCount limits ctx buffer ≤ 0 then
    some { tasksPerCta := tasksPerCta buffer, ctaCount := launchedCtaCount limits ctx buffer,
           maxEndWindow := buffer.maxEndWindow }
  else if launchedCtaCount limits ctx buffer * tasksPerCta buffer > limits.maxWindowTasks then none
  else
    some { tasksPerCta := tasksPerCta buffer, ctaCount := launchedCtaCount limits ctx buffer,
           totalWindowTasks := launchedCtaCount limits ctx buffer * tasksPerCta buffer,
           maxEndWindow := buffer.maxEndWindow }

section Emission

variable (limits : LoweringLimits) (binding : RankPointerBinding) (ctx : LoweringContext)
  (shape : LoweringShape)

/-- Lowers the windows `[beginWindow, endWindow)` of a task, resolving its pointers. -/
def lowerWindows (transfer : TransferTask) (ctaMask : WindowTaskCtaMask) (beginWindow endWindow : Int) :
    Option WindowTask :=
  if beginWindow ≥ endWindow then some { ctaMask }
  else
    let src := resolveLogicalConstPtr limits transfer.src binding
    if transfer.op = .copyFanout ∨ transfer.op = .reduceFanout then
      if src = 0 ∨ transfer.fanoutDstCount ≤ 0 ∨ transfer.fanoutDstCount > tmaTwoGpuPeerMaxFanoutDsts then
        none
      else
        let fanoutDsts := (List.range transfer.fanoutDstCount.toNat).map fun index =>
          resolveLogicalMutPtr limits (transfer.fanoutDsts.getD index {}) binding
        if fanoutDsts.any (· = 0) then none
        else
          (lowerFanoutTransferTaskToWindowTask transfer src fanoutDsts beginWindow endWindow).map
            fun lowered => { lowered with ctaMask }
    else
      (lowerTransferTaskToWindowTask transfer src (resolveLogicalMutPtr limits transfer.dst binding)
        beginWindow endWindow).map fun lowered => { lowered with ctaMask }

/-- Share of the launch that every CTA gets of a task spread over all of them. -/
def fullCtaRange (windowCount ctaIdx : Int) : WindowRange :=
  if windowCount > 0 then
    ctaWindowRange ctaIdx shape.ctaCount { beginWindow := 0, endWindow := shape.maxEndWindow }
  else {}

def usesReduceGroup (transfer : TransferTask) : Bool :=
  ctx.options.enableReduceCtaGroups && transfer.op = .reduce

/-- Window task of one CTA for one windowed transfer task. -/
def lowerTaskForCta (windowCount ctaIdx reduceTaskIndex : Int) (transfer : TransferTask) :
    Option WindowTask :=
  if usesReduceGroup ctx transfer then
    let group := reduceCtaGroupForTask reduceTaskIndex shape.ctaCount ctx.options.maxCtasPerReduceTask
    if ctaIdx < group.firstCta ∨ ctaIdx ≥ group.firstCta + group.ctaCount then
      some { ctaMask := group.mask }
    else
      let range := ctaWindowRange (ctaIdx - group.firstCta) group.ctaCount
        { beginWindow := transfer.beginWindow, endWindow := transfer.endWindow }
      lowerWindows limits binding transfer group.mask (max transfer.beginWindow range.beginWindow)
        (min transfer.endWindow range.endWindow)
  else
    let range := fullCtaRange shape windowCount ctaIdx
    lowerWindows limits binding transfer kWindowTaskAllCtas
      (max transfer.beginWindow range.beginWindow) (min transfer.endWindow range.endWindow)

def barrierTarget (activeBarrierIndex : Int) : Nat :=
  toUInt32 (ctx.options.ctaBarrierStart + toUInt32 ((activeBarrierIndex + 1) * shape.ctaCount).toNat)

/-- Stripe of one CTA from task `index` on, with the reductions and active barriers counted so far. -/
def emitStripeFrom (buffer : RankTransferTaskBuffer) (ctaIdx : Int) :
    Nat → Int → Int → List TransferTask → Option (List WindowTask)
  | _, _, _, [] => some []
  | index, reduceTaskIndex, activeBarrierIndex, transfer :: rest =>
    if transferTaskIsBarrier transfer then
      if barrierFollowsFullCtaReduce ctx buffer.tasks index shape.ctaCount then
        (emitStripeFrom buffer ctaIdx (index + 1) reduceTaskIndex activeBarrierIndex rest).map ({} :: ·)
      else
        (emitStripeFrom buffer ctaIdx (index + 1) reduceTaskIndex (activeBarrierIndex + 1) rest).map
          (makeBarrierTask (barrierTarget ctx shape activeBarrierIndex) :: ·)
    else
      (lowerTaskForCta limits binding ctx shape buffer.windowCount ctaIdx reduceTaskIndex transfer).bind
        fun lowered =>
          (emitStripeFrom buffer ctaIdx (index + 1)
            (if usesReduceGroup ctx transfer then reduceTaskIndex + 1 else reduceTaskIndex)
            activeBarrierIndex rest).map (lowered :: ·)

def emitStripe (buffer : RankTransferTaskBuffer) (ctaIdx : Nat) : Option (List WindowTask) :=
  (emitStripeFrom limits binding ctx shape buffer ctaIdx 0 0 0 buffer.tasks).bind fun stripe =>
    if (stripe.length : Int) ≠ shape.tasksPerCta then none else some stripe

def emitWindowPlanFromRankTasks (buffer : RankTransferTaskBuffer) :
    Option (WindowTaskExecutorPlan × Int) :=
  if shape.ctaCount ≤ 0 ∨ shape.tasksPerCta ≤ 0 then some ({}, 0)
  else if shape.totalWindowTasks > limits.maxWindowTasks then none
  else
    ((List.range shape.ctaCount.toNat).mapM (emitStripe limits binding ctx shape buffer)).map fun stripes =>
      ({ totalTasks := shape.totalWindowTasks, tasksPerCta := shape.tasksPerCta, tasks := stripes.flatten },
        shape.ctaCount)

end Emission

def passValidateWindowPlanShape (limits : LoweringLimits) (plan : WindowTaskExecutorPlan) (numBlocks : Int) :
    Bool :=
  if numBlocks < 0 ∨ plan.totalTasks < 0 ∨ plan.totalTasks > limits.maxWindowTasks ∨ plan.tasksPerCta < 0
  then false
  else if numBlocks = 0 then plan.totalTasks = 0 && plan.tasksPerCta = 0
  else if plan.tasksPerCta ≤ 0 then false
  else plan.totalTasks = numBlocks * plan.tasksPerCta

def passValidateExecutorTaskLimit (ctx : LoweringContext) (plan : WindowTaskExecutorPlan) : Bool :=
  if !ctx.options.enforceExecutorTaskLimit then true
  else plan.tasksPerCta ≤ ctx.options.maxExecutableTasksPerCta

def runWindowPlanLoweringPasses (limits : LoweringLimits) (ctx : LoweringContext)
    (plan : WindowTaskExecutorPlan) (numBlocks : Int) : Bool :=
  if !ctx.options.enableWindowPasses then passValidateWindowPlanShape limits plan numBlocks
  else passValidateWindowPlanShape limits plan numBlocks && passValidateExecutorTaskLimit ctx plan

/-- The passes of the lowering; `none` is the `false` return. -/
def lowerPasses (limits : LoweringLimits) (plan : TransferPlan) (binding : RankPointerBinding)
    (launchConfig : LaunchConfig) (options : LoweringPassOptions) : Option (WindowTaskExecutorPlan × Int) := do
  let ctx ← makeLoweringContext limits binding launchConfig options
  let collected ← collectRankTransferTasks limits plan ctx
  let buffer ← runTransferTaskLoweringPasses ctx collected
  let shape ← computeLoweringShape limits ctx buffer
  if shape.ctaCount ≤ 0 ∨ shape.tasksPerCta ≤ 0 then return ({}, 0)
  let (windowPlan, numBlocks) ← emitWindowPlanFromRankTasks limits binding ctx shape buffer
  if runWindowPlanLoweringPasses limits ctx windowPlan numBlocks then return (windowPlan, numBlocks)
  else none

/-- Success flag, window plan and block count; a failed lowering leaves an empty plan and no blocks. -/
def lowerTransferPlanForRank (limits : LoweringLimits) (plan : TransferPlan) (binding : RankPointerBinding)
    (launchConfig : LaunchConfig) (options : LoweringPassOptions) : Bool × WindowTaskExecutorPlan × Int :=
  match lowerPasses limits plan binding launchConfig options with
  | some (windowPlan, numBlocks) => (true, windowPlan, numBlocks)
  | none => (false, {}, 0)

end Ooverlap.Lowering
