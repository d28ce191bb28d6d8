import Ooverlap.Plan.Detail

/-! The two list passes that the all-reduce planner runs after emission. -/

namespace Ooverlap.Plan.AllReduce

def logicalBufferIsLocalDeviceBuffer (ref : LogicalBufferRef) (executorRank : Int) : Bool :=
  executorRank ≥ 0 && ref.ownerRank == executorRank &&
    (ref.role == .rankBuffer || ref.role == .rankOutput)

def logicalBufferRefSameFanoutLayout (lhs rhs : LogicalBufferRef) : Bool :=
  lhs.role == rhs.role && lhs.stagingSlot == rhs.stagingSlot && lhs.byteOffset == rhs.byteOffset

def kTmaBulkAlignment : Nat := 16

def copyTaskIsFanoutEligible (task : TransferTask) : Bool :=
  task.op == .copy && task.executorRank ≥ 0 && task.srcRank == task.executorRank &&
    task.dstRank ≥ 0 && task.dstRank != task.executorRank && task.dst.ownerRank == task.dstRank &&
    (task.dst.role == .rankBuffer || task.dst.role == .rankOutput) &&
    logicalBufferIsLocalDeviceBuffer task.src task.executorRank && task.bytes != 0 &&
    task.beginWindow == 0 && task.beginWindow < task.endWindow && task.windowChunks > 0 &&
    transportUsesDirectTma task.transport && task.requiresTmaLoad && task.requiresTmaStore &&
    !task.requiresTmaReduce && !task.requiresNativeAtomic &&
    task.src.byteOffset % kTmaBulkAlignment == 0 && task.dst.byteOffset % kTmaBulkAlignment == 0 &&
    task.bytes % kTmaBulkAlignment == 0

def copyTasksShareFanoutShape (first previous candidate : TransferTask) : Bool :=
  copyTaskIsFanoutEligible first && copyTaskIsFanoutEligible candidate && !previous.terminal &&
    candidate.phase == previous.phase + 1 && candidate.executorRank == first.executorRank &&
    candidate.srcRank == first.srcRank && candidate.src == first.src &&
    candidate.bytes == first.bytes && candidate.beginWindow == first.beginWindow &&
    candidate.endWindow == first.endWindow && candidate.windowChunks == first.windowChunks &&
    candidate.transport == first.transport && candidate.requiresTmaLoad == first.requiresTmaLoad &&
    candidate.requiresTmaStore == first.requiresTmaStore &&
    candidate.requiresTmaReduce == first.requiresTmaReduce &&
    candidate.requiresNativeAtomic == first.requiresNativeAtomic &&
    logicalBufferRefSameFanoutLayout candidate.dst first.dst

def copyDestinationIsDistinct (group : List TransferTask) (candidate : TransferTask) : Bool :=
  group.all fun existing => existing.dstRank != candidate.dstRank && existing.dst != candidate.dst

/-- Whether `candidate` extends the group of consecutive copies collected so far. -/
def joinsFanoutGroup (group : List TransferTask) (candidate : TransferTask) : Bool :=
  match group with
  | [] => false
  | first :: rest =>
    group.length < tmaTwoGpuPeerMaxFanoutDsts &&
      copyTasksShareFanoutShape first (rest.getLastD first) candidate &&
      copyDestinationIsDistinct group candidate

def fanoutOfGroup (first last : TransferTask) (group : List TransferTask) : TransferTask :=
  { first with
    op := .copyFanout
    dst := {}
    fanoutDstCount := group.length
    fanoutDsts := group.map TransferTask.dst
    fanoutDstRank := group.map TransferTask.dstRank
    fanoutReduceScope := group.map fun _ => 0
    dstRank := first.dstRank
    terminal := last.terminal }

/-- A group of at least two copies becomes one fanout task. -/
def flushFanoutGroup (group : List TransferTask) : List TransferTask :=
  match group with
  | first :: second :: rest => [fanoutOfGroup first (rest.getLastD second) group]
  | _ => group

/-- Scan of the task list; `group` holds the tasks from the current read position on. -/
def coalesceFrom : List TransferTask → List TransferTask → List TransferTask
  | group, [] => flushFanoutGroup group
  | group, task :: rest =>
    if joinsFanoutGroup group task then coalesceFrom (group ++ [task]) rest
    else flushFanoutGroup group ++ coalesceFrom [task] rest

def coalesceAdjacentCopyTasksIntoFanout (tasks : List TransferTask) : List TransferTask :=
  coalesceFrom [] tasks

def reduceTaskWritesRange (task : TransferTask) (executorRank : Int) (range : LogicalBufferRef)
    (bytes : Nat) : Bool :=
  if task.executorRank != executorRank || task.bytes != bytes then false
  else
    match task.op with
    | .reduce => task.dst == range
    | .reduceFanout => (task.fanoutDsts.take task.fanoutDstCount.toNat).any (· == range)
    | _ => false

def barrierMatchesRange (task : TransferTask) (executorRank : Int) (range : LogicalBufferRef)
    (bytes : Nat) : Bool :=
  task.op == .barrier && task.executorRank == executorRank && task.bytes == bytes && task.src == range

def isCopyTask (task : TransferTask) : Bool :=
  task.op == .copy || task.op == .copyFanout

/-- A copy out of a local range that an earlier reduction wrote, with no barrier in between yet. -/
def needsBarrier (previous : List TransferTask) (consumer : TransferTask) : Bool :=
  isCopyTask consumer && consumer.bytes != 0 &&
    logicalBufferIsLocalDeviceBuffer consumer.src consumer.executorRank &&
    previous.any (fun task =>
      reduceTaskWritesRange task consumer.executorRank consumer.src consumer.bytes) &&
    !previous.any (fun task =>
      barrierMatchesRange task consumer.executorRank consumer.src consumer.bytes)

def barrierFor (consumer : TransferTask) : TransferTask :=
  { op := .barrier, executorRank := consumer.executorRank, srcRank := consumer.executorRank,
    dstRank := consumer.executorRank, src := consumer.src, dst := consumer.src,
    bytes := consumer.bytes, phase := consumer.phase }

/-- Insertion scan: `previous` is the finished prefix; no room left makes the pass fail. -/
def insertBarriersFrom (cap : Nat) : List TransferTask → List TransferTask → Option (List TransferTask)
  | previous, [] => some previous
  | previous, consumer :: rest =>
    if needsBarrier previous consumer then
      if previous.length + (consumer :: rest).length ≥ cap then none
      else insertBarriersFrom cap (previous ++ [barrierFor consumer, consumer]) rest
    else insertBarriersFrom cap (previous ++ [consumer]) rest

/-- Renumbers the local phases of every rank in plan order. -/
def renumberPhases : (Int → Int) → List TransferTask → List TransferTask
  | _, [] => []
  | phaseByRank, task :: rest =>
    if task.executorRank ≥ 0 ∧ task.executorRank < (kPlannerMaxRanks : Int) then
      task.setPhase (phaseByRank task.executorRank) ::
        renumberPhases (Function.update phaseByRank task.executorRank
          (phaseByRank task.executorRank + 1)) rest
    else task :: renumberPhases phaseByRank rest

def insertLocalReduceCopyBarriers (cap : Nat) (tasks : List TransferTask) : Option (List TransferTask) :=
  (insertBarriersFrom cap [] tasks).map (renumberPhases fun _ => 0)

end Ooverlap.Plan.AllReduce
