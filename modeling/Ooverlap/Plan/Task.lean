import Mathlib.Tactic.Simps.Basic
import Ooverlap.Plan.Config

/-! Pointer-free transfer tasks and bounded transfer plans. -/

namespace Ooverlap.Plan

inductive TransferOp where
  | none
  | copy
  | reduce
  | readyPublish
  | readyWait
  | copyFanout
  | reduceFanout
  | barrier
  deriving DecidableEq, Repr

inductive ReadySignalChannel where
  | deviceMemory
  | hostMapped
  deriving DecidableEq, Repr

/-- Integer stored in a task for a ready-signal channel. -/
def ReadySignalChannel.index : ReadySignalChannel → Int
  | .deviceMemory => 0
  | .hostMapped => 1

def kReadySignalChannelCount : Int := 2
def kReadySignalPhaseStride : Int := 1024

inductive TransportKind where
  | directNvlink
  | directPcie
  | shm
  deriving DecidableEq, Repr

inductive LogicalBufferRole where
  | rankBuffer
  | rankInput
  | rankOutput
  | shmStaging
  deriving DecidableEq, Repr

structure LogicalBufferRef where
  role : LogicalBufferRole := .rankBuffer
  ownerRank : Int := -1
  stagingSlot : Int := -1
  byteOffset : Nat := 0
  deriving DecidableEq, Repr

def rankBufferRef (rank : Int) (byteOffset : Nat := 0) : LogicalBufferRef :=
  { role := .rankBuffer, ownerRank := rank, byteOffset }

def rankInputRef (rank : Int) (byteOffset : Nat := 0) : LogicalBufferRef :=
  { role := .rankInput, ownerRank := rank, byteOffset }

def rankOutputRef (rank : Int) (byteOffset : Nat := 0) : LogicalBufferRef :=
  { role := .rankOutput, ownerRank := rank, byteOffset }

def shmStagingRef (stagingSlot : Int) (byteOffset : Nat := 0) : LogicalBufferRef :=
  { role := .shmStaging, stagingSlot, byteOffset }

/-- One logical transfer of a plan; every field keeps the default of the source. -/
structure TransferTask where
  op : TransferOp := .none
  executorRank : Int := -1
  srcRank : Int := -1
  dstRank : Int := -1
  src : LogicalBufferRef := {}
  dst : LogicalBufferRef := {}
  fanoutDsts : List LogicalBufferRef := []
  fanoutDstCount : Int := 0
  fanoutDstRank : List Int := []
  fanoutReduceScope : List Int := []
  bytes : Nat := 0
  beginWindow : Int := 0
  endWindow : Int := 0
  windowChunks : Int := 0
  transport : TransportKind := .directNvlink
  requiresTmaLoad : Bool := false
  requiresTmaStore : Bool := false
  requiresTmaReduce : Bool := false
  requiresNativeAtomic : Bool := false
  terminal : Bool := false
  phase : Int := 0
  readyRank : Int := -1
  readyChannel : Int := 0
  readyPhase : Int := 0
  deriving DecidableEq, Repr

namespace TransferTask

@[simps] def setTerminal (task : TransferTask) (terminal : Bool) : TransferTask :=
  { task with terminal }

@[simps] def setPhase (task : TransferTask) (phase : Int) : TransferTask :=
  { task with phase }

@[simp] theorem setTerminal_self (task : TransferTask) : task.setTerminal task.terminal = task := rfl

@[simp] theorem setTerminal_setTerminal (task : TransferTask) (first second : Bool) :
    (task.setTerminal first).setTerminal second = task.setTerminal second := rfl

end TransferTask

structure TransferPlan where
  worldSize : Int := 0
  tasks : List TransferTask := []
  deriving DecidableEq, Repr

/-- Tasks one rank executes, in plan order. -/
def rankTasks (plan : TransferPlan) (rank : Int) : List TransferTask :=
  plan.tasks.filter fun task => task.executorRank = rank

def transferTaskHasWork (task : TransferTask) : Bool :=
  match task.op with
  | .barrier => task.executorRank ≥ 0 && task.bytes != 0
  | .readyPublish | .readyWait =>
    task.executorRank ≥ 0 && task.readyRank ≥ 0 && task.readyChannel ≥ 0 &&
      task.readyChannel < kReadySignalChannelCount && task.readyPhase ≥ 0 &&
      task.readyPhase < kReadySignalPhaseStride
  | .copyFanout | .reduceFanout =>
    task.executorRank ≥ 0 && task.bytes != 0 && task.windowChunks > 0 &&
      task.beginWindow < task.endWindow && task.fanoutDstCount > 0 &&
      task.fanoutDstCount ≤ tmaTwoGpuPeerMaxFanoutDsts
  | .copy | .reduce =>
    task.executorRank ≥ 0 && task.bytes != 0 && task.windowChunks > 0 &&
      task.beginWindow < task.endWindow
  | .none => false

end Ooverlap.Plan
