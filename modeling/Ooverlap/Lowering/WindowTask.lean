import Mathlib.Data.BitVec
import Ooverlap.Plan.Task
import Ooverlap.Support.Word

/-! Lowered window tasks, as the by-value kernel plan stores them. -/

namespace Ooverlap.Lowering

open Plan Word

def kWindowTaskMaxCtas : Int := tmaTwoGpuPeerMaxCtas

/-- Address in the view of one process; zero is the null pointer. -/
abbrev Pointer := Nat

abbrev WindowTaskCtaMask := BitVec 32

def kWindowTaskAllCtas : WindowTaskCtaMask := BitVec.allOnes 32
def kWindowTaskMaxBytes : Nat := 2 ^ 32 - 1

inductive WindowTaskOp where
  | none
  | reduceTma
  | copyTma
  | copyFast
  | copyTmaFanout
  | reduceTmaFanout
  | barrier
  deriving DecidableEq, Repr

structure WindowTaskWindowPayload where
  src : Pointer := 0
  dst : Pointer := 0
  totalBytes : Nat := 0
  beginWindow : Int := 0
  endWindow : Int := 0
  windowChunks : Int := 0
  deriving DecidableEq, Repr

structure WindowTaskFanoutPayload where
  src : Pointer := 0
  fanoutDsts : List Pointer := []
  totalBytes : Nat := 0
  beginWindow : Int := 0
  endWindow : Int := 0
  windowChunks : Int := 0
  fanoutDstCount : Nat := 0
  fanoutReduceScope : List Nat := []
  deriving DecidableEq, Repr

inductive WindowTaskPayload where
  | window (payload : WindowTaskWindowPayload)
  | fanout (payload : WindowTaskFanoutPayload)
  | barrierTarget (target : Nat)
  deriving DecidableEq, Repr

structure WindowTask where
  op : WindowTaskOp := .none
  terminal : Bool := false
  ctaMask : WindowTaskCtaMask := kWindowTaskAllCtas
  payload : WindowTaskPayload := .window {}
  deriving DecidableEq, Repr

def windowTaskRunsOnCta (task : WindowTask) (ctaIdx : Int) : Bool :=
  if ctaIdx < 0 ∨ ctaIdx ≥ kWindowTaskMaxCtas then false
  else task.ctaMask.getLsbD ctaIdx.toNat

def makeBarrierTask (barrierTarget : Nat) : WindowTask where
  op := .barrier
  payload := .barrierTarget barrierTarget

def makeWindowTask (op : WindowTaskOp) (src dst : Pointer) (totalBytes : Nat)
    (beginWindow endWindow windowChunks : Int) (terminal : Bool) : WindowTask :=
  if totalBytes > kWindowTaskMaxBytes then {}
  else { op, terminal, payload := .window { src, dst, totalBytes, beginWindow, endWindow, windowChunks } }

def makeReduceTmaTask : Pointer → Pointer → Nat → Int → Int → Int → Bool → WindowTask :=
  makeWindowTask .reduceTma

def makeCopyTmaTask : Pointer → Pointer → Nat → Int → Int → Int → Bool → WindowTask :=
  makeWindowTask .copyTma

def makeCopyFastTask : Pointer → Pointer → Nat → Int → Int → Int → Bool → WindowTask :=
  makeWindowTask .copyFast

/-- Fanout task over the first destinations that fit. -/
def makeFanoutTask (op : WindowTaskOp) (src : Pointer) (fanoutDsts : List Pointer) (scopes : List Nat)
    (totalBytes : Nat) (beginWindow endWindow windowChunks : Int) (terminal : Bool) : WindowTask :=
  if totalBytes > kWindowTaskMaxBytes then {}
  else
    { op, terminal,
      payload := .fanout
        { src, fanoutDsts := fanoutDsts.take tmaTwoGpuPeerMaxFanoutDsts, totalBytes, beginWindow, endWindow,
          windowChunks, fanoutDstCount := min fanoutDsts.length tmaTwoGpuPeerMaxFanoutDsts,
          fanoutReduceScope := scopes.take tmaTwoGpuPeerMaxFanoutDsts } }

def makeCopyTmaFanoutTask (src : Pointer) (fanoutDsts : List Pointer) (totalBytes : Nat)
    (beginWindow endWindow windowChunks : Int) (terminal : Bool) : WindowTask :=
  makeFanoutTask .copyTmaFanout src fanoutDsts [] totalBytes beginWindow endWindow windowChunks terminal

def makeReduceTmaFanoutTask (src : Pointer) (fanoutDsts : List Pointer) (fanoutReduceScope : List Int)
    (totalBytes : Nat) (beginWindow endWindow windowChunks : Int) (terminal : Bool) : WindowTask :=
  makeFanoutTask .reduceTmaFanout src fanoutDsts (fanoutReduceScope.map fun scope => (scope % 256).toNat)
    totalBytes beginWindow endWindow windowChunks terminal

def windowTaskHasWork (task : WindowTask) : Bool :=
  match task.op, task.payload with
  | .copyTmaFanout, .fanout payload | .reduceTmaFanout, .fanout payload =>
    payload.src != 0 && payload.fanoutDstCount > 0 && payload.totalBytes > 0 && payload.windowChunks > 0 &&
      payload.beginWindow < payload.endWindow
  | .reduceTma, .window payload | .copyTma, .window payload | .copyFast, .window payload =>
    payload.src != 0 && payload.dst != 0 && payload.totalBytes > 0 && payload.windowChunks > 0 &&
      payload.beginWindow < payload.endWindow
  | .barrier, .barrierTarget target => target > 0
  | _, _ => false

/-- Stripes of all CTAs, stored one after the other; only the first `totalTasks` slots are read. -/
structure WindowTaskExecutorPlan where
  totalTasks : Int := 0
  tasksPerCta : Int := 0
  tasks : List WindowTask := []
  deriving DecidableEq, Repr

/-- An empty slot is cleared in place; its old payload stays behind. -/
def packWindowTask (source destination : WindowTask) : WindowTask :=
  if source.op = .none then { destination with op := .none, ctaMask := 0, terminal := false }
  else source

/-- Packs a plan into a destination block that may still hold an earlier plan. -/
def windowTaskExecutorPlanPack (source destination : WindowTaskExecutorPlan) : WindowTaskExecutorPlan where
  totalTasks := source.totalTasks
  tasksPerCta := source.tasksPerCta
  tasks := destination.tasks.mapIdx fun index old =>
    match source.tasks[index]? with
    | some task => if (index : Int) < source.totalTasks then packWindowTask task old else old
    | none => old

section Executor

variable (plan : WindowTaskExecutorPlan) (ctaIdx : Int)

/-- Tasks one CTA performs from local position `local` on, `remaining` positions at most. -/
def executeStripeFrom : Nat → Nat → List (Nat × WindowTask)
  | 0, _ => []
  | remaining + 1, position =>
    let taskIdx := ctaIdx * plan.tasksPerCta + position
    if taskIdx ≥ plan.totalTasks then []
    else
      match plan.tasks[taskIdx.toNat]? with
      | none => []
      | some task =>
        if !windowTaskRunsOnCta task ctaIdx then executeStripeFrom remaining (position + 1)
        else if task.terminal then [(position, task)]
        else (position, task) :: executeStripeFrom remaining (position + 1)

/-- Local positions and window tasks that `execute_window_task_stripe` performs on one CTA, in order. -/
def executeWindowTaskStripe : List (Nat × WindowTask) :=
  if plan.totalTasks ≤ 0 ∨ plan.tasksPerCta ≤ 0 ∨ ctaIdx < 0 then []
  else if ctaIdx * plan.tasksPerCta ≥ plan.totalTasks then []
  else executeStripeFrom plan ctaIdx plan.tasksPerCta.toNat 0

end Executor

end Ooverlap.Lowering
