import Ooverlap.Plan.AllReduceShape
import Ooverlap.Support.Interleaving

/-! Meaning of a transfer plan: what its tasks do to the logical buffers, in any interleaving. -/

namespace Ooverlap.Semantics

open Ooverlap.Plan Ooverlap.Interleaving

/-- Logical buffer without the offset at which a task refers to it. -/
structure BufferId where
  role : LogicalBufferRole
  ownerRank : Int
  stagingSlot : Int
  deriving DecidableEq, Repr

def bufferOf (ref : LogicalBufferRef) : BufferId :=
  ⟨ref.role, ref.ownerRank, ref.stagingSlot⟩

def rankBuffer (rank : Int) : BufferId :=
  bufferOf (rankBufferRef rank)

/-- Element contents of every buffer and the last ready phase each rank published per channel. -/
structure Shared (M : Type) where
  mem : BufferId → Nat → M
  published : Int → Int → Int

section Effects

variable {M : Type} (dtypeSize : Nat)

/-- Whether the element at `index` lies in the byte range a task addresses through `ref`. -/
def covered (ref : LogicalBufferRef) (bytes : Nat) (buffer : BufferId) (index : Nat) : Bool :=
  bufferOf ref == buffer && ref.byteOffset ≤ index * dtypeSize &&
    index * dtypeSize < ref.byteOffset + bytes

/-- Source element that lines up with the destination element `index`. -/
def sourceElement (src dst : LogicalBufferRef) (index : Nat) : Nat :=
  (src.byteOffset + (index * dtypeSize - dst.byteOffset)) / dtypeSize

/-- Atomic effect of a data task: every destination element combines with its source element. -/
def transferElements (combine : M → M → M) (task : TransferTask) (mem : BufferId → Nat → M) :
    BufferId → Nat → M := fun buffer index =>
  match (AllReduce.destinationRefs task).find? (fun dst => covered dtypeSize dst task.bytes buffer index) with
  | some dst => combine (mem buffer index)
      (mem (bufferOf task.src) (sourceElement dtypeSize task.src dst index))
  | none => mem buffer index

/-- The published phase of a rank on a channel only grows. -/
def publishPhase (rank channel phase : Int) (published : Int → Int → Int) : Int → Int → Int :=
  Function.update published rank
    (Function.update (published rank) channel (max (published rank channel) phase))

variable [AddCommMonoid M]

def taskEffect (task : TransferTask) (shared : Shared M) : Shared M :=
  match task.op with
  | .copy | .copyFanout =>
    { shared with mem := transferElements dtypeSize (fun _ new => new) task shared.mem }
  | .reduce | .reduceFanout =>
    { shared with mem := transferElements dtypeSize (fun old new => old + new) task shared.mem }
  | .readyPublish =>
    { shared with
      published := publishPhase task.readyRank task.readyChannel task.readyPhase shared.published }
  | .readyWait | .barrier | .none => shared

/-- Only a wait can block: until its owner has published the phase on the channel. -/
def taskEnabled (task : TransferTask) (shared : Shared M) : Prop :=
  match task.op with
  | .readyWait => task.readyPhase ≤ shared.published task.readyRank task.readyChannel
  | _ => True

def planProgram (plan : TransferPlan) : Program Int TransferTask (Shared M) where
  code := rankTasks plan
  enabled := taskEnabled
  effect := taskEffect dtypeSize

/-- Before a collective no rank has published any phase of it. -/
def entryState (mem : BufferId → Nat → M) : Shared M where
  mem := mem
  published _ _ := -1

end Effects

/-- In-place all-reduce: no run gets stuck, and every finished run leaves the sum over all ranks
in every element of every rank's buffer, over every commutative monoid. -/
def SumsEverywhere (input : TransferPlanBuildInput) (plan : TransferPlan) : Prop :=
  ∀ (M : Type) [AddCommMonoid M] (mem : BufferId → Nat → M),
    let program := planProgram (M := M) input.dtypeSize plan
    Completes program.Step (Program.start (entryState mem)) program.Finished ∧
    ∀ state, program.Reachable (entryState mem) state → program.Finished state →
      ∀ rank ∈ intRange input.worldSize, ∀ index < input.count,
        state.shared.mem (rankBuffer rank) index =
          ((intRange input.worldSize).map fun peer => mem (rankBuffer peer) index).sum

end Ooverlap.Semantics
