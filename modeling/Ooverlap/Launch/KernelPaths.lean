import Ooverlap.Launch.FastEligibility

/-! Which kernel a rank launches for a collective, and that the ranks of one call never choose differently. -/

namespace Ooverlap.Launch

open Api (OoStatus OoDtype OoReduceOp ooDtypeSize Address OoBuffer checkedElementOffsetBytes fillTensorSlice)
open Plan (tmaTwoGpuPeerSmallTaskBytes tmaTwoGpuPeerMaxCtas)
open Relation Word

section Enqueue

end Enqueue

/-- A call of one rank in a state that its process can reach, with its own buffer, which is the one bound for it where
the caller has bound buffers. A call that falls back registers its buffer once more and gets the answers `again`. -/
structure RankCall where
  group : LiveGroup
  isAllPeerToPeer : Bool
  node : OoNode group
  mine : Option Address
  prebound : Option PreboundRankBuffers
  answers : IpcAnswers
  again : IpcAnswers
  sliceWanted : Bool
  process : Process
  run : ReflTransGen (Step group) {} process
  own : ∀ address buffer, mine = some address → process.heap address = some buffer →
    OwnBuffer node process address buffer

namespace RankCall

variable (call : RankCall) (elementOffset count : Nat) (dtype : OoDtype) (op : OoReduceOp)

def registered : OoStatus × Process :=
  match call.mine, call.process.deref call.mine with
  | some address, some buffer =>
    registerRankBuffers call.node call.answers call.prebound address buffer call.process
  | _, _ => (.invalidArgument, call.process)

/-- Where the rank's process has the buffer of a rank once its own is registered. -/
def seen (rank : Nat) : Option Address :=
  (call.registered.2.deref (rankBuffer call.prebound call.registered.2 rank)).map OoBuffer.ptr

def prepared : Except OoStatus CollectiveLaunchState × Process :=
  prepareCollectiveLaunchImpl call.node call.answers call.mine call.prebound elementOffset count dtype call.process

def preparedFast (offsetBytes bytes : Nat) : Except OoStatus FastAllreduceLaunchState × Process :=
  prepareFastAllreduceLaunch call.node call.answers call.mine call.prebound offsetBytes bytes call.process

end RankCall

/-- Two ranks in one call: they are in one group of devices, have been numbered alike, and have every buffer at
addresses that are alike modulo 16. -/
structure SameCall (first second : RankCall) : Prop where
  sizes : first.group.worldSize = second.group.worldSize
  links : first.isAllPeerToPeer = second.isAllPeerToPeer
  epochs : first.process.collectiveEpoch first.node.rank = second.process.collectiveEpoch second.node.rank
  buffers : ∀ rank < first.group.worldSize, ∀ near far, first.seen rank = some near → second.seen rank = some far →
    near % 16 = far % 16

theorem SameCall.symm (same : SameCall first second) : SameCall second first :=
  ⟨same.sizes.symm, same.links.symm, same.epochs.symm,
    fun rank inside near far here there => (same.buffers rank (same.sizes ▸ inside) far near there here).symm⟩

section Prepared

variable {call : RankCall}

/-- A prepared launch, as the tests find it. -/
structure PreparedShape (call : RankCall) (elementOffset count : Nat) (dtype : OoDtype)
    (launch : CollectiveLaunchState) : Prop where
  shaped : Shaped launch count
  size : launch.worldSize = call.group.worldSize
  dtypeSize : launch.dtypeSize = ooDtypeSize dtype
  epoch : launch.collectiveEpoch = toInt32 (call.process.collectiveEpoch call.node.rank + 1)
  pointers : ∀ rank < launch.worldSize, ∃ ptr, call.seen rank = some ptr ∧
    launchRankPtr launch rank = some (ptr + elementOffset * ooDtypeSize dtype)

end Prepared

section Partitioned

variable {first second call : RankCall} {launch other : CollectiveLaunchState}

theorem aligned_alike {near far offset : Nat} (alike : near % 16 = far % 16) (aligned : (near + offset) % 16 = 0) :
    (far + offset) % 16 = 0 := by
  omega

theorem PreparedShape.alike (mine : PreparedShape first elementOffset count dtype launch)
    (theirs : PreparedShape second elementOffset count dtype other) (same : SameCall first second)
    (fit : FastFit launch count) : FastFit other count := by
  have sizes : launch.worldSize = other.worldSize := mine.size.trans (same.sizes.trans theirs.size.symm)
  have dtypes : launch.dtypeSize = other.dtypeSize := mine.dtypeSize.trans theirs.dtypeSize.symm
  have epochs : launch.collectiveEpoch = other.collectiveEpoch := by rw [mine.epoch, theirs.epoch, same.epochs]
  refine ⟨sizes ▸ fit.several, sizes ▸ fit.few, fit.nonempty, epochs ▸ fit.epoch, fun rank inside => ?_,
    fun rank inside ptr found => ?_⟩
  · have part := fit.parts rank (sizes ▸ inside)
    unfold PartFits partBytes at part ⊢
    rwa [sizes, dtypes] at part
  · obtain ⟨near, here, reached⟩ := mine.pointers rank (sizes ▸ inside)
    obtain ⟨far, there, pointer⟩ := theirs.pointers rank inside
    rw [found] at pointer
    rw [Option.some.inj pointer]
    have ranked : rank < first.group.worldSize := by rwa [← mine.size, sizes]
    exact aligned_alike (same.buffers rank ranked near far here there) (fit.aligned rank (sizes ▸ inside) _ reached)

end Partitioned

section Allreduce

variable {first second call : RankCall}

end Allreduce

section Agreement

end Agreement

end Ooverlap.Launch
