import Ooverlap.Plan.Topology

/-! Statuses, types of elements, buffers and groups of the public interface. -/

namespace Ooverlap.Api

inductive OoStatus where
  | success
  | invalidArgument
  | invalidDevice
  | unsupported
  | cuda
  | internal
  deriving DecidableEq, Repr

inductive OoDtype where
  | float16
  | bfloat16
  | float32
  deriving DecidableEq, Repr

def ooDtypeSize : OoDtype → Nat
  | .float16 | .bfloat16 => 2
  | .float32 => 4

inductive OoReduceOp where
  | add
  | min
  | max
  deriving DecidableEq, Repr

abbrev Address := Nat

inductive PeerBufferKind where
  | empty
  | ownedVmm
  | wrapped
  | importedLegacy
  | importedVmm
  deriving DecidableEq, Repr

structure OoBuffer where
  ptr : Address := 0
  bytes : Nat := 0
  mappedBytes : Nat := 0
  ipcBasePtr : Address := 0
  ipcBaseBytes : Nat := 0
  ipcLogicalOffsetBytes : Nat := 0
  group : Address := 0
  ownerRank : Int := -1
  ownerDevice : Int := -1
  ipcCacheToken : Nat := 0
  systemKind : PeerBufferKind := .empty
  deriving DecidableEq, Repr

structure OoStagingBuffer where
  devicePtr : Address := 0
  bytes : Nat := 0
  numaNode : Int := -1
  deriving DecidableEq, Repr

structure OoReadySignal where
  ptr : Address := 0
  bytes : Nat := 0
  deriving DecidableEq, Repr

inductive GroupBootstrapKind where
  | sameProcess
  | multiprocessIpc
  deriving DecidableEq, Repr

/-- What a group fixes when it is created; its topology is absent while `topology_valid` is false. -/
structure OoGroup where
  address : Address := 0
  numDevices : Int := 0
  devices : Int → Int := fun _ => 0
  topology : Option Plan.Topology := none
  bootstrapKind : GroupBootstrapKind := .sameProcess
  stagingSlots : Int → OoStagingBuffer := fun _ => {}
  readySignalSlots : Int → OoReadySignal := fun _ => {}
  hostReadySignalSlots : Int → OoReadySignal := fun _ => {}

end Ooverlap.Api
