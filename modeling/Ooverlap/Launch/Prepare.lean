import Ooverlap.Launch.RankBuffers

/-! Preparation of a collective launch: checks, registration of the buffers, the epoch and the pointers. -/

namespace Ooverlap.Launch

open Api (OoStatus OoDtype ooDtypeSize checkedElementOffsetBytes Address OoBuffer OoReadySignal)
open Word

def kOoReadySignalLegacySlot : Nat := 0
def kOoReadySignalInboxBaseSlot : Nat := 1
def kOoReadySignalSlotsPerRank : Nat := kOoReadySignalInboxBaseSlot + kOoMaxLocalDevices
def kOoReadySignalBytes : Nat := kOoReadySignalSlotsPerRank * 4
def kMaxPublicPeers : Nat := 15

/-- Address of one `int` of a rank's ready signals. -/
def signalSlot (signal : OoReadySignal) (slot : Nat) : Address := signal.ptr + 4 * slot

/-- The buffers of all ranks, where the caller has bound them itself. -/
structure PreboundRankBuffers where
  buffers : Nat → Option Address
  count : Nat

section Checks

variable {group : LiveGroup} (node : OoNode group)

def readySignalUsable (signal : OoReadySignal) : Bool :=
  signal.ptr != 0 && kOoReadySignalBytes ≤ signal.bytes

def rangeInside (buffer : OoBuffer) (offsetBytes bytes : Nat) : Bool :=
  offsetBytes ≤ buffer.bytes && bytes ≤ buffer.bytes - offsetBytes

/-- Where the buffer of a rank is looked up after the registration. -/
def rankBuffer (prebound : Option PreboundRankBuffers) (process : Process) (rank : Nat) : Option Address :=
  match prebound with
  | some bound => bound.buffers rank
  | none => process.collectiveBuffers rank

/-- Whether the caller's own bindings are for this group and this node's buffer. -/
def preboundMatches (prebound : Option PreboundRankBuffers) (mine : Option Address) : Bool :=
  match prebound with
  | some bound => bound.count = group.worldSize && bound.buffers node.rank = mine
  | none => true

/-- The registration that both preparations make for buffers that are not prebound. -/
def registerRankBuffers (answers : IpcAnswers) (prebound : Option PreboundRankBuffers) (mine : Address)
    (buffer : OoBuffer) (process : Process) : OoStatus × Process :=
  match prebound with
  | some _ => (.success, process)
  | none =>
    if group.bootstrapKind = .multiprocessIpc then
      ensureIpcLegacyCollectiveBuffersRegistered node answers mine buffer process
    else (.success, process.present node.rank (some mine))

def publishSlot (peer : Nat) : Address :=
  signalSlot (group.readySignalSlots peer) (kOoReadySignalInboxBaseSlot + node.rank)

def waitSlot (peer : Nat) : Address :=
  signalSlot (group.readySignalSlots node.rank) (kOoReadySignalInboxBaseSlot + peer)

/-- The next epoch of the node, in the 32 bits of an `int`. -/
def advanceEpoch (process : Process) : Process :=
  { process with
    collectiveEpoch := Function.update process.collectiveEpoch node.rank
      (toInt32 (process.collectiveEpoch node.rank + 1)) }

end Checks

section Fast

structure FastPeer where
  ptr : Address
  publishSignal : Address
  waitSignal : Address
  deriving DecidableEq, Repr

structure FastAllreduceLaunchState where
  localPtr : Address
  peers : List FastPeer
  rank : Nat
  worldSize : Nat
  localDevice : Int
  collectiveEpoch : Int
  bytes : Nat
  deriving DecidableEq, Repr

variable {group : LiveGroup} (node : OoNode group)

/-- Logical pointer of one rank, with the checks of the fast preparation. -/
def fastRankPtr (group : LiveGroup) (process : Process) (offsetBytes bytes : Nat) (pointer : Option Address)
    (rank : Nat) : Except OoStatus Address :=
  match process.deref pointer with
  | none => .error .invalidArgument
  | some buffer =>
    if buffer.ptr = 0 ∨ buffer.group ≠ group.address ∨ buffer.ownerRank ≠ rank ∨
        buffer.ownerDevice ≠ group.devices rank ∨ rangeInside buffer offsetBytes bytes = false then
      .error .invalidArgument
    else if (buffer.ptr + offsetBytes) % 16 ≠ 0 then .error .unsupported
    else if readySignalUsable (group.readySignalSlots rank) = false then .error .invalidArgument
    else .ok (buffer.ptr + offsetBytes)

def fastRankPtrs (group : LiveGroup) (process : Process) (prebound : Option PreboundRankBuffers)
    (offsetBytes bytes : Nat) : Except OoStatus (List Address) :=
  (List.range group.worldSize).mapM fun rank =>
    fastRankPtr group process offsetBytes bytes (rankBuffer prebound process rank) rank

/-- The epoch advances only when every check has passed. -/
def prepareFastAllreduceLaunch (answers : IpcAnswers) (mine : Option Address)
    (prebound : Option PreboundRankBuffers) (offsetBytes bytes : Nat) (process : Process) :
    Except OoStatus FastAllreduceLaunchState × Process :=
  match mine, process.deref mine with
  | some address, some buffer =>
    if buffer.ptr = 0 ∨ bytes = 0 ∨ group.worldSize < 2 ∨ kMaxPublicPeers < group.worldSize - 1 then
      (.error .invalidArgument, process)
    else if answers.setDevice ≠ .success then (.error (cudaToStatus answers.setDevice), process)
    else if preboundMatches node prebound mine = false then (.error .invalidArgument, process)
    else
      match registerRankBuffers node answers prebound address buffer process with
      | (.success, registered) =>
        if readySignalUsable (group.readySignalSlots node.rank) = false then (.error .invalidArgument, registered)
        else
          match fastRankPtrs group registered prebound offsetBytes bytes with
          | .error status => (.error status, registered)
          | .ok ptrs =>
            (.ok
              { localPtr := ptrs.getD node.rank 0
                peers := (peerRanks node).map fun peer =>
                  { ptr := ptrs.getD peer 0, publishSignal := publishSlot node peer,
                    waitSignal := waitSlot node peer }
                rank := node.rank
                worldSize := group.worldSize
                localDevice := node.device
                collectiveEpoch := (advanceEpoch node registered).collectiveEpoch node.rank
                bytes },
              advanceEpoch node registered)
      | (status, registered) => (.error status, registered)
  | _, _ => (.error .invalidArgument, process)

end Fast

section Generic

structure LaunchPeer where
  ptr : Address
  rank : Nat
  device : Int
  readySignal : Address
  publishSignal : Address
  waitSignal : Address
  hostReadySignal : Option Address
  deriving DecidableEq, Repr

/-- The pointers, sizes and signals of a launch; public calls are in place. -/
structure CollectiveLaunchState where
  localPtr : Address
  peers : List LaunchPeer
  rank : Nat
  worldSize : Nat
  localDevice : Int
  dtypeSize : Nat
  bytes : Nat
  collectiveEpoch : Int
  localReadySignal : Address
  localHostReadySignal : Option Address
  outOfPlace : Bool := false
  deriving DecidableEq, Repr

variable {group : LiveGroup} (node : OoNode group)

/-- Whether the caller's bindings name a buffer of the group for every rank. -/
def preboundUsable (group : LiveGroup) (process : Process) (prebound : Option PreboundRankBuffers) : Bool :=
  match prebound with
  | none => true
  | some bound =>
    (List.range bound.count).all fun rank =>
      match process.deref (bound.buffers rank) with
      | none => false
      | some buffer =>
        buffer.ptr != 0 && buffer.group = group.address && buffer.ownerRank = rank &&
          buffer.ownerDevice = group.devices rank

def checkedElementBytes (count : Nat) (dtype : OoDtype) : Except OoStatus Nat :=
  if count > (2 ^ 64 - 1) / ooDtypeSize dtype then .error .invalidArgument else .ok (count * ooDtypeSize dtype)

/-- What the arguments alone decide: the buffer, its address, the offset and the size in bytes. -/
def admitCollective (answers : IpcAnswers) (mine : Option Address) (prebound : Option PreboundRankBuffers)
    (elementOffset count : Nat) (dtype : OoDtype) (process : Process) :
    Except OoStatus (Address × OoBuffer × Nat × Nat) :=
  match mine, process.deref mine with
  | some address, some buffer =>
    if buffer.ptr = 0 then .error .invalidArgument
    else if preboundMatches node prebound mine = false ∨
        preboundUsable group process prebound = false then
      .error .invalidArgument
    else
      match checkedElementOffsetBytes elementOffset dtype with
      | .error status => .error status
      | .ok offsetBytes =>
        match checkedElementBytes count dtype with
        | .error status => .error status
        | .ok bytes =>
          if rangeInside buffer offsetBytes bytes = false then .error .invalidArgument
          else if answers.setDevice ≠ .success then .error (cudaToStatus answers.setDevice)
          else .ok (address, buffer, offsetBytes, bytes)
  | _, _ => .error .invalidArgument

/-- One peer of a launch, with the checks of the generic preparation. -/
def launchPeer (process : Process) (offsetBytes bytes : Nat) (pointer : Option Address) (peer : Nat) :
    Except OoStatus LaunchPeer :=
  match process.deref pointer with
  | none => .error .invalidArgument
  | some buffer =>
    if buffer.ptr = 0 ∨ buffer.group ≠ group.address ∨ buffer.ownerRank ≠ peer ∨
        rangeInside buffer offsetBytes bytes = false ∨
        readySignalUsable (group.readySignalSlots peer) = false then
      .error .invalidArgument
    else
      let hostSignal := group.hostReadySignalSlots peer
      .ok
        { ptr := buffer.ptr + offsetBytes
          rank := peer
          device := buffer.ownerDevice
          readySignal := signalSlot (group.readySignalSlots peer) kOoReadySignalLegacySlot
          publishSignal := publishSlot node peer
          waitSignal := waitSlot node peer
          hostReadySignal :=
            if hostSignal.ptr = 0 then none else some (signalSlot hostSignal kOoReadySignalLegacySlot) }

def launchPeers (process : Process) (prebound : Option PreboundRankBuffers) (offsetBytes bytes : Nat) :
    Except OoStatus (List LaunchPeer) :=
  (peerRanks node).mapM fun peer =>
    launchPeer node process offsetBytes bytes (rankBuffer prebound process peer) peer

/-- Whether a preparation gets as far as its peers. -/
def reachesPeers (answers : IpcAnswers) (mine : Option Address) (prebound : Option PreboundRankBuffers)
    (elementOffset count : Nat) (dtype : OoDtype) (process : Process) : Bool :=
  match admitCollective node answers mine prebound elementOffset count dtype process with
  | .error _ => false
  | .ok (address, buffer, _, _) =>
    (registerRankBuffers node answers prebound address buffer process).1 = .success &&
      !(kMaxPublicPeers < group.worldSize - 1 || readySignalUsable (group.readySignalSlots node.rank) = false)

/-- The epoch advances before the peers are checked. -/
def prepareCollectiveLaunchImpl (answers : IpcAnswers) (mine : Option Address)
    (prebound : Option PreboundRankBuffers) (elementOffset count : Nat) (dtype : OoDtype) (process : Process) :
    Except OoStatus CollectiveLaunchState × Process :=
  match admitCollective node answers mine prebound elementOffset count dtype process with
  | .error status => (.error status, process)
  | .ok (address, buffer, offsetBytes, bytes) =>
    match registerRankBuffers node answers prebound address buffer process with
    | (.success, registered) =>
      if kMaxPublicPeers < group.worldSize - 1 ∨ readySignalUsable (group.readySignalSlots node.rank) = false then
        (.error .invalidArgument, registered)
      else
        let advanced := advanceEpoch node registered
        match launchPeers node advanced prebound offsetBytes bytes with
        | .error status => (.error status, advanced)
        | .ok peers =>
          let hostSignal := group.hostReadySignalSlots node.rank
          (.ok
            { localPtr := buffer.ptr + offsetBytes
              peers
              rank := node.rank
              worldSize := group.worldSize
              localDevice := node.device
              dtypeSize := ooDtypeSize dtype
              bytes
              collectiveEpoch := advanced.collectiveEpoch node.rank
              localReadySignal := signalSlot (group.readySignalSlots node.rank) kOoReadySignalLegacySlot
              localHostReadySignal :=
                if hostSignal.ptr = 0 then none else some (signalSlot hostSignal kOoReadySignalLegacySlot) },
            advanced)
    | (status, registered) => (.error status, registered)

end Generic

end Ooverlap.Launch
