import Mathlib.Data.BitVec
import Mathlib.Logic.Function.Basic
import Ooverlap.Api.RankPartition

/-! The rank buffers a process presents to its collectives, and the cache of peer buffers it has imported. -/

namespace Ooverlap.Launch

open Api (OoStatus Address OoBuffer OoGroup)

def kOoMaxLocalDevices : Nat := 16
def kOoIpcImportCacheEntriesPerRank : Nat := 16

structure IpcImportKey where
  ownerPtrValue : Nat := 0
  bytes : Nat := 0
  mappedBytes : Nat := 0
  logicalOffsetBytes : Nat := 0
  cacheToken : Nat := 0
  ownerRank : Int := -1
  ownerDevice : Int := -1
  deriving DecidableEq, Repr

structure IpcImportCacheEntry where
  valid : Bool := false
  key : IpcImportKey := {}
  buffer : Option Address := none
  lastUsed : Nat := 0
  deriving DecidableEq, Repr

/-- A group with what its creation has checked. -/
structure LiveGroup extends OoGroup where
  size : 0 < numDevices ∧ numDevices ≤ kOoMaxLocalDevices

def LiveGroup.worldSize (group : LiveGroup) : Nat := group.numDevices.toNat

theorem LiveGroup.worldSize_le (group : LiveGroup) : group.worldSize ≤ kOoMaxLocalDevices :=
  Int.toNat_le.mpr group.size.2

/-- A node made by `oo_node_create`; its device is the group's for its rank. -/
structure OoNode (group : LiveGroup) where
  rank : Nat
  within : rank < group.worldSize

def OoNode.device {group : LiveGroup} (node : OoNode group) : Int := group.devices node.rank

/-- The wrappers on the heap by address, the group's tables, and the epoch of each rank's node. -/
structure Process where
  heap : Address → Option OoBuffer := fun _ => none
  nextAddress : Address := 1
  nextToken : Nat := 1
  collectiveBuffers : Nat → Option Address := fun _ => none
  importCache : Nat → Nat → IpcImportCacheEntry := fun _ _ => {}
  importCacheClock : Nat := 0
  collectiveEpoch : Nat → Int := fun _ => 0

namespace Process

variable (process : Process)

def deref (pointer : Option Address) : Option OoBuffer := pointer.bind process.heap

def setEntry (rank slot : Nat) (entry : IpcImportCacheEntry) : Process :=
  { process with
    importCache := Function.update process.importCache rank
      (Function.update (process.importCache rank) slot entry) }

def present (rank : Nat) (pointer : Option Address) : Process :=
  { process with collectiveBuffers := Function.update process.collectiveBuffers rank pointer }

def allocate (buffer : OoBuffer) : Process :=
  { process with
    heap := Function.update process.heap process.nextAddress (some buffer)
    nextAddress := process.nextAddress + 1 }

def free (pointer : Option Address) : Process :=
  match pointer with
  | none => process
  | some address => { process with heap := Function.update process.heap address none }

end Process

section Exceptions

inductive Thrown where
  | invalidArgument
  | outOfRange
  | badAlloc
  | other
  deriving DecidableEq, Repr

def exceptionToStatus : Thrown → OoStatus
  | .invalidArgument | .outOfRange => .invalidArgument
  | .badAlloc | .other => .internal

inductive CudaError where
  | success
  | invalidDevice
  | invalidValue
  | other
  deriving DecidableEq, Repr

def cudaToStatus : CudaError → OoStatus
  | .success => .success
  | .invalidDevice => .invalidDevice
  | .invalidValue => .invalidArgument
  | .other => .cuda

end Exceptions

structure LegacyPeerBufferDescriptor where
  handle : Nat := 0
  bytes : Nat := 0
  mappedSize : Nat := 0
  logicalOffset : Nat := 0
  ownerDevice : Int := -1
  deriving DecidableEq, Repr

/-- Whether the descriptor is of the buffer that the key names. -/
def describes (key : IpcImportKey) (desc : LegacyPeerBufferDescriptor) : Prop :=
  desc.bytes = key.bytes ∧ desc.mappedSize = key.mappedBytes ∧ desc.logicalOffset = key.logicalOffsetBytes

/-- What the other processes and the driver answer during one call. Every exchange may throw instead. A peer
sends key and descriptor of one buffer, and an opened handle is mapped at an address other than null. -/
structure IpcAnswers where
  setDevice : CudaError := .success
  peerKeys : Except Thrown (Nat → IpcImportKey)
  peerMasks : Except Thrown (Nat → BitVec 32)
  exportHandle : Except Thrown Nat
  peerDescs : Except Thrown (Nat → LegacyPeerBufferDescriptor)
  importHandle : Nat → Nat → Except Thrown Nat
  mapped : ∀ rank handle base, importHandle rank handle = .ok base → base ≠ 0
  honest : ∀ keys descs rank, peerKeys = .ok keys → peerDescs = .ok descs → describes (keys rank) (descs rank)

/-- `exchange_data`: the own value at the own rank, the peers' values at theirs. -/
def exchangeData (rank : Nat) (mine : Value) (peers : Nat → Value) : Nat → Value :=
  Function.update peers rank mine

section Keys

def exportBase (buffer : OoBuffer) : Address × Nat :=
  (if buffer.ipcBasePtr ≠ 0 then buffer.ipcBasePtr else buffer.ptr,
    if buffer.ipcBaseBytes ≠ 0 then buffer.ipcBaseBytes
    else if buffer.mappedBytes ≠ 0 then buffer.mappedBytes else buffer.bytes)

def makeIpcImportKey (buffer : OoBuffer) : IpcImportKey where
  ownerPtrValue := (exportBase buffer).1
  bytes := buffer.bytes
  mappedBytes := (exportBase buffer).2
  logicalOffsetBytes := buffer.ipcLogicalOffsetBytes
  cacheToken := buffer.ipcCacheToken
  ownerRank := buffer.ownerRank
  ownerDevice := buffer.ownerDevice

variable (group : LiveGroup)

def validIpcImportKeyForRank (key : IpcImportKey) (rank : Nat) : Bool :=
  rank < group.worldSize && key.ownerPtrValue != 0 && key.bytes != 0 && key.mappedBytes != 0 &&
    key.logicalOffsetBytes ≤ key.mappedBytes && key.bytes ≤ key.mappedBytes - key.logicalOffsetBytes &&
    key.cacheToken != 0 && key.ownerRank = rank && key.ownerDevice = group.devices rank

/-- `export_legacy_peer_buffer_range` of the local buffer. -/
def exportLegacyPeerBufferRange (answers : IpcAnswers) (buffer : OoBuffer) :
    Except Thrown LegacyPeerBufferDescriptor :=
  let (base, baseBytes) := exportBase buffer
  if base = 0 ∨ baseBytes = 0 ∨ buffer.bytes = 0 ∨ buffer.ownerDevice < 0 then .error .invalidArgument
  else if buffer.ipcLogicalOffsetBytes > baseBytes ∨ buffer.bytes > baseBytes - buffer.ipcLogicalOffsetBytes then
    .error .outOfRange
  else
    match answers.exportHandle with
    | .error thrown => .error thrown
    | .ok handle =>
      .ok { handle, bytes := buffer.bytes, mappedSize := baseBytes, logicalOffset := buffer.ipcLogicalOffsetBytes,
            ownerDevice := buffer.ownerDevice }

/-- `import_legacy_peer_buffer`: where the handle was mapped. -/
def importLegacyPeerBuffer (answers : IpcAnswers) (rank : Nat) (desc : LegacyPeerBufferDescriptor) :
    Except Thrown Address :=
  if desc.bytes = 0 ∨ desc.mappedSize = 0 ∨ desc.ownerDevice < 0 then .error .invalidArgument
  else if desc.logicalOffset > desc.mappedSize ∨ desc.bytes > desc.mappedSize - desc.logicalOffset then
    .error .invalidArgument
  else answers.importHandle rank desc.handle

/-- The wrapper of a mapping. -/
def importedBuffer (ownerRank : Nat) (key : IpcImportKey) (desc : LegacyPeerBufferDescriptor) (base : Address) :
    OoBuffer where
  ptr := base + desc.logicalOffset
  bytes := desc.bytes
  mappedBytes := desc.mappedSize
  ipcBasePtr := base
  ipcBaseBytes := desc.mappedSize
  ipcLogicalOffsetBytes := desc.logicalOffset
  group := group.address
  ownerRank := ownerRank
  ownerDevice := desc.ownerDevice
  ipcCacheToken := key.cacheToken
  systemKind := .importedLegacy

end Keys

section Cache

variable (group : LiveGroup) (process : Process)

/-- Whether the peers' buffers of the previous call may be used again. -/
def ipcSymmetricLocalKeyFastPathReady (localRank : Nat) (localKey : IpcImportKey) : Bool :=
  (match process.deref (process.collectiveBuffers localRank) with
    | none => false
    | some previousLocal => previousLocal.ptr != 0 && makeIpcImportKey previousLocal = localKey) &&
  (List.range group.worldSize).all fun rank =>
    rank = localRank ||
      match process.deref (process.collectiveBuffers rank) with
      | none => false
      | some peer =>
        peer.ptr != 0 && peer.ownerRank = rank && peer.ownerDevice = group.devices rank &&
          peer.systemKind = .importedLegacy

/-- An entry that a lookup may return. -/
def entryUsable (entry : IpcImportCacheEntry) : Bool :=
  entry.valid &&
    match process.deref entry.buffer with
    | none => false
    | some buffer => buffer.ptr != 0

def cacheSlots : List Nat := List.range kOoIpcImportCacheEntriesPerRank

def findSlot (ownerRank : Nat) (key : IpcImportKey) : Option Nat :=
  cacheSlots.find? fun slot =>
    entryUsable process (process.importCache ownerRank slot) &&
      (process.importCache ownerRank slot).key = key

/-- The entry of a key, marked as the one used last. -/
def findIpcImportCacheEntry (ownerRank : Nat) (key : IpcImportKey) : Option Nat × Process :=
  match findSlot process ownerRank key with
  | none => (none, process)
  | some slot =>
    let clock := process.importCacheClock + 1
    (some slot,
      { process.setEntry ownerRank slot { process.importCache ownerRank slot with lastUsed := clock } with
        importCacheClock := clock })

/-- Frees an entry's buffer; a rank that presented it presents nothing. -/
def clearIpcImportCacheEntry (ownerRank slot : Nat) : Process :=
  let buffer := (process.importCache ownerRank slot).buffer
  let unpresented :=
    if ownerRank < kOoMaxLocalDevices ∧ buffer ≠ none ∧ process.collectiveBuffers ownerRank = buffer then
      process.present ownerRank none
    else process
  (unpresented.free buffer).setEntry ownerRank slot {}

def emptySlot (ownerRank : Nat) : Option Nat :=
  cacheSlots.find? fun slot =>
    !(process.importCache ownerRank slot).valid || (process.importCache ownerRank slot).buffer = none

def oldestSlot (ownerRank : Nat) : Nat :=
  cacheSlots.foldl (fun best slot =>
    if (process.importCache ownerRank slot).lastUsed < (process.importCache ownerRank best).lastUsed then slot
    else best) 0

/-- The first empty slot, or else the one used longest ago, cleared. -/
def selectIpcImportCacheSlot (ownerRank : Nat) : Nat × Process :=
  match emptySlot process ownerRank with
  | some slot => (slot, process)
  | none => (oldestSlot process ownerRank, clearIpcImportCacheEntry process ownerRank (oldestSlot process ownerRank))

/-- A failed import leaves the selected slot empty. -/
def importPeerIntoCache (answers : IpcAnswers) (ownerRank : Nat) (key : IpcImportKey)
    (desc : LegacyPeerBufferDescriptor) : Except OoStatus Nat × Process :=
  if validIpcImportKeyForRank group key ownerRank = false ∨ desc.bytes = 0 ∨ desc.mappedSize = 0 ∨
      desc.ownerDevice ≠ key.ownerDevice then
    (.error .invalidArgument, process)
  else
    let (slot, selected) := selectIpcImportCacheSlot process ownerRank
    match importLegacyPeerBuffer answers ownerRank desc with
    | .error thrown => (.error (exceptionToStatus thrown), selected)
    | .ok base =>
      let clock := selected.importCacheClock + 1
      let filled := (selected.allocate (importedBuffer group ownerRank key desc base)).setEntry ownerRank slot
        { valid := true, key, buffer := some selected.nextAddress, lastUsed := clock }
      (.ok slot, { filled with importCacheClock := clock })

end Cache

section Registration

variable {group : LiveGroup} (node : OoNode group)

/-- Looks every peer's key up. -/
def findHits (keys : Nat → IpcImportKey) :
    List Nat → (Nat → Option Nat) × Process → (Nat → Option Nat) × Process
  | [], found => found
  | rank :: rest, (hits, process) =>
    if rank = node.rank then findHits keys rest (hits, process)
    else
      let (hit, looked) := findIpcImportCacheEntry process rank (keys rank)
      findHits keys rest (Function.update hits rank hit, looked)

def peerRanks : List Nat := (List.range group.worldSize).filter (· ≠ node.rank)

def localMissMask (hits : Nat → Option Nat) : BitVec 32 :=
  (peerRanks node).foldl (fun mask rank => if hits rank = none then mask ||| 1#32 <<< rank else mask) 0

def globalMissMask (group : LiveGroup) (masks : Nat → BitVec 32) : BitVec 32 :=
  (List.range group.worldSize).foldl (fun mask rank => mask ||| masks rank) 0

/-- The entry that a peer is given: the one found, or else one imported now. -/
def peerEntry (group : LiveGroup) (answers : IpcAnswers) (keys : Nat → IpcImportKey) (hits : Nat → Option Nat)
    (descs : Option (Nat → LegacyPeerBufferDescriptor)) (rank : Nat) (process : Process) :
    Except OoStatus Nat × Process :=
  match hits rank with
  | some slot => (.ok slot, process)
  | none =>
    match descs with
    | none => (.error .internal, process)
    | some descs => importPeerIntoCache group process answers rank (keys rank) (descs rank)

/-- Presents the entry of every peer. -/
def presentPeers (answers : IpcAnswers) (keys : Nat → IpcImportKey) (hits : Nat → Option Nat)
    (descs : Option (Nat → LegacyPeerBufferDescriptor)) : List Nat → Process → OoStatus × Process
  | [], process => (.success, process)
  | rank :: rest, process =>
    if rank = node.rank then presentPeers answers keys hits descs rest process
    else
      match peerEntry group answers keys hits descs rank process with
      | (.error status, after) => (status, after)
      | (.ok slot, after) =>
        match after.deref (after.importCache rank slot).buffer with
        | none => (.internal, after)
        | some buffer =>
          if buffer.ptr = 0 then (.internal, after)
          else
            presentPeers answers keys hits descs rest
              (after.present rank (after.importCache rank slot).buffer)

/-- The descriptors of all ranks, exchanged unless no rank missed an entry. -/
def exchangeDescs (answers : IpcAnswers) (buffer : OoBuffer) (masks : Nat → BitVec 32) :
    Except Thrown (Option (Nat → LegacyPeerBufferDescriptor)) :=
  if globalMissMask group masks = 0 then .ok none
  else
    match exportLegacyPeerBufferRange answers buffer with
    | .error thrown => .error thrown
    | .ok localDesc =>
      match answers.peerDescs with
      | .error thrown => .error thrown
      | .ok descs => .ok (some (exchangeData node.rank localDesc descs))

/-- The part of a registration after the keys are known. -/
def importMissing (answers : IpcAnswers) (buffer : OoBuffer) (keys : Nat → IpcImportKey) (process : Process) :
    OoStatus × Process :=
  let (hits, looked) := findHits node keys (List.range group.worldSize) (fun _ => none, process)
  match answers.peerMasks with
  | .error thrown => (exceptionToStatus thrown, looked)
  | .ok masks =>
    match exchangeDescs node answers buffer (exchangeData node.rank (localMissMask node hits) masks) with
    | .error thrown => (exceptionToStatus thrown, looked)
    | .ok descs => presentPeers node answers keys hits descs (List.range group.worldSize) looked

/-- The buffer at `mine` is presented, and with it what the peers present. -/
def ensureIpcLegacyCollectiveBuffersRegistered (answers : IpcAnswers) (mine : Address) (buffer : OoBuffer)
    (process : Process) : OoStatus × Process :=
  if buffer.systemKind ≠ .wrapped then (.unsupported, process)
  else if ipcSymmetricLocalKeyFastPathReady group process node.rank (makeIpcImportKey buffer) then
    (.success, process.present node.rank (some mine))
  else
    match answers.peerKeys with
    | .error thrown => (exceptionToStatus thrown, process)
    | .ok peerKeys =>
      importMissing node answers buffer (exchangeData node.rank (makeIpcImportKey buffer) peerKeys)
        (process.present node.rank (some mine))

def registerIpcCollectiveBuffers (answers : IpcAnswers) (mine : Address) (buffer : OoBuffer) (process : Process) :
    OoStatus × Process :=
  if answers.setDevice ≠ .success then (cudaToStatus answers.setDevice, process)
  else ensureIpcLegacyCollectiveBuffersRegistered node answers mine buffer process

end Registration

end Ooverlap.Launch
