import Ooverlap.Plan.Detail

/-! The all-gather planner: direct and staged plans. -/

namespace Ooverlap.Plan.AllGather

open Word

def kReadyPhaseIslandGatherDone : Int := 1
def kReadyPhaseIslandStagedBase : Int := 2
def kReadyPhaseRemoteLeaderHasBase : Int := kReadyPhaseIslandStagedBase + kPlannerMaxRanks

def stagedReadyPhaseForIsland (island : Int) : Int :=
  kReadyPhaseIslandStagedBase + island

def remoteLeaderReadyPhase (srcIsland dstIsland : Int) : Int :=
  kReadyPhaseRemoteLeaderHasBase + srcIsland * kPlannerMaxRanks + dstIsland

/-- The low-level fanout path handles only fully 16-byte aligned ranges. -/
def allGatherCopyFanoutCompatible (byteOffset bytes : Nat) : Bool :=
  byteOffset % 16 == 0 && bytes % 16 == 0

section Emitters

variable (cap : Nat) (input : TransferPlanBuildInput) (transports : TransportMatrix)

def pushCopyFanoutTask (executorRank srcRank : Int) (dstRanks : List Int) (src : LogicalBufferRef)
    (fanoutDsts : List LogicalBufferRef) (bytes : Nat) (numWindows : Int) (transport : TransportKind) :
    BuildM Unit :=
  if fanoutDsts.length = 0 ∨ fanoutDsts.length > tmaTwoGpuPeerMaxFanoutDsts ∨ bytes = 0 ∨
      numWindows ≤ 0 ∨ !transportUsesDirectTma transport then transferPlanAbortBuild
  else do
    let phase ← nextTaskPhase executorRank
    pushTaskOrAbort cap (makeCopyFanoutTransferTask executorRank srcRank dstRanks src fanoutDsts bytes
      numWindows input.launchConfig.windowChunks transport false phase)

/-- A batch of one destination is a plain copy. -/
def pushCopyBatchTask (executorRank srcRank : Int) (dstRanks : List Int) (src : LogicalBufferRef)
    (fanoutDsts : List LogicalBufferRef) (bytes : Nat) (numWindows : Int) (transport : TransportKind) :
    BuildM Unit :=
  match dstRanks, fanoutDsts with
  | [dstRank], [dst] =>
    pushCopyTask cap input executorRank srcRank dstRank src dst bytes numWindows transport
  | _, _ =>
    pushCopyFanoutTask cap input executorRank srcRank dstRanks src fanoutDsts bytes numWindows transport

/-- Copies of one slice, batch by batch: `batch` holds the destinations gathered so far. -/
def emitCopyBatches (srcRank : Int) (sliceBeginBytes sliceBytes : Nat) (sliceWindows : Int) :
    List Int → TransportKind → List Int → BuildM Unit
  | batch, batchTransport, [] =>
    if batch.isEmpty then pure ()
    else
      pushCopyBatchTask cap input srcRank srcRank batch (rankBufferRef srcRank sliceBeginBytes)
        (batch.map fun dstRank => rankBufferRef dstRank sliceBeginBytes) sliceBytes sliceWindows
        batchTransport
  | batch, batchTransport, dstRank :: rest =>
    if dstRank = srcRank then
      emitCopyBatches srcRank sliceBeginBytes sliceBytes sliceWindows batch batchTransport rest
    else if !validRank dstRank input.worldSize then transferPlanAbortBuild
    else if !transportUsesDirectTma (transports srcRank dstRank) then transferPlanAbortBuild
    else if !batch.isEmpty &&
        (batch.length == tmaTwoGpuPeerMaxFanoutDsts || transports srcRank dstRank != batchTransport) then do
      pushCopyBatchTask cap input srcRank srcRank batch (rankBufferRef srcRank sliceBeginBytes)
        (batch.map fun dstRank => rankBufferRef dstRank sliceBeginBytes) sliceBytes sliceWindows
        batchTransport
      emitCopyBatches srcRank sliceBeginBytes sliceBytes sliceWindows [dstRank]
        (transports srcRank dstRank) rest
    else
      emitCopyBatches srcRank sliceBeginBytes sliceBytes sliceWindows (batch ++ [dstRank])
        (if batch.isEmpty then transports srcRank dstRank else batchTransport) rest

def emitAllGatherSourceCopies (srcRank : Int) (candidateRanks : List Int)
    (sliceBeginBytes sliceBytes : Nat) (sliceWindows : Int) : BuildM Unit :=
  if candidateRanks.length > input.worldSize ∨ !validRank srcRank input.worldSize ∨ sliceBytes = 0 ∨
      sliceWindows ≤ 0 then transferPlanAbortBuild
  else if !allGatherCopyFanoutCompatible sliceBeginBytes sliceBytes then
    (candidateRanks.filter (· ≠ srcRank)).forM fun dstRank =>
      if !validRank dstRank input.worldSize || !transportUsesDirectTma (transports srcRank dstRank) then
        transferPlanAbortBuild
      else
        pushCopyTask cap input srcRank srcRank dstRank (rankBufferRef srcRank sliceBeginBytes)
          (rankBufferRef dstRank sliceBeginBytes) sliceBytes sliceWindows (transports srcRank dstRank)
  else
    emitCopyBatches cap input transports srcRank sliceBeginBytes sliceBytes sliceWindows [] .directNvlink
      candidateRanks

/-- Islands must be contiguous rank intervals; otherwise a block would not be one byte range. -/
def buildAllGatherIslands : Option IslandPlan :=
  (buildIslands input transports).bind fun islands =>
    if (intRange islands.islandCount).all fun island =>
        islands.lastRank island - islands.firstRank island + 1 == (islands.islandRanks island).length then
      some islands
    else none

def islandBlockEnd (islands : IslandPlan) (island : Int) : Nat :=
  toUInt64 (sliceBeginBytes input (islands.lastRank island) + sliceBytes input (islands.lastRank island))

def islandBlockBegin (islands : IslandPlan) (island : Int) : Nat :=
  sliceBeginBytes input (islands.firstRank island)

def islandBlockBytes (islands : IslandPlan) (island : Int) : Nat :=
  islandBlockEnd input islands island - islandBlockBegin input islands island

def islandBlockWindows (islands : IslandPlan) (island : Int) : Int :=
  windowCountForTransferBytes (islandBlockBytes input islands island) input.launchConfig

/-- Whether every slice has bytes and windows and no island block wraps around. -/
def fillAllGatherSliceMetadata (islands : IslandPlan) : Bool :=
  ((intRange input.worldSize).all fun rank =>
    !(sliceBytes input rank == 0 || sliceWindows input rank ≤ 0)) &&
  (intRange islands.islandCount).all fun island =>
    !(islandBlockEnd input islands island < islandBlockBegin input islands island)

def assignStagingSlots (islands : IslandPlan) : Option IslandPlan :=
  assignStagingSlotsFrom input islands (islandBlockBytes input islands) (intRange islands.islandCount) []
    islands

/-- Island plan of the direct path: every rank is its own block. -/
def oneRankPerSlice : IslandPlan where
  islandCount := input.worldSize
  firstRank rank := rank
  lastRank rank := rank

def buildDirectAllGatherPlan : BuildM Unit :=
  if !fillAllGatherSliceMetadata input (oneRankPerSlice input) then transferPlanAbortBuild
  else do
    emitOptionalSliceCopies cap input
    emitEntryRendezvous cap input
    (intRange input.worldSize).forM fun srcRank =>
      emitAllGatherSourceCopies cap input transports srcRank (intRange input.worldSize)
        (sliceBeginBytes input srcRank) (sliceBytes input srcRank) (sliceWindows input srcRank)
    markLastTaskPerRankTerminal input.worldSize

def emitIntraIslandAllGather (islands : IslandPlan) : BuildM Unit :=
  (intRange islands.islandCount).forM fun island =>
    (islands.islandRanks island).forM fun srcRank =>
      emitAllGatherSourceCopies cap input transports srcRank (islands.islandRanks island)
        (sliceBeginBytes input srcRank) (sliceBytes input srcRank) (sliceWindows input srcRank)

def emitIslandGatherDoneSync (islands : IslandPlan) : BuildM Unit :=
  (intRange islands.islandCount).forM fun island =>
    let leader := islands.leaderRank island
    (islandMembers islands island).forM fun rank => do
      pushReadyPublishForWaiters cap input rank [leader] kReadyPhaseIslandGatherDone
      pushReadyWaitTask cap input leader rank kReadyPhaseIslandGatherDone

def emitIslandBlocksToStaging (islands : IslandPlan) : BuildM Unit :=
  (intRange islands.islandCount).forM fun srcIsland =>
    let leader := islands.leaderRank srcIsland
    let stagingSlot := islands.stagingSlot srcIsland
    if !stagingSliceValid input stagingSlot 0 (islandBlockBytes input islands srcIsland) ∨
        islandBlockWindows input islands srcIsland ≤ 0 then transferPlanAbortBuild
    else do
      pushCopyTask cap input leader leader leader
        (rankBufferRef leader (islandBlockBegin input islands srcIsland)) (shmStagingRef stagingSlot)
        (islandBlockBytes input islands srcIsland) (islandBlockWindows input islands srcIsland) .shm
      pushReadyPublishForWaiters cap input leader
        ((peersOf srcIsland islands.islandCount).map islands.leaderRank)
        (stagedReadyPhaseForIsland srcIsland)

def emitRemoteStagingToDestinationLeaders (islands : IslandPlan) : BuildM Unit :=
  (intRange islands.islandCount).forM fun dstIsland =>
    let dstLeader := islands.leaderRank dstIsland
    (peersOf dstIsland islands.islandCount).forM fun srcIsland => do
      pushReadyWaitTask cap input dstLeader (islands.leaderRank srcIsland)
        (stagedReadyPhaseForIsland srcIsland)
      pushCopyTask cap input dstLeader (islands.leaderRank srcIsland) dstLeader
        (shmStagingRef (islands.stagingSlot srcIsland))
        (rankBufferRef dstLeader (islandBlockBegin input islands srcIsland))
        (islandBlockBytes input islands srcIsland) (islandBlockWindows input islands srcIsland) .shm
      pushReadyPublishForWaiters cap input dstLeader (islandMembers islands dstIsland)
        (remoteLeaderReadyPhase srcIsland dstIsland)

def emitDestinationLeaderToIslandRanks (islands : IslandPlan) : BuildM Unit :=
  (intRange islands.islandCount).forM fun dstIsland =>
    let dstLeader := islands.leaderRank dstIsland
    (peersOf dstIsland islands.islandCount).forM fun srcIsland =>
      (islandMembers islands dstIsland).forM fun dstRank => do
        pushReadyWaitTask cap input dstRank dstLeader (remoteLeaderReadyPhase srcIsland dstIsland)
        if !transportUsesDirectTma (transports dstRank dstLeader) then transferPlanAbortBuild
        else
          pushCopyTask cap input dstRank dstLeader dstRank
            (rankBufferRef dstLeader (islandBlockBegin input islands srcIsland))
            (rankBufferRef dstRank (islandBlockBegin input islands srcIsland))
            (islandBlockBytes input islands srcIsland) (islandBlockWindows input islands srcIsland)
            (transports dstRank dstLeader)

def buildStagedIslandAllGatherPlan (discoveredIslands : IslandPlan) : BuildM Unit :=
  if !fillAllGatherSliceMetadata input discoveredIslands then transferPlanAbortBuild
  else
    match assignStagingSlots input discoveredIslands with
    | none => transferPlanAbortBuild
    | some islands => do
      emitOptionalSliceCopies cap input
      emitEntryRendezvous cap input
      emitIntraIslandAllGather cap input transports islands
      emitIslandGatherDoneSync cap input islands
      emitIslandBlocksToStaging cap input islands
      emitRemoteStagingToDestinationLeaders cap input islands
      emitDestinationLeaderToIslandRanks cap input transports islands
      markLastTaskPerRankTerminal input.worldSize

end Emitters

def planAllGather (cap : Nat) (input : TransferPlanBuildInput) : BuildM Unit :=
  match buildTransportMatrix input.topo input.worldSize with
  | none => transferPlanAbortBuild
  | some transports =>
    match buildAllGatherIslands input transports with
    | none => transferPlanAbortBuild
    | some islands =>
      if islands.islandCount ≤ 1 then buildDirectAllGatherPlan cap input transports
      else buildStagedIslandAllGatherPlan cap input transports islands

/-- Success flag and the plan left behind, starting from the caller's plan storage. -/
def buildAllGatherTransferPlan (cap : Nat) (storage : TransferPlan) (input : TransferPlanBuildInput) :
    Bool × TransferPlan :=
  runPlanner (planAllGather cap input) storage input

end Ooverlap.Plan.AllGather
