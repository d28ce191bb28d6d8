import Ooverlap.Plan.Detail

/-! The reduce-scatter planner: direct and staged plans. -/

namespace Ooverlap.Plan.ReduceScatter

def kReadyPhaseIslandLocalPartialBase : Int := 1
def kReadyPhaseIslandStagedBase : Int := kReadyPhaseIslandLocalPartialBase + kPlannerMaxRanks

def localPartialReadyPhaseForIsland (island : Int) : Int :=
  kReadyPhaseIslandLocalPartialBase + island

def stagedPartialReadyPhaseForIsland (island : Int) : Int :=
  kReadyPhaseIslandStagedBase + island

section Emitters

variable (cap : Nat) (input : TransferPlanBuildInput) (transports : TransportMatrix)

def totalWindows : Int :=
  windowCountForTransferBytes (totalBytes input) input.launchConfig

/-- Whether the tensor and every rank's slice have bytes and windows. -/
def fillReduceScatterSliceMetadata : Bool :=
  !(totalBytes input == 0 || totalWindows input ≤ 0) &&
    (intRange input.worldSize).all fun rank =>
      !(sliceBytes input rank == 0 || sliceWindows input rank ≤ 0)

def assignStagingSlots (islands : IslandPlan) (requiredBytes : Nat) : Option IslandPlan :=
  if requiredBytes = 0 then none
  else assignStagingSlotsFrom input islands (fun _ => requiredBytes) (intRange islands.islandCount) [] islands

/-- The staged path builds full-tensor partials, so it brings in every rank's whole input. -/
def emitReduceScatterOptionalFullCopiesForStagedPath : BuildM Unit :=
  if !input.outOfPlace then pure ()
  else
    (intRange input.worldSize).forM fun rank =>
      pushCopyTask cap input rank rank rank (rankInputRef rank) (rankBufferRef rank) (totalBytes input)
        (totalWindows input) .directNvlink

def emitSliceReductions (rank : Int) : BuildM Unit :=
  (peersOf rank input.worldSize).forM fun peer =>
    if !transportUsesDirectTma (transports rank peer) then transferPlanAbortBuild
    else
      pushReduceTask cap input rank peer rank (rankBufferRef peer (sliceBeginBytes input rank))
        (rankBufferRef rank (sliceBeginBytes input rank)) (sliceBytes input rank)
        (sliceWindows input rank) (transports rank peer)

def buildDirectReduceScatterPlan : BuildM Unit :=
  if !fillReduceScatterSliceMetadata input then transferPlanAbortBuild
  else do
    emitOptionalSliceCopies cap input
    emitEntryRendezvous cap input
    (intRange input.worldSize).forM (emitSliceReductions cap input transports)
    markLastTaskPerRankTerminal input.worldSize

def emitIntraIslandReductionsToLeaders (islands : IslandPlan) : BuildM Unit :=
  (intRange islands.islandCount).forM fun island =>
    let leader := islands.leaderRank island
    (islandMembers islands island).forM fun rank =>
      if !transportUsesDirectTma (transports leader rank) then transferPlanAbortBuild
      else
        pushReduceTask cap input leader rank leader (rankBufferRef rank) (rankBufferRef leader)
          (totalBytes input) (totalWindows input) (transports leader rank)

def emitLocalLeaderPartialsToIslandRanks (islands : IslandPlan) : BuildM Unit :=
  (intRange islands.islandCount).forM fun island => do
    let leader := islands.leaderRank island
    pushReadyPublishForWaiters cap input leader (islandMembers islands island)
      (localPartialReadyPhaseForIsland island)
    (islandMembers islands island).forM fun rank => do
      pushReadyWaitTask cap input rank leader (localPartialReadyPhaseForIsland island)
      if !transportUsesDirectTma (transports rank leader) then transferPlanAbortBuild
      else
        pushCopyTask cap input rank leader rank (rankBufferRef leader (sliceBeginBytes input rank))
          (rankBufferRef rank (sliceBeginBytes input rank)) (sliceBytes input rank)
          (sliceWindows input rank) (transports rank leader)

def emitLeaderPartialsToStaging (islands : IslandPlan) : BuildM Unit :=
  (intRange islands.islandCount).forM fun island =>
    let leader := islands.leaderRank island
    let stagingSlot := islands.stagingSlot island
    if !stagingSliceValid input stagingSlot 0 (totalBytes input) then transferPlanAbortBuild
    else do
      pushCopyTask cap input leader leader leader (rankBufferRef leader) (shmStagingRef stagingSlot)
        (totalBytes input) (totalWindows input) .shm
      pushReadyPublishForWaiters cap input leader
        ((peersOf island islands.islandCount).flatMap islands.islandRanks)
        (stagedPartialReadyPhaseForIsland island)

def emitRemotePartialsToDestinationRanks (islands : IslandPlan) : BuildM Unit :=
  (intRange islands.islandCount).forM fun dstIsland =>
    (islands.islandRanks dstIsland).forM fun dstRank =>
      (peersOf dstIsland islands.islandCount).forM fun srcIsland => do
        pushReadyWaitTask cap input dstRank (islands.leaderRank srcIsland)
          (stagedPartialReadyPhaseForIsland srcIsland)
        pushReduceTask cap input dstRank (islands.leaderRank srcIsland) dstRank
          (shmStagingRef (islands.stagingSlot srcIsland) (sliceBeginBytes input dstRank))
          (rankBufferRef dstRank (sliceBeginBytes input dstRank)) (sliceBytes input dstRank)
          (sliceWindows input dstRank) .shm

def buildStagedIslandReduceScatterPlan (islands : IslandPlan) : BuildM Unit :=
  if !fillReduceScatterSliceMetadata input then transferPlanAbortBuild
  else
    match assignStagingSlots input islands (totalBytes input) with
    | none => transferPlanAbortBuild
    | some islands => do
      emitReduceScatterOptionalFullCopiesForStagedPath cap input
      emitEntryRendezvous cap input
      emitIntraIslandReductionsToLeaders cap input transports islands
      emitLocalLeaderPartialsToIslandRanks cap input transports islands
      emitLeaderPartialsToStaging cap input islands
      emitRemotePartialsToDestinationRanks cap input islands
      markLastTaskPerRankTerminal input.worldSize

end Emitters

def planReduceScatter (cap : Nat) (input : TransferPlanBuildInput) : BuildM Unit :=
  match buildTransportMatrix input.topo input.worldSize with
  | none => transferPlanAbortBuild
  | some transports =>
    match buildIslands input transports with
    | none => transferPlanAbortBuild
    | some islands =>
      if islands.islandCount ≤ 1 then buildDirectReduceScatterPlan cap input transports
      else buildStagedIslandReduceScatterPlan cap input transports islands

/-- Success flag and the plan left behind, starting from the caller's plan storage. -/
def buildReduceScatterTransferPlan (cap : Nat) (storage : TransferPlan) (input : TransferPlanBuildInput) :
    Bool × TransferPlan :=
  runPlanner (planReduceScatter cap input) storage input

end Ooverlap.Plan.ReduceScatter
