import Ooverlap.Plan.AllReducePasses

/-! The all-reduce planner: direct, fanned-out and staged plans. -/

namespace Ooverlap.Plan.AllReduce

open Word

def kReadyPhaseIslandPartialStagedBase : Int := 1
def kReadyPhaseIslandFinalBase : Int := kReadyPhaseIslandPartialStagedBase + kPlannerMaxRanks

def stagedPartialReadyPhaseForIsland (island : Int) : Int :=
  kReadyPhaseIslandPartialStagedBase + island

def finalReadyPhaseForIsland (island : Int) : Int :=
  kReadyPhaseIslandFinalBase + island

section Emitters

variable (cap : Nat) (input : TransferPlanBuildInput) (transports : TransportMatrix)

def pushReduceFanoutTask (executorRank srcRank : Int) (dstRanks : List Int) (src : LogicalBufferRef)
    (fanoutDsts : List LogicalBufferRef) (bytes : Nat) (numWindows : Int)
    (transport : TransportKind) : BuildM Unit :=
  if fanoutDsts.length = 0 ∨ fanoutDsts.length > tmaTwoGpuPeerMaxFanoutDsts ∨ bytes = 0 ∨
      numWindows ≤ 0 then transferPlanAbortBuild
  else do
    let phase ← nextTaskPhase executorRank
    pushTaskOrAbort cap (makeReduceFanoutTransferTask executorRank srcRank dstRanks src fanoutDsts
      bytes numWindows input.launchConfig.windowChunks transport false phase)

/-- Transport of the last destination other than the source, as the destination loop leaves it. -/
def selectedFanoutTransport (srcRank : Int) : TransportKind :=
  ((peersOf srcRank input.worldSize).map (transports srcRank)).getLastD .directNvlink

def buildOutOfPlaceDirectAllreduceFanoutPlan : BuildM Unit :=
  let numWindows := windowCountForTransferBytes (totalBytes input) input.launchConfig
  if input.worldSize ≤ 0 ∨ input.worldSize > (tmaTwoGpuPeerMaxFanoutDsts : Int) ∨
      input.dtypeSize = 0 ∨ input.count > (2 ^ 64 - 1) / input.dtypeSize then
    transferPlanAbortBuild
  else if totalBytes input = 0 ∨ numWindows ≤ 0 then transferPlanAbortBuild
  else do
    emitEntryRendezvous cap input
    (intRange input.worldSize).forM fun srcRank =>
      if (intRange input.worldSize).any fun dstRank => !transportUsesDirectTma (transports srcRank dstRank)
      then transferPlanAbortBuild
      else
        pushReduceFanoutTask cap input srcRank srcRank (intRange input.worldSize)
          (rankInputRef srcRank) ((intRange input.worldSize).map fun dstRank => rankOutputRef dstRank)
          (totalBytes input) numWindows (selectedFanoutTransport input transports srcRank)
    markLastTaskPerRankTerminal input.worldSize

/-- Out-of-place calls first bring the rank's own input slice into its buffer. -/
def emitOptionalSliceCopy (rank : Int) (sliceBeginBytes sliceBytes : Nat) (numWindows : Int) :
    BuildM Unit :=
  if input.outOfPlace then
    pushCopyTask cap input rank rank rank (rankInputRef rank sliceBeginBytes)
      (rankBufferRef rank sliceBeginBytes) sliceBytes numWindows .directNvlink
  else pure ()

/-- Tasks of one rank of the direct plan; a slice without bytes or windows is skipped. -/
def emitDirectRankTasks (rank : Int) : BuildM Unit :=
  let slice := computeRankSliceBytesFast input.count input.dtypeSize rank input.worldSize
  let sliceBeginBytes := slice.1
  let sliceBytes := slice.2
  let numWindows := windowCountForTransferBytes sliceBytes input.launchConfig
  if sliceBytes = 0 ∨ numWindows ≤ 0 then pure ()
  else do
    emitOptionalSliceCopy cap input rank sliceBeginBytes sliceBytes numWindows
    appendReadyRendezvousTasks cap input.topo rank input.worldSize
    (peersOf rank input.worldSize).forM fun peer =>
      if !transportUsesDirectTma (transports rank peer) then transferPlanAbortBuild
      else
        pushReduceTask cap input rank peer rank (rankBufferRef peer sliceBeginBytes)
          (rankBufferRef rank sliceBeginBytes) sliceBytes numWindows (transports rank peer)
    (peersOf rank input.worldSize).forM fun peer =>
      if !transportUsesDirectTma (transports rank peer) then transferPlanAbortBuild
      else
        pushCopyTask cap input rank rank peer (rankBufferRef rank sliceBeginBytes)
          (rankBufferRef peer sliceBeginBytes) sliceBytes numWindows (transports rank peer)

def buildDirectAllreducePlan : BuildM Unit := do
  (intRange input.worldSize).forM (emitDirectRankTasks cap input transports)
  markLastTaskPerRankTerminal input.worldSize

end Emitters

section Staged

variable (cap : Nat) (input : TransferPlanBuildInput) (transports : TransportMatrix)

def assignStagingSlots (islands : IslandPlan) (requiredBytes : Nat) : Option IslandPlan :=
  if requiredBytes = 0 then none
  else assignStagingSlotsFrom input islands (fun _ => requiredBytes) (intRange islands.islandCount) [] islands

def emitOptionalLocalCopies (bytes : Nat) (numWindows : Int) : BuildM Unit :=
  if !input.outOfPlace then pure ()
  else
    (intRange input.worldSize).forM fun rank =>
      pushCopyTask cap input rank rank rank (rankInputRef rank) (rankBufferRef rank) bytes numWindows
        .directNvlink

def emitIntraIslandReductionsToLeaders (islands : IslandPlan) (bytes : Nat) (numWindows : Int) :
    BuildM Unit :=
  (intRange islands.islandCount).forM fun island =>
    let leader := islands.leaderRank island
    (islandMembers islands island).forM fun rank =>
      if !transportUsesDirectTma (transports leader rank) then transferPlanAbortBuild
      else
        pushReduceTask cap input leader rank leader (rankBufferRef rank) (rankBufferRef leader) bytes
          numWindows (transports leader rank)

def emitLeaderPartialsToStaging (islands : IslandPlan) (bytes : Nat) (numWindows : Int) :
    BuildM Unit :=
  (intRange islands.islandCount).forM fun island =>
    let leader := islands.leaderRank island
    let stagingSlot := islands.stagingSlot island
    if !stagingSliceValid input stagingSlot 0 bytes then transferPlanAbortBuild
    else do
      pushCopyTask cap input leader leader leader (rankBufferRef leader) (shmStagingRef stagingSlot)
        bytes numWindows .shm
      pushReadyPublishForWaiters cap input leader
        ((peersOf island islands.islandCount).map islands.leaderRank)
        (stagedPartialReadyPhaseForIsland island)

def emitRemotePartialsToDestinationLeaders (islands : IslandPlan) (bytes : Nat) (numWindows : Int) :
    BuildM Unit :=
  (intRange islands.islandCount).forM fun dstIsland =>
    let dstLeader := islands.leaderRank dstIsland
    (peersOf dstIsland islands.islandCount).forM fun srcIsland => do
      pushReadyWaitTask cap input dstLeader (islands.leaderRank srcIsland)
        (stagedPartialReadyPhaseForIsland srcIsland)
      pushReduceTask cap input dstLeader (islands.leaderRank srcIsland) dstLeader
        (shmStagingRef (islands.stagingSlot srcIsland)) (rankBufferRef dstLeader) bytes numWindows .shm

def emitLeaderFinalToIslandRanks (islands : IslandPlan) (bytes : Nat) (numWindows : Int) :
    BuildM Unit :=
  (intRange islands.islandCount).forM fun island => do
    let leader := islands.leaderRank island
    pushReadyPublishForWaiters cap input leader (islandMembers islands island)
      (finalReadyPhaseForIsland island)
    (islandMembers islands island).forM fun rank => do
      pushReadyWaitTask cap input rank leader (finalReadyPhaseForIsland island)
      if !transportUsesDirectTma (transports rank leader) then transferPlanAbortBuild
      else
        pushCopyTask cap input rank leader rank (rankBufferRef leader) (rankBufferRef rank) bytes
          numWindows (transports rank leader)

def buildStagedIslandAllreducePlan (islands : IslandPlan) : BuildM Unit :=
  let bytes := totalBytes input
  let numWindows := windowCountForTransferBytes bytes input.launchConfig
  if bytes = 0 ∨ numWindows ≤ 0 then transferPlanAbortBuild
  else
    match assignStagingSlots input islands bytes with
    | none => transferPlanAbortBuild
    | some islands => do
      emitOptionalLocalCopies cap input bytes numWindows
      emitEntryRendezvous cap input
      emitIntraIslandReductionsToLeaders cap input transports islands bytes numWindows
      emitLeaderPartialsToStaging cap input islands bytes numWindows
      emitRemotePartialsToDestinationLeaders cap input islands bytes numWindows
      emitLeaderFinalToIslandRanks cap input transports islands bytes numWindows
      markLastTaskPerRankTerminal input.worldSize

end Staged

/-- The two passes over an emitted plan; a pass that fails clears the plan. -/
def runAllreducePasses (cap : Nat) : BuildM Unit := fun state =>
  match insertLocalReduceCopyBarriers cap (coalesceAdjacentCopyTasksIntoFanout state.plan.tasks) with
  | some tasks => .ok ((), { state with plan := { state.plan with tasks } })
  | none => .error {}

def planAllreduce (cap : Nat) (input : TransferPlanBuildInput) : BuildM Unit :=
  match buildTransportMatrix input.topo input.worldSize with
  | none => transferPlanAbortBuild
  | some transports =>
    match buildIslands input transports with
    | none => transferPlanAbortBuild
    | some islands =>
      if islands.islandCount ≤ 1 then do
        if input.outOfPlace then buildOutOfPlaceDirectAllreduceFanoutPlan cap input transports
        else buildDirectAllreducePlan cap input transports
        runAllreducePasses cap
      else if input.outOfPlace then transferPlanAbortBuild
      else do
        buildStagedIslandAllreducePlan cap input transports islands
        runAllreducePasses cap

/-- Success flag and the plan left behind, starting from the caller's plan storage. -/
def buildAllreduceTransferPlan (cap : Nat) (storage : TransferPlan) (input : TransferPlanBuildInput) :
    Bool × TransferPlan :=
  runPlanner (planAllreduce cap input) storage input

end Ooverlap.Plan.AllReduce
