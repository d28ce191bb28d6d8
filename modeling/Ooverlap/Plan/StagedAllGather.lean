import Ooverlap.Plan.StagedListing

/-! The tasks of the staged all-gather planner, block by block. -/

namespace Ooverlap.Plan.AllGather

section Pieces

variable (input : TransferPlanBuildInput) (transports : TransportMatrix) (islands : IslandPlan)

def islandCopies (island rank : Int) : List TransferTask :=
  sourceCopies input transports rank (islands.islandRanks island) (sliceBeginBytes input rank) (sliceBytes input rank)
    (sliceWindows input rank)

def gatherPublishes (island rank : Int) : List TransferTask :=
  publishTasks input rank (listeners input rank [islands.leaderRank island]) kReadyPhaseIslandGatherDone

def gatherWait (leader rank : Int) : TransferTask :=
  waitTask input leader rank kReadyPhaseIslandGatherDone

def blockCopy (island leader : Int) : TransferTask :=
  copyTask input leader leader leader (rankBufferRef leader (islandBlockBegin input islands island))
    (shmStagingRef (islands.stagingSlot island)) (islandBlockBytes input islands island)
    (islandBlockWindows input islands island) .shm

def stagedPublishes (island leader : Int) : List TransferTask :=
  publishTasks input leader (listeners input leader ((peersOf island islands.islandCount).map islands.leaderRank))
    (stagedReadyPhaseForIsland island)

def stagedWait (srcIsland leader : Int) : TransferTask :=
  waitTask input leader (islands.leaderRank srcIsland) (stagedReadyPhaseForIsland srcIsland)

def remoteCopy (srcIsland leader : Int) : TransferTask :=
  copyTask input leader (islands.leaderRank srcIsland) leader (shmStagingRef (islands.stagingSlot srcIsland))
    (rankBufferRef leader (islandBlockBegin input islands srcIsland)) (islandBlockBytes input islands srcIsland)
    (islandBlockWindows input islands srcIsland) .shm

def remotePublishes (srcIsland dstIsland leader : Int) : List TransferTask :=
  publishTasks input leader (listeners input leader (islandMembers islands dstIsland))
    (remoteLeaderReadyPhase srcIsland dstIsland)

def memberWait (srcIsland dstIsland rank : Int) : TransferTask :=
  waitTask input rank (islands.leaderRank dstIsland) (remoteLeaderReadyPhase srcIsland dstIsland)

def memberCopy (srcIsland dstIsland rank : Int) : TransferTask :=
  copyTask input rank (islands.leaderRank dstIsland) rank
    (rankBufferRef (islands.leaderRank dstIsland) (islandBlockBegin input islands srcIsland))
    (rankBufferRef rank (islandBlockBegin input islands srcIsland)) (islandBlockBytes input islands srcIsland)
    (islandBlockWindows input islands srcIsland) (transports rank (islands.leaderRank dstIsland))

/-- The tasks of a staged plan, in the order in which the planner emits them. -/
def stagedTasks : List TransferTask :=
  (intRange input.worldSize).flatMap (inputCopies input) ++
    ((intRange input.worldSize).flatMap (fun rank => entryPublishes input rank ++ entryWaits input rank) ++
    ((intRange islands.islandCount).flatMap (fun island =>
      (islands.islandRanks island).flatMap (islandCopies input transports islands island)) ++
    ((intRange islands.islandCount).flatMap (fun island =>
      (islandMembers islands island).flatMap fun rank =>
        gatherPublishes input islands island rank ++ [gatherWait input (islands.leaderRank island) rank]) ++
    ((intRange islands.islandCount).flatMap (fun island =>
      blockCopy input islands island (islands.leaderRank island) ::
        stagedPublishes input islands island (islands.leaderRank island)) ++
    ((intRange islands.islandCount).flatMap (fun dstIsland =>
      (peersOf dstIsland islands.islandCount).flatMap fun srcIsland =>
        stagedWait input islands srcIsland (islands.leaderRank dstIsland) ::
          remoteCopy input islands srcIsland (islands.leaderRank dstIsland) ::
          remotePublishes input islands srcIsland dstIsland (islands.leaderRank dstIsland)) ++
    (intRange islands.islandCount).flatMap fun dstIsland =>
      (peersOf dstIsland islands.islandCount).flatMap fun srcIsland =>
        (islandMembers islands dstIsland).flatMap fun rank =>
          [memberWait input islands srcIsland dstIsland rank,
            memberCopy input transports islands srcIsland dstIsland rank])))))

end Pieces

/-- The steps of the staged build after its checks. -/
theorem stagedSteps_lists (cap : Nat) (input : TransferPlanBuildInput) (transports : TransportMatrix)
    (islands : IslandPlan) :
    Lists cap (do
      emitOptionalSliceCopies cap input
      emitEntryRendezvous cap input
      emitIntraIslandAllGather cap input transports islands
      emitIslandGatherDoneSync cap input islands
      emitIslandBlocksToStaging cap input islands
      emitRemoteStagingToDestinationLeaders cap input islands
      emitDestinationLeaderToIslandRanks cap input transports islands) (stagedTasks input transports islands) := by
  refine (emitOptionalSliceCopies_lists cap input).bind ((emitEntryRendezvous_lists cap input).bind
    (Lists.bind ?_ (Lists.bind ?_ (Lists.bind ?_ (Lists.bind ?_ ?_)))))
  · exact Lists.forM _ _ _ fun island _ => Lists.forM _ _ _ fun srcRank _ => emitAllGatherSourceCopies_lists ..
  · refine Lists.forM _ _ _ fun island _ => Lists.forM _ _ _ fun rank _ => ?_
    exact (pushReadyPublishForWaiters_lists ..).bind (pushReadyWaitTask_lists ..)
  · refine Lists.forM _ _ _ fun island _ => Lists.guarded _ ?_
    exact (pushCopyTask_lists ..).bind (pushReadyPublishForWaiters_lists ..)
  · refine Lists.forM _ _ _ fun dstIsland _ => Lists.forM _ _ _ fun srcIsland _ => waitThenLists cap input _ _ _ ?_
    exact (pushCopyTask_lists ..).bind (pushReadyPublishForWaiters_lists ..)
  · refine Lists.forM _ _ _ fun dstIsland _ => Lists.forM _ _ _ fun srcIsland _ => Lists.forM _ _ _ fun rank _ => ?_
    exact waitThenLists cap input _ _ _ (Lists.guarded _ (pushCopyTask_lists ..))

end Ooverlap.Plan.AllGather
