import Ooverlap.Plan.AllReduce
import Ooverlap.Plan.Islands
import Ooverlap.Plan.Listing

/-! The tasks the staged planners list, island by island. -/

namespace Ooverlap.Plan

/-- A group whose ranks fall into at least two islands. -/
def SeveralIslands (input : TransferPlanBuildInput) : Prop :=
  ∃ transports islands, buildTransportMatrix input.topo input.worldSize = some transports ∧
    buildIslands input transports = some islands ∧ 1 < islands.islandCount

/-- Three devices, of which the last one reaches the others through shared memory only. -/
def twoIslandTopology : Topology where
  links := [⟨0, 1, [⟨.directNvlink, true⟩]⟩, ⟨1, 0, [⟨.directNvlink, true⟩]⟩, ⟨0, 2, [⟨.shm, true⟩]⟩,
    ⟨2, 0, [⟨.shm, true⟩]⟩, ⟨1, 2, [⟨.shm, true⟩]⟩, ⟨2, 1, [⟨.shm, true⟩]⟩]

/-- Three ranks in two islands, with two staging slots and an uneven split of seven elements. -/
def twoIslandInput : TransferPlanBuildInput where
  topo := { topology := some twoIslandTopology, rankDevices := some id, worldSize := 3 }
  worldSize := 3
  count := 7
  dtypeSize := 2
  stagingSlotCount := 2
  stagingBytes := fun _ => 64

theorem twoIslandInput_several : SeveralIslands twoIslandInput :=
  ⟨_, _, rfl, rfl, by decide +kernel⟩

section Waits

variable (cap : Nat) (input : TransferPlanBuildInput)

theorem waitThenLists (waiterRank ownerRank readyPhase : Int) (lists : Lists cap step tasks) :
    Lists cap (pushReadyWaitTask cap input waiterRank ownerRank readyPhase >>= fun _ => step)
      (waitTask input waiterRank ownerRank readyPhase :: tasks) :=
  (pushReadyWaitTask_lists cap input waiterRank ownerRank readyPhase).bind lists

end Waits

namespace ReduceScatter

section Pieces

variable (input : TransferPlanBuildInput) (transports : TransportMatrix) (islands : IslandPlan)

def fullCopies (rank : Int) : List TransferTask :=
  if input.outOfPlace then
    [copyTask input rank rank rank (rankInputRef rank) (rankBufferRef rank) (totalBytes input) (totalWindows input)
      .directNvlink]
  else []

def islandReductions (island leader : Int) : List TransferTask :=
  (islandMembers islands island).map fun rank =>
    reduceTask input leader rank leader (rankBufferRef rank) (rankBufferRef leader) (totalBytes input)
      (totalWindows input) (transports leader rank)

def partialPublishes (island leader : Int) : List TransferTask :=
  publishTasks input leader (listeners input leader (islandMembers islands island))
    (localPartialReadyPhaseForIsland island)

def partialWait (island rank : Int) : TransferTask :=
  waitTask input rank (islands.leaderRank island) (localPartialReadyPhaseForIsland island)

def partialCopy (island rank : Int) : TransferTask :=
  copyTask input rank (islands.leaderRank island) rank
    (rankBufferRef (islands.leaderRank island) (sliceBeginBytes input rank))
    (rankBufferRef rank (sliceBeginBytes input rank)) (sliceBytes input rank) (sliceWindows input rank)
    (transports rank (islands.leaderRank island))

def stagingCopy (island leader : Int) : TransferTask :=
  copyTask input leader leader leader (rankBufferRef leader) (shmStagingRef (islands.stagingSlot island))
    (totalBytes input) (totalWindows input) .shm

def stagedPublishes (island leader : Int) : List TransferTask :=
  publishTasks input leader
    (listeners input leader ((peersOf island islands.islandCount).flatMap islands.islandRanks))
    (stagedPartialReadyPhaseForIsland island)

def stagedWait (srcIsland rank : Int) : TransferTask :=
  waitTask input rank (islands.leaderRank srcIsland) (stagedPartialReadyPhaseForIsland srcIsland)

def remoteReduction (srcIsland rank : Int) : TransferTask :=
  reduceTask input rank (islands.leaderRank srcIsland) rank
    (shmStagingRef (islands.stagingSlot srcIsland) (sliceBeginBytes input rank))
    (rankBufferRef rank (sliceBeginBytes input rank)) (sliceBytes input rank) (sliceWindows input rank) .shm

/-- The tasks of a staged plan, in the order in which the planner emits them. -/
def stagedTasks : List TransferTask :=
  (intRange input.worldSize).flatMap (fullCopies input) ++
    ((intRange input.worldSize).flatMap (fun rank => entryPublishes input rank ++ entryWaits input rank) ++
    ((intRange islands.islandCount).flatMap (fun island =>
      islandReductions input transports islands island (islands.leaderRank island)) ++
    ((intRange islands.islandCount).flatMap (fun island =>
      partialPublishes input islands island (islands.leaderRank island) ++
        (islandMembers islands island).flatMap fun rank =>
          [partialWait input islands island rank, partialCopy input transports islands island rank]) ++
    ((intRange islands.islandCount).flatMap (fun island =>
      stagingCopy input islands island (islands.leaderRank island) ::
        stagedPublishes input islands island (islands.leaderRank island)) ++
    (intRange islands.islandCount).flatMap fun dstIsland =>
      (islands.islandRanks dstIsland).flatMap fun rank =>
        (peersOf dstIsland islands.islandCount).flatMap fun srcIsland =>
          [stagedWait input islands srcIsland rank, remoteReduction input islands srcIsland rank]))))

end Pieces

section Emitters

variable (cap : Nat) (input : TransferPlanBuildInput) (transports : TransportMatrix) (islands : IslandPlan)

theorem emitReduceScatterOptionalFullCopiesForStagedPath_lists :
    Lists cap (emitReduceScatterOptionalFullCopiesForStagedPath cap input)
      ((intRange input.worldSize).flatMap (fullCopies input)) := by
  unfold emitReduceScatterOptionalFullCopiesForStagedPath fullCopies
  cases input.outOfPlace with
  | false =>
    have none : ((intRange input.worldSize).flatMap fun _ => ([] : List TransferTask)) = [] :=
      List.flatMap_eq_nil_iff.mpr fun _ _ => rfl
    simpa [none] using Lists.pure cap
  | true => exact Lists.forM _ _ _ fun _ _ => pushCopyTask_lists ..

/-- The steps of the staged build after its checks. -/
theorem stagedSteps_lists :
    Lists cap (do
      emitReduceScatterOptionalFullCopiesForStagedPath cap input
      emitEntryRendezvous cap input
      emitIntraIslandReductionsToLeaders cap input transports islands
      emitLocalLeaderPartialsToIslandRanks cap input transports islands
      emitLeaderPartialsToStaging cap input islands
      emitRemotePartialsToDestinationRanks cap input islands) (stagedTasks input transports islands) := by
  refine (emitReduceScatterOptionalFullCopiesForStagedPath_lists cap input).bind
    ((emitEntryRendezvous_lists cap input).bind (Lists.bind ?_ (Lists.bind ?_ (Lists.bind ?_ ?_))))
  · exact Lists.forM _ _ _ fun island _ => Lists.forM_single _ _ _ fun rank _ =>
      Lists.guarded _ (pushReduceTask_lists ..)
  · refine Lists.forM _ _ _ fun island _ => (pushReadyPublishForWaiters_lists ..).bind ?_
    exact Lists.forM _ _ _ fun rank _ => waitThenLists cap input _ _ _ (Lists.guarded _ (pushCopyTask_lists ..))
  · refine Lists.forM _ _ _ fun island _ => Lists.guarded _ ?_
    exact (pushCopyTask_lists ..).bind (pushReadyPublishForWaiters_lists ..)
  · refine Lists.forM _ _ _ fun dstIsland _ => Lists.forM _ _ _ fun rank _ => Lists.forM _ _ _ fun srcIsland _ => ?_
    exact waitThenLists cap input _ _ _ (pushReduceTask_lists ..)

end Emitters

end ReduceScatter

end Ooverlap.Plan
