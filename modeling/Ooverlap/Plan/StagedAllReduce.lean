import Ooverlap.Plan.AllReduceShape
import Ooverlap.Plan.StagedListing

/-! The tasks of the staged all-reduce planner, and what its two list passes leave of them. -/

namespace Ooverlap.Plan.AllReduce

open ReduceScatter (totalWindows islandReductions stagingCopy)

section Pieces

variable (input : TransferPlanBuildInput) (transports : TransportMatrix) (islands : IslandPlan)

def stagedPublishes (island leader : Int) : List TransferTask :=
  publishTasks input leader (listeners input leader ((peersOf island islands.islandCount).map islands.leaderRank))
    (stagedPartialReadyPhaseForIsland island)

def stagedWait (srcIsland leader : Int) : TransferTask :=
  waitTask input leader (islands.leaderRank srcIsland) (stagedPartialReadyPhaseForIsland srcIsland)

def remoteReduction (srcIsland leader : Int) : TransferTask :=
  reduceTask input leader (islands.leaderRank srcIsland) leader (shmStagingRef (islands.stagingSlot srcIsland))
    (rankBufferRef leader) (totalBytes input) (totalWindows input) .shm

def finalPublishes (island leader : Int) : List TransferTask :=
  publishTasks input leader (listeners input leader (islandMembers islands island)) (finalReadyPhaseForIsland island)

def finalWait (island rank : Int) : TransferTask :=
  waitTask input rank (islands.leaderRank island) (finalReadyPhaseForIsland island)

def finalCopy (island rank : Int) : TransferTask :=
  copyTask input rank (islands.leaderRank island) rank (rankBufferRef (islands.leaderRank island)) (rankBufferRef rank)
    (totalBytes input) (totalWindows input) (transports rank (islands.leaderRank island))

/-- The tasks of a staged plan, in the order in which the planner emits them. -/
def stagedTasks : List TransferTask :=
  (intRange input.worldSize).flatMap (fun rank => entryPublishes input rank ++ entryWaits input rank) ++
    ((intRange islands.islandCount).flatMap (fun island =>
      islandReductions input transports islands island (islands.leaderRank island)) ++
    ((intRange islands.islandCount).flatMap (fun island =>
      stagingCopy input islands island (islands.leaderRank island) ::
        stagedPublishes input islands island (islands.leaderRank island)) ++
    ((intRange islands.islandCount).flatMap (fun dstIsland =>
      (peersOf dstIsland islands.islandCount).flatMap fun srcIsland =>
        [stagedWait input islands srcIsland (islands.leaderRank dstIsland),
          remoteReduction input islands srcIsland (islands.leaderRank dstIsland)]) ++
    (intRange islands.islandCount).flatMap fun island =>
      finalPublishes input islands island (islands.leaderRank island) ++
        (islandMembers islands island).flatMap fun rank =>
          [finalWait input islands island rank, finalCopy input transports islands island rank])))

end Pieces

/-- The steps of the in-place staged build after its checks. -/
theorem stagedSteps_lists (cap : Nat) (input : TransferPlanBuildInput) (transports : TransportMatrix)
    (islands : IslandPlan) (inPlace : input.outOfPlace = false) :
    Lists cap (do
      emitOptionalLocalCopies cap input (totalBytes input) (totalWindows input)
      emitEntryRendezvous cap input
      emitIntraIslandReductionsToLeaders cap input transports islands (totalBytes input) (totalWindows input)
      emitLeaderPartialsToStaging cap input islands (totalBytes input) (totalWindows input)
      emitRemotePartialsToDestinationLeaders cap input islands (totalBytes input) (totalWindows input)
      emitLeaderFinalToIslandRanks cap input transports islands (totalBytes input) (totalWindows input))
      (stagedTasks input transports islands) := by
  have noCopies : emitOptionalLocalCopies cap input (totalBytes input) (totalWindows input) = pure () := by
    simp [emitOptionalLocalCopies, inPlace]
  rw [noCopies, pure_bind]
  refine (emitEntryRendezvous_lists cap input).bind (Lists.bind ?_ (Lists.bind ?_ (Lists.bind ?_ ?_)))
  · exact Lists.forM _ _ _ fun island _ => Lists.forM_single _ _ _ fun rank _ =>
      Lists.guarded _ (pushReduceTask_lists ..)
  · refine Lists.forM _ _ _ fun island _ => Lists.guarded _ ?_
    exact (pushCopyTask_lists ..).bind (pushReadyPublishForWaiters_lists ..)
  · refine Lists.forM _ _ _ fun dstIsland _ => Lists.forM _ _ _ fun srcIsland _ => ?_
    exact waitThenLists cap input _ _ _ (pushReduceTask_lists ..)
  · refine Lists.forM _ _ _ fun island _ => (pushReadyPublishForWaiters_lists ..).bind ?_
    exact Lists.forM _ _ _ fun rank _ => waitThenLists cap input _ _ _ (Lists.guarded _ (pushCopyTask_lists ..))

section Passes

/-- A task that the passes neither join with others nor have put in themselves. -/
def Plain (task : TransferTask) : Prop :=
  copyTaskIsFanoutEligible task = false ∧ task.op ≠ .barrier

theorem withBarriers_filter (plain : ∀ task ∈ tasks, task.op ≠ .barrier) (previous : List TransferTask) :
    (withBarriers previous tasks).filter (fun task => task.op ≠ .barrier) = tasks := by
  induction tasks generalizing previous with
  | nil => rfl
  | cons consumer rest ih =>
    have here := plain consumer (List.mem_cons_self ..)
    have later := ih fun task member => plain task (List.mem_cons_of_mem _ member)
    have dropped : (barrierFor consumer).op = .barrier := rfl
    simp only [withBarriers]
    split
    · rw [List.filter_cons_of_neg (by simp [dropped]), List.filter_cons_of_pos (by simpa using here), later]
    · rw [List.filter_cons_of_pos (by simpa using here), later]

theorem withBarriers_executors (previous : List TransferTask) (member : task ∈ withBarriers previous tasks) :
    ∃ original ∈ tasks, original.executorRank = task.executorRank := by
  induction tasks generalizing previous with
  | nil => cases member
  | cons consumer rest ih =>
    have later : ∀ {before}, task ∈ withBarriers before rest →
        ∃ original ∈ consumer :: rest, original.executorRank = task.executorRank := fun inRest => by
      obtain ⟨original, present, same⟩ := ih _ inRest
      exact ⟨original, List.mem_cons_of_mem _ present, same⟩
    simp only [withBarriers] at member
    split at member
    · rcases List.mem_cons.mp member with rfl | member
      · exact ⟨consumer, List.mem_cons_self .., rfl⟩
      · rcases List.mem_cons.mp member with rfl | inRest
        · exact ⟨task, List.mem_cons_self .., rfl⟩
        · exact later inRest
    · rcases List.mem_cons.mp member with rfl | inRest
      · exact ⟨task, List.mem_cons_self .., rfl⟩
      · exact later inRest

theorem renumberPhases_unmarked (phases : Int → Int) (tasks : List TransferTask) :
    (renumberPhases phases tasks).map TransferTask.unmarked = tasks.map TransferTask.unmarked := by
  induction tasks generalizing phases with
  | nil => rfl
  | cons task rest ih =>
    simp only [renumberPhases]
    split
    · rw [List.map_cons, List.map_cons, ih]
      rfl
    · rw [List.map_cons, List.map_cons, ih]

/-- Over plain tasks the passes put in barriers and do nothing else. -/
theorem runAllreducePasses_plain (plain : ∀ task ∈ before.plan.tasks, Plain task)
    (passed : runAllreducePasses cap before = .ok ((), state)) :
    (state.plan.tasks.map TransferTask.unmarked).filter (fun task => task.op ≠ .barrier) =
        before.plan.tasks.map TransferTask.unmarked ∧
      ∀ task ∈ state.plan.tasks, ∃ original ∈ before.plan.tasks, original.executorRank = task.executorRank := by
  have same : coalesceAdjacentCopyTasksIntoFanout before.plan.tasks = before.plan.tasks := by
    have whole := coalesceFrom_ineligible (fun task member => (plain task member).1) []
    simpa [coalesceAdjacentCopyTasksIntoFanout, coalesceFrom, flushFanoutGroup] using whole
  simp only [runAllreducePasses, insertLocalReduceCopyBarriers, same] at passed
  cases inserted : insertBarriersFrom cap [] before.plan.tasks with
  | none =>
    rw [inserted] at passed
    cases passed
  | some result =>
    rw [inserted] at passed
    cases passed
    have whole := insertBarriersFrom_eq inserted
    rw [List.nil_append] at whole
    have kept : (renumberPhases (fun _ => 0) result).map TransferTask.unmarked = result.map TransferTask.unmarked :=
      renumberPhases_unmarked _ _
    constructor
    · change ((renumberPhases _ result).map TransferTask.unmarked).filter _ = _
      rw [kept, whole, List.filter_map]
      congr 1
      exact withBarriers_filter (fun task member => (plain task member).2) []
    · intro task member
      have inResult : task.unmarked ∈ result.map TransferTask.unmarked := by
        rw [← kept]
        exact List.mem_map_of_mem member
      obtain ⟨other, otherMember, alike⟩ := List.mem_map.mp inResult
      rw [whole] at otherMember
      obtain ⟨original, present, executor⟩ := withBarriers_executors [] otherMember
      have same : other.unmarked.executorRank = task.unmarked.executorRank := congrArg TransferTask.executorRank alike
      exact ⟨original, present, executor.trans same⟩

/-- The tasks of each rank after the passes, up to barriers. -/
theorem passed_lists {step : BuildM Unit} (lists : Lists cap step tasks) (plain : ∀ task ∈ tasks, Plain task)
    (worldSize : Int) (inRange : ∀ task ∈ tasks, task.executorRank ∈ intRange worldSize)
    (marked : (step >>= fun _ => markLastTaskPerRankTerminal worldSize) { plan := { worldSize := size } } =
      .ok ((), middle))
    (passed : runAllreducePasses cap middle = .ok ((), state)) :
    (∀ rank, ((rankTasks state.plan rank).map TransferTask.unmarked).filter (fun task => task.op ≠ .barrier) =
        tasks.filter fun task => task.executorRank = rank) ∧
      ∀ rank ∉ intRange worldSize, rankTasks state.plan rank = [] := by
  have listed := lists.marked worldSize marked
  have inTasks : ∀ task ∈ middle.plan.tasks, task.unmarked ∈ tasks := by
    intro task member
    have inRank : task.unmarked ∈ (rankTasks middle.plan task.executorRank).map TransferTask.unmarked :=
      List.mem_map_of_mem (List.mem_filter.mpr ⟨member, by simp⟩)
    rw [listed] at inRank
    exact List.mem_of_mem_filter inRank
  have plainTasks : ∀ task ∈ middle.plan.tasks, Plain task := fun task member => by
    have unmarked : Plain task.unmarked := plain task.unmarked (inTasks task member)
    exact unmarked
  obtain ⟨whole, executors⟩ := runAllreducePasses_plain plainTasks passed
  constructor
  · intro rank
    have own := congrArg (List.filter fun task => decide (task.executorRank = rank)) whole
    rw [List.filter_filter, List.filter_map, List.filter_map] at own
    rw [← listed, rankTasks, rankTasks, List.filter_map, List.filter_filter]
    refine Eq.trans ?_ own
    congr 1
    exact List.filter_congr fun task _ => Bool.and_comm ..
  · intro rank outside
    refine List.filter_eq_nil_iff.mpr fun task member own => outside ?_
    obtain ⟨original, present, same⟩ := executors task member
    rw [← of_decide_eq_true own, ← same]
    have executor : original.unmarked.executorRank ∈ intRange worldSize := inRange _ (inTasks original present)
    exact executor

end Passes

end Ooverlap.Plan.AllReduce
