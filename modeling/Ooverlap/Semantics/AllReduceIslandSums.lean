import Ooverlap.Plan.StagingSlots
import Ooverlap.Semantics.AllReduceIslands
import Ooverlap.Semantics.AllReduceSums

/-! What the staged all-reduce plan leaves on every rank, and when its staging slots are read. -/

namespace Ooverlap.Semantics.AllReduceIslands

open Ooverlap.Plan Ooverlap.Plan.AllReduce Ooverlap.Interleaving
open Ooverlap.Plan.ReduceScatter (totalWindows islandReductions stagingCopy)

section Values

variable {M : Type} [AddCommMonoid M]
variable {input : TransferPlanBuildInput} {transports : TransportMatrix} {islands : IslandPlan} {index : Nat}
variable {values : BufferId → M}

/-- What the buffers hold of an element after the first stages. -/
def islandValues (input : TransferPlanBuildInput) (transports : TransportMatrix) (islands : IslandPlan) (index : Nat)
    (values : BufferId → M) (bound : Nat) : BufferId → M :=
  stageValues input.dtypeSize (fun _ => 0) index input.worldSize (islandStages input transports islands) values bound

/-- What an island holds of the element before the plan runs. -/
def partialOf (islands : IslandPlan) (values : BufferId → M) (island : Int) : M :=
  islandSum islands (fun rank => values (rankBuffer rank)) island

theorem quiet_stage (inRange : bound < (islandStages input transports islands).count)
    (quiet : ∀ rank task, StageTask input transports islands rank bound task → ¬movesData task) :
    islandValues input transports islands index values (bound + 1) =
      islandValues input transports islands index values bound :=
  stageValues_quiet fun rank _ task member => quiet rank task (stageTask_of_mem inRange member).2

/-- The stages of signals move no data. -/
theorem signal_stage (signals : bound ∈ [0, 1, 4] ∨ (5 ≤ bound ∧ bound < 2 * islands.islandCount.toNat + 5 ∧ bound % 2 = 1) ∨
      bound = 2 * islands.islandCount.toNat + 5 ∨ bound = 2 * islands.islandCount.toNat + 6) :
    islandValues input transports islands index values (bound + 1) =
      islandValues input transports islands index values bound := by
  have inRange : bound < (islandStages input transports islands).count := by
    change bound < 2 * islands.islandCount.toNat + 8
    simp only [List.mem_cons, List.not_mem_nil, or_false] at signals
    omega
  refine quiet_stage inRange fun rank task staged => ?_
  cases staged with
  | entryPublish member => exact publishes_quiet _ member
  | entryWait => exact wait_quiet
  | stagedPublish _ member => exact publishes_quiet _ member
  | stagedWait => exact wait_quiet
  | finalPublish _ member => exact publishes_quiet _ member
  | finalWait => exact wait_quiet
  | _ => simp at signals <;> omega

section Element

variable (transports) (values) (positive : 0 < input.dtypeSize) (fits : input.count * input.dtypeSize < 2 ^ 64)
variable (below : index < input.count)

include positive fits below

/-- The leaders gather their islands and bring the partials into their staging slots. -/
theorem slotted (staged : StagedIslands input.worldSize islands) (inRange : island ∈ intRange islands.islandCount) :
    islandValues input transports islands index values 5 (rankBuffer (islands.leaderRank island)) =
        partialOf islands values island ∧
      islandValues input transports islands index values 5 (stagingBuffer (islands.stagingSlot island)) =
        partialOf islands values island := by
  rw [signal_stage (Or.inl (by decide))]
  have gathering : ∀ rank ∈ intRange input.worldSize,
      actingTasks input.dtypeSize (fun _ => 0) index (islandStages input transports islands) 2 rank =
        gatherBlock input transports islands rank := by
    intro rank rankInRange
    have stage : (islandStages input transports islands).stage 2 rank = gatherBlock input transports islands rank :=
      if_pos rankInRange
    rw [← stage]
    exact acting_whole positive fits below fun task member => gatherBlock_whole (stage ▸ member)
  have staging : ∀ rank ∈ intRange input.worldSize,
      actingTasks input.dtypeSize (fun _ => 0) index (islandStages input transports islands) 3 rank =
        stagingBlock input islands rank := by
    intro rank rankInRange
    have stage : (islandStages input transports islands).stage 3 rank = stagingBlock input islands rank :=
      if_pos rankInRange
    rw [← stage]
    exact acting_whole positive fits below fun task member => stagingBlock_whole (stage ▸ member)
  have start : islandValues input transports islands index values 2 = values := by
    rw [signal_stage (Or.inl (by decide)), signal_stage (Or.inl (by decide))]
    rfl
  have gathered : islandValues input transports islands index values 3 (rankBuffer (islands.leaderRank island)) =
      partialOf islands values island := by
    refine ((gatherBlock_values values staged.toPartition gathering).1 island inRange).trans ?_
    unfold islandValues at start
    rw [start]
    rfl
  obtain ⟨slots, others⟩ := stagingBlock_values values staged staging
  exact ⟨(others _).trans gathered, (slots island inRange).trans gathered⟩

/-- From leader to leader the partials add up. -/
theorem exchanged (staged : StagedIslands input.worldSize islands) (through : bound ≤ islands.islandCount.toNat) :
    ∀ island ∈ intRange islands.islandCount,
      islandValues input transports islands index values (2 * bound + 5) (rankBuffer (islands.leaderRank island)) =
          partialOf islands values island + ((peersOf island bound).map (partialOf islands values)).sum ∧
        islandValues input transports islands index values (2 * bound + 5) (stagingBuffer (islands.stagingSlot island)) =
          partialOf islands values island := by
  induction bound with
  | zero =>
    intro island inRange
    obtain ⟨leader, slot⟩ := slotted transports values positive fits below staged inRange
    have none : peersOf island (0 : Nat) = [] := rfl
    rw [none]
    exact ⟨leader.trans (add_zero _).symm, slot⟩
  | succ bound ih =>
    have ahead := ih (by omega)
    have signal : islandValues input transports islands index values (2 * bound + 5 + 1) =
        islandValues input transports islands index values (2 * bound + 5) := signal_stage (by simp; omega)
    rw [← signal] at ahead
    let block : Int → List TransferTask := fun rank =>
      if Leads islands rank ∧ (bound : Int) ≠ islands.islandOfRank rank then [remoteReduction input islands bound rank]
      else []
    have single : ∀ rank, ∀ task ∈ block rank, Leads islands rank ∧ task = remoteReduction input islands bound rank := by
      intro rank task member
      simp only [block] at member
      split at member
      · rename_i both
        exact ⟨both.1, List.mem_singleton.mp member⟩
      · cases member
    have acting : ∀ rank ∈ intRange input.worldSize,
        actingTasks input.dtypeSize (fun _ => 0) index (islandStages input transports islands) (2 * bound + 6) rank =
          block rank := by
      intro rank rankInRange
      have position : (2 * bound + 1) / 2 = bound ∧ (2 * bound + 1) % 2 = 1 := by omega
      have among : 2 * bound + 1 < 2 * islands.islandCount.toNat := by omega
      have stage : (islandStages input transports islands).stage (2 * bound + 6) rank = block rank := by
        simp only [islandStages, if_pos rankInRange]
        change islandStage input transports islands (2 * bound + 1 + 5) rank = _
        simp only [islandStage, if_pos among, position.1, position.2, block]
        by_cases leads : Leads islands rank <;> by_cases away : (bound : Int) = islands.islandOfRank rank <;>
          simp [leads, away]
      rw [← stage]
      refine acting_whole positive fits below fun task member => ?_
      rw [(single rank task (stage ▸ member)).2, remoteReduction, reduceTask_src, reduceTask_bytes]
      exact ⟨rfl, rfl⟩
    obtain ⟨own, others⟩ := stageValues_blocks values block acting rankBuffer
      (fun _ _ _ _ differ same => differ (rankBuffer_inj.mp same)) (fun rank _ task member => by
        rw [(single rank task member).2, remoteReduction, reduceTask_destinations]
        exact List.Subset.refl _) (fun rank _ task member other _ _ _ => by
        rw [(single rank task member).2, remoteReduction, reduceTask_src]
        exact (rankBuffer_ne_staging other _).symm)
    intro island inRange
    obtain ⟨leader, slot⟩ := ahead island inRange
    have home := staged.leader_home inRange
    constructor
    · have here : islandValues input transports islands index values (2 * (bound + 1) + 5)
          (rankBuffer (islands.leaderRank island)) = _ := own _ (staged.leader_inRange inRange)
      rw [here, peersOf_succ, List.map_append, List.sum_append, ← add_assoc]
      by_cases same : (bound : Int) = island
      · have idle : block (islands.leaderRank island) = [] := if_neg fun both => both.2 (by rw [home, same])
        rw [idle, if_pos same, List.map_nil, List.sum_nil, add_zero]
        exact leader
      · have busy : block (islands.leaderRank island) = [remoteReduction input islands bound (islands.leaderRank island)] :=
          if_pos ⟨staged.leader_leads inRange, by rwa [home]⟩
        have reduces : (remoteReduction input islands bound (islands.leaderRank island)).op = .reduce := reduceTask_op ..
        rw [busy, if_neg same, List.map_singleton, List.sum_singleton,
          ← (ahead bound (mem_intRange.mpr ⟨by omega, by omega⟩)).2, ← leader]
        rw [runBuffers_single, bufferEffect_reduce reduces]
        exact Function.update_self ..
    · refine (others _ fun rank _ _ => ?_).trans slot
      exact (rankBuffer_ne_staging rank _).symm

/-- In the end every rank has what its leader has: the sum over all ranks. -/
theorem finished_sum (staged : StagedIslands input.worldSize islands) (inRange : rank ∈ intRange input.worldSize) :
    islandValues input transports islands index values (2 * islands.islandCount.toNat + 8) (rankBuffer rank) =
      ((intRange input.worldSize).map fun peer => values (rankBuffer peer)).sum := by
  have leaders : ∀ island ∈ intRange islands.islandCount,
      islandValues input transports islands index values (2 * islands.islandCount.toNat + 7)
          (rankBuffer (islands.leaderRank island)) =
        ((intRange input.worldSize).map fun peer => values (rankBuffer peer)).sum := by
    intro island islandInRange
    have bounds := mem_intRange.mp islandInRange
    have last : ((islands.islandCount.toNat : Nat) : Int) = islands.islandCount := Int.toNat_of_nonneg (by omega)
    have summed := (exchanged transports values positive fits below staged (le_refl _) island islandInRange).1
    rw [last, ← sum_intRange_eq islandInRange] at summed
    rw [signal_stage (by simp), signal_stage (by simp), summed]
    exact islands_sum staged.toPartition fun peer => values (rankBuffer peer)
  let block : Int → List TransferTask := finalStage input transports islands 2
  have single : ∀ rank, ∀ task ∈ block rank, ¬Leads islands rank ∧
      task = finalCopy input transports islands (islands.islandOfRank rank) rank := by
    intro rank task member
    simp only [block, finalStage] at member
    split at member
    · cases member
    · exact ⟨‹_›, List.mem_singleton.mp member⟩
  have acting : ∀ rank ∈ intRange input.worldSize,
      actingTasks input.dtypeSize (fun _ => 0) index (islandStages input transports islands)
        (2 * islands.islandCount.toNat + 7) rank = block rank := by
    intro rank rankInRange
    have stage : (islandStages input transports islands).stage (2 * islands.islandCount.toNat + 7) rank = block rank := by
      simp only [islandStages, if_pos rankInRange]
      change islandStage input transports islands (2 * islands.islandCount.toNat + 2 + 5) rank = _
      simp only [islandStage]
      rw [if_neg (by omega), Nat.add_sub_cancel_left]
    rw [← stage]
    refine acting_whole positive fits below fun task member => ?_
    rw [(single rank task (stage ▸ member)).2]
    exact ⟨rfl, rfl⟩
  have home := staged.home rank inRange
  obtain ⟨own, others⟩ := stageValues_blocks values block acting rankBuffer
    (fun _ _ _ _ differ same => differ (rankBuffer_inj.mp same)) (fun rank _ task member => by
      rw [(single rank task member).2]
      exact List.Subset.refl _) (fun rank rankInRange task member other _ _ busy same => by
      obtain ⟨found, inBlock⟩ := List.exists_mem_of_ne_nil _ busy
      rw [(single rank task member).2] at same
      have leader : islands.leaderRank (islands.islandOfRank rank) = other := rankBuffer_inj.mp same
      exact (single other found inBlock).1 (leader ▸ staged.leader_leads (staged.home rank rankInRange)))
  have here : islandValues input transports islands index values (2 * islands.islandCount.toNat + 8) (rankBuffer rank) = _ :=
    own rank inRange
  rw [here]
  by_cases leads : Leads islands rank
  · have idle : block rank = [] := if_pos leads
    rw [idle]
    have isLeader := leaders _ home
    rw [leads] at isLeader
    exact isLeader
  · have busy : block rank = [finalCopy input transports islands (islands.islandOfRank rank) rank] := if_neg leads
    rw [busy]
    rw [runBuffers_single, bufferEffect_copy rfl]
    exact (Function.update_self ..).trans (leaders _ home)

end Element

end Values

section Outcome

variable {input : TransferPlanBuildInput} {transports : TransportMatrix} {islands : IslandPlan} {plan : TransferPlan}
variable {fuller : Staged Int TransferTask}

theorem StageTask.level (staged : StageTask input transports islands rank index task) :
    Level dtypeSize (fun _ => 0) task := by
  cases staged with
  | entryPublish member => exact level_quiet (publishes_quiet _ member)
  | entryWait => exact level_quiet wait_quiet
  | reduction => exact level_single reduceTask_destinations (by rw [reduceTask_src]; rfl)
  | stagingCopy => exact level_single rfl rfl
  | stagedPublish _ member => exact level_quiet (publishes_quiet _ member)
  | stagedWait => exact level_quiet wait_quiet
  | remoteReduction =>
    exact level_single reduceTask_destinations (by simp [AllReduce.remoteReduction, shmStagingRef, rankBufferRef])
  | finalPublish _ member => exact level_quiet (publishes_quiet _ member)
  | finalWait => exact level_quiet wait_quiet
  | finalCopy => exact level_single rfl rfl

/-- Every finished run leaves every rank the sum over all ranks. -/
theorem barred_sums (staged : StagedIslands input.worldSize islands) (positive : 0 < input.dtypeSize)
    (fits : input.count * input.dtypeSize < 2 ^ 64) (barred : Barred (islandStages input transports islands) fuller)
    (stagedPlan : StagedPlan input.dtypeSize input.worldSize plan fuller) : SumsEverywhere input plan := by
  intro M _ mem
  refine ⟨stagedPlan.completes mem, fun state reached finished rank inRange index below => ?_⟩
  have level : ∀ bound < fuller.count, ∀ rank, ∀ task ∈ fuller.stage bound rank,
      Level input.dtypeSize (fun _ => 0) task := by
    intro bound inStages rank task member
    rw [barred.count] at inStages
    by_cases bars : task.op = .barrier
    · exact level_quiet (by simp [movesData, bars])
    · exact (stageTask_of_mem inStages (barred.mem bars member)).2.level
  have column : columnOf (fun _ => 0) index state.shared (rankBuffer rank) = _ :=
    congrFun (stagedPlan.column positive level reached finished) (rankBuffer rank)
  rw [barred.count, barred.stageValues_eq (le_refl _), columnOf_unshifted, columnOf_unshifted] at column
  exact column.trans (finished_sum transports (columnAt index (entryState mem)) positive fits below staged inRange)

/-- Only the leaders' reductions read staging slots. -/
theorem StageTask.readsStaging (staged : StageTask input transports islands rank index task)
    (reads : readsByte task (stagingBuffer slot) byte) :
    ∃ srcIsland : Nat, index = 2 * srcIsland + 6 ∧ srcIsland < islands.islandCount.toNat ∧
      slot = islands.stagingSlot srcIsland ∧ byte < totalBytes input := by
  obtain ⟨moves, same, lower, upper⟩ := reads
  cases staged with
  | entryPublish member => exact absurd moves (publishes_quiet _ member)
  | entryWait => exact absurd moves wait_quiet
  | @reduction other =>
    rw [reduceTask_src] at same
    exact absurd same (rankBuffer_ne_staging other slot)
  | stagingCopy => exact absurd same (rankBuffer_ne_staging rank slot)
  | stagedPublish _ member => exact absurd moves (publishes_quiet _ member)
  | stagedWait => exact absurd moves wait_quiet
  | remoteReduction srcIsland known =>
    rw [AllReduce.remoteReduction, reduceTask_src, reduceTask_bytes] at upper
    rw [AllReduce.remoteReduction, reduceTask_src] at same
    change byte < 0 + totalBytes input at upper
    exact ⟨srcIsland, rfl, known, (stagingBuffer_inj.mp same).symm, by omega⟩
  | finalPublish _ member => exact absurd moves (publishes_quiet _ member)
  | finalWait => exact absurd moves wait_quiet
  | finalCopy => exact absurd same (rankBuffer_ne_staging (islands.leaderRank (islands.islandOfRank rank)) slot)

theorem barred_settled (staged : StagedIslands input.worldSize islands)
    (barred : Barred (islandStages input transports islands) fuller)
    (stagedPlan : StagedPlan input.dtypeSize input.worldSize plan fuller) : StagingSettled input.dtypeSize plan := by
  have working : ∀ {task : TransferTask}, movesData task → task.op ≠ .barrier := by
    intro task moves bars
    simp [movesData, bars] at moves
  refine stagedPlan.readsSettled ?_ ?_
  · rintro later inRange reader task member _ byte reads ⟨slot, rfl⟩
    rw [barred.count] at inRange ⊢
    obtain ⟨_, stageTask⟩ := stageTask_of_mem inRange (barred.mem (working reads.1) member)
    obtain ⟨srcIsland, rfl, known, rfl, inTensor⟩ := stageTask.readsStaging reads
    have bounds : (srcIsland : Int) ∈ intRange islands.islandCount := mem_intRange.mpr ⟨by omega, by omega⟩
    have early : 3 < (islandStages input transports islands).count := by
      change 3 < 2 * islands.islandCount.toNat + 8
      omega
    refine ⟨3, early, islands.leaderRank srcIsland, stagingCopy input islands srcIsland (islands.leaderRank srcIsland),
      barred.mem_fuller early (mem_stage (staged.leader_inRange bounds) ?_), Or.inl rfl, _,
      List.mem_singleton_self _, rfl, Nat.zero_le _, ?_⟩
    · change _ ∈ stagingBlock input islands (islands.leaderRank srcIsland)
      rw [stagingBlock, if_pos (staged.leader_leads bounds), staged.leader_home bounds]
      exact List.mem_singleton_self _
    · change byte < 0 + totalBytes input
      omega
  · rintro earlier beforeEnd later inRange writer reader other otherMember task member _ byte writes reads ⟨slot, rfl⟩
    rw [barred.count] at beforeEnd inRange
    obtain ⟨srcIsland, rfl, _⟩ :=
      (stageTask_of_mem inRange (barred.mem (working reads.1) member)).2.readsStaging reads
    rcases (stageTask_of_mem beforeEnd (barred.mem (working writes.1) otherMember)).2.written writes with
      ⟨_, _, same⟩ | ⟨rfl, _⟩ | ⟨_, _, _, _, same⟩ | ⟨_, _, same⟩
    · exact absurd same.symm (rankBuffer_ne_staging _ _)
    · omega
    · exact absurd same.symm (rankBuffer_ne_staging _ _)
    · exact absurd same.symm (rankBuffer_ne_staging _ _)

/-- No task of the staged plan is one that the passes would join with others. -/
theorem stagedTasks_plain : ∀ task ∈ stagedTasks input transports islands, Plain task := by
  have signal : ∀ {task : TransferTask}, task.op = .readyPublish ∨ task.op = .readyWait → Plain task := by
    rintro task (op | op) <;> exact ⟨by simp [copyTaskIsFanoutEligible, op], by simp [op]⟩
  have reduction : ∀ {task : TransferTask}, task.op = .reduce → Plain task := fun op =>
    ⟨by simp [copyTaskIsFanoutEligible, op], by simp [op]⟩
  intro task member
  simp only [stagedTasks, List.mem_append, List.mem_flatMap] at member
  rcases member with ⟨rank, inRange, publish | wait⟩ | ⟨island, inRange, reductions⟩ | ⟨island, inRange, leader⟩ |
    ⟨island, inRange, srcIsland, away, inPair⟩ | ⟨island, inRange, publish | ⟨rank, isMember, inPair⟩⟩
  · exact signal (Or.inl (entryPublishes_facts publish).1)
  · obtain ⟨peer, _, rfl⟩ := List.mem_map.mp wait
    exact signal (Or.inr rfl)
  · obtain ⟨other, _, rfl⟩ := List.mem_map.mp reductions
    exact reduction (reduceTask_op ..)
  · rcases List.mem_cons.mp leader with rfl | publish
    · refine ⟨?_, by simp [stagingCopy, copyTask, makeCopyTransferTask]⟩
      simp [copyTaskIsFanoutEligible, stagingCopy, copyTask, makeCopyTransferTask]
    · exact signal (Or.inl (publishTasks_facts publish).1)
  · rcases List.mem_pair.mp inPair with rfl | rfl
    · exact signal (Or.inr rfl)
    · exact reduction (reduceTask_op ..)
  · exact signal (Or.inl (publishTasks_facts publish).1)
  · rcases List.mem_pair.mp inPair with rfl | rfl
    · exact signal (Or.inr rfl)
    · refine ⟨?_, by simp [finalCopy, copyTask, makeCopyTransferTask]⟩
      simp [copyTaskIsFanoutEligible, finalCopy, copyTask, makeCopyTransferTask]

/-- What a successful build on several islands leaves. -/
theorem stagedBuild (several : SeveralIslands input)
    (built : (buildAllreduceTransferPlan cap storage input).1 = true) :
    0 < input.dtypeSize ∧ ∃ transports islands, (StagedIslands input.worldSize islands ∧ 1 < islands.islandCount) ∧
      (∀ rank, ((rankTasks (buildAllreduceTransferPlan cap storage input).2 rank).map TransferTask.unmarked).filter
          (fun task => task.op ≠ .barrier) =
        (stagedTasks input transports islands).filter fun task => task.executorRank = rank) ∧
      ∀ rank ∉ intRange input.worldSize, rankTasks (buildAllreduceTransferPlan cap storage input).2 rank = [] := by
  obtain ⟨valid, state, ran, left⟩ := runPlanner_ok built
  obtain ⟨transports, islands, matrix, grouped, many⟩ := several
  refine ⟨((validBuildInput_iff input).mp valid).2.1, transports, ?_⟩
  rw [buildAllreduceTransferPlan, left]
  simp only [planAllreduce, matrix, grouped, if_neg (not_le.mpr many)] at ran
  split at ran
  · cases ran
  rename_i inPlace
  obtain ⟨_, middle, emitted, passed⟩ := BuildM.bind_ok ran
  unfold buildStagedIslandAllreducePlan at emitted
  split at emitted
  · cases emitted
  · cases assigned : assignStagingSlots input islands (totalBytes input) with
    | none =>
      rw [assigned] at emitted
      cases emitted
    | some slotted =>
      rw [assigned] at emitted
      have partition := buildIslands_partition input transports grouped
      obtain ⟨staged, same⟩ := assignStagingSlots_staged partition assigned
      rw [← same] at many
      refine ⟨slotted, ⟨staged, many⟩, ?_⟩
      refine passed_lists (stagedSteps_lists cap input transports slotted (by simpa using inPlace)) stagedTasks_plain
        input.worldSize (stagedTasks_executor staged.toPartition)
        (?_ : (_ : BuildM Unit) { plan := { worldSize := input.worldSize } } = _) passed
      simp only [bind_assoc]
      exact emitted

/-- The staged all-reduce plan runs to its end in every interleaving, leaves every rank the sum over
all ranks, and keeps every staging slot until its readers are done. -/
theorem buildAllreduceTransferPlan_islands (several : SeveralIslands input)
    (built : (buildAllreduceTransferPlan cap storage input).1 = true)
    (fits : input.count * input.dtypeSize < 2 ^ 64) :
    RaceFree input.dtypeSize (buildAllreduceTransferPlan cap storage input).2 ∧
      SumsEverywhere input (buildAllreduceTransferPlan cap storage input).2 ∧
      StagingSettled input.dtypeSize (buildAllreduceTransferPlan cap storage input).2 := by
  obtain ⟨positive, transports, islands, ⟨staged, _⟩, kept, outside⟩ := stagedBuild several built
  have code : ∀ rank, ((rankTasks (buildAllreduceTransferPlan cap storage input).2 rank).map
      TransferTask.unmarked).filter (fun task => task.op ≠ .barrier) =
        (islandStages input transports islands).code rank := by
    intro rank
    rw [kept]
    by_cases inRange : rank ∈ intRange input.worldSize
    · exact stagedTasks_filter staged.toPartition inRange
    · have none : (islandStages input transports islands).code rank = [] :=
        List.flatMap_eq_nil_iff.mpr fun index _ => if_neg inRange
      rw [none]
      refine List.filter_eq_nil_iff.mpr fun task member own => inRange ?_
      rw [← of_decide_eq_true own]
      exact stagedTasks_executor staged.toPartition task member
  obtain ⟨fuller, barred, stagedPlan⟩ := exists_barred (islandStages_order staged) (Nat.succ_pos _) code outside
  exact ⟨stagedPlan.raceFree, barred_sums staged positive fits barred stagedPlan, barred_settled staged barred stagedPlan⟩

/-- Three ranks in two islands. -/
theorem buildAllreduceTransferPlan_islands_three :
    RaceFree 2 (buildAllreduceTransferPlan 512 {} twoIslandInput).2 ∧
      SumsEverywhere twoIslandInput (buildAllreduceTransferPlan 512 {} twoIslandInput).2 ∧
      StagingSettled 2 (buildAllreduceTransferPlan 512 {} twoIslandInput).2 :=
  buildAllreduceTransferPlan_islands twoIslandInput_several (by decide +kernel) (by decide)

end Outcome

end Ooverlap.Semantics.AllReduceIslands
