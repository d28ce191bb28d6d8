import Ooverlap.Plan.StagingSlots
import Ooverlap.Semantics.IslandValues
import Ooverlap.Semantics.ReduceScatterIslands
import Ooverlap.Semantics.ReduceScatterSums

/-! What the staged reduce-scatter plan leaves each rank, and when its staging slots are read. -/

namespace Ooverlap.Semantics.ReduceScatterIslands

open Ooverlap.Plan Ooverlap.Plan.ReduceScatter Ooverlap.Interleaving
open Ooverlap.Plan.AllReduce (destinationRefs)

section Values

variable {M : Type} [AddCommMonoid M]
variable {input : TransferPlanBuildInput} {transports : TransportMatrix} {islands : IslandPlan} {owner : Int}
variable {index : Nat} {values : BufferId → M}

/-- What the buffers hold of an element after the first stages. -/
def islandValues (input : TransferPlanBuildInput) (transports : TransportMatrix) (islands : IslandPlan) (index : Nat)
    (values : BufferId → M) (bound : Nat) : BufferId → M :=
  stageValues input.dtypeSize (fun _ => 0) index input.worldSize (islandStages input transports islands) values bound

/-- What an island contributes to the element. -/
def partialOf (input : TransferPlanBuildInput) (islands : IslandPlan) (values : BufferId → M) (island : Int) : M :=
  islandSum islands (fun rank => values (contribution input rank)) island

theorem acting_stage (inRange : rank ∈ intRange input.worldSize) :
    actingTasks input.dtypeSize (fun _ => 0) index (islandStages input transports islands) bound rank =
      (islandStage input transports islands bound rank).filter fun task =>
        actsOn input.dtypeSize (fun _ => 0) index task := by
  simp only [actingTasks, islandStages, if_pos inRange]

theorem quiet_stage (quiet : ∀ rank task, StageTask input transports islands rank bound task → ¬movesData task) :
    islandValues input transports islands index values (bound + 1) =
      islandValues input transports islands index values bound :=
  stageValues_quiet fun rank _ task member => quiet rank task (stageTask_of_mem member).2

/-- The stages of signals move no data. -/
theorem signal_quiet (signals : bound ∈ [1, 2, 4, 5, 8] ∨ 9 ≤ bound ∧ bound % 2 = 1)
    (staged : StageTask input transports islands rank bound task) : ¬movesData task := by
  cases staged with
  | entryPublish member => exact publishes_quiet _ member
  | entryWait => exact wait_quiet
  | partialPublish _ member => exact publishes_quiet _ member
  | partialWait => exact wait_quiet
  | stagedPublish _ member => exact publishes_quiet _ member
  | stagedWait => exact wait_quiet
  | _ => simp at signals

theorem signal_stage (signals : bound ∈ [1, 2, 4, 5, 8] ∨ 9 ≤ bound ∧ bound % 2 = 1) :
    islandValues input transports islands index values (bound + 1) =
      islandValues input transports islands index values bound :=
  quiet_stage fun _ _ => signal_quiet signals

section Gather

variable (transports) (values) (positive : 0 < input.dtypeSize) (fits : input.count * input.dtypeSize < 2 ^ 64) (below : index < input.count)

include positive fits below

/-- Every rank's contribution is in its buffer before anyone passes the rendezvous. -/
theorem contributed (inRange : rank ∈ intRange input.worldSize) :
    islandValues input transports islands index values 3 (rankBuffer rank) = values (contribution input rank) := by
  rw [signal_stage (by decide), signal_stage (by decide)]
  have single : ∀ rank, ∀ task ∈ fullCopies input rank, input.outOfPlace = true ∧
      task = copyTask input rank rank rank (rankInputRef rank) (rankBufferRef rank) (totalBytes input)
        (totalWindows input) .directNvlink := by
    intro rank task member
    unfold fullCopies at member
    split at member
    · exact ⟨‹_›, List.mem_singleton.mp member⟩
    · cases member
  have acting : ∀ rank ∈ intRange input.worldSize,
      actingTasks input.dtypeSize (fun _ => 0) index (islandStages input transports islands) 0 rank =
        fullCopies input rank := by
    intro rank inRange
    rw [acting_stage inRange]
    refine List.filter_eq_self.mpr fun task member => decide_eq_true ?_
    rw [(single rank task member).2]
    exact acts_whole positive fits below rfl rfl
  have blocks := (stageValues_blocks values (fullCopies input) acting rankBuffer
    (fun _ _ _ _ differ same => differ (rankBuffer_inj.mp same)) (fun rank _ task member => by
      rw [(single rank task member).2]
      exact List.Subset.refl _) (fun rank _ task member other _ _ _ => by
      rw [(single rank task member).2]
      exact (rankBuffer_ne_input other rank).symm)).1 rank inRange
  rw [islandValues, blocks]
  change runBuffers (fullCopies input rank) values (rankBuffer rank) = _
  unfold fullCopies contribution
  split
  · change bufferEffect _ values _ = _
    rw [bufferEffect_copy rfl]
    exact Function.update_self ..
  · rfl

/-- The leaders gather their islands. -/
theorem gathered (partition : Partition input.worldSize islands) (inRange : island ∈ intRange islands.islandCount) :
    islandValues input transports islands index values 6 (rankBuffer (islands.leaderRank island)) =
      partialOf input islands values island := by
  rw [signal_stage (by decide), signal_stage (by decide)]
  have acting : ∀ rank ∈ intRange input.worldSize,
      actingTasks input.dtypeSize (fun _ => 0) index (islandStages input transports islands) 3 rank =
        gatherBlock input transports islands rank := by
    intro rank rankInRange
    have stage : (islandStages input transports islands).stage 3 rank = gatherBlock input transports islands rank :=
      if_pos rankInRange
    rw [← stage]
    exact acting_whole positive fits below fun task member => gatherBlock_whole (stage ▸ member)
  refine ((gatherBlock_values values partition acting).1 island inRange).trans ?_
  unfold partialOf islandSum
  congr 1
  refine List.map_congr_left fun rank isMember => ?_
  exact contributed transports values positive fits below (partition.mem_ranks.mp isMember).1

/-- The owner of an element has the partial of its island, and so do the leaders. -/
theorem spread (partition : Partition input.worldSize islands) (inRange : owner ∈ intRange input.worldSize)
    (owns : OwnsElement input owner index) :
    islandValues input transports islands index values 7 (rankBuffer owner) =
        partialOf input islands values (islands.islandOfRank owner) ∧
      ∀ island ∈ intRange islands.islandCount,
        islandValues input transports islands index values 7 (rankBuffer (islands.leaderRank island)) =
          partialOf input islands values island := by
  let block : Int → List TransferTask := fun rank =>
    if ¬Leads islands rank ∧ rank = owner then
      [partialCopy input transports islands (islands.islandOfRank rank) rank]
    else []
  have single : ∀ rank, ∀ task ∈ block rank, (¬Leads islands rank ∧ rank = owner) ∧
      task = partialCopy input transports islands (islands.islandOfRank rank) rank := by
    intro rank task member
    simp only [block] at member
    split at member
    · exact ⟨‹_›, List.mem_singleton.mp member⟩
    · cases member
  have acting : ∀ rank ∈ intRange input.worldSize,
      actingTasks input.dtypeSize (fun _ => 0) index (islandStages input transports islands) 6 rank = block rank := by
    intro rank rankInRange
    rw [acting_stage rankInRange]
    have acts : actsOn input.dtypeSize (fun _ => 0) index
        (partialCopy input transports islands (islands.islandOfRank rank) rank) ↔ rank = owner :=
      acts_slice positive fits inRange rankInRange owns rfl rfl
    by_cases leads : Leads islands rank <;> simp [islandStage, block, leads, acts, List.filter_singleton]
  obtain ⟨own, others⟩ := stageValues_blocks values block acting rankBuffer
    (fun _ _ _ _ differ same => differ (rankBuffer_inj.mp same)) (fun rank _ task member => by
      rw [(single rank task member).2]
      exact List.Subset.refl _) (fun rank _ task member other _ differ busy => by
      obtain ⟨found, inBlock⟩ := List.exists_mem_of_ne_nil _ busy
      exact absurd ((single other found inBlock).1.2.trans (single rank task member).1.2.symm) differ)
  have leaders : ∀ island ∈ intRange islands.islandCount,
      islandValues input transports islands index values 7 (rankBuffer (islands.leaderRank island)) =
        partialOf input islands values island := by
    intro island islandInRange
    rw [← gathered transports values positive fits below partition islandInRange]
    refine others _ fun rank _ busy same => ?_
    obtain ⟨found, inBlock⟩ := List.exists_mem_of_ne_nil _ busy
    have isLeader : islands.leaderRank island = rank := rankBuffer_inj.mp same
    refine (single rank found inBlock).1.1 ?_
    rw [← isLeader, Leads, partition.leader_home islandInRange]
  refine ⟨?_, leaders⟩
  have home := partition.home owner inRange
  by_cases leads : Leads islands owner
  · have isLeader := leaders _ home
    rwa [leads] at isLeader
  · rw [islandValues, own owner inRange]
    simp only [block, if_pos (And.intro leads rfl)]
    rw [runBuffers_single, bufferEffect_copy rfl]
    refine (Function.update_self ..).trans ?_
    exact gathered transports values positive fits below partition home

/-- The staging slots hold the partials of their islands. -/
theorem slotted (staged : StagedIslands input.worldSize islands) (inRange : owner ∈ intRange input.worldSize)
    (owns : OwnsElement input owner index) :
    islandValues input transports islands index values 9 (rankBuffer owner) =
        partialOf input islands values (islands.islandOfRank owner) ∧
      ∀ island ∈ intRange islands.islandCount,
        islandValues input transports islands index values 9 (stagingBuffer (islands.stagingSlot island)) =
          partialOf input islands values island := by
  rw [signal_stage (by decide)]
  obtain ⟨ownPartial, leaders⟩ := spread transports values positive fits below
    staged.toPartition inRange owns
  have acting : ∀ rank ∈ intRange input.worldSize,
      actingTasks input.dtypeSize (fun _ => 0) index (islandStages input transports islands) 7 rank =
        stagingBlock input islands rank := by
    intro rank rankInRange
    have stage : (islandStages input transports islands).stage 7 rank = stagingBlock input islands rank :=
      if_pos rankInRange
    rw [← stage]
    exact acting_whole positive fits below fun task member => stagingBlock_whole (stage ▸ member)
  obtain ⟨slots, others⟩ := stagingBlock_values values staged acting
  exact ⟨(others owner).trans ownPartial, fun island islandInRange =>
    (slots island islandInRange).trans (leaders island islandInRange)⟩

/-- From island to island the owner of an element adds the partials out of the staging slots. -/
theorem exchanged (staged : StagedIslands input.worldSize islands) (inRange : owner ∈ intRange input.worldSize)
    (owns : OwnsElement input owner index) (through : bound ≤ islands.islandCount.toNat) :
    islandValues input transports islands index values (2 * bound + 9) (rankBuffer owner) =
        partialOf input islands values (islands.islandOfRank owner) +
          ((peersOf (islands.islandOfRank owner) bound).map (partialOf input islands values)).sum ∧
      ∀ island ∈ intRange islands.islandCount,
        islandValues input transports islands index values (2 * bound + 9)
          (stagingBuffer (islands.stagingSlot island)) = partialOf input islands values island := by
  induction bound with
  | zero =>
    have start := slotted transports values positive fits below staged inRange owns
    have none : peersOf (islands.islandOfRank owner) (0 : Nat) = [] := rfl
    rw [none]
    exact ⟨start.1.trans (add_zero _).symm, start.2⟩
  | succ bound ih =>
    obtain ⟨ownSum, slots⟩ := ih (by omega)
    rw [← signal_stage (by omega)] at ownSum
    have slotsAfter : ∀ island ∈ intRange islands.islandCount,
        islandValues input transports islands index values (2 * bound + 10)
          (stagingBuffer (islands.stagingSlot island)) = partialOf input islands values island := by
      intro island islandInRange
      rw [signal_stage (by omega)]
      exact slots island islandInRange
    let block : Int → List TransferTask := fun rank =>
      if (bound : Int) ≠ islands.islandOfRank rank ∧ rank = owner then [remoteReduction input islands bound rank] else []
    have single : ∀ rank, ∀ task ∈ block rank, ((bound : Int) ≠ islands.islandOfRank rank ∧ rank = owner) ∧
        task = remoteReduction input islands bound rank := by
      intro rank task member
      simp only [block] at member
      split at member
      · exact ⟨‹_›, List.mem_singleton.mp member⟩
      · cases member
    have acting : ∀ rank ∈ intRange input.worldSize,
        actingTasks input.dtypeSize (fun _ => 0) index (islandStages input transports islands) (2 * bound + 10) rank =
          block rank := by
      intro rank rankInRange
      rw [acting_stage rankInRange]
      have acts : actsOn input.dtypeSize (fun _ => 0) index (remoteReduction input islands bound rank) ↔ rank = owner :=
        acts_slice positive fits inRange rankInRange owns (by simp [remoteReduction, shmStagingRef]) (reduceTask_bytes ..)
      have position : (2 * bound + 1) / 2 = bound ∧ (2 * bound + 1) % 2 = 1 := by omega
      change (islandStage input transports islands (2 * bound + 1 + 9) rank).filter _ = _
      by_cases away : (bound : Int) = islands.islandOfRank rank <;>
        simp [islandStage, block, position.1, position.2, away, acts, List.filter_singleton]
    obtain ⟨own, others⟩ := stageValues_blocks values block acting rankBuffer
      (fun _ _ _ _ differ same => differ (rankBuffer_inj.mp same)) (fun rank _ task member => by
        rw [(single rank task member).2, remoteReduction, reduceTask_destinations]
        exact List.Subset.refl _) (fun rank _ task member other _ differ busy => by
        obtain ⟨found, inBlock⟩ := List.exists_mem_of_ne_nil _ busy
        exact absurd ((single other found inBlock).1.2.trans (single rank task member).1.2.symm) differ)
    constructor
    · have here : islandValues input transports islands index values (2 * (bound + 1) + 9) (rankBuffer owner) = _ :=
        own owner inRange
      rw [here, peersOf_succ, List.map_append, List.sum_append, ← add_assoc]
      by_cases home : (bound : Int) = islands.islandOfRank owner
      · have idle : block owner = [] := if_neg fun both => both.1 home
        rw [idle, if_pos home, List.map_nil, List.sum_nil, add_zero]
        exact ownSum
      · have busy : block owner = [remoteReduction input islands bound owner] := if_pos ⟨home, rfl⟩
        have reduces : (remoteReduction input islands bound owner).op = .reduce := reduceTask_op ..
        rw [busy, if_neg home, List.map_singleton, List.sum_singleton,
          ← slotsAfter bound (mem_intRange.mpr ⟨by omega, by omega⟩), ← ownSum]
        rw [runBuffers_single, bufferEffect_reduce reduces]
        exact Function.update_self ..
    · intro island islandInRange
      rw [← slotsAfter island islandInRange]
      refine (others _ fun rank _ busy => ?_)
      exact (rankBuffer_ne_staging rank _).symm

end Gather

end Values

section Outcome

variable {input : TransferPlanBuildInput} {transports : TransportMatrix} {islands : IslandPlan} {plan : TransferPlan}

theorem StageTask.level (staged : StageTask input transports islands rank index task) :
    Level dtypeSize (fun _ => 0) task := by
  cases staged with
  | fullCopy => exact level_single rfl rfl
  | entryPublish member => exact level_quiet (publishes_quiet _ member)
  | entryWait => exact level_quiet wait_quiet
  | reduction => exact level_single reduceTask_destinations (by rw [reduceTask_src]; rfl)
  | partialPublish _ member => exact level_quiet (publishes_quiet _ member)
  | partialWait => exact level_quiet wait_quiet
  | partialCopy => exact level_single rfl rfl
  | stagingCopy => exact level_single rfl rfl
  | stagedPublish _ member => exact level_quiet (publishes_quiet _ member)
  | stagedWait => exact level_quiet wait_quiet
  | remoteReduction =>
    exact level_single reduceTask_destinations (by simp [ReduceScatter.remoteReduction, shmStagingRef, rankBufferRef])

theorem partialOf_sum {M : Type} [AddCommMonoid M] (partition : Partition input.worldSize islands)
    (values : BufferId → M) :
    ((intRange islands.islandCount).map (partialOf input islands values)).sum =
      ((intRange input.worldSize).map fun rank => values (contribution input rank)).sum :=
  islands_sum partition fun rank => values (contribution input rank)

/-- Only the last stages read staging slots. -/
theorem StageTask.readsStaging (staged : StageTask input transports islands rank index task)
    (reads : readsByte task (stagingBuffer slot) byte) :
    ∃ srcIsland : Nat, index = 2 * srcIsland + 10 ∧ (srcIsland : Int) ≠ islands.islandOfRank rank ∧
      slot = islands.stagingSlot srcIsland ∧ inSliceOf input rank byte := by
  obtain ⟨moves, same, inside⟩ := reads
  cases staged with
  | fullCopy => exact absurd same.symm (stagingBuffer_ne_input slot rank)
  | entryPublish member => exact absurd moves (publishes_quiet _ member)
  | entryWait => exact absurd moves wait_quiet
  | @reduction other =>
    rw [reduceTask_src] at same
    exact absurd same (rankBuffer_ne_staging other slot)
  | partialPublish _ member => exact absurd moves (publishes_quiet _ member)
  | partialWait => exact absurd moves wait_quiet
  | partialCopy => exact absurd same (rankBuffer_ne_staging (islands.leaderRank (islands.islandOfRank rank)) slot)
  | stagingCopy => exact absurd same (rankBuffer_ne_staging rank slot)
  | stagedPublish _ member => exact absurd moves (publishes_quiet _ member)
  | stagedWait => exact absurd moves wait_quiet
  | remoteReduction srcIsland away =>
    rw [ReduceScatter.remoteReduction, reduceTask_src, reduceTask_bytes] at inside
    rw [ReduceScatter.remoteReduction, reduceTask_src] at same
    exact ⟨srcIsland, rfl, away, (stagingBuffer_inj.mp same).symm, inside⟩

/-- Every finished run leaves the owner of an element the sum of all contributions. -/
theorem islandStages_sums (staged : StagedIslands input.worldSize islands) (positive : 0 < input.dtypeSize)
    (fits : input.count * input.dtypeSize < 2 ^ 64)
    (stagedPlan : StagedPlan input.dtypeSize input.worldSize plan (islandStages input transports islands)) :
    ScattersSums input plan := by
  refine ⟨stagedPlan.raceFree, fun M _ mem => ⟨stagedPlan.completes mem, ?_⟩⟩
  intro state reached finished rank inRange index owns
  have below := owns_lt_count inRange owns
  have column : columnOf (fun _ => 0) index state.shared (rankBuffer rank) = _ := congrFun (stagedPlan.column positive
    (fun _ _ _ task member => (stageTask_of_mem member).2.level) reached finished) (rankBuffer rank)
  have home := staged.home rank inRange
  have bounds := mem_intRange.mp home
  have last : ((islands.islandCount.toNat : Nat) : Int) = islands.islandCount := Int.toNat_of_nonneg (by omega)
  have summed := (exchanged transports (columnAt index (entryState mem)) positive fits below staged inRange owns
    (le_refl islands.islandCount.toNat)).1
  rw [last, ← sum_intRange_eq home, partialOf_sum staged.toPartition, Nat.add_comm] at summed
  rw [columnOf_unshifted, columnOf_unshifted] at column
  exact column.trans summed

theorem islandStages_settled (staged : StagedIslands input.worldSize islands)
    (fits : input.count * input.dtypeSize < 2 ^ 64)
    (stagedPlan : StagedPlan input.dtypeSize input.worldSize plan (islandStages input transports islands)) :
    StagingSettled input.dtypeSize plan := by
  refine stagedPlan.readsSettled ?_ ?_
  · rintro later inRange reader task member _ byte reads ⟨slot, rfl⟩
    obtain ⟨readerInRange, stageTask⟩ := stageTask_of_mem member
    obtain ⟨srcIsland, rfl, _, rfl, inside⟩ := stageTask.readsStaging reads
    have bounds : (srcIsland : Int) ∈ intRange islands.islandCount := by
      change 2 * srcIsland + 10 < 9 + 2 * islands.islandCount.toNat at inRange
      exact mem_intRange.mpr ⟨by omega, by omega⟩
    have home := staged.leader_home bounds
    have leads : Leads islands (islands.leaderRank srcIsland) := by
      unfold Leads
      rw [home]
    have inTensor := lt_of_lt_of_le inside.2 (slice_le_total fits readerInRange)
    refine ⟨7, by change 7 < 9 + _; omega, islands.leaderRank srcIsland, stagingCopy input islands srcIsland
      (islands.leaderRank srcIsland), mem_stage (staged.leader_inRange bounds) ?_, Or.inl rfl, _,
      List.mem_singleton_self _, rfl, Nat.zero_le _, ?_⟩
    · simp only [islandStage, if_pos leads, home]
      exact List.mem_singleton_self _
    · change byte < 0 + totalBytes input
      omega
  · rintro earlier _ later _ writer reader other otherMember task member _ byte writes reads ⟨slot, rfl⟩
    obtain ⟨srcIsland, rfl, _⟩ := (stageTask_of_mem member).2.readsStaging reads
    rcases (stageTask_of_mem otherMember).2.written writes with ⟨_, same⟩ | ⟨_, _, same⟩ | ⟨_, _, same⟩ | ⟨rfl, _⟩ |
      ⟨_, _, same, _⟩
    · exact absurd same.symm (rankBuffer_ne_staging _ _)
    · exact absurd same.symm (rankBuffer_ne_staging _ _)
    · exact absurd same.symm (rankBuffer_ne_staging _ _)
    · omega
    · exact absurd same.symm (rankBuffer_ne_staging _ _)

/-- What a successful build on several islands leaves. -/
theorem stagedBuild (several : SeveralIslands input)
    (built : (buildReduceScatterTransferPlan cap storage input).1 = true) :
    0 < input.dtypeSize ∧ ∃ transports islands, (StagedIslands input.worldSize islands ∧ 1 < islands.islandCount) ∧
      ∀ rank, (rankTasks (buildReduceScatterTransferPlan cap storage input).2 rank).map TransferTask.unmarked =
        (stagedTasks input transports islands).filter fun task => task.executorRank = rank := by
  obtain ⟨valid, state, ran, left⟩ := runPlanner_ok built
  obtain ⟨transports, islands, matrix, grouped, many⟩ := several
  refine ⟨((validBuildInput_iff input).mp valid).2.1, transports, ?_⟩
  rw [buildReduceScatterTransferPlan, left]
  simp only [planReduceScatter, matrix, grouped, if_neg (not_le.mpr many), buildStagedIslandReduceScatterPlan] at ran
  split at ran
  · cases ran
  · cases assigned : assignStagingSlots input islands (totalBytes input) with
    | none =>
      rw [assigned] at ran
      cases ran
    | some slotted =>
      rw [assigned] at ran
      have partition := buildIslands_partition input transports grouped
      obtain ⟨staged, same⟩ := assignStagingSlots_staged partition assigned
      rw [← same] at many
      refine ⟨slotted, ⟨staged, many⟩, ?_⟩
      refine (stagedSteps_lists cap input transports slotted).marked input.worldSize
        (?_ : (_ : BuildM Unit) { plan := { worldSize := input.worldSize } } = _)
      simpa only [bind_assoc] using ran

/-- The staged reduce-scatter plan runs to its end in every interleaving, leaves every rank the sum of
its slice, and keeps every staging slot until its readers are done. -/
theorem buildReduceScatterTransferPlan_islands (several : SeveralIslands input)
    (built : (buildReduceScatterTransferPlan cap storage input).1 = true)
    (fits : input.count * input.dtypeSize < 2 ^ 64) :
    ScattersSums input (buildReduceScatterTransferPlan cap storage input).2 ∧
      StagingSettled input.dtypeSize (buildReduceScatterTransferPlan cap storage input).2 := by
  obtain ⟨positive, transports, islands, ⟨staged, _⟩, code⟩ := stagedBuild several built
  have stagedPlan := islandStages_staged staged fits code (stagedTasks_executor staged.toPartition)
  exact ⟨islandStages_sums staged positive fits stagedPlan, islandStages_settled staged fits stagedPlan⟩

/-- Three ranks in two islands. -/
theorem buildReduceScatterTransferPlan_islands_three :
    ScattersSums twoIslandInput (buildReduceScatterTransferPlan 256 {} twoIslandInput).2 ∧
      StagingSettled 2 (buildReduceScatterTransferPlan 256 {} twoIslandInput).2 :=
  buildReduceScatterTransferPlan_islands twoIslandInput_several (by decide +kernel) (by decide)

end Outcome

end Ooverlap.Semantics.ReduceScatterIslands
