import Ooverlap.Semantics.IslandStages
import Ooverlap.Semantics.StageValues

/-! What the stages of a staged plan leave: the sums of the islands, on their leaders and in staging slots. -/

namespace Ooverlap.Semantics

open Ooverlap.Plan Ooverlap.Plan.AllReduce Ooverlap.Interleaving

section Elements

variable {input : TransferPlanBuildInput} {index : Nat}

theorem owns_lt_count (inRange : rank ∈ intRange input.worldSize) (owns : OwnsElement input rank index) :
    index < input.count := by
  have bounds := mem_intRange.mp inRange
  have within := Split.offset_add_share_le (show rank.toNat < input.worldSize.toNat by omega) input.count
  exact lt_of_lt_of_le owns.2 within

theorem slice_le_total (fits : input.count * input.dtypeSize < 2 ^ 64) (inRange : rank ∈ intRange input.worldSize) :
    sliceBeginBytes input rank + sliceBytes input rank ≤ totalBytes input := by
  have bounds := mem_intRange.mp inRange
  have within := Split.offset_add_share_le (show rank.toNat < input.worldSize.toNat by omega) input.count
  rw [sliceBeginBytes_eq fits inRange, sliceBytes_eq fits inRange, totalBytes_eq fits, ← Nat.add_mul]
  exact Nat.mul_le_mul_right _ within

/-- Tasks on the whole tensor act on every element of it. -/
theorem acts_whole (positive : 0 < input.dtypeSize) (fits : input.count * input.dtypeSize < 2 ^ 64)
    (below : index < input.count) (fromStart : task.src.byteOffset = 0) (whole : task.bytes = totalBytes input) :
    actsOn input.dtypeSize (fun _ => 0) index task := by
  refine ⟨by simp [taskStart, fromStart], ?_⟩
  simp only [taskStart, fromStart, whole, totalBytes_eq fits, Nat.zero_mul, Nat.zero_add]
  exact Nat.mul_lt_mul_of_pos_right below positive

/-- Tasks on a rank's slice act on the elements it owns. -/
theorem acts_slice (positive : 0 < input.dtypeSize) (fits : input.count * input.dtypeSize < 2 ^ 64)
    (inRange : owner ∈ intRange input.worldSize) (rankInRange : rank ∈ intRange input.worldSize)
    (owns : OwnsElement input owner index) (start : task.src.byteOffset = sliceBeginBytes input rank)
    (length : task.bytes = sliceBytes input rank) : actsOn input.dtypeSize (fun _ => 0) index task ↔ rank = owner := by
  simp only [actsOn, taskStart, start, length, Nat.zero_mul, Nat.add_zero, inSlice_owns positive fits rankInRange]
  exact ⟨fun ownsToo => owns_unique rankInRange inRange ownsToo owns, fun same => same ▸ owns⟩

/-- A task that moves data between the same offsets of two buffers. -/
theorem level_single (only : destinationRefs task = [dst]) (lined : dst.byteOffset = task.src.byteOffset) :
    Level dtypeSize (fun _ => 0) task := by
  intro _ ref member
  rw [only] at member
  rw [List.mem_singleton.mp member, lined]
  rfl

theorem level_quiet (quiet : ¬movesData task) : Level dtypeSize shift task :=
  fun moves => absurd moves quiet

end Elements

section Sums

variable {M : Type} [AddCommMonoid M] {worldSize : Int} {islands : IslandPlan}

/-- What the ranks of an island contribute together. -/
def islandSum (islands : IslandPlan) (values : Int → M) (island : Int) : M :=
  ((islands.islandRanks island).map values).sum

theorem leader_sum (partition : Partition worldSize islands) (inRange : island ∈ intRange islands.islandCount)
    (values : Int → M) :
    values (islands.leaderRank island) + ((islandMembers islands island).map values).sum =
      islandSum islands values island := by
  have members : islandMembers islands island = (islands.islandRanks island).erase (islands.leaderRank island) := by
    rw [(partition.ranks_nodup island).erase_eq_filter, islandMembers]
    exact List.filter_congr fun other _ => by simp [bne, beq_eq_decide]
  rw [members]
  exact List.sum_map_erase values (partition.leader_mem inRange)

/-- The islands together contribute what all ranks contribute. -/
theorem islands_sum (partition : Partition worldSize islands) (values : Int → M) :
    ((intRange islands.islandCount).map (islandSum islands values)).sum = ((intRange worldSize).map values).sum := by
  have grouped : ((intRange islands.islandCount).flatMap islands.islandRanks).Perm (intRange worldSize) := by
    refine (List.perm_ext_iff_of_nodup ?_ (intRange_nodup _)).mpr fun rank => ?_
    · refine List.nodup_flatMap.mpr ⟨fun island _ => partition.ranks_nodup island, ?_⟩
      refine (intRange_nodup _).imp fun apart rank member other => apart ?_
      exact (partition.mem_ranks.mp member).2.symm.trans (partition.mem_ranks.mp other).2
    · refine ⟨fun member => ?_, fun inRange => ?_⟩
      · obtain ⟨island, _, inIsland⟩ := List.mem_flatMap.mp member
        exact (partition.mem_ranks.mp inIsland).1
      · exact List.mem_flatMap.mpr ⟨_, partition.home rank inRange, partition.mem_ranks.mpr ⟨inRange, rfl⟩⟩
  rw [← (grouped.map values).sum_eq, List.map_flatMap, List.flatMap_def, List.sum_flatten, List.map_map]
  rfl

end Sums

section Blocks

variable {M : Type} [AddCommMonoid M] {input : TransferPlanBuildInput} {transports : TransportMatrix}
variable {islands : IslandPlan} {index : Nat} {staged : Staged Int TransferTask}

/-- A stage of tasks on the whole tensor acts on every element of it. -/
theorem acting_whole (positive : 0 < input.dtypeSize) (fits : input.count * input.dtypeSize < 2 ^ 64)
    (below : index < input.count)
    (whole : ∀ task ∈ staged.stage bound rank, task.src.byteOffset = 0 ∧ task.bytes = totalBytes input) :
    actingTasks input.dtypeSize (fun _ => 0) index staged bound rank = staged.stage bound rank :=
  List.filter_eq_self.mpr fun task member =>
    decide_eq_true (acts_whole positive fits below (whole task member).1 (whole task member).2)

/-- The leaders' part of a stage that gathers every island on its leader. -/
def gatherBlock (input : TransferPlanBuildInput) (transports : TransportMatrix) (islands : IslandPlan) (rank : Int) :
    List TransferTask :=
  if Leads islands rank then
    ReduceScatter.islandReductions input transports islands (islands.islandOfRank rank) rank
  else []

theorem mem_gatherBlock (member : task ∈ gatherBlock input transports islands rank) : Leads islands rank ∧
    ∃ other ∈ islandMembers islands (islands.islandOfRank rank), task =
      reduceTask input rank other rank (rankBufferRef other) (rankBufferRef rank) (totalBytes input)
        (ReduceScatter.totalWindows input) (transports rank other) := by
  unfold gatherBlock at member
  split at member
  · obtain ⟨other, isMember, rfl⟩ := List.mem_map.mp member
    exact ⟨‹_›, other, isMember, rfl⟩
  · cases member

theorem gatherBlock_whole (member : task ∈ gatherBlock input transports islands rank) :
    task.src.byteOffset = 0 ∧ task.bytes = totalBytes input := by
  obtain ⟨_, other, _, rfl⟩ := mem_gatherBlock member
  exact ⟨by rw [reduceTask_src]; rfl, reduceTask_bytes ..⟩

/-- Gathering leaves the sum of its island on every leader, and touches no other buffer. -/
theorem gatherBlock_values (values : BufferId → M) (partition : Partition input.worldSize islands)
    (acting : ∀ rank ∈ intRange input.worldSize, actingTasks input.dtypeSize (fun _ => 0) index staged bound rank =
      gatherBlock input transports islands rank) :
    (∀ island ∈ intRange islands.islandCount,
      stageValues input.dtypeSize (fun _ => 0) index input.worldSize staged values (bound + 1)
          (rankBuffer (islands.leaderRank island)) =
        islandSum islands (fun rank => stageValues input.dtypeSize (fun _ => 0) index input.worldSize staged values bound
          (rankBuffer rank)) island) ∧
    ∀ buffer, (∀ rank, Leads islands rank → buffer ≠ rankBuffer rank) →
      stageValues input.dtypeSize (fun _ => 0) index input.worldSize staged values (bound + 1) buffer =
        stageValues input.dtypeSize (fun _ => 0) index input.worldSize staged values bound buffer := by
  have busyLeads : ∀ rank, gatherBlock input transports islands rank ≠ [] → Leads islands rank := by
    intro rank busy
    obtain ⟨found, inBlock⟩ := List.exists_mem_of_ne_nil _ busy
    exact (mem_gatherBlock inBlock).1
  obtain ⟨own, others⟩ := stageValues_blocks values (gatherBlock input transports islands) acting rankBuffer
    (fun _ _ _ _ differ same => differ (rankBuffer_inj.mp same)) (fun rank _ task member => by
      obtain ⟨_, other, _, rfl⟩ := mem_gatherBlock member
      rw [reduceTask_destinations]
      exact List.Subset.refl _) (fun rank rankInRange task member leader _ differ busy same => by
      obtain ⟨leads, other, isMember, rfl⟩ := mem_gatherBlock member
      rw [reduceTask_src] at same
      have home := partition.mem_members.mp isMember
      have isLeader : other = leader := rankBuffer_inj.mp same
      have leadsToo := busyLeads leader busy
      subst isLeader
      exact home.2 (by rw [← home.1.2, leadsToo]))
  refine ⟨fun island inRange => ?_, fun buffer apart => others buffer fun rank _ busy => apart rank (busyLeads rank busy)⟩
  have home := partition.leader_home inRange
  have leads : Leads islands (islands.leaderRank island) := by
    unfold Leads
    rw [home]
  rw [own _ (partition.leader_inRange inRange), ← leader_sum partition inRange]
  simp only [gatherBlock, if_pos leads, home, ReduceScatter.islandReductions]
  refine runBuffers_reduces _ _ rankBuffer (fun _ _ => reduceTask_op ..) (fun _ _ => by rw [reduceTask_dst]; rfl)
    (fun _ _ => by rw [reduceTask_src]; rfl) (fun other isMember same => ?_) _
  exact (partition.mem_members.mp isMember).2 (rankBuffer_inj.mp same)

/-- The leaders' part of a stage that brings every leader's buffer into its staging slot. -/
def stagingBlock (input : TransferPlanBuildInput) (islands : IslandPlan) (rank : Int) : List TransferTask :=
  if Leads islands rank then [ReduceScatter.stagingCopy input islands (islands.islandOfRank rank) rank] else []

theorem mem_stagingBlock (member : task ∈ stagingBlock input islands rank) : Leads islands rank ∧
    task = ReduceScatter.stagingCopy input islands (islands.islandOfRank rank) rank := by
  unfold stagingBlock at member
  split at member
  · exact ⟨‹_›, List.mem_singleton.mp member⟩
  · cases member

theorem stagingBlock_whole (member : task ∈ stagingBlock input islands rank) :
    task.src.byteOffset = 0 ∧ task.bytes = totalBytes input := by
  rw [(mem_stagingBlock member).2]
  exact ⟨rfl, rfl⟩

/-- Staging leaves every leader's buffer in the slot of its island, and touches no rank's buffer. -/
theorem stagingBlock_values (values : BufferId → M) (islandsStaged : StagedIslands input.worldSize islands)
    (acting : ∀ rank ∈ intRange input.worldSize, actingTasks input.dtypeSize (fun _ => 0) index staged bound rank =
      stagingBlock input islands rank) :
    (∀ island ∈ intRange islands.islandCount,
      stageValues input.dtypeSize (fun _ => 0) index input.worldSize staged values (bound + 1)
          (stagingBuffer (islands.stagingSlot island)) =
        stageValues input.dtypeSize (fun _ => 0) index input.worldSize staged values bound
          (rankBuffer (islands.leaderRank island))) ∧
    ∀ rank, stageValues input.dtypeSize (fun _ => 0) index input.worldSize staged values (bound + 1) (rankBuffer rank) =
        stageValues input.dtypeSize (fun _ => 0) index input.worldSize staged values bound (rankBuffer rank) := by
  let written : Int → BufferId := fun rank =>
    if Leads islands rank then stagingBuffer (islands.stagingSlot (islands.islandOfRank rank)) else rankBuffer rank
  have onSlot : ∀ rank, stagingBlock input islands rank ≠ [] →
      written rank = stagingBuffer (islands.stagingSlot (islands.islandOfRank rank)) := by
    intro rank busy
    obtain ⟨found, inBlock⟩ := List.exists_mem_of_ne_nil _ busy
    exact if_pos (mem_stagingBlock inBlock).1
  obtain ⟨own, others⟩ := stageValues_blocks values (stagingBlock input islands) acting written
    (fun rank rankInRange other otherInRange differ same => by
      simp only [written] at same
      by_cases leads : Leads islands rank <;> by_cases leadsOther : Leads islands other <;>
        simp only [leads, leadsOther, if_true, if_false, stagingBuffer_inj, rankBuffer_inj, rankBuffer_ne_staging,
          (rankBuffer_ne_staging _ _).symm] at same
      · refine islandsStaged.slots _ (islandsStaged.home rank rankInRange) _ (islandsStaged.home other otherInRange)
          (fun sameHome => ?_) same
        exact differ (by rw [← leads, sameHome, leadsOther])
      · exact differ same)
    (fun rank _ task member => by
      obtain ⟨leads, rfl⟩ := mem_stagingBlock member
      simp only [written, if_pos leads]
      exact List.Subset.refl _)
    (fun rank _ task member other _ _ busy => by
      rw [(mem_stagingBlock member).2, onSlot other busy]
      exact rankBuffer_ne_staging rank _)
  refine ⟨fun island inRange => ?_, fun rank => others _ fun other _ busy => ?_⟩
  · have home := islandsStaged.leader_home inRange
    have leads : Leads islands (islands.leaderRank island) := by
      unfold Leads
      rw [home]
    have here := own _ (islandsStaged.leader_inRange inRange)
    simp only [written, stagingBlock, if_pos leads, home] at here
    rw [here]
    rw [runBuffers_single, bufferEffect_copy rfl]
    exact Function.update_self ..
  · rw [onSlot other busy]
    exact rankBuffer_ne_staging rank _

end Blocks

end Ooverlap.Semantics
