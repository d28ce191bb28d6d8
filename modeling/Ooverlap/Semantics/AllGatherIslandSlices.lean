import Ooverlap.Semantics.AllGatherIslands
import Ooverlap.Semantics.IslandValues

/-! What the staged all-gather plan leaves on every rank, and when remote blocks are read. -/

namespace Ooverlap.Semantics.AllGatherIslands

open Ooverlap.Plan Ooverlap.Plan.AllGather Ooverlap.Interleaving
open Ooverlap.Plan.AllReduce (destinationRefs)

section Shift

variable {input : TransferPlanBuildInput} {islands : IslandPlan}

/-- A staging slot holds the tensor from the first element of its island's block on. -/
def slotShift (input : TransferPlanBuildInput) (islands : IslandPlan) (buffer : BufferId) : Nat :=
  match (intRange islands.islandCount).find? fun island => stagingBuffer (islands.stagingSlot island) = buffer with
  | some island => blockStart input islands island
  | none => 0

theorem slotShift_rank (rank : Int) : slotShift input islands (rankBuffer rank) = 0 := by
  have none : (intRange islands.islandCount).find? (fun island =>
      decide (stagingBuffer (islands.stagingSlot island) = rankBuffer rank)) = none :=
    List.find?_eq_none.mpr fun island _ => by simpa using (rankBuffer_ne_staging rank _).symm
  simp only [slotShift, none]

theorem slotShift_input (rank : Int) : slotShift input islands (inputBuffer rank) = 0 := by
  have none : (intRange islands.islandCount).find? (fun island =>
      decide (stagingBuffer (islands.stagingSlot island) = inputBuffer rank)) = none :=
    List.find?_eq_none.mpr fun island _ => by simpa using stagingBuffer_ne_input _ rank
  simp only [slotShift, none]

theorem slotShift_slot (staged : StagedIslands input.worldSize islands) (inRange : island ∈ intRange islands.islandCount) :
    slotShift input islands (stagingBuffer (islands.stagingSlot island)) = blockStart input islands island := by
  cases found : (intRange islands.islandCount).find? (fun other =>
      decide (stagingBuffer (islands.stagingSlot other) = stagingBuffer (islands.stagingSlot island))) with
  | none =>
    have absent := List.find?_eq_none.mp found island inRange
    simp at absent
  | some other =>
    have suited := List.find?_some found
    have same : islands.stagingSlot other = islands.stagingSlot island := stagingBuffer_inj.mp (of_decide_eq_true suited)
    have isIsland : other = island := by
      by_contra apart
      exact staged.slots other (List.mem_of_find?_eq_some found) island inRange apart same
    simp only [slotShift, found, isIsland]

end Shift

section Tasks

variable {input : TransferPlanBuildInput} {transports : TransportMatrix} {islands : IslandPlan} {rank owner : Int}
variable {index : Nat}

theorem StageTask.level (staged : StagedIslands input.worldSize islands) (contiguous : Contiguous input.worldSize islands)
    (fits : input.count * input.dtypeSize < 2 ^ 64) (inRange : rank ∈ intRange input.worldSize)
    (stageTask : StageTask input transports islands rank bound task) :
    Level input.dtypeSize (slotShift input islands) task := by
  have remote : ∀ {srcIsland : Nat}, srcIsland < islands.islandCount.toNat →
      (srcIsland : Int) ∈ intRange islands.islandCount := fun known => mem_intRange.mpr ⟨by omega, by omega⟩
  have single : ∀ dst : LogicalBufferRef, destinationRefs task = [dst] →
      dst.byteOffset + slotShift input islands (bufferOf dst) * input.dtypeSize =
        taskStart input.dtypeSize (slotShift input islands) task →
      Level input.dtypeSize (slotShift input islands) task := by
    intro dst only lined _ ref member
    rw [only] at member
    rwa [List.mem_singleton.mp member]
  have onRank : ∀ (other : Int) (offset : Nat), slotShift input islands (bufferOf (rankBufferRef other offset)) = 0 :=
    fun other _ => slotShift_rank other
  have onInput : ∀ offset : Nat, slotShift input islands (bufferOf (rankInputRef rank offset)) = 0 :=
    fun _ => slotShift_input rank
  have onSlot : ∀ {island}, island ∈ intRange islands.islandCount →
      slotShift input islands (bufferOf (shmStagingRef (islands.stagingSlot island))) * input.dtypeSize =
        islandBlockBegin input islands island := fun known => by
    rw [islandBlockBegin_eq fits contiguous known, ← slotShift_slot staged known]
    rfl
  have zero : ∀ island, (shmStagingRef (islands.stagingSlot island)).byteOffset = 0 := fun _ => rfl
  cases stageTask with
  | inputCopy member =>
    unfold inputCopies at member
    split at member
    · rw [List.mem_singleton.mp member]
      intro _ ref reached
      rw [List.mem_singleton.mp (show ref ∈ [rankBufferRef rank (sliceBeginBytes input rank)] from reached)]
      change _ = (rankInputRef rank (sliceBeginBytes input rank)).byteOffset +
        slotShift input islands (bufferOf (rankInputRef rank (sliceBeginBytes input rank))) * input.dtypeSize
      rw [onRank, onInput]
      rfl
    · cases member
  | entryPublish member => exact level_quiet (publishes_quiet _ member)
  | entryWait => exact level_quiet wait_quiet
  | islandCopy member =>
    intro _ ref reached
    obtain ⟨other, _, _, rfl⟩ := islandCopies_destinations member reached
    rw [taskStart, (sourceCopies_copies _ _ _ _ task member).source, onRank, onRank]
    rfl
  | gatherPublish _ member => exact level_quiet (publishes_quiet _ member)
  | gatherWait => exact level_quiet wait_quiet
  | blockCopy =>
    refine single (shmStagingRef _) rfl ?_
    change _ = islandBlockBegin input islands (islands.islandOfRank rank) +
      slotShift input islands (bufferOf (rankBufferRef rank _)) * input.dtypeSize
    rw [onRank, onSlot (contiguous.home rank inRange), zero, Nat.zero_mul, Nat.zero_add, Nat.add_zero]
  | stagedPublish _ member => exact level_quiet (publishes_quiet _ member)
  | stagedWait => exact level_quiet wait_quiet
  | remoteCopy srcIsland known =>
    refine single (rankBufferRef rank _) rfl ?_
    change islandBlockBegin input islands srcIsland + _ =
      (shmStagingRef (islands.stagingSlot srcIsland)).byteOffset +
        slotShift input islands (bufferOf (shmStagingRef (islands.stagingSlot srcIsland))) * input.dtypeSize
    rw [onRank, onSlot (remote known), zero, Nat.zero_mul, Nat.zero_add, Nat.add_zero]
  | remotePublish _ _ _ _ member => exact level_quiet (publishes_quiet _ member)
  | memberWait => exact level_quiet wait_quiet
  | memberCopy srcIsland known =>
    refine single (rankBufferRef rank _) rfl ?_
    change islandBlockBegin input islands srcIsland + _ = islandBlockBegin input islands srcIsland +
      slotShift input islands (bufferOf (rankBufferRef (islands.leaderRank (islands.islandOfRank rank)) _)) *
        input.dtypeSize
    rw [onRank, onRank]

/-- A task on an island's block acts on the elements that the ranks of the island own. -/
theorem acts_block (positive : 0 < input.dtypeSize) (fits : input.count * input.dtypeSize < 2 ^ 64)
    (contiguous : Contiguous input.worldSize islands) (inRange : owner ∈ intRange input.worldSize)
    (owns : OwnsElement input owner index) (known : island ∈ intRange islands.islandCount)
    (start : taskStart input.dtypeSize shift task = islandBlockBegin input islands island)
    (length : task.bytes = islandBlockBytes input islands island) :
    actsOn input.dtypeSize shift index task ↔ island = islands.islandOfRank owner := by
  have home := contiguous.home owner inRange
  have within := slice_in_block contiguous inRange
  have block : actsOn input.dtypeSize shift index task ↔
      blockStart input islands island ≤ index ∧ index < blockStop input islands island := by
    have ordered := block_ordered contiguous known
    rw [actsOn, start, length, InSlice, islandBlockBegin_eq fits contiguous known,
      islandBlockBytes_eq fits contiguous known, ← Nat.add_mul, Nat.add_sub_cancel' ordered,
      Nat.mul_le_mul_right_iff positive, Nat.mul_lt_mul_right positive]
  rw [block]
  obtain ⟨lower, upper⟩ := owns
  constructor
  · intro inside
    by_contra apart
    rcases blocks_apart contiguous known home apart with before | after <;> omega
  · rintro rfl
    omega

/-- Which tasks act on an element, by the owner of the element. -/
theorem StageTask.acts_cases (positive : 0 < input.dtypeSize) (fits : input.count * input.dtypeSize < 2 ^ 64)
    (staged : StagedIslands input.worldSize islands) (contiguous : Contiguous input.worldSize islands)
    (ownerInRange : owner ∈ intRange input.worldSize) (owns : OwnsElement input owner index)
    (inRange : rank ∈ intRange input.worldSize) (stageTask : StageTask input transports islands rank bound task)
    (acts : actsOn input.dtypeSize (slotShift input islands) index task) (moves : movesData task) :
    (bound = 0 ∧ rank = owner) ∨ (bound = 3 ∧ rank = owner) ∨
      (bound = 6 ∧ Leads islands rank ∧ islands.islandOfRank rank = islands.islandOfRank owner) ∨
      (bound = 3 * (islands.islandOfRank owner).toNat + 9 ∧ Leads islands rank) ∨
      (bound = 3 * islands.islandCount.toNat + 2 * (islands.islandOfRank owner).toNat + 9 ∧ ¬Leads islands rank) := by
  have onSlice : taskStart input.dtypeSize (slotShift input islands) task = sliceBeginBytes input rank →
      task.bytes = sliceBytes input rank → rank = owner := by
    intro start length
    rw [actsOn, start, length, inSlice_owns positive fits inRange] at acts
    exact owns_unique inRange ownerInRange acts owns
  have remote : ∀ {srcIsland : Nat}, srcIsland < islands.islandCount.toNat →
      (srcIsland : Int) ∈ intRange islands.islandCount := fun known => mem_intRange.mpr ⟨by omega, by omega⟩
  have onRank : ∀ (other : Int) (offset : Nat), offset +
      slotShift input islands (bufferOf (rankBufferRef other offset)) * input.dtypeSize = offset := by
    intro other offset
    have none : slotShift input islands (bufferOf (rankBufferRef other offset)) = 0 := slotShift_rank other
    rw [none, Nat.zero_mul, Nat.add_zero]
  cases stageTask with
  | inputCopy member =>
    unfold inputCopies at member
    split at member
    · rw [List.mem_singleton.mp member] at onSlice
      refine Or.inl ⟨rfl, onSlice ?_ rfl⟩
      change sliceBeginBytes input rank +
        slotShift input islands (inputBuffer rank) * input.dtypeSize = sliceBeginBytes input rank
      rw [slotShift_input, Nat.zero_mul, Nat.add_zero]
    · cases member
  | entryPublish member => exact absurd moves (publishes_quiet _ member)
  | entryWait => exact absurd moves wait_quiet
  | islandCopy member =>
    have copies := sourceCopies_copies _ _ _ _ task member
    refine Or.inr (Or.inl ⟨rfl, onSlice ?_ copies.length⟩)
    rw [taskStart, copies.source]
    exact onRank rank _
  | gatherPublish _ member => exact absurd moves (publishes_quiet _ member)
  | gatherWait => exact absurd moves wait_quiet
  | blockCopy leads =>
    refine Or.inr (Or.inr (Or.inl ⟨rfl, leads, ?_⟩))
    exact (acts_block positive fits contiguous ownerInRange owns (contiguous.home rank inRange) (onRank rank _) rfl).mp acts
  | stagedPublish _ member => exact absurd moves (publishes_quiet _ member)
  | stagedWait => exact absurd moves wait_quiet
  | remoteCopy srcIsland known leads =>
    have isHome := (acts_block positive fits contiguous ownerInRange owns (remote known) (by
      change 0 + slotShift input islands (stagingBuffer (islands.stagingSlot srcIsland)) * input.dtypeSize = _
      rw [slotShift_slot staged (remote known), Nat.zero_add, islandBlockBegin_eq fits contiguous (remote known)]) rfl).mp
      acts
    exact Or.inr (Or.inr (Or.inr (Or.inl ⟨by omega, leads⟩)))
  | remotePublish _ _ _ _ member => exact absurd moves (publishes_quiet _ member)
  | memberWait => exact absurd moves wait_quiet
  | memberCopy srcIsland known follows =>
    have isHome := (acts_block positive fits contiguous ownerInRange owns (remote known) (onRank _ _) rfl).mp acts
    exact Or.inr (Or.inr (Or.inr (Or.inr ⟨by omega, follows⟩)))

end Tasks

section Values

variable {M : Type} [AddCommMonoid M]
variable {input : TransferPlanBuildInput} {transports : TransportMatrix} {islands : IslandPlan} {owner : Int}
variable {index : Nat} {values : BufferId → M}

/-- What the buffers hold of an element after the first stages. -/
def islandValues (input : TransferPlanBuildInput) (transports : TransportMatrix) (islands : IslandPlan) (index : Nat)
    (values : BufferId → M) (bound : Nat) : BufferId → M :=
  stageValues input.dtypeSize (slotShift input islands) index input.worldSize (islandStages input transports islands)
    values bound

/-- The stages in which tasks act on elements of an island. -/
def ActiveStage (islands : IslandPlan) (island : Int) (bound : Nat) : Prop :=
  bound = 0 ∨ bound = 3 ∨ bound = 6 ∨ bound = 3 * island.toNat + 9 ∨
    bound = 3 * islands.islandCount.toNat + 2 * island.toNat + 9

/-- An element with its owner, in a plan on contiguous islands. -/
structure OwnedElement (input : TransferPlanBuildInput) (islands : IslandPlan) (owner : Int) (index : Nat) : Prop where
  positive : 0 < input.dtypeSize
  fits : input.count * input.dtypeSize < 2 ^ 64
  staged : StagedIslands input.worldSize islands
  contiguous : Contiguous input.worldSize islands
  inRange : owner ∈ intRange input.worldSize
  owns : OwnsElement input owner index

namespace OwnedElement

variable (transports) (values) (owned : OwnedElement input islands owner index)

include owned

theorem home : islands.islandOfRank owner ∈ intRange islands.islandCount :=
  owned.staged.home owner owned.inRange

/-- Which tasks act on the element. -/
theorem acts_cases (bounded : bound < (islandStages input transports islands).count)
    (member : task ∈ (islandStages input transports islands).stage bound rank)
    (acts : actsOn input.dtypeSize (slotShift input islands) index task) (moves : movesData task) :
    (bound = 0 ∧ rank = owner) ∨ (bound = 3 ∧ rank = owner) ∨
      (bound = 6 ∧ Leads islands rank ∧ islands.islandOfRank rank = islands.islandOfRank owner) ∨
      (bound = 3 * (islands.islandOfRank owner).toNat + 9 ∧ Leads islands rank) ∨
      (bound = 3 * islands.islandCount.toNat + 2 * (islands.islandOfRank owner).toNat + 9 ∧ ¬Leads islands rank) := by
  obtain ⟨inRange, stageTask⟩ := stageTask_of_mem bounded member
  exact stageTask.acts_cases owned.positive owned.fits owned.staged owned.contiguous owned.inRange owned.owns inRange
    acts moves

theorem between (ordered : first ≤ last) (bounded : last ≤ 5 * islands.islandCount.toNat + 8)
    (idle : ∀ bound, first ≤ bound → bound < last → ¬ActiveStage islands (islands.islandOfRank owner) bound) :
    islandValues input transports islands index values last = islandValues input transports islands index values first := by
  refine stageValues_between ordered fun bound lower upper rank _ task member acts moves => idle bound lower upper ?_
  have inStages : bound < (islandStages input transports islands).count := lt_of_lt_of_le upper bounded
  rcases owned.acts_cases transports inStages member acts moves with
    ⟨same, _⟩ | ⟨same, _⟩ | ⟨same, _⟩ | ⟨same, _⟩ | ⟨same, _⟩
  · exact Or.inl same
  · exact Or.inr (Or.inl same)
  · exact Or.inr (Or.inr (Or.inl same))
  · exact Or.inr (Or.inr (Or.inr (Or.inl same)))
  · exact Or.inr (Or.inr (Or.inr (Or.inr same)))

/-- The owner's tasks on its slice act on the element. -/
theorem acts_own (start : taskStart input.dtypeSize (slotShift input islands) task = sliceBeginBytes input owner)
    (length : task.bytes = sliceBytes input owner) : actsOn input.dtypeSize (slotShift input islands) index task := by
  rw [actsOn, start, length, inSlice_owns owned.positive owned.fits owned.inRange]
  exact owned.owns

/-- The first stages bring the element from its owner's input into its owner's buffer. -/
theorem contributed :
    islandValues input transports islands index values 3 (rankBuffer owner) = values (contribution input owner) := by
  have quiet := owned.between transports values (show 1 ≤ 3 by decide) (by omega)
    fun bound _ _ active => by unfold ActiveStage at active; omega
  have acting : actingTasks input.dtypeSize (slotShift input islands) index (islandStages input transports islands) 0
      owner = inputCopies input owner := by
    have stage : (islandStages input transports islands).stage 0 owner = inputCopies input owner := if_pos owned.inRange
    rw [actingTasks, stage]
    refine List.filter_eq_self.mpr fun task member => decide_eq_true ?_
    unfold inputCopies at member
    split at member
    · rw [List.mem_singleton.mp member]
      refine owned.acts_own ?_ rfl
      change sliceBeginBytes input owner + slotShift input islands (inputBuffer owner) * input.dtypeSize = _
      rw [slotShift_input, Nat.zero_mul, Nat.add_zero]
    · cases member
  have single : islandValues input transports islands index values 1 = _ := stageValues_single owned.inRange
    fun rank rankInRange apart => List.filter_eq_nil_iff.mpr fun task member acts => by
      have moves : movesData task := inputCopies_moves task (by
        simpa [islandStages, islandStage, mem_intRange.mp rankInRange] using member)
      rcases owned.acts_cases transports (Nat.succ_pos _) member (of_decide_eq_true acts) moves with
        ⟨_, same⟩ | ⟨same, _⟩ | ⟨same, _⟩ | ⟨same, _⟩ | ⟨same, _⟩
      · exact apart same
      all_goals omega
  rw [quiet, single, acting, runBuffers_inputCopies]
  exact Function.update_self ..

/-- The owner's copies bring the element to its whole island. -/
theorem gathered (inRange : rank ∈ intRange input.worldSize)
    (together : islands.islandOfRank rank = islands.islandOfRank owner) :
    islandValues input transports islands index values 6 (rankBuffer rank) = values (contribution input owner) := by
  have quiet := owned.between transports values (show 4 ≤ 6 by decide) (by omega)
    fun bound _ _ active => by unfold ActiveStage at active; omega
  have copies : ∀ task ∈ islandCopies input transports islands (islands.islandOfRank owner) owner,
      SourceCopy owner (sliceBeginBytes input owner) (sliceBytes input owner) task := sourceCopies_copies _ _ _ _
  have acting : actingTasks input.dtypeSize (slotShift input islands) index (islandStages input transports islands) 3
      owner = islandCopies input transports islands (islands.islandOfRank owner) owner := by
    have stage : (islandStages input transports islands).stage 3 owner =
      islandCopies input transports islands (islands.islandOfRank owner) owner := if_pos owned.inRange
    rw [actingTasks, stage]
    refine List.filter_eq_self.mpr fun task member => decide_eq_true (owned.acts_own ?_ (copies task member).length)
    rw [taskStart, (copies task member).source]
    change sliceBeginBytes input owner + slotShift input islands (rankBuffer owner) * input.dtypeSize = _
    rw [slotShift_rank, Nat.zero_mul, Nat.add_zero]
  have single : islandValues input transports islands index values 4 = _ := stageValues_single owned.inRange
    fun rank rankInRange apart => List.filter_eq_nil_iff.mpr fun task member acts => by
      have inCopies : task ∈ islandCopies input transports islands (islands.islandOfRank rank) rank := by
        simpa [islandStages, islandStage, mem_intRange.mp rankInRange] using member
      rcases owned.acts_cases transports (by change 3 < 5 * islands.islandCount.toNat + 8; omega) member
        (of_decide_eq_true acts) (sourceCopies_copies _ _ _ _ task inCopies).moves with
        ⟨same, _⟩ | ⟨_, same⟩ | ⟨same, _⟩ | ⟨same, _⟩ | ⟨same, _⟩
      · omega
      · exact apart same
      all_goals omega
  have destinations : ((islandCopies input transports islands (islands.islandOfRank owner) owner).flatMap
      destinationRefs).map bufferOf =
        ((islands.islandRanks (islands.islandOfRank owner)).filter (· ≠ owner)).map rankBuffer := by
    rw [islandCopies, sourceCopies_destinations, List.map_map]
    rfl
  have away : rankBuffer owner ∉
      ((islands.islandRanks (islands.islandOfRank owner)).filter (· ≠ owner)).map rankBuffer := by
    simp [rankBuffer_inj]
  have start := owned.contributed transports values
  unfold islandValues at start
  rw [quiet, single, acting, runBuffers_copies _ copies (destinations ▸ away), destinations, start]
  dsimp only
  by_cases same : rank = owner
  · rw [same, if_neg away, start]
  · have isMember := owned.staged.mem_ranks.mpr ⟨inRange, together⟩
    rw [if_pos (List.mem_map_of_mem (List.mem_filter.mpr ⟨isMember, by simpa using same⟩))]

/-- The leader's copy brings the element into the staging slot of its island. -/
theorem slotted :
    islandValues input transports islands index values 7
        (stagingBuffer (islands.stagingSlot (islands.islandOfRank owner))) = values (contribution input owner) ∧
      ∀ rank, islandValues input transports islands index values 7 (rankBuffer rank) =
        islandValues input transports islands index values 6 (rankBuffer rank) := by
  have leader := owned.staged.leader_inRange owned.home
  have leads := owned.staged.leader_leads owned.home
  have leaderHome := owned.staged.leader_home owned.home
  have stages : ∀ rank ∈ intRange input.worldSize, (islandStages input transports islands).stage 6 rank =
      if Leads islands rank then [blockCopy input islands (islands.islandOfRank rank) rank] else [] :=
    fun rank inRange => if_pos inRange
  have acting : actingTasks input.dtypeSize (slotShift input islands) index (islandStages input transports islands) 6
      (islands.leaderRank (islands.islandOfRank owner)) =
        [blockCopy input islands (islands.islandOfRank owner) (islands.leaderRank (islands.islandOfRank owner))] := by
    rw [actingTasks, stages _ leader, if_pos leads, leaderHome]
    refine List.filter_eq_self.mpr fun task member => decide_eq_true ?_
    rw [List.mem_singleton.mp member]
    refine (acts_block owned.positive owned.fits owned.contiguous owned.inRange owned.owns owned.home ?_ rfl).mpr rfl
    change islandBlockBegin input islands (islands.islandOfRank owner) +
      slotShift input islands (rankBuffer _) * input.dtypeSize = _
    rw [slotShift_rank, Nat.zero_mul, Nat.add_zero]
  have single : islandValues input transports islands index values 7 = _ := stageValues_single leader
    fun rank rankInRange apart => List.filter_eq_nil_iff.mpr fun task member acts => by
      have moves : movesData task := by
        rw [stages rank rankInRange] at member
        split at member
        · rw [List.mem_singleton.mp member]
          exact copyTask_moves
        · cases member
      rcases owned.acts_cases transports (by change 6 < 5 * islands.islandCount.toNat + 8; omega) member
        (of_decide_eq_true acts) moves with ⟨same, _⟩ | ⟨same, _⟩ | ⟨_, leadsToo, same⟩ | ⟨same, _⟩ | ⟨same, _⟩
      · omega
      · omega
      · exact apart (by rw [← leadsToo, same])
      all_goals omega
  rw [single, acting]
  constructor
  · rw [runBuffers_single, bufferEffect_copy rfl]
    refine (Function.update_self ..).trans ?_
    exact owned.gathered transports values leader leaderHome
  · intro rank
    rw [runBuffers_single, bufferEffect_copy rfl]
    exact Function.update_of_ne (rankBuffer_ne_staging rank _) _ _

/-- The other leaders copy the element out of the staging slot. -/
theorem exchanged (inRange : rank ∈ intRange input.worldSize)
    (near : islands.islandOfRank rank = islands.islandOfRank owner ∨ Leads islands rank) :
    islandValues input transports islands index values (3 * (islands.islandOfRank owner).toNat + 10) (rankBuffer rank) =
      values (contribution input owner) := by
  have bounds := mem_intRange.mp owned.home
  have island : ((islands.islandOfRank owner).toNat : Int) = islands.islandOfRank owner := Int.toNat_of_nonneg bounds.1
  have quiet := owned.between transports values
    (show 7 ≤ 3 * (islands.islandOfRank owner).toNat + 9 by omega) (by omega)
    fun bound _ _ active => by unfold ActiveStage at active; omega
  obtain ⟨slot, others⟩ := owned.slotted transports values
  rw [← quiet] at slot others
  let block : Int → List TransferTask := fun rank =>
    if Leads islands rank ∧ islands.islandOfRank rank ≠ islands.islandOfRank owner then
      [remoteCopy input islands (islands.islandOfRank owner) rank]
    else []
  have single : ∀ rank, ∀ task ∈ block rank,
      (Leads islands rank ∧ islands.islandOfRank rank ≠ islands.islandOfRank owner) ∧
        task = remoteCopy input islands (islands.islandOfRank owner) rank := by
    intro rank task member
    simp only [block] at member
    split at member
    · exact ⟨‹_›, List.mem_singleton.mp member⟩
    · cases member
  have acting : ∀ rank ∈ intRange input.worldSize,
      actingTasks input.dtypeSize (slotShift input islands) index (islandStages input transports islands)
        (3 * (islands.islandOfRank owner).toNat + 9) rank = block rank := by
    intro rank rankInRange
    have among : 3 * (islands.islandOfRank owner).toNat + 1 < 3 * islands.islandCount.toNat := by omega
    have position : (3 * (islands.islandOfRank owner).toNat + 1) / 3 = (islands.islandOfRank owner).toNat ∧
        (3 * (islands.islandOfRank owner).toNat + 1) % 3 = 1 := by omega
    have stage : (islandStages input transports islands).stage (3 * (islands.islandOfRank owner).toNat + 9) rank =
        block rank := by
      simp only [islandStages, if_pos rankInRange]
      change islandStage input transports islands (3 * (islands.islandOfRank owner).toNat + 1 + 8) rank = _
      simp only [islandStage, if_pos among, position.1, position.2, block, island, leaderStage]
      by_cases leads : Leads islands rank <;>
        by_cases away : islands.islandOfRank owner = islands.islandOfRank rank <;> simp [leads, away, eq_comm]
    rw [actingTasks, stage]
    refine List.filter_eq_self.mpr fun task member => decide_eq_true ?_
    rw [(single rank task member).2]
    refine (acts_block owned.positive owned.fits owned.contiguous owned.inRange owned.owns owned.home ?_ rfl).mpr rfl
    change 0 + slotShift input islands (stagingBuffer (islands.stagingSlot (islands.islandOfRank owner))) *
      input.dtypeSize = _
    rw [slotShift_slot owned.staged owned.home, Nat.zero_add,
      islandBlockBegin_eq owned.fits owned.contiguous owned.home]
  obtain ⟨own, unchanged⟩ := stageValues_blocks values block acting rankBuffer
    (fun _ _ _ _ differ same => differ (rankBuffer_inj.mp same)) (fun rank _ task member => by
      rw [(single rank task member).2]
      exact List.Subset.refl _) (fun rank _ task member other _ _ _ => by
      rw [(single rank task member).2]
      exact (rankBuffer_ne_staging other _).symm)
  by_cases away : Leads islands rank ∧ islands.islandOfRank rank ≠ islands.islandOfRank owner
  · have busy : block rank = [remoteCopy input islands (islands.islandOfRank owner) rank] := if_pos away
    have here : islandValues input transports islands index values (3 * (islands.islandOfRank owner).toNat + 10)
        (rankBuffer rank) = _ := own rank inRange
    rw [here, busy]
    rw [runBuffers_single, bufferEffect_copy rfl]
    exact (Function.update_self ..).trans slot
  · have together : islands.islandOfRank rank = islands.islandOfRank owner := by
      rcases near with same | leads
      · exact same
      · exact not_not.mp fun differ => away ⟨leads, differ⟩
    have here : islandValues input transports islands index values (3 * (islands.islandOfRank owner).toNat + 10)
        (rankBuffer rank) = _ := unchanged (rankBuffer rank) fun other _ busy same => by
      obtain ⟨found, inBlock⟩ := List.exists_mem_of_ne_nil _ busy
      have isOther : rank = other := rankBuffer_inj.mp same
      exact away (isOther ▸ (single other found inBlock).1)
    rw [here]
    exact (others rank).trans (owned.gathered transports values inRange together)

/-- The members of the other islands copy the element from their leaders, and so every rank has it. -/
theorem delivered (inRange : rank ∈ intRange input.worldSize) :
    islandValues input transports islands index values (5 * islands.islandCount.toNat + 8) (rankBuffer rank) =
      values (contribution input owner) := by
  have bounds := mem_intRange.mp owned.home
  have island : ((islands.islandOfRank owner).toNat : Int) = islands.islandOfRank owner := Int.toNat_of_nonneg bounds.1
  have before := owned.between transports values (show 3 * (islands.islandOfRank owner).toNat + 10 ≤
      3 * islands.islandCount.toNat + 2 * (islands.islandOfRank owner).toNat + 9 by omega) (by omega)
    fun bound _ _ active => by unfold ActiveStage at active; omega
  have after := owned.between transports values (show 3 * islands.islandCount.toNat +
      2 * (islands.islandOfRank owner).toNat + 10 ≤ 5 * islands.islandCount.toNat + 8 by omega) (le_refl _)
    fun bound _ _ active => by unfold ActiveStage at active; omega
  let block : Int → List TransferTask := fun rank =>
    if ¬Leads islands rank ∧ islands.islandOfRank rank ≠ islands.islandOfRank owner then
      [memberCopy input transports islands (islands.islandOfRank owner) (islands.islandOfRank rank) rank]
    else []
  have single : ∀ rank, ∀ task ∈ block rank,
      (¬Leads islands rank ∧ islands.islandOfRank rank ≠ islands.islandOfRank owner) ∧
        task = memberCopy input transports islands (islands.islandOfRank owner) (islands.islandOfRank rank) rank := by
    intro rank task member
    simp only [block] at member
    split at member
    · exact ⟨‹_›, List.mem_singleton.mp member⟩
    · cases member
  have acting : ∀ rank ∈ intRange input.worldSize,
      actingTasks input.dtypeSize (slotShift input islands) index (islandStages input transports islands)
        (3 * islands.islandCount.toNat + 2 * (islands.islandOfRank owner).toNat + 9) rank = block rank := by
    intro rank rankInRange
    have position : (2 * (islands.islandOfRank owner).toNat + 1) / 2 = (islands.islandOfRank owner).toNat ∧
        (2 * (islands.islandOfRank owner).toNat + 1) % 2 = 1 := by omega
    have stage : (islandStages input transports islands).stage
        (3 * islands.islandCount.toNat + 2 * (islands.islandOfRank owner).toNat + 9) rank = block rank := by
      simp only [islandStages, if_pos rankInRange]
      change islandStage input transports islands
        (3 * islands.islandCount.toNat + (2 * (islands.islandOfRank owner).toNat + 1) + 8) rank = _
      simp only [islandStage]
      rw [if_neg (by omega), Nat.add_sub_cancel_left]
      simp only [position.1, position.2, block, island, memberStage]
      by_cases leads : Leads islands rank <;>
        by_cases away : islands.islandOfRank owner = islands.islandOfRank rank <;> simp [leads, away, eq_comm]
    rw [actingTasks, stage]
    refine List.filter_eq_self.mpr fun task member => decide_eq_true ?_
    rw [(single rank task member).2]
    refine (acts_block owned.positive owned.fits owned.contiguous owned.inRange owned.owns owned.home ?_ rfl).mpr rfl
    change islandBlockBegin input islands (islands.islandOfRank owner) +
      slotShift input islands (rankBuffer _) * input.dtypeSize = _
    rw [slotShift_rank, Nat.zero_mul, Nat.add_zero]
  obtain ⟨own, unchanged⟩ := stageValues_blocks values block acting rankBuffer
    (fun _ _ _ _ differ same => differ (rankBuffer_inj.mp same)) (fun rank _ task member => by
      rw [(single rank task member).2]
      exact List.Subset.refl _) (fun rank rankInRange task member other _ _ busy same => by
      obtain ⟨found, inBlock⟩ := List.exists_mem_of_ne_nil _ busy
      rw [(single rank task member).2] at same
      have leader : islands.leaderRank (islands.islandOfRank rank) = other := rankBuffer_inj.mp same
      exact (single other found inBlock).1.1
        (leader ▸ owned.staged.leader_leads (owned.staged.home rank rankInRange)))
  rw [after]
  by_cases away : ¬Leads islands rank ∧ islands.islandOfRank rank ≠ islands.islandOfRank owner
  · have busy : block rank =
        [memberCopy input transports islands (islands.islandOfRank owner) (islands.islandOfRank rank) rank] := if_pos away
    have home := owned.staged.home rank inRange
    have leader := owned.exchanged transports values (owned.staged.leader_inRange home)
      (Or.inr (owned.staged.leader_leads home))
    rw [← before] at leader
    have here : islandValues input transports islands index values
        (3 * islands.islandCount.toNat + 2 * (islands.islandOfRank owner).toNat + 10) (rankBuffer rank) = _ :=
      own rank inRange
    rw [here, busy]
    rw [runBuffers_single, bufferEffect_copy rfl]
    exact (Function.update_self ..).trans leader
  · have near : islands.islandOfRank rank = islands.islandOfRank owner ∨ Leads islands rank := by
      by_cases leads : Leads islands rank
      · exact Or.inr leads
      · exact Or.inl (not_not.mp fun differ => away ⟨leads, differ⟩)
    have here : islandValues input transports islands index values
        (3 * islands.islandCount.toNat + 2 * (islands.islandOfRank owner).toNat + 10) (rankBuffer rank) = _ :=
      unchanged (rankBuffer rank) fun other _ busy same => by
        obtain ⟨found, inBlock⟩ := List.exists_mem_of_ne_nil _ busy
        have isOther : rank = other := rankBuffer_inj.mp same
        exact away (isOther ▸ (single other found inBlock).1)
    have there := owned.exchanged transports values inRange near
    rw [← before] at there
    rw [here]
    exact there

end OwnedElement

end Values

/-- All-gather among islands: no run gets stuck, no rank is about to touch what another is about to
write, and every finished run leaves all slices in every rank's buffer. -/
def GathersEverywhere (input : TransferPlanBuildInput) (plan : TransferPlan) : Prop :=
  RaceFree input.dtypeSize plan ∧ ∀ (M : Type) [AddCommMonoid M] (mem : BufferId → Nat → M),
    let program := planProgram (M := M) input.dtypeSize plan
    Completes program.Step (Program.start (entryState mem)) program.Finished ∧
    ∀ state, program.Reachable (entryState mem) state → program.Finished state →
      ∀ rank ∈ intRange input.worldSize, ∀ index < input.count,
        ∃ owner ∈ intRange input.worldSize, OwnsElement input owner index ∧
          state.shared.mem (rankBuffer rank) index = mem (contribution input owner) index

/-- A staging slot, or the part of another rank's buffer that holds the block of a remote island. -/
def RemoteBlock (input : TransferPlanBuildInput) (islands : IslandPlan) (reader : Int) (buffer : BufferId) (byte : Nat) :
    Prop :=
  (∃ slot, buffer = stagingBuffer slot) ∨ ∃ holder, holder ≠ reader ∧ buffer = rankBuffer holder ∧
    ∃ island ∈ intRange islands.islandCount, island ≠ islands.islandOfRank reader ∧ inBlock input islands island byte

section Outcome

variable {input : TransferPlanBuildInput} {transports : TransportMatrix} {islands : IslandPlan} {plan : TransferPlan}

theorem islandStages_gathers (staged : StagedIslands input.worldSize islands)
    (contiguous : Contiguous input.worldSize islands) (nonempty : 0 < input.worldSize) (positive : 0 < input.dtypeSize)
    (fits : input.count * input.dtypeSize < 2 ^ 64)
    (stagedPlan : StagedPlan input.dtypeSize input.worldSize plan (islandStages input transports islands)) :
    GathersEverywhere input plan := by
  refine ⟨stagedPlan.raceFree, fun M _ mem => ⟨stagedPlan.completes mem, ?_⟩⟩
  intro state reached finished rank inRange index below
  obtain ⟨owner, ownerInRange, owns⟩ := exists_owns nonempty below
  have owned : OwnedElement input islands owner index := ⟨positive, fits, staged, contiguous, ownerInRange, owns⟩
  have level : ∀ bound < (islandStages input transports islands).count, ∀ rank,
      ∀ task ∈ (islandStages input transports islands).stage bound rank,
        Level input.dtypeSize (slotShift input islands) task := fun bound bounded rank task member =>
    (stageTask_of_mem bounded member).2.level staged contiguous fits (stageTask_of_mem bounded member).1
  have column : columnOf (slotShift input islands) index state.shared (rankBuffer rank) = _ :=
    congrFun (stagedPlan.column positive level reached finished) (rankBuffer rank)
  have gathered := column.trans (owned.delivered transports
    (columnOf (slotShift input islands) index (entryState mem)) inRange)
  have onSource : slotShift input islands (contribution input owner) = 0 := by
    unfold contribution
    split
    · exact slotShift_input owner
    · exact slotShift_rank owner
  simp only [columnOf, slotShift_rank, onSource, Nat.zero_le, if_true, Nat.sub_zero] at gathered
  exact ⟨owner, ownerInRange, owns, gathered⟩

/-- Only leaders read staging slots, and only their members read remote blocks from them. -/
theorem StageTask.readsRemote (staged : StageTask input transports islands rank bound task)
    (reads : readsByte task buffer byte) (remote : RemoteBlock input islands rank buffer byte) :
    ∃ srcIsland : Nat, srcIsland < islands.islandCount.toNat ∧ (srcIsland : Int) ≠ islands.islandOfRank rank ∧
      (bound = 3 * srcIsland + 9 ∧ buffer = stagingBuffer (islands.stagingSlot srcIsland) ∧
          byte < islandBlockBytes input islands srcIsland ∨
        bound = 3 * islands.islandCount.toNat + 2 * srcIsland + 9 ∧
          buffer = rankBuffer (islands.leaderRank (islands.islandOfRank rank)) ∧ inBlock input islands srcIsland byte) := by
  obtain ⟨moves, same, lower, upper⟩ := reads
  -- A rank that reads its own or its input buffer reads nothing remote.
  have own : bufferOf task.src = rankBuffer rank → False := by
    intro source
    rw [source] at same
    subst same
    rcases remote with ⟨slot, isSlot⟩ | ⟨holder, apart, isHolder, _⟩
    · exact rankBuffer_ne_staging rank slot isSlot
    · exact apart (rankBuffer_inj.mp isHolder).symm
  cases staged with
  | inputCopy member =>
    unfold inputCopies at member
    split at member
    · rw [List.mem_singleton.mp member] at same
      change inputBuffer rank = buffer at same
      subst same
      rcases remote with ⟨slot, isSlot⟩ | ⟨holder, _, isHolder, _⟩
      · exact absurd isSlot.symm (stagingBuffer_ne_input slot rank)
      · exact absurd isHolder.symm (rankBuffer_ne_input holder rank)
    · cases member
  | entryPublish member => exact absurd moves (publishes_quiet _ member)
  | entryWait => exact absurd moves wait_quiet
  | islandCopy member =>
    refine (own ?_).elim
    rw [(sourceCopies_copies _ _ _ _ task member).source]
    rfl
  | gatherPublish _ member => exact absurd moves (publishes_quiet _ member)
  | gatherWait => exact absurd moves wait_quiet
  | blockCopy => exact (own rfl).elim
  | stagedPublish _ member => exact absurd moves (publishes_quiet _ member)
  | stagedWait => exact absurd moves wait_quiet
  | remoteCopy srcIsland known _ away =>
    change byte < 0 + islandBlockBytes input islands srcIsland at upper
    exact ⟨srcIsland, known, away, Or.inl ⟨rfl, same.symm, by omega⟩⟩
  | remotePublish _ _ _ _ member => exact absurd moves (publishes_quiet _ member)
  | memberWait => exact absurd moves wait_quiet
  | memberCopy srcIsland known _ away => exact ⟨srcIsland, known, away, Or.inr ⟨rfl, same.symm, lower, upper⟩⟩

theorem islandStages_settled (staged : StagedIslands input.worldSize islands)
    (stagedPlan : StagedPlan input.dtypeSize input.worldSize plan (islandStages input transports islands)) :
    ReadsSettled input.dtypeSize plan (RemoteBlock input islands) := by
  refine stagedPlan.readsSettled ?_ ?_
  · intro later inRange reader task member buffer byte reads remote
    obtain ⟨readerInRange, stageTask⟩ := stageTask_of_mem inRange member
    have home := staged.home reader readerInRange
    obtain ⟨srcIsland, known, away, ⟨rfl, rfl, inside⟩ | ⟨rfl, rfl, inside⟩⟩ := stageTask.readsRemote reads remote
    · have source : (srcIsland : Int) ∈ intRange islands.islandCount := mem_intRange.mpr ⟨by omega, by omega⟩
      refine ⟨6, by change 6 < 5 * islands.islandCount.toNat + 8; omega, islands.leaderRank srcIsland,
        blockCopy input islands srcIsland (islands.leaderRank srcIsland), mem_stage (staged.leader_inRange source) ?_,
        copyTask_moves, _, List.mem_singleton_self _, rfl, Nat.zero_le _, ?_⟩
      · simp only [islandStage, if_pos (staged.leader_leads source), staged.leader_home source]
        exact List.mem_singleton_self _
      · change byte < 0 + islandBlockBytes input islands srcIsland
        omega
    · refine ⟨3 * srcIsland + 1 + 8, by change _ < 5 * islands.islandCount.toNat + 8; omega,
        islands.leaderRank (islands.islandOfRank reader),
        remoteCopy input islands srcIsland (islands.leaderRank (islands.islandOfRank reader)),
        mem_leaderStage (staged.leader_inRange home) (staged.leader_leads home) known
          (by rwa [staged.leader_home home]) (by decide) (List.mem_singleton_self _),
        copyTask_moves, _, List.mem_singleton_self _, rfl, inside⟩
  · intro earlier beforeEnd later inRange writer reader other otherMember task member buffer byte writes reads remote
    obtain ⟨readerInRange, stageTask⟩ := stageTask_of_mem inRange member
    obtain ⟨_, stageOther⟩ := stageTask_of_mem beforeEnd otherMember
    have leads := staged.leader_leads (staged.home reader readerInRange)
    have written := stageOther.written staged.toPartition writes
    obtain ⟨srcIsland, known, _, ⟨rfl, rfl, _⟩ | ⟨rfl, rfl, _⟩⟩ := stageTask.readsRemote reads remote
    · rcases written with ⟨rfl, _⟩ | ⟨rfl, _⟩ | ⟨rfl, _⟩ | ⟨_, _, _, _, _, same, _⟩ | ⟨_, _, _, _, _, same, _⟩
      · omega
      · omega
      · omega
      · exact absurd same.symm (rankBuffer_ne_staging _ _)
      · exact absurd same.symm (rankBuffer_ne_staging _ _)
    · rcases written with ⟨rfl, _⟩ | ⟨rfl, _⟩ | ⟨rfl, _⟩ | ⟨_, rfl, _⟩ | ⟨_, _, _, follows, _, same, _⟩
      · omega
      · omega
      · omega
      · omega
      · exact absurd (rankBuffer_inj.mp same ▸ leads) follows

/-- What a successful build on several contiguous islands leaves. -/
theorem stagedBuild (matrix : buildTransportMatrix input.topo input.worldSize = some transports)
    (grouped : buildAllGatherIslands input transports = some islands) (several : 1 < islands.islandCount)
    (built : (buildAllGatherTransferPlan cap storage input).1 = true) :
    (0 < input.worldSize ∧ 0 < input.dtypeSize) ∧
      ∃ assigned : IslandPlan, { assigned with stagingSlot := islands.stagingSlot } = islands ∧
        StagedIslands input.worldSize assigned ∧ Contiguous input.worldSize assigned ∧
        ∀ rank, (rankTasks (buildAllGatherTransferPlan cap storage input).2 rank).map TransferTask.unmarked =
          (stagedTasks input transports assigned).filter fun task => task.executorRank = rank := by
  obtain ⟨valid, state, ran, left⟩ := runPlanner_ok built
  obtain ⟨⟨nonempty, _⟩, positive, _⟩ := (validBuildInput_iff input).mp valid
  refine ⟨⟨nonempty, positive⟩, ?_⟩
  rw [buildAllGatherTransferPlan, left]
  simp only [planAllGather, matrix, grouped, if_neg (not_le.mpr several), buildStagedIslandAllGatherPlan] at ran
  split at ran
  · cases ran
  · cases assigned : assignStagingSlots input islands with
    | none =>
      rw [assigned] at ran
      cases ran
    | some slotted =>
      rw [assigned] at ran
      have contiguous := buildAllGatherIslands_contiguous input transports grouped
      obtain ⟨staged, same⟩ := assignStagingSlotsFrom_staged input _ contiguous.toPartition assigned
      refine ⟨slotted, same, staged, contiguous.of_slots same, ?_⟩
      refine (stagedSteps_lists cap input transports slotted).marked input.worldSize
        (?_ : (_ : BuildM Unit) { plan := { worldSize := input.worldSize } } = _)
      simpa only [bind_assoc] using ran

/-- The staged all-gather plan runs to its end in every interleaving, leaves all slices on every rank,
and has every remote block in place before anyone reads it from a staging slot or from a leader. -/
theorem buildAllGatherTransferPlan_islands (matrix : buildTransportMatrix input.topo input.worldSize = some transports)
    (grouped : buildAllGatherIslands input transports = some islands) (several : 1 < islands.islandCount)
    (built : (buildAllGatherTransferPlan cap storage input).1 = true)
    (fits : input.count * input.dtypeSize < 2 ^ 64) :
    GathersEverywhere input (buildAllGatherTransferPlan cap storage input).2 ∧
      ReadsSettled input.dtypeSize (buildAllGatherTransferPlan cap storage input).2 (RemoteBlock input islands) := by
  obtain ⟨⟨nonempty, positive⟩, assigned, same, staged, contiguous, filtered⟩ := stagedBuild matrix grouped several built
  have code : ∀ rank, (rankTasks (buildAllGatherTransferPlan cap storage input).2 rank).map TransferTask.unmarked =
      (islandStages input transports assigned).code rank := by
    intro rank
    rw [filtered]
    by_cases inRange : rank ∈ intRange input.worldSize
    · exact stagedTasks_filter staged.toPartition inRange
    · have none : (islandStages input transports assigned).code rank = [] :=
        List.flatMap_eq_nil_iff.mpr fun index _ => if_neg inRange
      rw [none]
      refine List.filter_eq_nil_iff.mpr fun task member own => inRange ?_
      rw [← of_decide_eq_true own]
      exact stagedTasks_executor staged.toPartition task member
  have stagedPlan : StagedPlan input.dtypeSize input.worldSize (buildAllGatherTransferPlan cap storage input).2
      (islandStages input transports assigned) := ⟨islandStages_order staged contiguous fits, code⟩
  refine ⟨islandStages_gathers staged contiguous nonempty positive fits stagedPlan, ?_⟩
  have alike : RemoteBlock input islands = RemoteBlock input assigned := by
    rw [← same]
    rfl
  rw [alike]
  exact islandStages_settled staged stagedPlan

/-- Three ranks in two islands. -/
theorem buildAllGatherTransferPlan_islands_three :
    ∃ islands, GathersEverywhere twoIslandInput (buildAllGatherTransferPlan 256 {} twoIslandInput).2 ∧
      ReadsSettled 2 (buildAllGatherTransferPlan 256 {} twoIslandInput).2 (RemoteBlock twoIslandInput islands) :=
  ⟨_, buildAllGatherTransferPlan_islands rfl rfl (by decide +kernel) (by decide +kernel) (by decide)⟩

end Outcome

end Ooverlap.Semantics.AllGatherIslands
