import Ooverlap.Plan.StagedAllGather
import Ooverlap.Semantics.AllGatherDelivery
import Ooverlap.Semantics.IslandStages

/-! The staged all-gather plan, run in any interleaving of the ranks. -/

namespace Ooverlap.Semantics.AllGatherIslands

open Ooverlap.Plan Ooverlap.Plan.AllGather Ooverlap.Interleaving
open Ooverlap.Plan.AllReduce (destinationRefs)

section Stages

variable (input : TransferPlanBuildInput) (transports : TransportMatrix) (islands : IslandPlan)

/-- A leader's part in bringing one remote block over: its signal, the block, then the word to its island. -/
def leaderStage (srcIsland rank : Int) : Nat → List TransferTask
  | 0 => [stagedWait input islands srcIsland rank]
  | 1 => [remoteCopy input islands srcIsland rank]
  | _ => remotePublishes input islands srcIsland (islands.islandOfRank rank) rank

/-- Another rank's part: the word of its leader, then the block. -/
def memberStage (srcIsland rank : Int) : Nat → List TransferTask
  | 0 => [memberWait input islands srcIsland (islands.islandOfRank rank) rank]
  | _ => [memberCopy input transports islands srcIsland (islands.islandOfRank rank) rank]

/-- One rank's part of each stage: the island's slices, then the other islands' blocks. -/
def islandStage : Nat → Int → List TransferTask
  | 0, rank => inputCopies input rank
  | 1, rank => entryPublishes input rank
  | 2, rank => entryWaits input rank
  | 3, rank => islandCopies input transports islands (islands.islandOfRank rank) rank
  | 4, rank => if Leads islands rank then [] else gatherPublishes input islands (islands.islandOfRank rank) rank
  | 5, rank =>
    if Leads islands rank then (islandMembers islands (islands.islandOfRank rank)).map (gatherWait input rank) else []
  | 6, rank => if Leads islands rank then [blockCopy input islands (islands.islandOfRank rank) rank] else []
  | 7, rank => if Leads islands rank then stagedPublishes input islands (islands.islandOfRank rank) rank else []
  | step + 8, rank =>
    if step < 3 * islands.islandCount.toNat then
      let srcIsland : Int := (step / 3 : Nat)
      if ¬Leads islands rank ∨ srcIsland = islands.islandOfRank rank then []
      else leaderStage input islands srcIsland rank (step % 3)
    else
      let late := step - 3 * islands.islandCount.toNat
      let srcIsland : Int := (late / 2 : Nat)
      if Leads islands rank ∨ srcIsland = islands.islandOfRank rank then []
      else memberStage input transports islands srcIsland rank (late % 2)

def islandStages : Staged Int TransferTask where
  count := 5 * islands.islandCount.toNat + 8
  stage index rank := if rank ∈ intRange input.worldSize then islandStage input transports islands index rank else []

variable {input} {transports} {islands} {rank : Int}

/-- The leaders' stages: for every other island the signal, the block and the word to the members. -/
theorem leaderStages (inRange : rank ∈ intRange input.worldSize) :
    (List.range (3 * islands.islandCount.toNat)).flatMap (fun step =>
        (islandStages input transports islands).stage (step + 8) rank) =
      if Leads islands rank then
        (peersOf (islands.islandOfRank rank) islands.islandCount).flatMap fun srcIsland =>
          stagedWait input islands srcIsland rank :: remoteCopy input islands srcIsland rank ::
            remotePublishes input islands srcIsland (islands.islandOfRank rank) rank
      else [] := by
  have stages : ∀ step ∈ List.range (3 * islands.islandCount.toNat),
      (islandStages input transports islands).stage (step + 8) rank =
        if ¬Leads islands rank ∨ ((step / 3 : Nat) : Int) = islands.islandOfRank rank then []
        else leaderStage input islands (step / 3 : Nat) rank (step % 3) := by
    intro step member
    simp only [islandStages, if_pos inRange, islandStage, if_pos (List.mem_range.mp member)]
  rw [List.flatMap_congr stages, flatMap_range_mul]
  by_cases leads : Leads islands rank
  · rw [if_pos leads, flatMap_peersOf]
    refine List.flatMap_congr fun index _ => ?_
    have three : List.range 3 = [0, 1, 2] := rfl
    have first : (3 * index + 0) / 3 = index ∧ (3 * index + 0) % 3 = 0 := by omega
    have second : (3 * index + 1) / 3 = index ∧ (3 * index + 1) % 3 = 1 := by omega
    have third : (3 * index + 2) / 3 = index ∧ (3 * index + 2) % 3 = 2 := by omega
    simp only [three, List.flatMap_cons, List.flatMap_nil, List.append_nil, first.1, first.2, second.1, second.2, third.1,
      third.2, leads, not_true_eq_false, false_or, leaderStage]
    split <;> simp
  · simp [leads]

/-- The members' stages: for every other island the word of the leader and the block. -/
theorem memberStages (inRange : rank ∈ intRange input.worldSize) :
    (List.range (2 * islands.islandCount.toNat)).flatMap (fun late =>
        (islandStages input transports islands).stage (late + (8 + 3 * islands.islandCount.toNat)) rank) =
      if Leads islands rank then []
      else
        (peersOf (islands.islandOfRank rank) islands.islandCount).flatMap fun srcIsland =>
          [memberWait input islands srcIsland (islands.islandOfRank rank) rank,
            memberCopy input transports islands srcIsland (islands.islandOfRank rank) rank] := by
  have stages : ∀ late, (islandStages input transports islands).stage (late + (8 + 3 * islands.islandCount.toNat)) rank =
        if Leads islands rank ∨ ((late / 2 : Nat) : Int) = islands.islandOfRank rank then []
        else memberStage input transports islands (late / 2 : Nat) rank (late % 2) := by
    intro late
    have position : late + (8 + 3 * islands.islandCount.toNat) = late + 3 * islands.islandCount.toNat + 8 := by omega
    simp only [islandStages, if_pos inRange, position, islandStage]
    rw [if_neg (by omega), Nat.add_sub_cancel]
  simp only [stages]
  rw [flatMap_range_mul]
  by_cases leads : Leads islands rank
  · simp [leads]
  · rw [if_neg leads, flatMap_peersOf]
    refine List.flatMap_congr fun index _ => ?_
    have two : List.range 2 = [0, 1] := rfl
    have first : (2 * index + 0) / 2 = index ∧ (2 * index + 0) % 2 = 0 := by omega
    have second : (2 * index + 1) / 2 = index ∧ (2 * index + 1) % 2 = 1 := by omega
    simp only [two, List.flatMap_cons, List.flatMap_nil, List.append_nil, first.1, first.2, second.1, second.2, leads,
      false_or, memberStage]
    split <;> simp

theorem islandStages_code (inRange : rank ∈ intRange input.worldSize) :
    (islandStages input transports islands).code rank =
      inputCopies input rank ++ (entryPublishes input rank ++ entryWaits input rank ++
        (islandCopies input transports islands (islands.islandOfRank rank) rank ++
        (((if Leads islands rank then [] else gatherPublishes input islands (islands.islandOfRank rank) rank) ++
          if Leads islands rank then (islandMembers islands (islands.islandOfRank rank)).map (gatherWait input rank)
          else []) ++
        ((if Leads islands rank then
            blockCopy input islands (islands.islandOfRank rank) rank ::
              stagedPublishes input islands (islands.islandOfRank rank) rank
          else []) ++
        ((if Leads islands rank then
            (peersOf (islands.islandOfRank rank) islands.islandCount).flatMap fun srcIsland =>
              stagedWait input islands srcIsland rank :: remoteCopy input islands srcIsland rank ::
                remotePublishes input islands srcIsland (islands.islandOfRank rank) rank
          else []) ++
        if Leads islands rank then []
        else
          (peersOf (islands.islandOfRank rank) islands.islandCount).flatMap fun srcIsland =>
            [memberWait input islands srcIsland (islands.islandOfRank rank) rank,
              memberCopy input transports islands srcIsland (islands.islandOfRank rank) rank]))))) := by
  have split : 5 * islands.islandCount.toNat + 8 = 8 + 3 * islands.islandCount.toNat + 2 * islands.islandCount.toNat := by
    omega
  have eight : List.range 8 = [0, 1, 2, 3, 4, 5, 6, 7] := rfl
  rw [Staged.code]
  change (islandStages input transports islands).upTo (5 * islands.islandCount.toNat + 8) rank = _
  rw [split, upTo_add, upTo_add, leaderStages inRange, memberStages inRange]
  simp only [Staged.upTo, eight, List.flatMap_cons, List.flatMap_nil, List.append_nil]
  simp only [islandStages, if_pos inRange, islandStage]
  by_cases leads : Leads islands rank <;> simp [leads]

end Stages

section Code

variable {input : TransferPlanBuildInput} {transports : TransportMatrix} {islands : IslandPlan} {rank : Int}

theorem islandCopies_executor (island rank : Int) :
    ∀ task ∈ islandCopies input transports islands island rank, task.executorRank = rank :=
  fun task member => (sourceCopies_copies _ _ _ _ task member).executor

theorem sync_executor (partition : Partition input.worldSize islands) (inRange : island ∈ intRange islands.islandCount)
    (isMember : rank ∈ islandMembers islands island) :
    ∀ task ∈ gatherPublishes input islands island rank ++ [gatherWait input (islands.leaderRank island) rank],
      task.executorRank ∈ islands.islandRanks island := by
  intro task member
  rcases List.mem_append.mp member with publish | wait
  · rw [publishes_executor task publish]
    exact partition.mem_ranks.mpr (partition.mem_members.mp isMember).1
  · rw [List.mem_singleton.mp wait]
    exact partition.leader_mem inRange

theorem staging_executor (island leader : Int) :
    ∀ task ∈ blockCopy input islands island leader :: stagedPublishes input islands island leader,
      task.executorRank = leader := by
  intro task member
  rcases List.mem_cons.mp member with rfl | publish
  · rfl
  · exact publishes_executor task publish

theorem remote_executor (dstIsland leader : Int) :
    ∀ task ∈ (peersOf dstIsland islands.islandCount).flatMap fun srcIsland =>
        stagedWait input islands srcIsland leader :: remoteCopy input islands srcIsland leader ::
          remotePublishes input islands srcIsland dstIsland leader, task.executorRank = leader := by
  intro task member
  obtain ⟨srcIsland, _, inBlock⟩ := List.mem_flatMap.mp member
  rcases List.mem_cons.mp inBlock with rfl | inBlock
  · rfl
  · rcases List.mem_cons.mp inBlock with rfl | publish
    · rfl
    · exact publishes_executor task publish

theorem members_executor (srcIsland dstIsland rank : Int) :
    ∀ task ∈ [memberWait input islands srcIsland dstIsland rank,
      memberCopy input transports islands srcIsland dstIsland rank], task.executorRank = rank := by
  intro task member
  rcases List.mem_pair.mp member with rfl | rfl <;> rfl

theorem stagedTasks_executor (partition : Partition input.worldSize islands) :
    ∀ task ∈ stagedTasks input transports islands, task.executorRank ∈ intRange input.worldSize := by
  intro task member
  simp only [stagedTasks, List.mem_append, List.mem_flatMap] at member
  rcases member with ⟨rank, inRange, copies⟩ | ⟨rank, inRange, entry⟩ | ⟨island, inRange, rank, isMember, copies⟩ |
    ⟨island, inRange, rank, isMember, sync⟩ | ⟨island, inRange, leader⟩ | ⟨island, inRange, remote⟩ |
    ⟨island, inRange, srcIsland, _, rank, isMember, inPair⟩
  · rw [inputCopies_executor task copies]
    exact inRange
  · rw [entry_executor task (List.mem_append.mpr entry)]
    exact inRange
  · rw [islandCopies_executor _ _ task copies]
    exact (partition.mem_ranks.mp isMember).1
  · exact (partition.mem_ranks.mp (sync_executor partition inRange isMember task (List.mem_append.mpr sync))).1
  · rw [staging_executor _ _ task leader]
    exact partition.leader_inRange inRange
  · rw [remote_executor _ _ task (List.mem_flatMap.mpr remote)]
    exact partition.leader_inRange inRange
  · rw [members_executor _ _ _ task inPair]
    exact (partition.mem_members.mp isMember).1.1

/-- In the exchange after gathering, members publish and their leader waits for all of them. -/
theorem sync_filter (partition : Partition input.worldSize islands) (inRange : rank ∈ intRange input.worldSize) :
    ((islandMembers islands (islands.islandOfRank rank)).flatMap fun other =>
        gatherPublishes input islands (islands.islandOfRank rank) other ++
          [gatherWait input (islands.leaderRank (islands.islandOfRank rank)) other]).filter
        (fun task => task.executorRank = rank) =
      (if Leads islands rank then [] else gatherPublishes input islands (islands.islandOfRank rank) rank) ++
        if Leads islands rank then (islandMembers islands (islands.islandOfRank rank)).map (gatherWait input rank)
        else [] := by
  have publishes : ∀ other, (gatherPublishes input islands (islands.islandOfRank rank) other).filter
      (fun task => task.executorRank = rank) =
        if rank = other then gatherPublishes input islands (islands.islandOfRank rank) other else [] :=
    fun other => filter_uniform (fun _ => publishes_executor _) rank
  have waits : ∀ other, [gatherWait input (islands.leaderRank (islands.islandOfRank rank)) other].filter
      (fun task => task.executorRank = rank) =
        if rank = islands.leaderRank (islands.islandOfRank rank) then
          [gatherWait input (islands.leaderRank (islands.islandOfRank rank)) other]
        else [] := fun other => filter_uniform (fun task member => by rw [List.mem_singleton.mp member]; rfl) rank
  simp only [List.filter_flatMap, List.filter_append, publishes, waits]
  by_cases leads : Leads islands rank
  · have isLeader : islands.leaderRank (islands.islandOfRank rank) = rank := leads
    rw [if_pos leads, if_pos leads, List.nil_append, isLeader, List.map_eq_flatMap]
    refine List.flatMap_congr fun other isMember => ?_
    have apart := (partition.mem_members.mp isMember).2
    rw [isLeader] at apart
    rw [if_neg apart.symm, if_pos rfl, List.nil_append]
  · have follows : rank ≠ islands.leaderRank (islands.islandOfRank rank) := fun same => leads same.symm
    simp only [if_neg leads, if_neg follows, List.append_nil]
    have single := filter_executor_flatMap (islandMembers islands (islands.islandOfRank rank))
      (partition.members_nodup _) (gatherPublishes input islands (islands.islandOfRank rank))
      (fun _ _ => publishes_executor) rank
    simp only [List.filter_flatMap, publishes] at single
    rw [single, if_pos (partition.mem_members.mpr ⟨⟨inRange, rfl⟩, follows⟩)]

/-- Each rank's tasks of the staged plan are those of its stages. -/
theorem stagedTasks_filter (partition : Partition input.worldSize islands) (inRange : rank ∈ intRange input.worldSize) :
    (stagedTasks input transports islands).filter (fun task => task.executorRank = rank) =
      (islandStages input transports islands).code rank := by
  have home := partition.home rank inRange
  have leaderHome : ∀ island ∈ intRange islands.islandCount,
      islands.islandOfRank (islands.leaderRank island) = island := fun island => partition.leader_home
  rw [islandStages_code inRange]
  simp only [stagedTasks, List.filter_append]
  congr 1
  · rw [filter_executor_flatMap _ (intRange_nodup _) _ fun _ _ => inputCopies_executor, if_pos inRange]
  congr 1
  · rw [filter_executor_flatMap _ (intRange_nodup _) _ fun _ _ => entry_executor, if_pos inRange]
  congr 1
  · rw [filter_home _ (intRange_nodup _) islands.islandOfRank _ (fun island member task inBlock => by
      obtain ⟨other, isMember, copies⟩ := List.mem_flatMap.mp inBlock
      rw [islandCopies_executor _ _ task copies]
      exact (partition.mem_ranks.mp isMember).2) home,
      filter_executor_flatMap _ (partition.ranks_nodup _) _ fun _ _ => islandCopies_executor _ _,
      if_pos (partition.mem_ranks.mpr ⟨inRange, rfl⟩)]
  congr 1
  · rw [filter_home _ (intRange_nodup _) islands.islandOfRank _ (fun island member task inBlock => by
      obtain ⟨other, isMember, sync⟩ := List.mem_flatMap.mp inBlock
      exact (partition.mem_ranks.mp (sync_executor partition member isMember task sync)).2) home]
    exact sync_filter partition inRange
  congr 1
  · rw [filter_home _ (intRange_nodup _) islands.islandOfRank _ (fun island member task inBlock => by
      rw [staging_executor _ _ task inBlock, leaderHome island member]) home]
    exact filter_leads _ (fun leader => blockCopy input islands (islands.islandOfRank rank) leader ::
      stagedPublishes input islands (islands.islandOfRank rank) leader) (staging_executor _) rfl
  congr 1
  · rw [filter_home _ (intRange_nodup _) islands.islandOfRank _ (fun island member task inBlock => by
      rw [remote_executor _ _ task inBlock, leaderHome island member]) home]
    exact filter_leads _ (fun leader => (peersOf (islands.islandOfRank rank) islands.islandCount).flatMap fun srcIsland =>
      stagedWait input islands srcIsland leader :: remoteCopy input islands srcIsland leader ::
        remotePublishes input islands srcIsland (islands.islandOfRank rank) leader) (remote_executor _) rfl
  · rw [filter_home _ (intRange_nodup _) islands.islandOfRank _ (fun island member task inBlock => by
      obtain ⟨srcIsland, _, inBlock⟩ := List.mem_flatMap.mp inBlock
      obtain ⟨other, isMember, inPair⟩ := List.mem_flatMap.mp inBlock
      rw [members_executor _ _ _ task inPair]
      exact (partition.mem_members.mp isMember).1.2) home, List.filter_flatMap]
    by_cases leads : Leads islands rank
    · rw [if_pos leads]
      refine List.flatMap_eq_nil_iff.mpr fun srcIsland _ => ?_
      rw [filter_executor_flatMap _ (partition.members_nodup _) _ fun _ _ => members_executor _ _ _,
        if_neg fun isMember => (partition.mem_members.mp isMember).2 leads.symm]
    · rw [if_neg leads]
      refine List.flatMap_congr fun srcIsland _ => ?_
      rw [filter_executor_flatMap _ (partition.members_nodup _) _ fun _ _ => members_executor _ _ _,
        if_pos (partition.mem_members.mpr ⟨⟨inRange, rfl⟩, fun eq => leads eq.symm⟩)]

end Code

section Blocks

variable {input : TransferPlanBuildInput} {islands : IslandPlan}

/-- The first element of an island's block. -/
def blockStart (input : TransferPlanBuildInput) (islands : IslandPlan) (island : Int) : Nat :=
  sliceStart input (islands.firstRank island)

/-- The first element after an island's block. -/
def blockStop (input : TransferPlanBuildInput) (islands : IslandPlan) (island : Int) : Nat :=
  sliceStart input (islands.lastRank island) + sliceLength input (islands.lastRank island)

/-- The slice of a rank lies in the block of its island. -/
theorem slice_in_block (contiguous : Contiguous input.worldSize islands) (inRange : rank ∈ intRange input.worldSize) :
    blockStart input islands (islands.islandOfRank rank) ≤ sliceStart input rank ∧
      sliceStart input rank + sliceLength input rank ≤ blockStop input islands (islands.islandOfRank rank) := by
  have home := contiguous.home rank inRange
  have bounds := mem_intRange.mp inRange
  have within := (contiguous.interval _ home rank).mp (contiguous.mem_ranks.mpr ⟨inRange, rfl⟩)
  have firstInRange := mem_intRange.mp (contiguous.mem_ranks.mp (contiguous.first _ home)).1
  constructor
  · exact Split.offset_mono _ _ (by omega)
  · have last := Split.offset_mono input.count input.worldSize.toNat (by omega :
      rank.toNat + 1 ≤ (islands.lastRank (islands.islandOfRank rank)).toNat + 1)
    rwa [Split.offset_succ, Split.offset_succ] at last

/-- Blocks of different islands share no element. -/
theorem blocks_apart (contiguous : Contiguous input.worldSize islands) (inRange : island ∈ intRange islands.islandCount)
    (otherInRange : other ∈ intRange islands.islandCount) (apart : island ≠ other) :
    blockStop input islands island ≤ blockStart input islands other ∨
      blockStop input islands other ≤ blockStart input islands island := by
  have disjoint : ¬(islands.firstRank other ≤ islands.lastRank island ∧
      islands.firstRank island ≤ islands.lastRank other) := by
    rintro ⟨low, high⟩
    have ordered := (contiguous.interval island inRange _).mp (contiguous.first island inRange)
    have orderedOther := (contiguous.interval other otherInRange _).mp (contiguous.first other otherInRange)
    rcases le_total (islands.firstRank island) (islands.firstRank other) with before | after
    · have inIsland := (contiguous.interval island inRange (islands.firstRank other)).mpr ⟨before, low⟩
      exact apart ((contiguous.mem_ranks.mp inIsland).2.symm.trans
        (contiguous.mem_ranks.mp (contiguous.first other otherInRange)).2)
    · have inOther := (contiguous.interval other otherInRange (islands.firstRank island)).mpr ⟨after, high⟩
      exact apart ((contiguous.mem_ranks.mp (contiguous.first island inRange)).2.symm.trans
        (contiguous.mem_ranks.mp inOther).2)
  have first := mem_intRange.mp (contiguous.mem_ranks.mp (contiguous.first island inRange)).1
  have last := mem_intRange.mp (contiguous.mem_ranks.mp (contiguous.last island inRange)).1
  have firstOther := mem_intRange.mp (contiguous.mem_ranks.mp (contiguous.first other otherInRange)).1
  have lastOther := mem_intRange.mp (contiguous.mem_ranks.mp (contiguous.last other otherInRange)).1
  unfold blockStop blockStart sliceStart sliceLength
  by_cases before : islands.lastRank island < islands.firstRank other
  · exact Or.inl (Split.offset_share_disjoint (by omega) _ _)
  · exact Or.inr (Split.offset_share_disjoint (by omega) _ _)

theorem block_ordered (contiguous : Contiguous input.worldSize islands) (inRange : island ∈ intRange islands.islandCount) :
    blockStart input islands island ≤ blockStop input islands island := by
  have member := contiguous.mem_ranks.mp (contiguous.first island inRange)
  have within := slice_in_block contiguous member.1
  rw [member.2] at within
  omega

theorem islandBlockBegin_eq (fits : input.count * input.dtypeSize < 2 ^ 64) (contiguous : Contiguous input.worldSize islands)
    (inRange : island ∈ intRange islands.islandCount) :
    islandBlockBegin input islands island = blockStart input islands island * input.dtypeSize :=
  sliceBeginBytes_eq fits (contiguous.mem_ranks.mp (contiguous.first island inRange)).1

theorem islandBlockBytes_eq (fits : input.count * input.dtypeSize < 2 ^ 64) (contiguous : Contiguous input.worldSize islands)
    (inRange : island ∈ intRange islands.islandCount) :
    islandBlockBytes input islands island =
      (blockStop input islands island - blockStart input islands island) * input.dtypeSize := by
  have last := (contiguous.mem_ranks.mp (contiguous.last island inRange)).1
  have bounds := mem_intRange.mp last
  have within := Split.offset_add_share_le
    (show (islands.lastRank island).toNat < input.worldSize.toNat by omega) input.count
  rw [islandBlockBytes, islandBlockEnd, islandBlockBegin_eq fits contiguous inRange, sliceBeginBytes_eq fits last,
    sliceBytes_eq fits last, ← Nat.add_mul, Word.toUInt64_of_lt, Nat.sub_mul]
  · rfl
  · exact lt_of_le_of_lt (Nat.mul_le_mul_right _ within) fits

/-- A byte of an island's block. -/
def inBlock (input : TransferPlanBuildInput) (islands : IslandPlan) (island : Int) (byte : Nat) : Prop :=
  islandBlockBegin input islands island ≤ byte ∧
    byte < islandBlockBegin input islands island + islandBlockBytes input islands island

theorem inBlock_iff (fits : input.count * input.dtypeSize < 2 ^ 64) (contiguous : Contiguous input.worldSize islands)
    (inRange : island ∈ intRange islands.islandCount) :
    inBlock input islands island byte ↔ blockStart input islands island * input.dtypeSize ≤ byte ∧
      byte < blockStop input islands island * input.dtypeSize := by
  have ordered := Nat.mul_le_mul_right input.dtypeSize (block_ordered contiguous inRange)
  rw [inBlock, islandBlockBegin_eq fits contiguous inRange, islandBlockBytes_eq fits contiguous inRange, Nat.sub_mul,
    Nat.add_sub_cancel' ordered]

theorem inBlock_unique (fits : input.count * input.dtypeSize < 2 ^ 64) (contiguous : Contiguous input.worldSize islands)
    (inRange : island ∈ intRange islands.islandCount) (otherInRange : other ∈ intRange islands.islandCount)
    (here : inBlock input islands island byte) (there : inBlock input islands other byte) : island = other := by
  by_contra apart
  rw [inBlock_iff fits contiguous inRange] at here
  rw [inBlock_iff fits contiguous otherInRange] at there
  rcases blocks_apart contiguous inRange otherInRange apart with before | after
  · have disjoint := Nat.mul_le_mul_right input.dtypeSize before
    omega
  · have disjoint := Nat.mul_le_mul_right input.dtypeSize after
    omega

theorem inSlice_inBlock (fits : input.count * input.dtypeSize < 2 ^ 64) (contiguous : Contiguous input.worldSize islands)
    (inRange : rank ∈ intRange input.worldSize) (inside : inSliceOf input rank byte) :
    inBlock input islands (islands.islandOfRank rank) byte := by
  rw [inBlock_iff fits contiguous (contiguous.home rank inRange)]
  obtain ⟨lower, upper⟩ := inside
  have within := slice_in_block contiguous inRange
  have low := Nat.mul_le_mul_right input.dtypeSize within.1
  have high := Nat.mul_le_mul_right input.dtypeSize within.2
  rw [sliceBeginBytes_eq fits inRange] at lower upper
  rw [sliceBytes_eq fits inRange, ← Nat.add_mul] at upper
  exact ⟨le_trans low lower, lt_of_lt_of_le upper high⟩

end Blocks

section Regions

variable (input : TransferPlanBuildInput) (transports : TransportMatrix) (islands : IslandPlan)

/-- The bytes a rank may touch in a stage. -/
def touched (index : Nat) (rank : Int) (buffer : BufferId) (byte : Nat) : Prop :=
  (index = 0 ∧ (buffer = inputBuffer rank ∨ buffer = rankBuffer rank) ∧ inSliceOf input rank byte) ∨
  (index = 3 ∧ inSliceOf input rank byte ∧
    ∃ other, islands.islandOfRank other = islands.islandOfRank rank ∧ buffer = rankBuffer other) ∨
  (index = 6 ∧ Leads islands rank ∧ (buffer = rankBuffer rank ∧ inBlock input islands (islands.islandOfRank rank) byte ∨
    buffer = stagingBuffer (islands.stagingSlot (islands.islandOfRank rank)))) ∨
  (∃ srcIsland : Nat, index = 3 * srcIsland + 9 ∧ srcIsland < islands.islandCount.toNat ∧ Leads islands rank ∧
    (srcIsland : Int) ≠ islands.islandOfRank rank ∧ (buffer = rankBuffer rank ∧ inBlock input islands srcIsland byte ∨
      buffer = stagingBuffer (islands.stagingSlot srcIsland))) ∨
  (∃ srcIsland : Nat, index = 3 * islands.islandCount.toNat + 2 * srcIsland + 9 ∧
    srcIsland < islands.islandCount.toNat ∧ ¬Leads islands rank ∧ (srcIsland : Int) ≠ islands.islandOfRank rank ∧
    inBlock input islands srcIsland byte ∧
    (buffer = rankBuffer rank ∨ buffer = rankBuffer (islands.leaderRank (islands.islandOfRank rank))))

/-- The bytes a rank may write in a stage. -/
def written (index : Nat) (rank : Int) (buffer : BufferId) (byte : Nat) : Prop :=
  (index = 0 ∧ buffer = rankBuffer rank ∧ inSliceOf input rank byte) ∨
  (index = 3 ∧ inSliceOf input rank byte ∧
    ∃ other, islands.islandOfRank other = islands.islandOfRank rank ∧ buffer = rankBuffer other) ∨
  (index = 6 ∧ Leads islands rank ∧ buffer = stagingBuffer (islands.stagingSlot (islands.islandOfRank rank))) ∨
  (∃ srcIsland : Nat, index = 3 * srcIsland + 9 ∧ srcIsland < islands.islandCount.toNat ∧ Leads islands rank ∧
    (srcIsland : Int) ≠ islands.islandOfRank rank ∧ buffer = rankBuffer rank ∧ inBlock input islands srcIsland byte) ∨
  (∃ srcIsland : Nat, index = 3 * islands.islandCount.toNat + 2 * srcIsland + 9 ∧
    srcIsland < islands.islandCount.toNat ∧ ¬Leads islands rank ∧ (srcIsland : Int) ≠ islands.islandOfRank rank ∧
    buffer = rankBuffer rank ∧ inBlock input islands srcIsland byte)

/-- The tasks of one rank, by the stage they stand in. -/
inductive StageTask (rank : Int) : Nat → TransferTask → Prop where
  | inputCopy (member : task ∈ inputCopies input rank) : StageTask rank 0 task
  | entryPublish (member : task ∈ entryPublishes input rank) : StageTask rank 1 task
  | entryWait (isPeer : peer ∈ peersOf rank input.worldSize) : StageTask rank 2 (waitTask input rank peer 0)
  | islandCopy (member : task ∈ islandCopies input transports islands (islands.islandOfRank rank) rank) :
      StageTask rank 3 task
  | gatherPublish (follows : ¬Leads islands rank)
      (member : task ∈ gatherPublishes input islands (islands.islandOfRank rank) rank) : StageTask rank 4 task
  | gatherWait (leads : Leads islands rank) (isMember : other ∈ islandMembers islands (islands.islandOfRank rank)) :
      StageTask rank 5 (gatherWait input rank other)
  | blockCopy (leads : Leads islands rank) : StageTask rank 6 (blockCopy input islands (islands.islandOfRank rank) rank)
  | stagedPublish (leads : Leads islands rank)
      (member : task ∈ stagedPublishes input islands (islands.islandOfRank rank) rank) : StageTask rank 7 task
  | stagedWait (srcIsland : Nat) (known : srcIsland < islands.islandCount.toNat) (leads : Leads islands rank)
      (away : (srcIsland : Int) ≠ islands.islandOfRank rank) :
      StageTask rank (3 * srcIsland + 8) (stagedWait input islands srcIsland rank)
  | remoteCopy (srcIsland : Nat) (known : srcIsland < islands.islandCount.toNat) (leads : Leads islands rank)
      (away : (srcIsland : Int) ≠ islands.islandOfRank rank) :
      StageTask rank (3 * srcIsland + 9) (remoteCopy input islands srcIsland rank)
  | remotePublish (srcIsland : Nat) (known : srcIsland < islands.islandCount.toNat) (leads : Leads islands rank)
      (away : (srcIsland : Int) ≠ islands.islandOfRank rank)
      (member : task ∈ remotePublishes input islands srcIsland (islands.islandOfRank rank) rank) :
      StageTask rank (3 * srcIsland + 10) task
  | memberWait (srcIsland : Nat) (known : srcIsland < islands.islandCount.toNat) (follows : ¬Leads islands rank)
      (away : (srcIsland : Int) ≠ islands.islandOfRank rank) :
      StageTask rank (3 * islands.islandCount.toNat + 2 * srcIsland + 8)
        (memberWait input islands srcIsland (islands.islandOfRank rank) rank)
  | memberCopy (srcIsland : Nat) (known : srcIsland < islands.islandCount.toNat) (follows : ¬Leads islands rank)
      (away : (srcIsland : Int) ≠ islands.islandOfRank rank) :
      StageTask rank (3 * islands.islandCount.toNat + 2 * srcIsland + 9)
        (memberCopy input transports islands srcIsland (islands.islandOfRank rank) rank)

variable {input} {transports} {islands} {rank : Int}

theorem stageTask_of_mem (bound : index < (islandStages input transports islands).count)
    (member : task ∈ (islandStages input transports islands).stage index rank) :
    rank ∈ intRange input.worldSize ∧ StageTask input transports islands rank index task := by
  change index < 5 * islands.islandCount.toNat + 8 at bound
  simp only [islandStages] at member
  split at member
  · rename_i inRange
    refine ⟨inRange, ?_⟩
    match index with
    | 0 => exact .inputCopy member
    | 1 => exact .entryPublish member
    | 2 =>
      obtain ⟨peer, isPeer, rfl⟩ := List.mem_map.mp member
      exact .entryWait isPeer
    | 3 => exact .islandCopy member
    | 4 =>
      simp only [islandStage] at member
      split at member
      · cases member
      · exact .gatherPublish ‹_› member
    | 5 =>
      simp only [islandStage] at member
      split at member
      · obtain ⟨other, isMember, rfl⟩ := List.mem_map.mp member
        exact .gatherWait ‹_› isMember
      · cases member
    | 6 =>
      simp only [islandStage] at member
      split at member
      · rw [List.mem_singleton.mp member]
        exact .blockCopy ‹_›
      · cases member
    | 7 =>
      simp only [islandStage] at member
      split at member
      · exact .stagedPublish ‹_› member
      · cases member
    | step + 8 =>
      simp only [islandStage] at member
      split at member
      · rename_i among
        split at member
        · cases member
        · rename_i other
          obtain ⟨leads, away⟩ := not_or.mp other
          have known : step / 3 < islands.islandCount.toNat := by omega
          have remainder := Nat.div_add_mod step 3
          match part : step % 3 with
          | 0 =>
            have position : step + 8 = 3 * (step / 3) + 8 := by omega
            rw [part] at member
            rw [List.mem_singleton.mp member, position]
            exact .stagedWait (step / 3) known (not_not.mp leads) away
          | 1 =>
            have position : step + 8 = 3 * (step / 3) + 9 := by omega
            rw [part] at member
            rw [List.mem_singleton.mp member, position]
            exact .remoteCopy (step / 3) known (not_not.mp leads) away
          | 2 =>
            have position : step + 8 = 3 * (step / 3) + 10 := by omega
            rw [part] at member
            rw [position]
            exact .remotePublish (step / 3) known (not_not.mp leads) away member
          | more + 3 => omega
      · rename_i after
        obtain ⟨late, position⟩ : ∃ late, step = 3 * islands.islandCount.toNat + late :=
          ⟨step - 3 * islands.islandCount.toNat, by omega⟩
        subst position
        rw [Nat.add_sub_cancel_left] at member
        split at member
        · cases member
        · rename_i other
          obtain ⟨follows, away⟩ := not_or.mp other
          have known : late / 2 < islands.islandCount.toNat := by omega
          have remainder := Nat.div_add_mod late 2
          match part : late % 2 with
          | 0 =>
            have position : 3 * islands.islandCount.toNat + late + 8 =
              3 * islands.islandCount.toNat + 2 * (late / 2) + 8 := by omega
            rw [part] at member
            rw [List.mem_singleton.mp member, position]
            exact .memberWait (late / 2) known follows away
          | 1 =>
            have position : 3 * islands.islandCount.toNat + late + 8 =
              3 * islands.islandCount.toNat + 2 * (late / 2) + 9 := by omega
            rw [part] at member
            rw [List.mem_singleton.mp member, position]
            exact .memberCopy (late / 2) known follows away
          | more + 2 => omega
  · cases member

/-- Where the copies inside an island go. -/
theorem islandCopies_destinations (member : task ∈ islandCopies input transports islands island rank)
    (reaches : dst ∈ destinationRefs task) :
    ∃ other ∈ islands.islandRanks island, other ≠ rank ∧ dst = rankBufferRef other (sliceBeginBytes input rank) := by
  have here : dst ∈ (islandCopies input transports islands island rank).flatMap destinationRefs :=
    List.mem_flatMap.mpr ⟨task, member, reaches⟩
  rw [islandCopies, sourceCopies_destinations] at here
  obtain ⟨other, kept, rfl⟩ := List.mem_map.mp here
  obtain ⟨isMember, apart⟩ := List.mem_filter.mp kept
  exact ⟨other, isMember, by simpa using apart, rfl⟩

theorem islandCopies_writes (partition : Partition input.worldSize islands)
    (member : task ∈ islandCopies input transports islands island rank) (writes : writesByte task buffer byte) :
    inSliceOf input rank byte ∧ ∃ other, islands.islandOfRank other = island ∧ buffer = rankBuffer other := by
  obtain ⟨_, dst, reaches, same, lower, upper⟩ := writes
  obtain ⟨other, isMember, _, rfl⟩ := islandCopies_destinations member reaches
  rw [(sourceCopies_copies _ _ _ _ task member).length] at upper
  exact ⟨⟨lower, upper⟩, other, (partition.mem_ranks.mp isMember).2, same.symm⟩

theorem inputCopies_accesses (member : task ∈ inputCopies input rank) (accessed : accessesByte task buffer byte) :
    (buffer = inputBuffer rank ∨ buffer = rankBuffer rank) ∧ inSliceOf input rank byte := by
  unfold inputCopies at member
  split at member
  · rw [List.mem_singleton.mp member] at accessed
    rcases copyTask_accesses accessed with ⟨same, inside⟩ | ⟨same, inside⟩
    · exact ⟨Or.inl same, inside⟩
    · exact ⟨Or.inr same, inside⟩
  · cases member

theorem inputCopies_writes (member : task ∈ inputCopies input rank) (writes : writesByte task buffer byte) :
    buffer = rankBuffer rank ∧ inSliceOf input rank byte := by
  unfold inputCopies at member
  split at member
  · rw [List.mem_singleton.mp member] at writes
    exact copyTask_writes writes
  · cases member

theorem StageTask.touched (partition : Partition input.worldSize islands)
    (staged : StageTask input transports islands rank index task) (accessed : accessesByte task buffer byte) :
    touched input islands index rank buffer byte := by
  have moves : movesData task := by
    rcases accessed with ⟨moves, _⟩ | ⟨moves, _⟩ <;> exact moves
  cases staged with
  | inputCopy member =>
    obtain ⟨same, inside⟩ := inputCopies_accesses member accessed
    exact Or.inl ⟨rfl, same, inside⟩
  | entryPublish member => exact absurd moves (publishes_quiet _ member)
  | entryWait => exact absurd moves wait_quiet
  | islandCopy member =>
    rcases accessed with ⟨_, same, lower, upper⟩ | writes
    · have copies := sourceCopies_copies _ _ _ _ task member
      rw [copies.source] at same lower upper
      rw [copies.length] at upper
      exact Or.inr (Or.inl ⟨rfl, ⟨lower, upper⟩, rank, rfl, same.symm⟩)
    · exact Or.inr (Or.inl ⟨rfl, islandCopies_writes partition member writes⟩)
  | gatherPublish _ member => exact absurd moves (publishes_quiet _ member)
  | gatherWait => exact absurd moves wait_quiet
  | blockCopy leads =>
    refine Or.inr (Or.inr (Or.inl ⟨rfl, leads, ?_⟩))
    rcases copyTask_accesses accessed with ⟨same, inside⟩ | ⟨same, _⟩
    · exact Or.inl ⟨same, inside⟩
    · exact Or.inr same
  | stagedPublish _ member => exact absurd moves (publishes_quiet _ member)
  | stagedWait => exact absurd moves wait_quiet
  | remoteCopy srcIsland known leads away =>
    refine Or.inr (Or.inr (Or.inr (Or.inl ⟨srcIsland, rfl, known, leads, away, ?_⟩)))
    rcases copyTask_accesses accessed with ⟨same, _⟩ | ⟨same, inside⟩
    · exact Or.inr same
    · exact Or.inl ⟨same, inside⟩
  | remotePublish _ _ _ _ member => exact absurd moves (publishes_quiet _ member)
  | memberWait => exact absurd moves wait_quiet
  | memberCopy srcIsland known follows away =>
    refine Or.inr (Or.inr (Or.inr (Or.inr ⟨srcIsland, rfl, known, follows, away, ?_⟩)))
    rcases copyTask_accesses accessed with ⟨same, inside⟩ | ⟨same, inside⟩
    · exact ⟨inside, Or.inr same⟩
    · exact ⟨inside, Or.inl same⟩

theorem StageTask.written (partition : Partition input.worldSize islands)
    (staged : StageTask input transports islands rank index task) (writes : writesByte task buffer byte) :
    written input islands index rank buffer byte := by
  cases staged with
  | inputCopy member => exact Or.inl ⟨rfl, inputCopies_writes member writes⟩
  | entryPublish member => exact absurd writes.1 (publishes_quiet _ member)
  | entryWait => exact absurd writes.1 wait_quiet
  | islandCopy member => exact Or.inr (Or.inl ⟨rfl, islandCopies_writes partition member writes⟩)
  | gatherPublish _ member => exact absurd writes.1 (publishes_quiet _ member)
  | gatherWait => exact absurd writes.1 wait_quiet
  | blockCopy leads => exact Or.inr (Or.inr (Or.inl ⟨rfl, leads, (copyTask_writes writes).1⟩))
  | stagedPublish _ member => exact absurd writes.1 (publishes_quiet _ member)
  | stagedWait => exact absurd writes.1 wait_quiet
  | remoteCopy srcIsland known leads away =>
    exact Or.inr (Or.inr (Or.inr (Or.inl ⟨srcIsland, rfl, known, leads, away, copyTask_writes writes⟩)))
  | remotePublish _ _ _ _ member => exact absurd writes.1 (publishes_quiet _ member)
  | memberWait => exact absurd writes.1 wait_quiet
  | memberCopy srcIsland known follows away =>
    exact Or.inr (Or.inr (Or.inr (Or.inr ⟨srcIsland, rfl, known, follows, away, copyTask_writes writes⟩)))

/-- Stages of two ranks that no signal separates. -/
structure Unsignalled (islands : IslandPlan) (earlier : Nat) (first : Int) (later : Nat) (second : Int) : Prop where
  gather : ¬(earlier ≤ 3 ∧ later = 6 ∧ ¬Leads islands first ∧ Leads islands second ∧
    islands.islandOfRank first = islands.islandOfRank second)
  staged : ¬(earlier ≤ 6 ∧ Leads islands first ∧ Leads islands second ∧
    islands.islandOfRank first ≠ islands.islandOfRank second ∧ later = 3 * (islands.islandOfRank first).toNat + 9)
  remote : ¬∃ srcIsland : Nat, earlier = 3 * srcIsland + 9 ∧ srcIsland < islands.islandCount.toNat ∧
    Leads islands first ∧ ¬Leads islands second ∧ (srcIsland : Int) ≠ islands.islandOfRank second ∧
    islands.islandOfRank first = islands.islandOfRank second ∧
    later = 3 * islands.islandCount.toNat + 2 * srcIsland + 9

/-- Without a signal between them two ranks keep off each other's bytes. -/
theorem regions_apart (staged : StagedIslands input.worldSize islands) (contiguous : Contiguous input.worldSize islands)
    (fits : input.count * input.dtypeSize < 2 ^ 64) (firstInRange : first ∈ intRange input.worldSize)
    (secondInRange : second ∈ intRange input.worldSize) (apart : first ≠ second) (before : earlier ≤ later)
    (unsignalled : Unsignalled islands earlier first later second) (buffer : BufferId) (byte : Nat) :
    ¬(written input islands earlier first buffer byte ∧ touched input islands later second buffer byte) ∧
    ¬(written input islands later second buffer byte ∧ touched input islands earlier first buffer byte) := by
  obtain ⟨gather, stagedBlock, remote⟩ := unsignalled
  have slices : ¬(inSliceOf input first byte ∧ inSliceOf input second byte) := fun both =>
    slices_apart fits firstInRange secondInRange apart both.1 both.2
  have homeFirst := mem_intRange.mp (staged.home first firstInRange)
  have homeSecond := mem_intRange.mp (staged.home second secondInRange)
  have leaderFirst := staged.leader_home (staged.home first firstInRange)
  have leaderSecond := staged.leader_home (staged.home second secondInRange)
  have inFirst : inSliceOf input first byte → _ := inSlice_inBlock fits contiguous firstInRange
  have inSecond : inSliceOf input second byte → _ := inSlice_inBlock fits contiguous secondInRange
  have unique : ∀ island other : Int, 0 ≤ island → island < islands.islandCount → 0 ≤ other →
      other < islands.islandCount → inBlock input islands island byte → inBlock input islands other byte →
      island = other := fun island other lower upper otherLower otherUpper =>
    inBlock_unique fits contiguous (mem_intRange.mpr ⟨lower, upper⟩) (mem_intRange.mpr ⟨otherLower, otherUpper⟩)
  have slots : ∀ island other : Int, 0 ≤ island → island < islands.islandCount → 0 ≤ other →
      other < islands.islandCount → island ≠ other → islands.stagingSlot island ≠ islands.stagingSlot other :=
    fun island other lower upper otherLower otherUpper =>
      staged.slots _ (mem_intRange.mpr ⟨lower, upper⟩) _ (mem_intRange.mpr ⟨otherLower, otherUpper⟩)
  unfold Leads at gather stagedBlock remote
  -- One case for each pair of stages; most meet in no buffer, the others in no byte or not in this order.
  constructor
  · rintro ⟨writes, touches⟩
    rcases writes with ⟨rfl, rfl, inside⟩ | ⟨rfl, inside, target, sameTarget, rfl⟩ | ⟨rfl, leads, rfl⟩ |
      ⟨srcIsland, rfl, known, leads, awayFirst, rfl, inside⟩ | ⟨srcIsland, rfl, known, follows, awayFirst, rfl, inside⟩ <;>
    rcases touches with ⟨late, touches, insideSecond⟩ | ⟨late, insideSecond, other, sameHome, touches⟩ |
      ⟨late, leadsSecond, touches⟩ | ⟨srcSecond, late, knownSecond, leadsSecond, away, touches⟩ |
      ⟨srcSecond, late, knownSecond, followsSecond, away, insideSecond, touches⟩ <;>
    simp only [rankBuffer_ne_input, rankBuffer_ne_staging, (rankBuffer_ne_staging _ _).symm, rankBuffer_inj,
      stagingBuffer_inj, stagingBuffer_ne_input, Leads] at * <;>
    grind
  · rintro ⟨writes, touches⟩
    rcases writes with ⟨late, rfl, inside⟩ | ⟨late, inside, target, sameTarget, rfl⟩ | ⟨late, leads, rfl⟩ |
      ⟨srcIsland, late, known, leads, awayFirst, rfl, inside⟩ | ⟨srcIsland, late, known, follows, awayFirst, rfl, inside⟩ <;>
    rcases touches with ⟨rfl, touches, insideSecond⟩ | ⟨rfl, insideSecond, other, sameHome, touches⟩ |
      ⟨rfl, leadsSecond, touches⟩ | ⟨srcSecond, rfl, knownSecond, leadsSecond, away, touches⟩ |
      ⟨srcSecond, rfl, knownSecond, followsSecond, away, insideSecond, touches⟩ <;>
    simp only [rankBuffer_ne_input, rankBuffer_ne_staging, (rankBuffer_ne_staging _ _).symm, rankBuffer_inj,
      stagingBuffer_inj, stagingBuffer_ne_input, Leads] at * <;>
    grind

end Regions

section Order

variable {input : TransferPlanBuildInput} {transports : TransportMatrix} {islands : IslandPlan} {rank : Int}

/-- The phases a rank publishes, by stage. -/
theorem StageTask.publish (staged : StageTask input transports islands rank index task)
    (publishes : task.op = .readyPublish) : task.readyRank = rank ∧
      ((index = 1 ∧ task.readyPhase = 0) ∨ (index = 4 ∧ task.readyPhase = 1) ∨
        (index = 7 ∧ task.readyPhase = 2 + islands.islandOfRank rank) ∨
        ∃ srcIsland : Nat, index = 3 * srcIsland + 10 ∧ task.readyPhase = 18 + srcIsland * 16 + islands.islandOfRank rank) := by
  cases staged with
  | inputCopy member => exact absurd publishes (movesData_op (inputCopies_moves _ member)).1
  | entryPublish member =>
    obtain ⟨_, _, owner, phase⟩ := entryPublishes_facts member
    exact ⟨owner, Or.inl ⟨rfl, phase⟩⟩
  | islandCopy member => exact absurd publishes (movesData_op (sourceCopies_copies _ _ _ _ task member).moves).1
  | gatherPublish _ member =>
    obtain ⟨_, _, owner, phase⟩ := publishTasks_facts member
    exact ⟨owner, Or.inr (Or.inl ⟨rfl, phase⟩)⟩
  | stagedPublish _ member =>
    obtain ⟨_, _, owner, phase⟩ := publishTasks_facts member
    exact ⟨owner, Or.inr (Or.inr (Or.inl ⟨rfl, phase⟩))⟩
  | remotePublish srcIsland _ _ _ member =>
    obtain ⟨_, _, owner, phase⟩ := publishTasks_facts member
    exact ⟨owner, Or.inr (Or.inr (Or.inr ⟨srcIsland, rfl, phase⟩))⟩
  | _ => cases publishes

theorem mem_stage (inRange : rank ∈ intRange input.worldSize)
    (member : task ∈ islandStage input transports islands index rank) :
    task ∈ (islandStages input transports islands).stage index rank := by
  simpa [islandStages, mem_intRange.mp inRange] using member

theorem mem_leaderStage (inRange : rank ∈ intRange input.worldSize) (leads : Leads islands rank) {srcIsland : Nat}
    (known : srcIsland < islands.islandCount.toNat) (away : (srcIsland : Int) ≠ islands.islandOfRank rank) (small : part < 3)
    (member : task ∈ leaderStage input islands srcIsland rank part) :
    task ∈ (islandStages input transports islands).stage (3 * srcIsland + part + 8) rank := by
  refine mem_stage inRange ?_
  have position : (3 * srcIsland + part) / 3 = srcIsland ∧ (3 * srcIsland + part) % 3 = part := by omega
  simp only [islandStage, if_pos (show 3 * srcIsland + part < 3 * islands.islandCount.toNat by omega), position.1,
    position.2, not_not.mpr leads, away, or_self, if_false]
  exact member

theorem mem_memberStage (inRange : rank ∈ intRange input.worldSize) (follows : ¬Leads islands rank) {srcIsland : Nat}
    (away : (srcIsland : Int) ≠ islands.islandOfRank rank) (small : part < 2)
    (member : task ∈ memberStage input transports islands srcIsland rank part) :
    task ∈ (islandStages input transports islands).stage
      (3 * islands.islandCount.toNat + (2 * srcIsland + part) + 8) rank := by
  refine mem_stage inRange ?_
  have position : (2 * srcIsland + part) / 2 = srcIsland ∧ (2 * srcIsland + part) % 2 = part := by omega
  simp only [islandStage]
  rw [if_neg (by omega), Nat.add_sub_cancel_left]
  simp only [position.1, position.2, follows, away, or_self, if_false]
  exact member

/-- A leader that has its members' signals knows that all slices of its island are in its buffer. -/
theorem gather_signalled (partition : Partition input.worldSize islands) (firstInRange : first ∈ intRange input.worldSize)
    (secondInRange : second ∈ intRange input.worldSize) (early : earlier ≤ 3) (late : later = 6)
    (follows : ¬Leads islands first) (leads : Leads islands second)
    (same : islands.islandOfRank first = islands.islandOfRank second) :
    Signalled (islandStages input transports islands) earlier first later second := by
  have apart : first ≠ islands.leaderRank (islands.islandOfRank second) := fun isLeader =>
    follows (by rw [Leads, same]; exact isLeader.symm)
  have isMember : first ∈ islandMembers islands (islands.islandOfRank second) :=
    partition.mem_members.mpr ⟨⟨firstInRange, same⟩, apart⟩
  have inStage : gatherWait input second first ∈ islandStage input transports islands 5 second := by
    simp only [islandStage, if_pos leads]
    exact List.mem_map_of_mem isMember
  refine ⟨5, by omega, gatherWait input second first, mem_stage secondInRange inStage, rfl, rfl, Int.one_nonneg, ?_⟩
  intro index before task member publishes _
  obtain ⟨_, staged⟩ := stageTask_of_mem (by change index < 5 * islands.islandCount.toNat + 8; omega) member
  have phase : (gatherWait input second first).readyPhase = 1 := rfl
  rcases (staged.publish publishes).2 with ⟨rfl, published⟩ | ⟨rfl, _⟩ | ⟨rfl, _⟩ | ⟨_, rfl, _⟩ <;> omega

/-- A leader that has another leader's signal knows that its block is in its staging slot. -/
theorem staged_signalled (partition : Partition input.worldSize islands) (firstInRange : first ∈ intRange input.worldSize)
    (secondInRange : second ∈ intRange input.worldSize) (early : earlier ≤ 6) (leads : Leads islands first)
    (leadsSecond : Leads islands second) (away : islands.islandOfRank first ≠ islands.islandOfRank second)
    (late : later = 3 * (islands.islandOfRank first).toNat + 9) :
    Signalled (islandStages input transports islands) earlier first later second := by
  have home := mem_intRange.mp (partition.home first firstInRange)
  have island : ((islands.islandOfRank first).toNat : Int) = islands.islandOfRank first := Int.toNat_of_nonneg home.1
  have inStage : stagedWait input islands (islands.islandOfRank first) second ∈
      leaderStage input islands ((islands.islandOfRank first).toNat : Int) second 0 := by
    rw [island]
    exact List.mem_singleton_self _
  refine ⟨3 * (islands.islandOfRank first).toNat + 0 + 8, by omega, _,
    mem_leaderStage secondInRange leadsSecond (by omega) (by rwa [island]) (by decide) inStage, rfl, leads, ?_, ?_⟩
  · change 0 ≤ 2 + islands.islandOfRank first
    omega
  · intro index before task member publishes _
    obtain ⟨_, staged⟩ := stageTask_of_mem (by change index < 5 * islands.islandCount.toNat + 8; omega) member
    change task.readyPhase < 2 + islands.islandOfRank first
    rcases (staged.publish publishes).2 with ⟨rfl, published⟩ | ⟨rfl, published⟩ | ⟨rfl, _⟩ | ⟨_, rfl, _⟩ <;> omega

/-- A member that has its leader's word knows that the remote block is in the leader's buffer. -/
theorem remote_signalled (partition : Partition input.worldSize islands)
    (secondInRange : second ∈ intRange input.worldSize) {srcIsland : Nat} (early : earlier = 3 * srcIsland + 9)
    (known : srcIsland < islands.islandCount.toNat) (leads : Leads islands first) (follows : ¬Leads islands second)
    (away : (srcIsland : Int) ≠ islands.islandOfRank second)
    (same : islands.islandOfRank first = islands.islandOfRank second)
    (late : later = 3 * islands.islandCount.toNat + 2 * srcIsland + 9) :
    Signalled (islandStages input transports islands) earlier first later second := by
  have leader : islands.leaderRank (islands.islandOfRank second) = first := by rw [← same, leads]
  have home := mem_intRange.mp (partition.home second secondInRange)
  refine ⟨3 * islands.islandCount.toNat + (2 * srcIsland + 0) + 8, by omega,
    memberWait input islands srcIsland (islands.islandOfRank second) second,
    mem_memberStage secondInRange follows away (by decide) (List.mem_singleton_self _), rfl, leader, ?_, ?_⟩
  · change 0 ≤ 18 + (srcIsland : Int) * 16 + islands.islandOfRank second
    omega
  · intro index before task member publishes _
    obtain ⟨_, staged⟩ := stageTask_of_mem (by change index < 5 * islands.islandCount.toNat + 8; omega) member
    change task.readyPhase < 18 + (srcIsland : Int) * 16 + islands.islandOfRank second
    rcases (staged.publish publishes).2 with ⟨rfl, published⟩ | ⟨rfl, published⟩ | ⟨rfl, published⟩ |
      ⟨_, rfl, published⟩ <;> omega

theorem StageTask.aligned (fits : input.count * input.dtypeSize < 2 ^ 64) (contiguous : Contiguous input.worldSize islands)
    (inRange : rank ∈ intRange input.worldSize) (staged : StageTask input transports islands rank index task) :
    Aligned input.dtypeSize task := by
  have slice : input.dtypeSize ∣ sliceBeginBytes input rank := by
    rw [sliceBeginBytes_eq fits inRange]
    exact Nat.dvd_mul_left ..
  have block : ∀ {island}, island ∈ intRange islands.islandCount → input.dtypeSize ∣ islandBlockBegin input islands island :=
    fun known => by
      rw [islandBlockBegin_eq fits contiguous known]
      exact Nat.dvd_mul_left ..
  have remote : ∀ {srcIsland : Nat}, srcIsland < islands.islandCount.toNat →
      (srcIsland : Int) ∈ intRange islands.islandCount := fun known => mem_intRange.mpr ⟨by omega, by omega⟩
  have quiet : ¬movesData task → Aligned input.dtypeSize task := fun still =>
    ⟨fun moves => absurd moves still, fun moves => absurd moves still⟩
  have single : ∀ dst : LogicalBufferRef, destinationRefs task = [dst] → input.dtypeSize ∣ task.src.byteOffset →
      input.dtypeSize ∣ dst.byteOffset → Aligned input.dtypeSize task := by
    intro dst only source destination
    refine ⟨fun _ => source, fun _ ref member => ?_⟩
    rw [only] at member
    rwa [List.mem_singleton.mp member]
  cases staged with
  | inputCopy member =>
    have within := inputCopies_within task member
    rw [sliceBeginBytes_eq fits inRange] at within
    exact within.aligned
  | entryPublish member => exact quiet (publishes_quiet _ member)
  | entryWait => exact quiet wait_quiet
  | islandCopy member =>
    refine ⟨fun _ => ?_, fun _ ref reaches => ?_⟩
    · rw [(sourceCopies_copies _ _ _ _ task member).source]
      exact slice
    · obtain ⟨_, _, _, rfl⟩ := islandCopies_destinations member reaches
      exact slice
  | gatherPublish _ member => exact quiet (publishes_quiet _ member)
  | gatherWait => exact quiet wait_quiet
  | blockCopy => exact single (shmStagingRef _) rfl (block (contiguous.home rank inRange)) (Nat.dvd_zero _)
  | stagedPublish _ member => exact quiet (publishes_quiet _ member)
  | stagedWait => exact quiet wait_quiet
  | remoteCopy srcIsland known => exact single (rankBufferRef rank _) rfl (Nat.dvd_zero _) (block (remote known))
  | remotePublish _ _ _ _ member => exact quiet (publishes_quiet _ member)
  | memberWait => exact quiet wait_quiet
  | memberCopy srcIsland known => exact single (rankBufferRef rank _) rfl (block (remote known)) (block (remote known))

/-- Every wait of a stage is answered by a publish of an earlier one. -/
theorem StageTask.answered (partition : Partition input.worldSize islands) (inRange : rank ∈ intRange input.worldSize)
    (staged : StageTask input transports islands rank index task) (waits : task.op = .readyWait) :
    ∃ earlier < index, ∃ publish ∈ (islandStages input transports islands).stage earlier task.readyRank,
      publish.op = .readyPublish ∧ publish.readyRank = task.readyRank ∧ publish.readyChannel = task.readyChannel ∧
        task.readyPhase ≤ publish.readyPhase := by
  have home := partition.home rank inRange
  cases staged with
  | @entryWait peer isPeer =>
    have bounds := mem_peersOf.mp isPeer
    have listens : rank ∈ peersOf peer input.worldSize := mem_peersOf.mpr ⟨mem_intRange.mp inRange, bounds.2.symm⟩
    exact ⟨1, by decide, _, mem_stage (mem_intRange.mpr bounds.1) (mem_entryPublishes listens), rfl, rfl, rfl, le_refl _⟩
  | @gatherWait other leads isMember =>
    obtain ⟨⟨otherInRange, sameHome⟩, apart⟩ := partition.mem_members.mp isMember
    have isLeader : islands.leaderRank (islands.islandOfRank rank) = rank := leads
    rw [isLeader] at apart
    have listens := mem_listeners inRange apart.symm (List.mem_singleton_self rank)
    have published := mem_publishTasks listens kReadyPhaseIslandGatherDone
    have follows : ¬Leads islands other := fun leadsOther => apart (by
      rw [← leadsOther, sameHome, isLeader])
    refine ⟨4, by decide, _, mem_stage otherInRange ?_, (publishTasks_facts published).1, rfl, rfl, le_refl _⟩
    change _ ∈ islandStage input transports islands 4 other
    simp only [islandStage, if_neg follows, gatherPublishes, sameHome, isLeader]
    exact published
  | stagedWait srcIsland known leads away =>
    have sourceInRange : (srcIsland : Int) ∈ intRange islands.islandCount := mem_intRange.mpr ⟨by omega, by omega⟩
    have apart : rank ≠ islands.leaderRank srcIsland := fun same =>
      away (by rw [same, partition.leader_home sourceInRange])
    have elsewhere : islands.islandOfRank rank ∈ peersOf srcIsland islands.islandCount :=
      mem_peersOf.mpr ⟨mem_intRange.mp home, fun same => away same.symm⟩
    have listens := mem_listeners inRange apart (List.mem_map.mpr ⟨_, elsewhere, leads⟩)
    have published := mem_publishTasks listens (stagedReadyPhaseForIsland srcIsland)
    refine ⟨7, by omega, _, mem_stage (partition.leader_inRange sourceInRange) ?_, (publishTasks_facts published).1,
      rfl, rfl, le_refl _⟩
    change _ ∈ islandStage input transports islands 7 (islands.leaderRank srcIsland)
    simp only [islandStage, if_pos (partition.leader_leads sourceInRange), partition.leader_home sourceInRange]
    exact published
  | memberWait srcIsland known follows away =>
    have apart : rank ≠ islands.leaderRank (islands.islandOfRank rank) := fun same => follows same.symm
    have listens := mem_listeners inRange apart (partition.mem_members.mpr ⟨⟨inRange, rfl⟩, apart⟩)
    have published := mem_publishTasks listens (remoteLeaderReadyPhase srcIsland (islands.islandOfRank rank))
    refine ⟨3 * srcIsland + 2 + 8, by omega, _, mem_leaderStage (partition.leader_inRange home)
      (partition.leader_leads home) known (by rwa [partition.leader_home home]) (by decide) ?_,
      (publishTasks_facts published).1, rfl, rfl, le_refl _⟩
    change _ ∈ remotePublishes input islands srcIsland
      (islands.islandOfRank (islands.leaderRank (islands.islandOfRank rank)))
      (islands.leaderRank (islands.islandOfRank rank))
    rw [partition.leader_home home]
    exact published
  | inputCopy member => exact absurd waits (movesData_op (inputCopies_moves _ member)).2
  | islandCopy member => exact absurd waits (movesData_op (sourceCopies_copies _ _ _ _ task member).moves).2
  | entryPublish member => rw [(entryPublishes_facts member).1] at waits; cases waits
  | gatherPublish _ member => rw [(publishTasks_facts member).1] at waits; cases waits
  | stagedPublish _ member => rw [(publishTasks_facts member).1] at waits; cases waits
  | remotePublish _ _ _ _ member => rw [(publishTasks_facts member).1] at waits; cases waits
  | _ => cases waits

/-- The signals of the staged plan order every conflict between ranks. -/
theorem islandStages_order (staged : StagedIslands input.worldSize islands) (contiguous : Contiguous input.worldSize islands)
    (fits : input.count * input.dtypeSize < 2 ^ 64) :
    StageOrder input.dtypeSize input.worldSize (islandStages input transports islands) where
  listed rank outside index := if_neg outside
  aligned index bound rank task member := by
    obtain ⟨inRange, stageTask⟩ := stageTask_of_mem bound member
    exact stageTask.aligned fits contiguous inRange
  ownSignals index bound rank task member publishes := ((stageTask_of_mem bound member).2.publish publishes).1
  answered index bound rank task member waits := by
    obtain ⟨inRange, stageTask⟩ := stageTask_of_mem bound member
    exact stageTask.answered staged.toPartition inRange waits
  ordered earlier later first second apart before bound := by
    by_cases firstInRange : first ∈ intRange input.worldSize
    · by_cases secondInRange : second ∈ intRange input.worldSize
      · by_cases gather : earlier ≤ 3 ∧ later = 6 ∧ ¬Leads islands first ∧ Leads islands second ∧
            islands.islandOfRank first = islands.islandOfRank second
        · obtain ⟨early, late, follows, leads, same⟩ := gather
          exact Or.inr ⟨by omega,
            gather_signalled staged.toPartition firstInRange secondInRange early late follows leads same⟩
        by_cases stagedBlock : earlier ≤ 6 ∧ Leads islands first ∧ Leads islands second ∧
            islands.islandOfRank first ≠ islands.islandOfRank second ∧
            later = 3 * (islands.islandOfRank first).toNat + 9
        · obtain ⟨early, leads, leadsSecond, away, late⟩ := stagedBlock
          exact Or.inr ⟨by omega,
            staged_signalled staged.toPartition firstInRange secondInRange early leads leadsSecond away late⟩
        by_cases remote : ∃ srcIsland : Nat, earlier = 3 * srcIsland + 9 ∧ srcIsland < islands.islandCount.toNat ∧
            Leads islands first ∧ ¬Leads islands second ∧ (srcIsland : Int) ≠ islands.islandOfRank second ∧
            islands.islandOfRank first = islands.islandOfRank second ∧
            later = 3 * islands.islandCount.toNat + 2 * srcIsland + 9
        · obtain ⟨srcIsland, early, known, leads, follows, away, same, late⟩ := remote
          exact Or.inr ⟨by omega,
            remote_signalled staged.toPartition secondInRange early known leads follows away same late⟩
        refine Or.inl fun task member other memberOther buffer byte => ?_
        obtain ⟨_, stageTask⟩ := stageTask_of_mem (lt_of_le_of_lt before bound) member
        obtain ⟨_, stageOther⟩ := stageTask_of_mem bound memberOther
        obtain ⟨forward, backward⟩ := regions_apart staged contiguous fits firstInRange secondInRange apart before
          ⟨gather, stagedBlock, remote⟩ buffer byte
        exact ⟨fun both => forward
            ⟨stageTask.written staged.toPartition both.1, stageOther.touched staged.toPartition both.2⟩,
          fun both => backward
            ⟨stageOther.written staged.toPartition both.1, stageTask.touched staged.toPartition both.2⟩⟩
      · refine Or.inl fun _ _ other memberOther => ?_
        exact absurd (stageTask_of_mem bound memberOther).1 secondInRange
    · refine Or.inl fun task member => ?_
      exact absurd (stageTask_of_mem (lt_of_le_of_lt before bound) member).1 firstInRange

end Order

end Ooverlap.Semantics.AllGatherIslands
