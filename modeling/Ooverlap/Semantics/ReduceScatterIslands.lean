import Ooverlap.Plan.StagedListing
import Ooverlap.Semantics.IslandStages

/-! The staged reduce-scatter plan, run in any interleaving of the ranks. -/

namespace Ooverlap.Semantics.ReduceScatterIslands

open Ooverlap.Plan Ooverlap.Plan.ReduceScatter Ooverlap.Interleaving
open Ooverlap.Plan.AllReduce (destinationRefs)

section Stages

variable (input : TransferPlanBuildInput) (transports : TransportMatrix) (islands : IslandPlan)

/-- One rank's part of each stage: island partials on the leaders, then from island to island. -/
def islandStage : Nat → Int → List TransferTask
  | 0, rank => fullCopies input rank
  | 1, rank => entryPublishes input rank
  | 2, rank => entryWaits input rank
  | 3, rank =>
    if Leads islands rank then islandReductions input transports islands (islands.islandOfRank rank) rank else []
  | 4, rank => if Leads islands rank then partialPublishes input islands (islands.islandOfRank rank) rank else []
  | 5, rank => if Leads islands rank then [] else [partialWait input islands (islands.islandOfRank rank) rank]
  | 6, rank =>
    if Leads islands rank then [] else [partialCopy input transports islands (islands.islandOfRank rank) rank]
  | 7, rank => if Leads islands rank then [stagingCopy input islands (islands.islandOfRank rank) rank] else []
  | 8, rank => if Leads islands rank then stagedPublishes input islands (islands.islandOfRank rank) rank else []
  | step + 9, rank =>
    let srcIsland : Int := (step / 2 : Nat)
    if srcIsland = islands.islandOfRank rank then []
    else if step % 2 = 0 then [stagedWait input islands srcIsland rank]
    else [remoteReduction input islands srcIsland rank]

def islandStages : Staged Int TransferTask where
  count := 9 + 2 * islands.islandCount.toNat
  stage index rank := if rank ∈ intRange input.worldSize then islandStage input transports islands index rank else []

variable {input} {transports} {islands} {rank : Int}

theorem fullCopies_executor : ∀ task ∈ fullCopies input rank, task.executorRank = rank := by
  intro task member
  unfold fullCopies at member
  split at member
  · rw [List.mem_singleton.mp member]
    rfl
  · cases member

/-- The last stages of a rank: for every other island its signal, then its partial. -/
theorem remoteStages (inRange : rank ∈ intRange input.worldSize) :
    (List.range (2 * islands.islandCount.toNat)).flatMap (fun step =>
        (islandStages input transports islands).stage (step + 9) rank) =
      (peersOf (islands.islandOfRank rank) islands.islandCount).flatMap fun srcIsland =>
        [stagedWait input islands srcIsland rank, remoteReduction input islands srcIsland rank] := by
  rw [flatMap_range_mul, flatMap_peersOf]
  refine List.flatMap_congr fun index _ => ?_
  have two : List.range 2 = [0, 1] := rfl
  have first : (2 * index + 0) / 2 = index ∧ (2 * index + 0) % 2 = 0 := by omega
  have second : (2 * index + 1) / 2 = index ∧ (2 * index + 1) % 2 = 1 := by omega
  simp only [two, List.flatMap_cons, List.flatMap_nil, List.append_nil, islandStages, if_pos inRange, islandStage,
    first.1, first.2, second.1, second.2]
  split <;> simp

theorem islandStages_code (inRange : rank ∈ intRange input.worldSize) :
    (islandStages input transports islands).code rank =
      fullCopies input rank ++ (entryPublishes input rank ++ entryWaits input rank ++
        ((if Leads islands rank then islandReductions input transports islands (islands.islandOfRank rank) rank else []) ++
        (((if Leads islands rank then partialPublishes input islands (islands.islandOfRank rank) rank else []) ++
          if Leads islands rank then []
          else [partialWait input islands (islands.islandOfRank rank) rank,
            partialCopy input transports islands (islands.islandOfRank rank) rank]) ++
        ((if Leads islands rank then
            stagingCopy input islands (islands.islandOfRank rank) rank ::
              stagedPublishes input islands (islands.islandOfRank rank) rank
          else []) ++
        (peersOf (islands.islandOfRank rank) islands.islandCount).flatMap fun srcIsland =>
          [stagedWait input islands srcIsland rank, remoteReduction input islands srcIsland rank])))) := by
  have nine : List.range 9 = [0, 1, 2, 3, 4, 5, 6, 7, 8] := rfl
  rw [Staged.code, islandStages, upTo_add]
  change _ ++ (List.range (2 * islands.islandCount.toNat)).flatMap (fun step =>
    (islandStages input transports islands).stage (step + 9) rank) = _
  rw [remoteStages inRange]
  simp only [Staged.upTo, nine, List.flatMap_cons, List.flatMap_nil, List.append_nil, if_pos inRange, islandStage]
  by_cases leads : Leads islands rank <;> simp [leads]

end Stages

section Code

variable {input : TransferPlanBuildInput} {transports : TransportMatrix} {islands : IslandPlan} {rank : Int}

theorem partials_executor (island rank : Int) :
    ∀ task ∈ [partialWait input islands island rank, partialCopy input transports islands island rank],
      task.executorRank = rank := by
  intro task member
  rcases List.mem_pair.mp member with rfl | rfl <;> rfl

theorem staging_executor (island leader : Int) :
    ∀ task ∈ stagingCopy input islands island leader :: stagedPublishes input islands island leader,
      task.executorRank = leader := by
  intro task member
  rcases List.mem_cons.mp member with rfl | publish
  · rfl
  · exact publishes_executor task publish

theorem remote_executor (dstIsland rank : Int) :
    ∀ task ∈ (peersOf dstIsland islands.islandCount).flatMap fun srcIsland =>
        [stagedWait input islands srcIsland rank, remoteReduction input islands srcIsland rank],
      task.executorRank = rank := by
  intro task member
  obtain ⟨srcIsland, _, inPair⟩ := List.mem_flatMap.mp member
  rcases List.mem_pair.mp inPair with rfl | rfl
  · rfl
  · exact reduceTask_executorRank ..

/-- Each rank's tasks of the staged plan are those of its stages. -/
theorem stagedTasks_filter (partition : Partition input.worldSize islands) (inRange : rank ∈ intRange input.worldSize) :
    (stagedTasks input transports islands).filter (fun task => task.executorRank = rank) =
      (islandStages input transports islands).code rank := by
  have home := partition.home rank inRange
  have leaderHome : ∀ island ∈ intRange islands.islandCount,
      islands.islandOfRank (islands.leaderRank island) = island := fun island => partition.leader_home
  rw [islandStages_code inRange]
  simp only [stagedTasks, List.filter_append]
  congr 1
  · rw [filter_executor_flatMap _ (intRange_nodup _) _ fun _ _ => fullCopies_executor, if_pos inRange]
  congr 1
  · rw [filter_executor_flatMap _ (intRange_nodup _) _ fun _ _ => entry_executor, if_pos inRange]
  congr 1
  · rw [filter_home _ (intRange_nodup _) islands.islandOfRank _ (fun island member task inBlock => by
      rw [islandReductions_executor _ _ task inBlock, leaderHome island member]) home]
    exact filter_leads _ (islandReductions input transports islands (islands.islandOfRank rank))
      (islandReductions_executor _) rfl
  congr 1
  · rw [filter_home _ (intRange_nodup _) islands.islandOfRank _ (fun island member task inBlock => by
      rcases List.mem_append.mp inBlock with publish | partials
      · rw [publishes_executor task publish, leaderHome island member]
      · obtain ⟨other, isMember, inPair⟩ := List.mem_flatMap.mp partials
        rw [partials_executor _ _ task inPair]
        exact (partition.mem_members.mp isMember).1.2) home, List.filter_append,
      filter_leads _ (partialPublishes input islands (islands.islandOfRank rank)) (fun _ => publishes_executor) rfl,
      filter_executor_flatMap _ (partition.members_nodup _) _ fun _ _ => partials_executor _ _]
    congr 1
    by_cases leads : Leads islands rank
    · rw [if_pos leads, if_neg fun isMember => (partition.mem_members.mp isMember).2 leads.symm]
    · rw [if_neg leads, if_pos (partition.mem_members.mpr ⟨⟨inRange, rfl⟩, fun eq => leads eq.symm⟩)]
  congr 1
  · rw [filter_home _ (intRange_nodup _) islands.islandOfRank _ (fun island member task inBlock => by
      rw [staging_executor _ _ task inBlock, leaderHome island member]) home]
    exact filter_leads _ (fun leader => stagingCopy input islands (islands.islandOfRank rank) leader ::
      stagedPublishes input islands (islands.islandOfRank rank) leader) (staging_executor _) rfl
  · rw [filter_home _ (intRange_nodup _) islands.islandOfRank _ (fun island member task inBlock => by
      obtain ⟨other, isMember, inRemote⟩ := List.mem_flatMap.mp inBlock
      rw [remote_executor _ _ task inRemote]
      exact (partition.mem_ranks.mp isMember).2) home,
      filter_executor_flatMap _ (partition.ranks_nodup _) _ fun _ _ => remote_executor _ _,
      if_pos (partition.mem_ranks.mpr ⟨inRange, rfl⟩)]

theorem stagedTasks_executor (partition : Partition input.worldSize islands) :
    ∀ task ∈ stagedTasks input transports islands, task.executorRank ∈ intRange input.worldSize := by
  intro task member
  simp only [stagedTasks, List.mem_append, List.mem_flatMap] at member
  rcases member with ⟨rank, inRange, copies⟩ | ⟨rank, inRange, entry⟩ | ⟨island, inRange, reductions⟩ |
    ⟨island, inRange, publish | ⟨rank, isMember, inPair⟩⟩ | ⟨island, inRange, leader⟩ |
    ⟨island, inRange, rank, isMember, remote⟩
  · rw [fullCopies_executor task copies]
    exact inRange
  · rw [entry_executor task (List.mem_append.mpr entry)]
    exact inRange
  · rw [islandReductions_executor _ _ task reductions]
    exact partition.leader_inRange inRange
  · rw [publishes_executor task publish]
    exact partition.leader_inRange inRange
  · rw [partials_executor _ _ task inPair]
    exact (partition.mem_members.mp isMember).1.1
  · rw [staging_executor _ _ task leader]
    exact partition.leader_inRange inRange
  · rw [remote_executor _ _ task (List.mem_flatMap.mpr remote)]
    exact (partition.mem_ranks.mp isMember).1

end Code

section Regions

variable (input : TransferPlanBuildInput) (transports : TransportMatrix) (islands : IslandPlan)

/-- The bytes a rank may touch in a stage. -/
def touched (index : Nat) (rank : Int) (buffer : BufferId) (byte : Nat) : Prop :=
  (index = 0 ∧ (buffer = inputBuffer rank ∨ buffer = rankBuffer rank)) ∨
  (index = 3 ∧ Leads islands rank ∧
    ∃ other, islands.islandOfRank other = islands.islandOfRank rank ∧ buffer = rankBuffer other) ∨
  (index = 6 ∧ ¬Leads islands rank ∧ inSliceOf input rank byte ∧
    (buffer = rankBuffer rank ∨ buffer = rankBuffer (islands.leaderRank (islands.islandOfRank rank)))) ∨
  (index = 7 ∧ Leads islands rank ∧
    (buffer = rankBuffer rank ∨ buffer = stagingBuffer (islands.stagingSlot (islands.islandOfRank rank)))) ∨
  ∃ srcIsland : Nat, index = 2 * srcIsland + 10 ∧ (srcIsland : Int) ≠ islands.islandOfRank rank ∧
    (buffer = rankBuffer rank ∧ inSliceOf input rank byte ∨ buffer = stagingBuffer (islands.stagingSlot srcIsland))

/-- The bytes a rank may write in a stage. -/
def written (index : Nat) (rank : Int) (buffer : BufferId) (byte : Nat) : Prop :=
  (index = 0 ∧ buffer = rankBuffer rank) ∨
  (index = 3 ∧ Leads islands rank ∧ buffer = rankBuffer rank) ∨
  (index = 6 ∧ ¬Leads islands rank ∧ buffer = rankBuffer rank) ∨
  (index = 7 ∧ Leads islands rank ∧ buffer = stagingBuffer (islands.stagingSlot (islands.islandOfRank rank))) ∨
  ∃ srcIsland : Nat, index = 2 * srcIsland + 10 ∧ buffer = rankBuffer rank ∧ inSliceOf input rank byte

/-- The tasks of one rank, by the stage they stand in. -/
inductive StageTask (rank : Int) : Nat → TransferTask → Prop where
  | fullCopy (outOfPlace : input.outOfPlace = true) : StageTask rank 0
      (copyTask input rank rank rank (rankInputRef rank) (rankBufferRef rank) (totalBytes input) (totalWindows input)
        .directNvlink)
  | entryPublish (member : task ∈ entryPublishes input rank) : StageTask rank 1 task
  | entryWait (isPeer : peer ∈ peersOf rank input.worldSize) : StageTask rank 2 (waitTask input rank peer 0)
  | reduction (leads : Leads islands rank) (isMember : other ∈ islandMembers islands (islands.islandOfRank rank)) :
      StageTask rank 3 (reduceTask input rank other rank (rankBufferRef other) (rankBufferRef rank) (totalBytes input)
        (totalWindows input) (transports rank other))
  | partialPublish (leads : Leads islands rank)
      (member : task ∈ partialPublishes input islands (islands.islandOfRank rank) rank) : StageTask rank 4 task
  | partialWait (follows : ¬Leads islands rank) :
      StageTask rank 5 (partialWait input islands (islands.islandOfRank rank) rank)
  | partialCopy (follows : ¬Leads islands rank) :
      StageTask rank 6 (partialCopy input transports islands (islands.islandOfRank rank) rank)
  | stagingCopy (leads : Leads islands rank) :
      StageTask rank 7 (stagingCopy input islands (islands.islandOfRank rank) rank)
  | stagedPublish (leads : Leads islands rank)
      (member : task ∈ stagedPublishes input islands (islands.islandOfRank rank) rank) : StageTask rank 8 task
  | stagedWait (srcIsland : Nat) (away : (srcIsland : Int) ≠ islands.islandOfRank rank) :
      StageTask rank (2 * srcIsland + 9) (stagedWait input islands srcIsland rank)
  | remoteReduction (srcIsland : Nat) (away : (srcIsland : Int) ≠ islands.islandOfRank rank) :
      StageTask rank (2 * srcIsland + 10) (remoteReduction input islands srcIsland rank)

variable {input} {transports} {islands} {rank : Int}

theorem stageTask_of_mem (member : task ∈ (islandStages input transports islands).stage index rank) :
    rank ∈ intRange input.worldSize ∧ StageTask input transports islands rank index task := by
  simp only [islandStages] at member
  split at member
  · rename_i inRange
    refine ⟨inRange, ?_⟩
    match index with
    | 0 =>
      simp only [islandStage, fullCopies] at member
      split at member
      · rename_i outOfPlace
        rw [List.mem_singleton.mp member]
        exact .fullCopy outOfPlace
      · cases member
    | 1 => exact .entryPublish member
    | 2 =>
      obtain ⟨peer, isPeer, rfl⟩ := List.mem_map.mp member
      exact .entryWait isPeer
    | 3 =>
      simp only [islandStage] at member
      split at member
      · rename_i leads
        obtain ⟨other, isMember, rfl⟩ := List.mem_map.mp member
        exact .reduction leads isMember
      · cases member
    | 4 =>
      simp only [islandStage] at member
      split at member
      · exact .partialPublish ‹_› member
      · cases member
    | 5 =>
      simp only [islandStage] at member
      split at member
      · cases member
      · rw [List.mem_singleton.mp member]
        exact .partialWait ‹_›
    | 6 =>
      simp only [islandStage] at member
      split at member
      · cases member
      · rw [List.mem_singleton.mp member]
        exact .partialCopy ‹_›
    | 7 =>
      simp only [islandStage] at member
      split at member
      · rw [List.mem_singleton.mp member]
        exact .stagingCopy ‹_›
      · cases member
    | 8 =>
      simp only [islandStage] at member
      split at member
      · exact .stagedPublish ‹_› member
      · cases member
    | step + 9 =>
      simp only [islandStage] at member
      split at member
      · cases member
      · rename_i away
        split at member
        · rename_i even
          have position : step + 9 = 2 * (step / 2) + 9 := by omega
          rw [List.mem_singleton.mp member, position]
          exact .stagedWait (step / 2) away
        · rename_i odd
          have position : step + 9 = 2 * (step / 2) + 10 := by omega
          rw [List.mem_singleton.mp member, position]
          exact .remoteReduction (step / 2) away
  · cases member

theorem StageTask.touched (partition : Partition input.worldSize islands)
    (staged : StageTask input transports islands rank index task) (accessed : accessesByte task buffer byte) :
    touched input islands index rank buffer byte := by
  have moves : movesData task := by
    rcases accessed with ⟨moves, _⟩ | ⟨moves, _⟩ <;> exact moves
  cases staged with
  | fullCopy =>
    rcases copyTask_accesses accessed with ⟨same, _⟩ | ⟨same, _⟩
    · exact Or.inl ⟨rfl, Or.inl same⟩
    · exact Or.inl ⟨rfl, Or.inr same⟩
  | entryPublish member => exact absurd moves (publishes_quiet _ member)
  | entryWait => exact absurd moves wait_quiet
  | @reduction other leads isMember =>
    refine Or.inr (Or.inl ⟨rfl, leads, ?_⟩)
    rcases reduceTask_accesses accessed with ⟨same, _⟩ | ⟨same, _⟩
    · exact ⟨other, (partition.mem_members.mp isMember).1.2, same⟩
    · exact ⟨rank, rfl, same⟩
  | partialPublish leads member => exact absurd moves (publishes_quiet _ member)
  | partialWait => exact absurd moves wait_quiet
  | partialCopy follows =>
    refine Or.inr (Or.inr (Or.inl ⟨rfl, follows, ?_⟩))
    rcases copyTask_accesses accessed with ⟨same, inside⟩ | ⟨same, inside⟩
    · exact ⟨inside, Or.inr same⟩
    · exact ⟨inside, Or.inl same⟩
  | stagingCopy leads =>
    refine Or.inr (Or.inr (Or.inr (Or.inl ⟨rfl, leads, ?_⟩)))
    rcases copyTask_accesses accessed with ⟨same, _⟩ | ⟨same, _⟩
    · exact Or.inl same
    · exact Or.inr same
  | stagedPublish leads member => exact absurd moves (publishes_quiet _ member)
  | stagedWait => exact absurd moves wait_quiet
  | remoteReduction srcIsland away =>
    refine Or.inr (Or.inr (Or.inr (Or.inr ⟨srcIsland, rfl, away, ?_⟩)))
    rcases reduceTask_accesses accessed with ⟨same, _⟩ | ⟨same, inside⟩
    · exact Or.inr same
    · exact Or.inl ⟨same, inside⟩

theorem StageTask.written (staged : StageTask input transports islands rank index task)
    (writes : writesByte task buffer byte) : written input islands index rank buffer byte := by
  cases staged with
  | fullCopy => exact Or.inl ⟨rfl, (copyTask_writes writes).1⟩
  | entryPublish member => exact absurd writes.1 (publishes_quiet _ member)
  | entryWait => exact absurd writes.1 wait_quiet
  | reduction leads => exact Or.inr (Or.inl ⟨rfl, leads, (reduceTask_writes writes).1⟩)
  | partialPublish leads member => exact absurd writes.1 (publishes_quiet _ member)
  | partialWait => exact absurd writes.1 wait_quiet
  | partialCopy follows => exact Or.inr (Or.inr (Or.inl ⟨rfl, follows, (copyTask_writes writes).1⟩))
  | stagingCopy leads => exact Or.inr (Or.inr (Or.inr (Or.inl ⟨rfl, leads, (copyTask_writes writes).1⟩)))
  | stagedPublish leads member => exact absurd writes.1 (publishes_quiet _ member)
  | stagedWait => exact absurd writes.1 wait_quiet
  | remoteReduction srcIsland away =>
    exact Or.inr (Or.inr (Or.inr (Or.inr ⟨srcIsland, rfl, reduceTask_writes writes⟩)))

/-- Stages of two ranks that no signal separates. -/
structure Unsignalled (islands : IslandPlan) (earlier : Nat) (first : Int) (later : Nat) (second : Int) : Prop where
  entry : ¬(earlier = 0 ∧ 2 < later)
  localPartial : ¬(earlier ≤ 3 ∧ 5 < later ∧ Leads islands first ∧
    islands.islandOfRank first = islands.islandOfRank second)
  stagedPartial : ¬(earlier ≤ 7 ∧ Leads islands first ∧ islands.islandOfRank first ≠ islands.islandOfRank second ∧
    later = 2 * (islands.islandOfRank first).toNat + 10)

/-- Without a signal between them two ranks keep off each other's bytes. -/
theorem regions_apart (staged : StagedIslands input.worldSize islands) (fits : input.count * input.dtypeSize < 2 ^ 64)
    (firstInRange : first ∈ intRange input.worldSize) (secondInRange : second ∈ intRange input.worldSize)
    (apart : first ≠ second) (before : earlier ≤ later) (bound : later < 9 + 2 * islands.islandCount.toNat)
    (unsignalled : Unsignalled islands earlier first later second) (buffer : BufferId) (byte : Nat) :
    ¬(written input islands earlier first buffer byte ∧ touched input islands later second buffer byte) ∧
    ¬(written input islands later second buffer byte ∧ touched input islands earlier first buffer byte) := by
  obtain ⟨entry, localPartial, stagedPartial⟩ := unsignalled
  have slices : ¬(inSliceOf input first byte ∧ inSliceOf input second byte) := fun both =>
    slices_apart fits firstInRange secondInRange apart both.1 both.2
  have homeFirst := mem_intRange.mp (staged.home first firstInRange)
  have homeSecond := mem_intRange.mp (staged.home second secondInRange)
  have leaderFirst := staged.leader_home (staged.home first firstInRange)
  have leaderSecond := staged.leader_home (staged.home second secondInRange)
  have slots : ∀ other : Int, 0 ≤ other → other < islands.islandCount → islands.islandOfRank first ≠ other →
      islands.stagingSlot (islands.islandOfRank first) ≠ islands.stagingSlot other := fun other lower upper =>
    staged.slots _ (staged.home first firstInRange) other (mem_intRange.mpr ⟨lower, upper⟩)
  unfold Leads at localPartial stagedPartial
  -- One case for each pair of stages; most meet in no buffer, the others in no byte or not in this order.
  constructor
  · rintro ⟨writes, touches⟩
    rcases writes with ⟨rfl, rfl⟩ | ⟨rfl, leads, rfl⟩ | ⟨rfl, follows, rfl⟩ | ⟨rfl, leads, rfl⟩ |
      ⟨srcIsland, rfl, rfl, inside⟩ <;>
    rcases touches with ⟨late, touches⟩ | ⟨late, leadsSecond, other, sameHome, touches⟩ |
      ⟨late, followsSecond, inside, touches⟩ | ⟨late, leadsSecond, touches⟩ | ⟨srcSecond, late, away, touches⟩ <;>
    simp only [rankBuffer_ne_input, rankBuffer_ne_staging, (rankBuffer_ne_staging _ _).symm, rankBuffer_inj,
      stagingBuffer_inj, stagingBuffer_ne_input, Leads] at * <;>
    grind
  · rintro ⟨writes, touches⟩
    rcases writes with ⟨late, rfl⟩ | ⟨late, leads, rfl⟩ | ⟨late, follows, rfl⟩ | ⟨late, leads, rfl⟩ |
      ⟨srcIsland, late, rfl, inside⟩ <;>
    rcases touches with ⟨rfl, touches⟩ | ⟨rfl, leadsSecond, other, sameHome, touches⟩ |
      ⟨rfl, followsSecond, inside, touches⟩ | ⟨rfl, leadsSecond, touches⟩ | ⟨srcSecond, rfl, away, touches⟩ <;>
    simp only [rankBuffer_ne_input, rankBuffer_ne_staging, (rankBuffer_ne_staging _ _).symm, rankBuffer_inj,
      stagingBuffer_inj, stagingBuffer_ne_input, Leads] at * <;>
    grind

end Regions

section Plan

variable {input : TransferPlanBuildInput} {transports : TransportMatrix} {islands : IslandPlan} {rank : Int}

/-- The phases a rank publishes, by stage. -/
theorem StageTask.publish (staged : StageTask input transports islands rank index task)
    (publishes : task.op = .readyPublish) : task.readyRank = rank ∧
      ((index = 1 ∧ task.readyPhase = 0) ∨
        (index = 4 ∧ task.readyPhase = localPartialReadyPhaseForIsland (islands.islandOfRank rank)) ∨
        (index = 8 ∧ task.readyPhase = stagedPartialReadyPhaseForIsland (islands.islandOfRank rank))) := by
  cases staged with
  | entryPublish member =>
    obtain ⟨_, _, owner, phase⟩ := entryPublishes_facts member
    exact ⟨owner, Or.inl ⟨rfl, phase⟩⟩
  | partialPublish leads member =>
    obtain ⟨_, _, owner, phase⟩ := publishTasks_facts member
    exact ⟨owner, Or.inr (Or.inl ⟨rfl, phase⟩)⟩
  | stagedPublish leads member =>
    obtain ⟨_, _, owner, phase⟩ := publishTasks_facts member
    exact ⟨owner, Or.inr (Or.inr ⟨rfl, phase⟩)⟩
  | reduction => simp at publishes
  | remoteReduction => simp [ReduceScatter.remoteReduction] at publishes
  | _ => cases publishes

theorem mem_stage (inRange : rank ∈ intRange input.worldSize)
    (member : task ∈ islandStage input transports islands index rank) :
    task ∈ (islandStages input transports islands).stage index rank := by
  simpa [islandStages, mem_intRange.mp inRange] using member

/-- Entry: nobody passes the rendezvous before every rank's input is in its buffer. -/
theorem entry_signalled (firstInRange : first ∈ intRange input.worldSize) (secondInRange : second ∈ intRange input.worldSize)
    (apart : first ≠ second) (late : 2 < later) :
    Signalled (islandStages input transports islands) 0 first later second := by
  have isPeer : first ∈ peersOf second input.worldSize := mem_peersOf.mpr ⟨mem_intRange.mp firstInRange, apart⟩
  refine ⟨2, late, waitTask input second first 0, mem_stage secondInRange (List.mem_map_of_mem isPeer), rfl, rfl,
    le_refl _, ?_⟩
  intro index before task member publishes _
  obtain ⟨_, staged⟩ := stageTask_of_mem member
  rcases (staged.publish publishes).2 with ⟨rfl, _⟩ | ⟨rfl, _⟩ | ⟨rfl, _⟩ <;> omega

/-- A rank that has its island's signal knows the leader has gathered the island. -/
theorem partial_signalled (partition : Partition input.worldSize islands)
    (secondInRange : second ∈ intRange input.worldSize) (early : earlier ≤ 3) (late : 5 < later)
    (leads : Leads islands first) (same : islands.islandOfRank first = islands.islandOfRank second)
    (apart : first ≠ second) : Signalled (islandStages input transports islands) earlier first later second := by
  have leader : islands.leaderRank (islands.islandOfRank second) = first := by rw [← same, leads]
  have follows : ¬Leads islands second := fun leadsSecond => apart (leader.symm.trans leadsSecond)
  have home := mem_intRange.mp (partition.home second secondInRange)
  have phase : (partialWait input islands (islands.islandOfRank second) second).readyPhase =
      1 + islands.islandOfRank second := rfl
  refine ⟨5, late, partialWait input islands (islands.islandOfRank second) second,
    mem_stage secondInRange (by simp [islandStage, follows]), rfl, leader, by omega, ?_⟩
  intro index before task member publishes _
  obtain ⟨_, staged⟩ := stageTask_of_mem member
  rcases (staged.publish publishes).2 with ⟨rfl, published⟩ | ⟨rfl, _⟩ | ⟨rfl, _⟩ <;> omega

/-- A rank that has another island's signal knows that island's partial is in its staging slot. -/
theorem staged_signalled (partition : Partition input.worldSize islands) (firstInRange : first ∈ intRange input.worldSize)
    (secondInRange : second ∈ intRange input.worldSize) (early : earlier ≤ 7) (leads : Leads islands first)
    (away : islands.islandOfRank first ≠ islands.islandOfRank second)
    (late : later = 2 * (islands.islandOfRank first).toNat + 10) :
    Signalled (islandStages input transports islands) earlier first later second := by
  have home := mem_intRange.mp (partition.home first firstInRange)
  have island : ((islands.islandOfRank first).toNat : Int) = islands.islandOfRank first := Int.toNat_of_nonneg home.1
  have phase : (stagedWait input islands (islands.islandOfRank first) second).readyPhase =
      1 + 16 + islands.islandOfRank first := rfl
  have half : ((2 * (islands.islandOfRank first).toNat / 2 : Nat) : Int) = islands.islandOfRank first := by omega
  have inStage : stagedWait input islands (islands.islandOfRank first) second ∈
      islandStage input transports islands (2 * (islands.islandOfRank first).toNat + 9) second := by
    simp only [islandStage, half, if_neg away]
    simp
  refine ⟨2 * (islands.islandOfRank first).toNat + 9, by omega, _, mem_stage secondInRange inStage, rfl, leads,
    by omega, ?_⟩
  intro index before task member publishes _
  obtain ⟨_, staged⟩ := stageTask_of_mem member
  have localPhase : localPartialReadyPhaseForIsland (islands.islandOfRank first) = 1 + islands.islandOfRank first := rfl
  rcases (staged.publish publishes).2 with ⟨rfl, published⟩ | ⟨rfl, published⟩ | ⟨rfl, _⟩ <;> omega

theorem StageTask.aligned (fits : input.count * input.dtypeSize < 2 ^ 64) (inRange : rank ∈ intRange input.worldSize)
    (staged : StageTask input transports islands rank index task) : Aligned input.dtypeSize task := by
  have slice : input.dtypeSize ∣ sliceBeginBytes input rank := by
    rw [sliceBeginBytes_eq fits inRange]
    exact Nat.dvd_mul_left ..
  have quiet : ¬movesData task → Aligned input.dtypeSize task := fun still =>
    ⟨fun moves => absurd moves still, fun moves => absurd moves still⟩
  have single : ∀ dst : LogicalBufferRef, destinationRefs task = [dst] → input.dtypeSize ∣ task.src.byteOffset →
      input.dtypeSize ∣ dst.byteOffset → Aligned input.dtypeSize task := by
    intro dst only source destination
    refine ⟨fun _ => source, fun _ ref member => ?_⟩
    rw [only] at member
    rwa [List.mem_singleton.mp member]
  cases staged with
  | fullCopy => exact single (rankBufferRef rank) rfl (Nat.dvd_zero _) (Nat.dvd_zero _)
  | entryPublish member => exact quiet (publishes_quiet _ member)
  | entryWait => exact quiet wait_quiet
  | reduction => exact single _ reduceTask_destinations (by simp [rankBufferRef]) (Nat.dvd_zero _)
  | partialPublish leads member => exact quiet (publishes_quiet _ member)
  | partialWait => exact quiet wait_quiet
  | partialCopy => exact single (rankBufferRef rank (sliceBeginBytes input rank)) rfl slice slice
  | stagingCopy => exact single (shmStagingRef _) rfl (Nat.dvd_zero _) (Nat.dvd_zero _)
  | stagedPublish leads member => exact quiet (publishes_quiet _ member)
  | stagedWait => exact quiet wait_quiet
  | remoteReduction =>
    exact single _ reduceTask_destinations (by simpa [ReduceScatter.remoteReduction, shmStagingRef] using slice) slice

/-- Every wait of a stage is answered by a publish of an earlier one. -/
theorem StageTask.answered (partition : Partition input.worldSize islands) (inRange : rank ∈ intRange input.worldSize)
    (bound : index < 9 + 2 * islands.islandCount.toNat)
    (staged : StageTask input transports islands rank index task) (waits : task.op = .readyWait) :
    ∃ earlier < index, ∃ publish ∈ (islandStages input transports islands).stage earlier task.readyRank,
      publish.op = .readyPublish ∧ publish.readyRank = task.readyRank ∧ publish.readyChannel = task.readyChannel ∧
        task.readyPhase ≤ publish.readyPhase := by
  cases staged with
  | @entryWait peer isPeer =>
    have bounds := mem_peersOf.mp isPeer
    have listens : rank ∈ peersOf peer input.worldSize := mem_peersOf.mpr ⟨mem_intRange.mp inRange, bounds.2.symm⟩
    exact ⟨1, by decide, _, mem_stage (mem_intRange.mpr bounds.1) (mem_entryPublishes listens), rfl, rfl, rfl, le_refl _⟩
  | partialWait follows =>
    have home := partition.home rank inRange
    have leads : Leads islands (islands.leaderRank (islands.islandOfRank rank)) := by
      unfold Leads
      rw [partition.leader_home home]
    have listens := mem_listeners inRange (fun same => follows same.symm)
      (partition.mem_members.mpr ⟨⟨inRange, rfl⟩, fun same => follows same.symm⟩)
    have published := mem_publishTasks listens (localPartialReadyPhaseForIsland (islands.islandOfRank rank))
    refine ⟨4, by decide, _, mem_stage (partition.leader_inRange home) ?_, (publishTasks_facts published).1, rfl, rfl,
      le_refl _⟩
    change _ ∈ islandStage input transports islands 4 (islands.leaderRank (islands.islandOfRank rank))
    simp only [islandStage, if_pos leads, partition.leader_home home]
    exact published
  | stagedWait srcIsland away =>
    have sourceInRange : (srcIsland : Int) ∈ intRange islands.islandCount := mem_intRange.mpr ⟨by omega, by omega⟩
    have leads : Leads islands (islands.leaderRank srcIsland) := by
      unfold Leads
      rw [partition.leader_home sourceInRange]
    have apart : rank ≠ islands.leaderRank srcIsland := fun same =>
      away (by rw [same, partition.leader_home sourceInRange])
    have elsewhere : islands.islandOfRank rank ∈ peersOf srcIsland islands.islandCount :=
      mem_peersOf.mpr ⟨mem_intRange.mp (partition.home rank inRange), fun same => away same.symm⟩
    have listens := mem_listeners inRange apart
      (List.mem_flatMap.mpr ⟨_, elsewhere, partition.mem_ranks.mpr ⟨inRange, rfl⟩⟩)
    have published := mem_publishTasks listens (stagedPartialReadyPhaseForIsland srcIsland)
    refine ⟨8, by omega, _, mem_stage (partition.leader_inRange sourceInRange) ?_, (publishTasks_facts published).1,
      rfl, rfl, le_refl _⟩
    change _ ∈ islandStage input transports islands 8 (islands.leaderRank srcIsland)
    simp only [islandStage, if_pos leads, partition.leader_home sourceInRange]
    exact published
  | entryPublish member => rw [(entryPublishes_facts member).1] at waits; cases waits
  | partialPublish leads member => rw [(publishTasks_facts member).1] at waits; cases waits
  | stagedPublish leads member => rw [(publishTasks_facts member).1] at waits; cases waits
  | reduction => simp at waits
  | remoteReduction => simp [ReduceScatter.remoteReduction] at waits
  | fullCopy => cases waits
  | partialCopy => cases waits
  | stagingCopy => cases waits

/-- The staged plan is staged: its signals order every conflict between ranks. -/
theorem islandStages_staged {plan : TransferPlan} (staged : StagedIslands input.worldSize islands)
    (fits : input.count * input.dtypeSize < 2 ^ 64)
    (code : ∀ rank, (rankTasks plan rank).map TransferTask.unmarked =
      (stagedTasks input transports islands).filter fun task => task.executorRank = rank)
    (executors : ∀ task ∈ stagedTasks input transports islands, task.executorRank ∈ intRange input.worldSize) :
    StagedPlan input.dtypeSize input.worldSize plan (islandStages input transports islands) where
  code rank := by
    rw [code]
    by_cases inRange : rank ∈ intRange input.worldSize
    · exact stagedTasks_filter staged.toPartition inRange
    · have none : (islandStages input transports islands).code rank = [] :=
        List.flatMap_eq_nil_iff.mpr fun index _ => if_neg inRange
      rw [none]
      refine List.filter_eq_nil_iff.mpr fun task member own => inRange ?_
      rw [← of_decide_eq_true own]
      exact executors task member
  listed rank outside index := if_neg outside
  aligned index _ rank task member := by
    obtain ⟨inRange, stageTask⟩ := stageTask_of_mem member
    exact stageTask.aligned fits inRange
  ownSignals index _ rank task member publishes := by
    obtain ⟨_, stageTask⟩ := stageTask_of_mem member
    exact (stageTask.publish publishes).1
  answered index bound rank task member waits := by
    obtain ⟨inRange, stageTask⟩ := stageTask_of_mem member
    exact stageTask.answered staged.toPartition inRange bound waits
  ordered earlier later first second apart before bound := by
    by_cases firstInRange : first ∈ intRange input.worldSize
    · by_cases secondInRange : second ∈ intRange input.worldSize
      · by_cases entry : earlier = 0 ∧ 2 < later
        · obtain ⟨rfl, late⟩ := entry
          exact Or.inr ⟨by omega, entry_signalled firstInRange secondInRange apart late⟩
        by_cases localPartial : earlier ≤ 3 ∧ 5 < later ∧ Leads islands first ∧
            islands.islandOfRank first = islands.islandOfRank second
        · obtain ⟨early, late, leads, same⟩ := localPartial
          exact Or.inr ⟨by omega, partial_signalled staged.toPartition secondInRange early late leads same apart⟩
        by_cases stagedPartial : earlier ≤ 7 ∧ Leads islands first ∧
            islands.islandOfRank first ≠ islands.islandOfRank second ∧
            later = 2 * (islands.islandOfRank first).toNat + 10
        · obtain ⟨early, leads, away, late⟩ := stagedPartial
          exact Or.inr ⟨by omega,
            staged_signalled staged.toPartition firstInRange secondInRange early leads away late⟩
        refine Or.inl fun task member other memberOther buffer byte => ?_
        obtain ⟨_, stageTask⟩ := stageTask_of_mem member
        obtain ⟨_, stageOther⟩ := stageTask_of_mem memberOther
        obtain ⟨forward, backward⟩ := regions_apart staged fits firstInRange secondInRange apart before bound
          ⟨entry, localPartial, stagedPartial⟩ buffer byte
        exact ⟨fun both => forward ⟨stageTask.written both.1, stageOther.touched staged.toPartition both.2⟩,
          fun both => backward ⟨stageOther.written both.1, stageTask.touched staged.toPartition both.2⟩⟩
      · refine Or.inl fun _ _ other memberOther => ?_
        exact absurd (stageTask_of_mem memberOther).1 secondInRange
    · refine Or.inl fun task member => ?_
      exact absurd (stageTask_of_mem member).1 firstInRange

end Plan

end Ooverlap.Semantics.ReduceScatterIslands
