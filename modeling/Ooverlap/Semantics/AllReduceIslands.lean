import Ooverlap.Plan.StagedAllReduce
import Ooverlap.Semantics.IslandValues

/-! The staged all-reduce plan, run in any interleaving of the ranks. -/

namespace Ooverlap.Semantics.AllReduceIslands

open Ooverlap.Plan Ooverlap.Plan.AllReduce Ooverlap.Interleaving
open Ooverlap.Plan.ReduceScatter (totalWindows islandReductions stagingCopy)

section Stages

variable (input : TransferPlanBuildInput) (transports : TransportMatrix) (islands : IslandPlan)

/-- The last stages: the leaders' sums go back to their islands. -/
def finalStage : Nat → Int → List TransferTask
  | 0, rank => if Leads islands rank then finalPublishes input islands (islands.islandOfRank rank) rank else []
  | 1, rank => if Leads islands rank then [] else [finalWait input islands (islands.islandOfRank rank) rank]
  | _, rank => if Leads islands rank then [] else [finalCopy input transports islands (islands.islandOfRank rank) rank]

/-- One rank's part of each stage: partials on the leaders, from leader to leader, and back. -/
def islandStage : Nat → Int → List TransferTask
  | 0, rank => entryPublishes input rank
  | 1, rank => entryWaits input rank
  | 2, rank => gatherBlock input transports islands rank
  | 3, rank => stagingBlock input islands rank
  | 4, rank => if Leads islands rank then stagedPublishes input islands (islands.islandOfRank rank) rank else []
  | step + 5, rank =>
    if step < 2 * islands.islandCount.toNat then
      let srcIsland : Int := (step / 2 : Nat)
      if ¬Leads islands rank ∨ srcIsland = islands.islandOfRank rank then []
      else if step % 2 = 0 then [stagedWait input islands srcIsland rank]
      else [remoteReduction input islands srcIsland rank]
    else finalStage input transports islands (step - 2 * islands.islandCount.toNat) rank

def islandStages : Staged Int TransferTask where
  count := 2 * islands.islandCount.toNat + 8
  stage index rank := if rank ∈ intRange input.worldSize then islandStage input transports islands index rank else []

variable {input} {transports} {islands} {rank : Int}

/-- The stages of a leader among leaders: for every other island its signal, then its partial. -/
theorem remoteStages (inRange : rank ∈ intRange input.worldSize) :
    (List.range (2 * islands.islandCount.toNat)).flatMap (fun step =>
        (islandStages input transports islands).stage (step + 5) rank) =
      if Leads islands rank then
        (peersOf (islands.islandOfRank rank) islands.islandCount).flatMap fun srcIsland =>
          [stagedWait input islands srcIsland rank, remoteReduction input islands srcIsland rank]
      else [] := by
  have stages : ∀ step ∈ List.range (2 * islands.islandCount.toNat),
      (islandStages input transports islands).stage (step + 5) rank =
        if ¬Leads islands rank ∨ ((step / 2 : Nat) : Int) = islands.islandOfRank rank then []
        else if step % 2 = 0 then [stagedWait input islands (step / 2 : Nat) rank]
        else [remoteReduction input islands (step / 2 : Nat) rank] := by
    intro step member
    simp only [islandStages, if_pos inRange, islandStage, if_pos (List.mem_range.mp member)]
  rw [List.flatMap_congr stages, flatMap_range_mul]
  by_cases leads : Leads islands rank
  · rw [if_pos leads, flatMap_peersOf]
    refine List.flatMap_congr fun index _ => ?_
    have two : List.range 2 = [0, 1] := rfl
    have first : (2 * index + 0) / 2 = index ∧ (2 * index + 0) % 2 = 0 := by omega
    have second : (2 * index + 1) / 2 = index ∧ (2 * index + 1) % 2 = 1 := by omega
    simp only [two, List.flatMap_cons, List.flatMap_nil, List.append_nil, first.1, first.2, second.1, second.2, leads,
      not_true_eq_false, false_or]
    split <;> simp
  · simp [leads]

theorem islandStages_code (inRange : rank ∈ intRange input.worldSize) :
    (islandStages input transports islands).code rank =
      entryPublishes input rank ++ entryWaits input rank ++
        ((if Leads islands rank then islandReductions input transports islands (islands.islandOfRank rank) rank else []) ++
        ((if Leads islands rank then
            stagingCopy input islands (islands.islandOfRank rank) rank ::
              stagedPublishes input islands (islands.islandOfRank rank) rank
          else []) ++
        ((if Leads islands rank then
            (peersOf (islands.islandOfRank rank) islands.islandCount).flatMap fun srcIsland =>
              [stagedWait input islands srcIsland rank, remoteReduction input islands srcIsland rank]
          else []) ++
        ((if Leads islands rank then finalPublishes input islands (islands.islandOfRank rank) rank else []) ++
          if Leads islands rank then []
          else [finalWait input islands (islands.islandOfRank rank) rank,
            finalCopy input transports islands (islands.islandOfRank rank) rank])))) := by
  have split : 2 * islands.islandCount.toNat + 8 = 5 + 2 * islands.islandCount.toNat + 3 := by omega
  have five : List.range 5 = [0, 1, 2, 3, 4] := rfl
  have three : List.range 3 = [0, 1, 2] := rfl
  have finals : ∀ index, (islandStages input transports islands).stage (index + (5 + 2 * islands.islandCount.toNat)) rank =
      finalStage input transports islands index rank := by
    intro index
    have position : index + (5 + 2 * islands.islandCount.toNat) = index + 2 * islands.islandCount.toNat + 5 := by omega
    simp only [islandStages, if_pos inRange, position, islandStage]
    rw [if_neg (by omega), Nat.add_sub_cancel]
  rw [Staged.code]
  change (islandStages input transports islands).upTo (2 * islands.islandCount.toNat + 8) rank = _
  rw [split, upTo_add, upTo_add, remoteStages inRange]
  simp only [finals, Staged.upTo, five, three, List.flatMap_cons, List.flatMap_nil, List.append_nil, finalStage]
  simp only [islandStages, if_pos inRange, islandStage, gatherBlock, stagingBlock]
  by_cases leads : Leads islands rank <;> simp [leads]

end Stages

section Code

variable {input : TransferPlanBuildInput} {transports : TransportMatrix} {islands : IslandPlan} {rank : Int}

theorem staging_executor (island leader : Int) :
    ∀ task ∈ stagingCopy input islands island leader :: stagedPublishes input islands island leader,
      task.executorRank = leader := by
  intro task member
  rcases List.mem_cons.mp member with rfl | publish
  · rfl
  · exact publishes_executor task publish

theorem remote_executor (dstIsland leader : Int) :
    ∀ task ∈ (peersOf dstIsland islands.islandCount).flatMap fun srcIsland =>
        [stagedWait input islands srcIsland leader, remoteReduction input islands srcIsland leader],
      task.executorRank = leader := by
  intro task member
  obtain ⟨srcIsland, _, inPair⟩ := List.mem_flatMap.mp member
  rcases List.mem_pair.mp inPair with rfl | rfl
  · rfl
  · exact reduceTask_executorRank ..

theorem finals_executor (island rank : Int) :
    ∀ task ∈ [finalWait input islands island rank, finalCopy input transports islands island rank],
      task.executorRank = rank := by
  intro task member
  rcases List.mem_pair.mp member with rfl | rfl <;> rfl

theorem stagedTasks_executor (partition : Partition input.worldSize islands) :
    ∀ task ∈ stagedTasks input transports islands, task.executorRank ∈ intRange input.worldSize := by
  intro task member
  simp only [stagedTasks, List.mem_append, List.mem_flatMap] at member
  rcases member with ⟨rank, inRange, entry⟩ | ⟨island, inRange, reductions⟩ | ⟨island, inRange, leader⟩ |
    ⟨island, inRange, remote⟩ | ⟨island, inRange, publish | ⟨rank, isMember, inPair⟩⟩
  · rw [entry_executor task (List.mem_append.mpr entry)]
    exact inRange
  · rw [islandReductions_executor _ _ task reductions]
    exact partition.leader_inRange inRange
  · rw [staging_executor _ _ task leader]
    exact partition.leader_inRange inRange
  · rw [remote_executor _ _ task (List.mem_flatMap.mpr remote)]
    exact partition.leader_inRange inRange
  · rw [publishes_executor task publish]
    exact partition.leader_inRange inRange
  · rw [finals_executor _ _ task inPair]
    exact (partition.mem_members.mp isMember).1.1

/-- Each rank's tasks of the staged plan are those of its stages. -/
theorem stagedTasks_filter (partition : Partition input.worldSize islands) (inRange : rank ∈ intRange input.worldSize) :
    (stagedTasks input transports islands).filter (fun task => task.executorRank = rank) =
      (islandStages input transports islands).code rank := by
  have home := partition.home rank inRange
  have leaderHome : ∀ island ∈ intRange islands.islandCount,
      islands.islandOfRank (islands.leaderRank island) = island := fun island => partition.leader_home
  rw [islandStages_code inRange]
  simp only [stagedTasks, List.filter_append]
  congr 1
  · rw [filter_executor_flatMap _ (intRange_nodup _) _ fun _ _ => entry_executor, if_pos inRange]
  congr 1
  · rw [filter_home _ (intRange_nodup _) islands.islandOfRank _ (fun island member task inBlock => by
      rw [islandReductions_executor _ _ task inBlock, leaderHome island member]) home]
    exact filter_leads _ (islandReductions input transports islands (islands.islandOfRank rank))
      (islandReductions_executor _) rfl
  congr 1
  · rw [filter_home _ (intRange_nodup _) islands.islandOfRank _ (fun island member task inBlock => by
      rw [staging_executor _ _ task inBlock, leaderHome island member]) home]
    exact filter_leads _ (fun leader => stagingCopy input islands (islands.islandOfRank rank) leader ::
      stagedPublishes input islands (islands.islandOfRank rank) leader) (staging_executor _) rfl
  congr 1
  · rw [filter_home _ (intRange_nodup _) islands.islandOfRank _ (fun island member task inBlock => by
      rw [remote_executor _ _ task inBlock, leaderHome island member]) home]
    exact filter_leads _ (fun leader => (peersOf (islands.islandOfRank rank) islands.islandCount).flatMap fun srcIsland =>
      [stagedWait input islands srcIsland leader, remoteReduction input islands srcIsland leader])
      (remote_executor _) rfl
  · rw [filter_home _ (intRange_nodup _) islands.islandOfRank _ (fun island member task inBlock => by
      rcases List.mem_append.mp inBlock with publish | finals
      · rw [publishes_executor task publish, leaderHome island member]
      · obtain ⟨other, isMember, inPair⟩ := List.mem_flatMap.mp finals
        rw [finals_executor _ _ task inPair]
        exact (partition.mem_members.mp isMember).1.2) home, List.filter_append,
      filter_leads _ (finalPublishes input islands (islands.islandOfRank rank)) (fun _ => publishes_executor) rfl,
      filter_executor_flatMap _ (partition.members_nodup _) _ fun _ _ => finals_executor _ _]
    congr 1
    by_cases leads : Leads islands rank
    · rw [if_pos leads, if_neg fun isMember => (partition.mem_members.mp isMember).2 leads.symm]
    · rw [if_neg leads, if_pos (partition.mem_members.mpr ⟨⟨inRange, rfl⟩, fun eq => leads eq.symm⟩)]

end Code

section Regions

variable (input : TransferPlanBuildInput) (transports : TransportMatrix) (islands : IslandPlan)

/-- The buffers a rank may touch in a stage. -/
def touched (index : Nat) (rank : Int) (buffer : BufferId) : Prop :=
  (index = 2 ∧ Leads islands rank ∧
    ∃ other, islands.islandOfRank other = islands.islandOfRank rank ∧ buffer = rankBuffer other) ∨
  (index = 3 ∧ Leads islands rank ∧
    (buffer = rankBuffer rank ∨ buffer = stagingBuffer (islands.stagingSlot (islands.islandOfRank rank)))) ∨
  (∃ srcIsland : Nat, index = 2 * srcIsland + 6 ∧ srcIsland < islands.islandCount.toNat ∧ Leads islands rank ∧
    (srcIsland : Int) ≠ islands.islandOfRank rank ∧
    (buffer = rankBuffer rank ∨ buffer = stagingBuffer (islands.stagingSlot srcIsland))) ∨
  (index = 2 * islands.islandCount.toNat + 7 ∧ ¬Leads islands rank ∧
    (buffer = rankBuffer rank ∨ buffer = rankBuffer (islands.leaderRank (islands.islandOfRank rank))))

/-- The buffers a rank may write in a stage. -/
def written (index : Nat) (rank : Int) (buffer : BufferId) : Prop :=
  (index = 2 ∧ Leads islands rank ∧ buffer = rankBuffer rank) ∨
  (index = 3 ∧ Leads islands rank ∧ buffer = stagingBuffer (islands.stagingSlot (islands.islandOfRank rank))) ∨
  (∃ srcIsland : Nat, index = 2 * srcIsland + 6 ∧ srcIsland < islands.islandCount.toNat ∧ Leads islands rank ∧
    buffer = rankBuffer rank) ∨
  (index = 2 * islands.islandCount.toNat + 7 ∧ ¬Leads islands rank ∧ buffer = rankBuffer rank)

/-- The tasks of one rank, by the stage they stand in. -/
inductive StageTask (rank : Int) : Nat → TransferTask → Prop where
  | entryPublish (member : task ∈ entryPublishes input rank) : StageTask rank 0 task
  | entryWait (isPeer : peer ∈ peersOf rank input.worldSize) : StageTask rank 1 (waitTask input rank peer 0)
  | reduction (leads : Leads islands rank) (isMember : other ∈ islandMembers islands (islands.islandOfRank rank)) :
      StageTask rank 2 (reduceTask input rank other rank (rankBufferRef other) (rankBufferRef rank) (totalBytes input)
        (totalWindows input) (transports rank other))
  | stagingCopy (leads : Leads islands rank) :
      StageTask rank 3 (stagingCopy input islands (islands.islandOfRank rank) rank)
  | stagedPublish (leads : Leads islands rank)
      (member : task ∈ stagedPublishes input islands (islands.islandOfRank rank) rank) : StageTask rank 4 task
  | stagedWait (srcIsland : Nat) (known : srcIsland < islands.islandCount.toNat) (leads : Leads islands rank)
      (away : (srcIsland : Int) ≠ islands.islandOfRank rank) :
      StageTask rank (2 * srcIsland + 5) (stagedWait input islands srcIsland rank)
  | remoteReduction (srcIsland : Nat) (known : srcIsland < islands.islandCount.toNat) (leads : Leads islands rank)
      (away : (srcIsland : Int) ≠ islands.islandOfRank rank) :
      StageTask rank (2 * srcIsland + 6) (remoteReduction input islands srcIsland rank)
  | finalPublish (leads : Leads islands rank)
      (member : task ∈ finalPublishes input islands (islands.islandOfRank rank) rank) :
      StageTask rank (2 * islands.islandCount.toNat + 5) task
  | finalWait (follows : ¬Leads islands rank) :
      StageTask rank (2 * islands.islandCount.toNat + 6) (finalWait input islands (islands.islandOfRank rank) rank)
  | finalCopy (follows : ¬Leads islands rank) :
      StageTask rank (2 * islands.islandCount.toNat + 7)
        (finalCopy input transports islands (islands.islandOfRank rank) rank)

variable {input} {transports} {islands} {rank : Int}

theorem stageTask_of_mem (bound : index < (islandStages input transports islands).count)
    (member : task ∈ (islandStages input transports islands).stage index rank) :
    rank ∈ intRange input.worldSize ∧ StageTask input transports islands rank index task := by
  change index < 2 * islands.islandCount.toNat + 8 at bound
  simp only [islandStages] at member
  split at member
  · rename_i inRange
    refine ⟨inRange, ?_⟩
    match index with
    | 0 => exact .entryPublish member
    | 1 =>
      obtain ⟨peer, isPeer, rfl⟩ := List.mem_map.mp member
      exact .entryWait isPeer
    | 2 =>
      obtain ⟨leads, other, isMember, rfl⟩ := mem_gatherBlock member
      exact .reduction leads isMember
    | 3 =>
      obtain ⟨leads, rfl⟩ := mem_stagingBlock member
      exact .stagingCopy leads
    | 4 =>
      simp only [islandStage] at member
      split at member
      · exact .stagedPublish ‹_› member
      · cases member
    | step + 5 =>
      simp only [islandStage] at member
      split at member
      · rename_i among
        split at member
        · cases member
        · rename_i other
          obtain ⟨leads, away⟩ := not_or.mp other
          split at member
          · rename_i even
            have position : step + 5 = 2 * (step / 2) + 5 := by omega
            rw [List.mem_singleton.mp member, position]
            exact .stagedWait (step / 2) (by omega) (not_not.mp leads) away
          · rename_i odd
            have position : step + 5 = 2 * (step / 2) + 6 := by omega
            rw [List.mem_singleton.mp member, position]
            exact .remoteReduction (step / 2) (by omega) (not_not.mp leads) away
      · rename_i after
        obtain ⟨final, position⟩ : ∃ final, step = 2 * islands.islandCount.toNat + final :=
          ⟨step - 2 * islands.islandCount.toNat, by omega⟩
        subst position
        rw [Nat.add_sub_cancel_left] at member
        match final with
        | 0 =>
          simp only [finalStage] at member
          split at member
          · exact .finalPublish ‹_› member
          · cases member
        | 1 =>
          simp only [finalStage] at member
          split at member
          · cases member
          · rw [List.mem_singleton.mp member]
            exact .finalWait ‹_›
        | 2 =>
          simp only [finalStage] at member
          split at member
          · cases member
          · rw [List.mem_singleton.mp member]
            exact .finalCopy ‹_›
        | more + 3 => omega
  · cases member

theorem StageTask.touched (partition : Partition input.worldSize islands)
    (staged : StageTask input transports islands rank index task) (accessed : accessesByte task buffer byte) :
    touched islands index rank buffer := by
  have moves : movesData task := by
    rcases accessed with ⟨moves, _⟩ | ⟨moves, _⟩ <;> exact moves
  cases staged with
  | entryPublish member => exact absurd moves (publishes_quiet _ member)
  | entryWait => exact absurd moves wait_quiet
  | @reduction other leads isMember =>
    refine Or.inl ⟨rfl, leads, ?_⟩
    rcases reduceTask_accesses accessed with ⟨same, _⟩ | ⟨same, _⟩
    · exact ⟨other, (partition.mem_members.mp isMember).1.2, same⟩
    · exact ⟨rank, rfl, same⟩
  | stagingCopy leads =>
    refine Or.inr (Or.inl ⟨rfl, leads, ?_⟩)
    rcases copyTask_accesses accessed with ⟨same, _⟩ | ⟨same, _⟩
    · exact Or.inl same
    · exact Or.inr same
  | stagedPublish _ member => exact absurd moves (publishes_quiet _ member)
  | stagedWait => exact absurd moves wait_quiet
  | remoteReduction srcIsland known leads away =>
    refine Or.inr (Or.inr (Or.inl ⟨srcIsland, rfl, known, leads, away, ?_⟩))
    rcases reduceTask_accesses accessed with ⟨same, _⟩ | ⟨same, _⟩
    · exact Or.inr same
    · exact Or.inl same
  | finalPublish _ member => exact absurd moves (publishes_quiet _ member)
  | finalWait => exact absurd moves wait_quiet
  | finalCopy follows =>
    refine Or.inr (Or.inr (Or.inr ⟨rfl, follows, ?_⟩))
    rcases copyTask_accesses accessed with ⟨same, _⟩ | ⟨same, _⟩
    · exact Or.inr same
    · exact Or.inl same

theorem StageTask.written (staged : StageTask input transports islands rank index task)
    (writes : writesByte task buffer byte) : written islands index rank buffer := by
  cases staged with
  | entryPublish member => exact absurd writes.1 (publishes_quiet _ member)
  | entryWait => exact absurd writes.1 wait_quiet
  | reduction leads => exact Or.inl ⟨rfl, leads, (reduceTask_writes writes).1⟩
  | stagingCopy leads => exact Or.inr (Or.inl ⟨rfl, leads, (copyTask_writes writes).1⟩)
  | stagedPublish _ member => exact absurd writes.1 (publishes_quiet _ member)
  | stagedWait => exact absurd writes.1 wait_quiet
  | remoteReduction srcIsland known leads =>
    exact Or.inr (Or.inr (Or.inl ⟨srcIsland, rfl, known, leads, (reduceTask_writes writes).1⟩))
  | finalPublish _ member => exact absurd writes.1 (publishes_quiet _ member)
  | finalWait => exact absurd writes.1 wait_quiet
  | finalCopy follows => exact Or.inr (Or.inr (Or.inr ⟨rfl, follows, (copyTask_writes writes).1⟩))

/-- Stages of two ranks that no signal separates. -/
structure Unsignalled (islands : IslandPlan) (earlier : Nat) (first : Int) (later : Nat) (second : Int) : Prop where
  staged : ¬(earlier ≤ 3 ∧ Leads islands first ∧ Leads islands second ∧
    islands.islandOfRank first ≠ islands.islandOfRank second ∧ later = 2 * (islands.islandOfRank first).toNat + 6)
  final : ¬(earlier < 2 * islands.islandCount.toNat + 5 ∧ Leads islands first ∧ ¬Leads islands second ∧
    islands.islandOfRank first = islands.islandOfRank second ∧ later = 2 * islands.islandCount.toNat + 7)

/-- Without a signal between them two ranks keep off each other's buffers. -/
theorem regions_apart (staged : StagedIslands input.worldSize islands) (firstInRange : first ∈ intRange input.worldSize)
    (secondInRange : second ∈ intRange input.worldSize) (apart : first ≠ second) (before : earlier ≤ later)
    (unsignalled : Unsignalled islands earlier first later second) (buffer : BufferId) :
    ¬(written islands earlier first buffer ∧ touched islands later second buffer) ∧
    ¬(written islands later second buffer ∧ touched islands earlier first buffer) := by
  obtain ⟨stagedPartial, finalSum⟩ := unsignalled
  have homeFirst := mem_intRange.mp (staged.home first firstInRange)
  have homeSecond := mem_intRange.mp (staged.home second secondInRange)
  have leaderFirst := staged.leader_home (staged.home first firstInRange)
  have leaderSecond := staged.leader_home (staged.home second secondInRange)
  have slots : ∀ other : Int, 0 ≤ other → other < islands.islandCount → islands.islandOfRank first ≠ other →
      islands.stagingSlot (islands.islandOfRank first) ≠ islands.stagingSlot other := fun other lower upper =>
    staged.slots _ (staged.home first firstInRange) other (mem_intRange.mpr ⟨lower, upper⟩)
  have slotsSecond : ∀ other : Int, 0 ≤ other → other < islands.islandCount → islands.islandOfRank second ≠ other →
      islands.stagingSlot (islands.islandOfRank second) ≠ islands.stagingSlot other := fun other lower upper =>
    staged.slots _ (staged.home second secondInRange) other (mem_intRange.mpr ⟨lower, upper⟩)
  unfold Leads at stagedPartial finalSum
  -- One case for each pair of stages; most meet in no buffer, the others not in this order.
  constructor
  · rintro ⟨writes, touches⟩
    rcases writes with ⟨rfl, leads, rfl⟩ | ⟨rfl, leads, rfl⟩ | ⟨srcIsland, rfl, known, leads, rfl⟩ |
      ⟨rfl, follows, rfl⟩ <;>
    rcases touches with ⟨late, leadsSecond, other, sameHome, touches⟩ | ⟨late, leadsSecond, touches⟩ |
      ⟨srcSecond, late, knownSecond, leadsSecond, away, touches⟩ | ⟨late, followsSecond, touches⟩ <;>
    simp only [rankBuffer_ne_staging, (rankBuffer_ne_staging _ _).symm, rankBuffer_inj, stagingBuffer_inj, Leads] at * <;>
    grind
  · rintro ⟨writes, touches⟩
    rcases writes with ⟨late, leads, rfl⟩ | ⟨late, leads, rfl⟩ | ⟨srcIsland, late, known, leads, rfl⟩ |
      ⟨late, follows, rfl⟩ <;>
    rcases touches with ⟨rfl, leadsSecond, other, sameHome, touches⟩ | ⟨rfl, leadsSecond, touches⟩ |
      ⟨srcSecond, rfl, knownSecond, leadsSecond, away, touches⟩ | ⟨rfl, followsSecond, touches⟩ <;>
    simp only [rankBuffer_ne_staging, (rankBuffer_ne_staging _ _).symm, rankBuffer_inj, stagingBuffer_inj, Leads] at * <;>
    grind

end Regions

section Order

variable {input : TransferPlanBuildInput} {transports : TransportMatrix} {islands : IslandPlan} {rank : Int}

/-- The phases a rank publishes, by stage. -/
theorem StageTask.publish (staged : StageTask input transports islands rank index task)
    (publishes : task.op = .readyPublish) : task.readyRank = rank ∧
      ((index = 0 ∧ task.readyPhase = 0) ∨
        (index = 4 ∧ task.readyPhase = stagedPartialReadyPhaseForIsland (islands.islandOfRank rank)) ∨
        (index = 2 * islands.islandCount.toNat + 5 ∧
          task.readyPhase = finalReadyPhaseForIsland (islands.islandOfRank rank))) := by
  cases staged with
  | entryPublish member =>
    obtain ⟨_, _, owner, phase⟩ := entryPublishes_facts member
    exact ⟨owner, Or.inl ⟨rfl, phase⟩⟩
  | stagedPublish leads member =>
    obtain ⟨_, _, owner, phase⟩ := publishTasks_facts member
    exact ⟨owner, Or.inr (Or.inl ⟨rfl, phase⟩)⟩
  | finalPublish leads member =>
    obtain ⟨_, _, owner, phase⟩ := publishTasks_facts member
    exact ⟨owner, Or.inr (Or.inr ⟨rfl, phase⟩)⟩
  | reduction => simp at publishes
  | remoteReduction => simp [AllReduce.remoteReduction] at publishes
  | _ => cases publishes

theorem mem_stage (inRange : rank ∈ intRange input.worldSize)
    (member : task ∈ islandStage input transports islands index rank) :
    task ∈ (islandStages input transports islands).stage index rank := by
  simpa [islandStages, mem_intRange.mp inRange] using member

theorem mem_finalStage (inRange : rank ∈ intRange input.worldSize)
    (member : task ∈ finalStage input transports islands index rank) :
    task ∈ (islandStages input transports islands).stage (2 * islands.islandCount.toNat + index + 5) rank := by
  refine mem_stage inRange ?_
  simp only [islandStage]
  rw [if_neg (by omega), Nat.add_sub_cancel_left]
  exact member

/-- A leader that has another leader's signal knows that its partial is in its staging slot. -/
theorem staged_signalled (partition : Partition input.worldSize islands) (firstInRange : first ∈ intRange input.worldSize)
    (secondInRange : second ∈ intRange input.worldSize) (early : earlier ≤ 3) (leads : Leads islands first)
    (leadsSecond : Leads islands second) (away : islands.islandOfRank first ≠ islands.islandOfRank second)
    (late : later = 2 * (islands.islandOfRank first).toNat + 6) :
    Signalled (islandStages input transports islands) earlier first later second := by
  have home := mem_intRange.mp (partition.home first firstInRange)
  have phase : (stagedWait input islands (islands.islandOfRank first) second).readyPhase =
      1 + islands.islandOfRank first := rfl
  have half : ((2 * (islands.islandOfRank first).toNat / 2 : Nat) : Int) = islands.islandOfRank first := by omega
  have among : 2 * (islands.islandOfRank first).toNat < 2 * islands.islandCount.toNat := by omega
  have inStage : stagedWait input islands (islands.islandOfRank first) second ∈
      islandStage input transports islands (2 * (islands.islandOfRank first).toNat + 5) second := by
    simp only [islandStage, half, if_pos among, not_not.mpr leadsSecond, away, or_self, if_false]
    simp
  refine ⟨2 * (islands.islandOfRank first).toNat + 5, by omega, _, mem_stage secondInRange inStage, rfl, leads,
    by omega, ?_⟩
  intro index before task member publishes _
  obtain ⟨_, staged⟩ := stageTask_of_mem (by change index < 2 * islands.islandCount.toNat + 8; omega) member
  rcases (staged.publish publishes).2 with ⟨rfl, published⟩ | ⟨rfl, _⟩ | ⟨rfl, _⟩ <;> omega

/-- A rank that has its leader's last signal knows that the leader has added all partials. -/
theorem final_signalled (partition : Partition input.worldSize islands)
    (secondInRange : second ∈ intRange input.worldSize) (early : earlier < 2 * islands.islandCount.toNat + 5)
    (leads : Leads islands first) (follows : ¬Leads islands second)
    (same : islands.islandOfRank first = islands.islandOfRank second)
    (late : later = 2 * islands.islandCount.toNat + 7) :
    Signalled (islandStages input transports islands) earlier first later second := by
  have leader : islands.leaderRank (islands.islandOfRank second) = first := by rw [← same, leads]
  have home := mem_intRange.mp (partition.home second secondInRange)
  have phase : (finalWait input islands (islands.islandOfRank second) second).readyPhase =
      1 + 16 + islands.islandOfRank second := rfl
  refine ⟨2 * islands.islandCount.toNat + 1 + 5, by omega, finalWait input islands (islands.islandOfRank second) second,
    mem_finalStage secondInRange (by simp [finalStage, follows]), rfl, leader, by omega, ?_⟩
  intro index before task member publishes _
  obtain ⟨_, staged⟩ := stageTask_of_mem (by change index < 2 * islands.islandCount.toNat + 8; omega) member
  have stagedPhase : stagedPartialReadyPhaseForIsland (islands.islandOfRank first) = 1 + islands.islandOfRank first := rfl
  have atHome : islands.islandOfRank first < islands.islandCount := by rw [same]; exact home.2
  rcases (staged.publish publishes).2 with ⟨rfl, published⟩ | ⟨rfl, published⟩ | ⟨rfl, _⟩ <;> omega

theorem StageTask.aligned (staged : StageTask input transports islands rank index task) :
    Aligned dtypeSize task := by
  have quiet : ¬movesData task → Aligned dtypeSize task := fun still =>
    ⟨fun moves => absurd moves still, fun moves => absurd moves still⟩
  have whole : ∀ dst : LogicalBufferRef, destinationRefs task = [dst] → task.src.byteOffset = 0 → dst.byteOffset = 0 →
      Aligned dtypeSize task := by
    intro dst only source destination
    refine ⟨fun _ => by rw [source]; exact Nat.dvd_zero _, fun _ ref member => ?_⟩
    rw [only] at member
    rw [List.mem_singleton.mp member, destination]
    exact Nat.dvd_zero _
  cases staged with
  | entryPublish member => exact quiet (publishes_quiet _ member)
  | entryWait => exact quiet wait_quiet
  | reduction => exact whole _ reduceTask_destinations (by rw [reduceTask_src]; rfl) rfl
  | stagingCopy => exact whole (shmStagingRef _) rfl rfl rfl
  | stagedPublish _ member => exact quiet (publishes_quiet _ member)
  | stagedWait => exact quiet wait_quiet
  | remoteReduction => exact whole _ reduceTask_destinations (by rw [AllReduce.remoteReduction, reduceTask_src]; rfl) rfl
  | finalPublish _ member => exact quiet (publishes_quiet _ member)
  | finalWait => exact quiet wait_quiet
  | finalCopy => exact whole (rankBufferRef rank) rfl rfl rfl

/-- Every wait of a stage is answered by a publish of an earlier one. -/
theorem StageTask.answered (partition : Partition input.worldSize islands) (inRange : rank ∈ intRange input.worldSize)
    (staged : StageTask input transports islands rank index task) (waits : task.op = .readyWait) :
    ∃ earlier < index, ∃ publish ∈ (islandStages input transports islands).stage earlier task.readyRank,
      publish.op = .readyPublish ∧ publish.readyRank = task.readyRank ∧ publish.readyChannel = task.readyChannel ∧
        task.readyPhase ≤ publish.readyPhase := by
  have home := partition.home rank inRange
  cases staged with
  | @entryWait peer isPeer =>
    have bounds := mem_peersOf.mp isPeer
    have listens : rank ∈ peersOf peer input.worldSize := mem_peersOf.mpr ⟨mem_intRange.mp inRange, bounds.2.symm⟩
    exact ⟨0, by decide, _, mem_stage (mem_intRange.mpr bounds.1) (mem_entryPublishes listens), rfl, rfl, rfl, le_refl _⟩
  | stagedWait srcIsland known leads away =>
    have sourceInRange : (srcIsland : Int) ∈ intRange islands.islandCount := mem_intRange.mpr ⟨by omega, by omega⟩
    have apart : rank ≠ islands.leaderRank srcIsland := fun same =>
      away (by rw [same, partition.leader_home sourceInRange])
    have elsewhere : islands.islandOfRank rank ∈ peersOf srcIsland islands.islandCount :=
      mem_peersOf.mpr ⟨mem_intRange.mp home, fun same => away same.symm⟩
    have listens := mem_listeners inRange apart (List.mem_map.mpr ⟨_, elsewhere, leads⟩)
    have published := mem_publishTasks listens (stagedPartialReadyPhaseForIsland srcIsland)
    refine ⟨4, by omega, _, mem_stage (partition.leader_inRange sourceInRange) ?_, (publishTasks_facts published).1,
      rfl, rfl, le_refl _⟩
    change _ ∈ islandStage input transports islands 4 (islands.leaderRank srcIsland)
    simp only [islandStage, if_pos (partition.leader_leads sourceInRange), partition.leader_home sourceInRange]
    exact published
  | finalWait follows =>
    have apart : rank ≠ islands.leaderRank (islands.islandOfRank rank) := fun same => follows same.symm
    have listens := mem_listeners inRange apart (partition.mem_members.mpr ⟨⟨inRange, rfl⟩, apart⟩)
    have published := mem_publishTasks listens (finalReadyPhaseForIsland (islands.islandOfRank rank))
    refine ⟨2 * islands.islandCount.toNat + 0 + 5, by omega, _, mem_finalStage (partition.leader_inRange home) ?_,
      (publishTasks_facts published).1, rfl, rfl, le_refl _⟩
    change _ ∈ finalStage input transports islands 0 (islands.leaderRank (islands.islandOfRank rank))
    simp only [finalStage, if_pos (partition.leader_leads home), partition.leader_home home]
    exact published
  | entryPublish member => rw [(entryPublishes_facts member).1] at waits; cases waits
  | stagedPublish _ member => rw [(publishTasks_facts member).1] at waits; cases waits
  | finalPublish _ member => rw [(publishTasks_facts member).1] at waits; cases waits
  | reduction => simp at waits
  | remoteReduction => simp [AllReduce.remoteReduction] at waits
  | stagingCopy => cases waits
  | finalCopy => cases waits

/-- The signals of the staged plan order every conflict between ranks. -/
theorem islandStages_order (staged : StagedIslands input.worldSize islands) :
    StageOrder dtypeSize input.worldSize (islandStages input transports islands) where
  listed rank outside index := if_neg outside
  aligned index bound rank task member := (stageTask_of_mem bound member).2.aligned
  ownSignals index bound rank task member publishes := ((stageTask_of_mem bound member).2.publish publishes).1
  answered index bound rank task member waits := by
    obtain ⟨inRange, stageTask⟩ := stageTask_of_mem bound member
    exact stageTask.answered staged.toPartition inRange waits
  ordered earlier later first second apart before bound := by
    by_cases firstInRange : first ∈ intRange input.worldSize
    · by_cases secondInRange : second ∈ intRange input.worldSize
      · by_cases stagedPartial : earlier ≤ 3 ∧ Leads islands first ∧ Leads islands second ∧
            islands.islandOfRank first ≠ islands.islandOfRank second ∧
            later = 2 * (islands.islandOfRank first).toNat + 6
        · obtain ⟨early, leads, leadsSecond, away, late⟩ := stagedPartial
          exact Or.inr ⟨by omega, staged_signalled staged.toPartition firstInRange secondInRange early leads leadsSecond
            away late⟩
        by_cases finalSum : earlier < 2 * islands.islandCount.toNat + 5 ∧ Leads islands first ∧ ¬Leads islands second ∧
            islands.islandOfRank first = islands.islandOfRank second ∧ later = 2 * islands.islandCount.toNat + 7
        · obtain ⟨early, leads, follows, same, late⟩ := finalSum
          exact Or.inr ⟨by omega, final_signalled staged.toPartition secondInRange early leads follows same late⟩
        refine Or.inl fun task member other memberOther buffer byte => ?_
        obtain ⟨_, stageTask⟩ := stageTask_of_mem (lt_of_le_of_lt before bound) member
        obtain ⟨_, stageOther⟩ := stageTask_of_mem bound memberOther
        obtain ⟨forward, backward⟩ := regions_apart staged firstInRange secondInRange apart before
          ⟨stagedPartial, finalSum⟩ buffer
        exact ⟨fun both => forward ⟨stageTask.written both.1, stageOther.touched staged.toPartition both.2⟩,
          fun both => backward ⟨stageOther.written both.1, stageTask.touched staged.toPartition both.2⟩⟩
      · refine Or.inl fun _ _ other memberOther => ?_
        exact absurd (stageTask_of_mem bound memberOther).1 secondInRange
    · refine Or.inl fun task member => ?_
      exact absurd (stageTask_of_mem (lt_of_le_of_lt before bound) member).1 firstInRange

end Order

end Ooverlap.Semantics.AllReduceIslands
