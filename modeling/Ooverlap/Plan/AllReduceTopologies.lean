import Mathlib.Tactic.GCongr
import Mathlib.Tactic.Ring
import Ooverlap.Plan.AllReduceCapacity
import Ooverlap.Plan.StagedAllReduce
import Ooverlap.Plan.StagingSlots

/-! On which topologies the all-reduce planner succeeds: the pairs its emitters want to be direct. -/

namespace Ooverlap.Plan

/-- A step that takes some number of tasks within the bound. -/
def TakesUpTo (cap : Nat) (step : BuildM Unit) (valid : Prop) (bound : Nat) : Prop :=
  ∃ count ≤ bound, Takes cap step valid count

namespace TakesUpTo

theorem of_takes (takes : Takes cap step valid count) (few : count ≤ bound) : TakesUpTo cap step valid bound :=
  ⟨count, few, takes⟩

theorem bind (first : TakesUpTo cap step valid bound) (second : TakesUpTo cap next validNext boundNext) :
    TakesUpTo cap (step >>= fun _ => next) (valid ∧ validNext) (bound + boundNext) := by
  obtain ⟨count, few, takes⟩ := first
  obtain ⟨countNext, fewNext, takesNext⟩ := second
  exact ⟨count + countNext, Nat.add_le_add few fewNext, takes.bind takesNext⟩

theorem guarded (condition : Prop) [Decidable condition] (taken : TakesUpTo cap step valid bound) :
    TakesUpTo cap (if condition then transferPlanAbortBuild else step) (¬condition ∧ valid) bound := by
  obtain ⟨count, few, takes⟩ := taken
  exact ⟨count, few, Takes.guarded condition takes⟩

theorem congr (takes : TakesUpTo cap step valid bound) (same : valid ↔ valid') (more : bound ≤ bound') :
    TakesUpTo cap step valid' bound' := by
  obtain ⟨count, few, takes⟩ := takes
  exact ⟨count, few.trans more, takes.congr same rfl⟩

theorem forM (items : List α) (step : α → BuildM Unit) (valid : α → Prop) (limit : Nat)
    (each : ∀ item ∈ items, TakesUpTo cap (step item) (valid item) limit) :
    TakesUpTo cap (items.forM step) (∀ item ∈ items, valid item) (items.length * limit) := by
  induction items with
  | nil => simpa using of_takes (Takes.pure cap) (Nat.zero_le _)
  | cons item rest ih =>
    have here := each item (List.mem_cons_self ..)
    have later := ih fun other member => each other (List.mem_cons_of_mem _ member)
    refine TakesUpTo.congr (here.bind later) (by simp) ?_
    rw [List.length_cons, Nat.succ_mul, Nat.add_comm]

theorem marked (takes : TakesUpTo cap step valid bound) (worldSize : Int) :
    TakesUpTo cap (step >>= fun _ => markLastTaskPerRankTerminal worldSize) valid bound := by
  obtain ⟨count, few, takes⟩ := takes
  exact ⟨count, few, takes.marked worldSize⟩

end TakesUpTo

section Steps

variable (cap : Nat) (input : TransferPlanBuildInput)

theorem pushCopyTask_takesUpTo (executorRank srcRank dstRank : Int) (src dst : LogicalBufferRef) (bytes : Nat)
    (numWindows : Int) (transport : TransportKind) :
    TakesUpTo cap (pushCopyTask cap input executorRank srcRank dstRank src dst bytes numWindows transport)
      (¬(bytes = 0 ∨ numWindows ≤ 0)) 1 :=
  TakesUpTo.of_takes (pushCopyTask_takes ..) (le_refl 1)

theorem pushReduceTask_takesUpTo (executorRank srcRank dstRank : Int) (src dst : LogicalBufferRef) (bytes : Nat)
    (numWindows : Int) (transport : TransportKind) :
    TakesUpTo cap (pushReduceTask cap input executorRank srcRank dstRank src dst bytes numWindows transport)
      (¬(bytes = 0 ∨ numWindows ≤ 0)) 1 :=
  TakesUpTo.of_takes (Takes.of_emits (pushReduceTask_emits ..) fun _ => rfl) (le_refl 1)

theorem pushReadyWaitTask_takesUpTo (waiterRank ownerRank readyPhase : Int) :
    TakesUpTo cap (pushReadyWaitTask cap input waiterRank ownerRank readyPhase) True 1 :=
  TakesUpTo.of_takes (Takes.of_emits (Emits.push cap waiterRank _) fun _ => rfl) (le_refl 1)

/-- There are two channels to publish on. -/
theorem publishChannels_length (topo : RankTopologyView) (rank : Int) (waiters : List Int) :
    (publishChannels topo rank waiters).length ≤ 2 :=
  List.length_filter_le _ [ReadySignalChannel.deviceMemory, .hostMapped]

theorem pushReadyPublishForWaiters_takesUpTo (publisherRank : Int) (waiters : List Int) (readyPhase : Int) :
    TakesUpTo cap (pushReadyPublishForWaiters cap input publisherRank waiters readyPhase) True 2 := by
  have loop := TakesUpTo.forM (publishChannels input.topo publisherRank (waiters.filter fun waiter =>
      validRank waiter input.worldSize && waiter != publisherRank))
    (fun channel => pushReadyPublishTask cap publisherRank channel readyPhase) (fun _ => True) 1 fun channel _ =>
      TakesUpTo.of_takes (Takes.of_emits (Emits.push cap publisherRank _) fun _ => rfl) (le_refl 1)
  refine loop.congr (by simp) ?_
  rw [Nat.mul_one]
  exact publishChannels_length ..

theorem rendezvousMakers_le (topo : RankTopologyView) (inRange : rank ∈ intRange worldSize) :
    (rendezvousMakers topo rank worldSize).length ≤ worldSize.toNat + 1 := by
  have bounds := mem_intRange.mp inRange
  have channels := publishChannels_length topo rank (peersOf rank worldSize)
  have waits := peersOf_length inRange
  unfold rendezvousMakers
  split
  · exact Nat.zero_le _
  · simp only [List.length_append, List.length_map]
    omega

theorem emitEntryRendezvous_takesUpTo :
    TakesUpTo cap (emitEntryRendezvous cap input) True (input.worldSize.toNat * (input.worldSize.toNat + 1)) := by
  have each : ∀ rank ∈ intRange input.worldSize,
      TakesUpTo cap (appendReadyRendezvousTasks cap input.topo rank input.worldSize) True (input.worldSize.toNat + 1) := by
    intro rank inRange
    have emits := appendReadyRendezvousTasks_emits cap input.topo rank input.worldSize
    have takes : Takes cap _ True (rendezvousMakers input.topo rank input.worldSize).length :=
      Takes.of_emits emits fun phases => by simp [Emission.sequence]
    exact TakesUpTo.of_takes takes (rendezvousMakers_le input.topo inRange)
  exact (TakesUpTo.forM _ _ _ _ each).congr (by simp) (by simp)

end Steps

end Ooverlap.Plan

namespace Ooverlap.Plan.AllReduce

open ReduceScatter (totalWindows)

variable {cap : Nat} {input : TransferPlanBuildInput} {transports : TransportMatrix} {islands : IslandPlan}

section Passes

/-- Barriers at most double a plan. -/
theorem withBarriers_le (previous tasks : List TransferTask) :
    (withBarriers previous tasks).length ≤ 2 * tasks.length := by
  induction tasks generalizing previous with
  | nil => exact Nat.zero_le _
  | cons consumer rest ih =>
    simp only [withBarriers]
    split
    · have later := ih (previous ++ [barrierFor consumer, consumer])
      simp only [List.length_cons]
      omega
    · have later := ih (previous ++ [consumer])
      simp only [List.length_cons]
      omega

theorem passed_guard (takes : TakesUpTo cap step valid bound)
    (ran : (step >>= fun _ => runAllreducePasses cap) { plan := { worldSize := size } } = .ok ((), state)) : valid := by
  obtain ⟨count, _, takes⟩ := takes
  obtain ⟨_, middle, emitted, _⟩ := BuildM.bind_ok ran
  exact ((takes.succeeds_iff size).mp ⟨middle, emitted⟩).1

/-- With room for twice its tasks, a build whose guard holds also gets through the passes. -/
theorem passed_succeeds (takes : TakesUpTo cap step valid bound) (room : 2 * bound ≤ cap) (guard : valid) (size : Int) :
    ∃ state, (step >>= fun _ => runAllreducePasses cap) { plan := { worldSize := size } } = .ok ((), state) := by
  obtain ⟨count, few, takes⟩ := takes
  have start : (({ plan := { worldSize := size } } : BuildState).plan.tasks.length) = 0 := rfl
  obtain ⟨middle, emitted, grown⟩ := takes.ok { plan := { worldSize := size } } guard (by omega)
  have shorter := coalesce_length middle.plan.tasks
  have doubled := withBarriers_le [] (coalesceAdjacentCopyTasksIntoFanout middle.plan.tasks)
  have bounded : middle.plan.tasks.length ≤ cap := by omega
  obtain ⟨state, passed⟩ := (runAllreducePasses_succeeds_iff bounded).mpr (by omega)
  refine ⟨state, ?_⟩
  change (step { plan := { worldSize := size } } >>= fun result => runAllreducePasses cap result.2) = _
  rw [emitted, ← passed]
  rfl

end Passes

section Direct

theorem directRankMakers_le (inRange : rank ∈ intRange input.worldSize) :
    (directRankMakers input transports rank).length ≤ 3 * input.worldSize.toNat := by
  have bounds := mem_intRange.mp inRange
  have entries := rendezvousMakers_le input.topo inRange
  have peers := peersOf_length inRange
  have locals : (localCopyMakers input rank).length ≤ 1 := by
    unfold localCopyMakers
    split <;> simp
  unfold directRankMakers
  split
  · exact Nat.zero_le _
  · simp only [gatherMakers, List.length_append, List.length_map]
    omega

theorem buildDirectAllreducePlan_takesUpTo :
    TakesUpTo cap (buildDirectAllreducePlan cap input transports)
      (∀ rank ∈ intRange input.worldSize, SliceSkipped input rank ∨ PeersDirect input transports rank)
      (3 * input.worldSize.toNat * input.worldSize.toNat) := by
  have each : ∀ rank ∈ intRange input.worldSize, TakesUpTo cap (emitDirectRankTasks cap input transports rank)
      (SliceSkipped input rank ∨ PeersDirect input transports rank) (3 * input.worldSize.toNat) := by
    intro rank inRange
    have takes : Takes cap _ _ (directRankMakers input transports rank).length :=
      Takes.of_emits (emitDirectRankTasks_emits cap input transports rank) fun phases => by simp [Emission.sequence]
    exact TakesUpTo.of_takes takes (directRankMakers_le inRange)
  have loop := TakesUpTo.forM (intRange input.worldSize) _ _ _ each
  exact (loop.marked input.worldSize).congr Iff.rfl (by rw [length_intRange, Nat.mul_comm])

end Direct

section Staged

/-- Every member of an island and its leader reach each other directly. -/
def MembersDirect (transports : TransportMatrix) (islands : IslandPlan) : Prop :=
  ∀ island ∈ intRange islands.islandCount, ∀ rank ∈ islandMembers islands island,
    transportUsesDirectTma (transports (islands.leaderRank island) rank) = true ∧
      transportUsesDirectTma (transports rank (islands.leaderRank island)) = true

variable {bytes : Nat} {numWindows : Int}

theorem islandMembers_le (partition : Partition input.worldSize islands) (island : Int) :
    (islandMembers islands island).length ≤ input.worldSize.toNat := by
  have fewer := List.length_filter_le (fun rank => islands.islandOfRank rank == island) (intRange input.worldSize)
  rw [← partition.ranks, length_intRange] at fewer
  exact (List.length_filter_le _ _).trans fewer

theorem emitIntraIslandReductionsToLeaders_takesUpTo (partition : Partition input.worldSize islands)
    (sized : ¬(bytes = 0 ∨ numWindows ≤ 0)) :
    TakesUpTo cap (emitIntraIslandReductionsToLeaders cap input transports islands bytes numWindows)
      (∀ island ∈ intRange islands.islandCount, ∀ rank ∈ islandMembers islands island,
        transportUsesDirectTma (transports (islands.leaderRank island) rank) = true)
      (islands.islandCount.toNat * input.worldSize.toNat) := by
  refine (TakesUpTo.forM _ _ _ input.worldSize.toNat fun island inRange => ?_).congr Iff.rfl (by simp)
  have loop := TakesUpTo.forM (islandMembers islands island) _ _ 1 fun rank _ =>
    TakesUpTo.guarded ((!transportUsesDirectTma (transports (islands.leaderRank island) rank)) = true)
      (pushReduceTask_takesUpTo cap input (islands.leaderRank island) rank
        (islands.leaderRank island) (rankBufferRef rank) (rankBufferRef (islands.leaderRank island)) bytes numWindows
        (transports (islands.leaderRank island) rank))
  refine loop.congr (by simp [sized]) ?_
  rw [Nat.mul_one]
  exact islandMembers_le partition island

theorem emitLeaderPartialsToStaging_takesUpTo (sized : ¬(bytes = 0 ∨ numWindows ≤ 0))
    (slots : ∀ island ∈ intRange islands.islandCount,
      stagingSliceValid input (islands.stagingSlot island) 0 bytes = true) :
    TakesUpTo cap (emitLeaderPartialsToStaging cap input islands bytes numWindows) True
      (islands.islandCount.toNat * 3) := by
  refine (TakesUpTo.forM _ _ (fun _ => True) 3 fun island inRange => ?_).congr (by simp) (by simp)
  have copy := pushCopyTask_takesUpTo cap input (islands.leaderRank island) (islands.leaderRank island)
    (islands.leaderRank island) (rankBufferRef (islands.leaderRank island)) (shmStagingRef (islands.stagingSlot island))
    bytes numWindows .shm
  have publishes := pushReadyPublishForWaiters_takesUpTo cap input (islands.leaderRank island)
    ((peersOf island islands.islandCount).map islands.leaderRank) (stagedPartialReadyPhaseForIsland island)
  have step := TakesUpTo.guarded ((!stagingSliceValid input (islands.stagingSlot island) 0 bytes) = true)
    (copy.bind publishes)
  exact step.congr (by simp [slots island inRange, sized]) (le_refl 3)

theorem emitRemotePartialsToDestinationLeaders_takesUpTo (sized : ¬(bytes = 0 ∨ numWindows ≤ 0)) :
    TakesUpTo cap (emitRemotePartialsToDestinationLeaders cap input islands bytes numWindows) True
      (islands.islandCount.toNat * (islands.islandCount.toNat * 2)) := by
  refine (TakesUpTo.forM _ _ (fun _ => True) (islands.islandCount.toNat * 2) fun dstIsland inRange => ?_).congr
    (by simp) (by simp)
  have loop := TakesUpTo.forM (peersOf dstIsland islands.islandCount) _ _ 2 fun srcIsland _ =>
    (pushReadyWaitTask_takesUpTo cap input (islands.leaderRank dstIsland) (islands.leaderRank srcIsland)
      (stagedPartialReadyPhaseForIsland srcIsland)).bind
    (pushReduceTask_takesUpTo cap input (islands.leaderRank dstIsland) (islands.leaderRank srcIsland)
      (islands.leaderRank dstIsland) (shmStagingRef (islands.stagingSlot srcIsland))
      (rankBufferRef (islands.leaderRank dstIsland)) bytes numWindows .shm)
  refine loop.congr (by simp [sized]) (Nat.mul_le_mul_right 2 ?_)
  have peers := peersOf_length inRange
  omega

theorem emitLeaderFinalToIslandRanks_takesUpTo (partition : Partition input.worldSize islands)
    (sized : ¬(bytes = 0 ∨ numWindows ≤ 0)) :
    TakesUpTo cap (emitLeaderFinalToIslandRanks cap input transports islands bytes numWindows)
      (∀ island ∈ intRange islands.islandCount, ∀ rank ∈ islandMembers islands island,
        transportUsesDirectTma (transports rank (islands.leaderRank island)) = true)
      (islands.islandCount.toNat * (2 + input.worldSize.toNat * 2)) := by
  refine (TakesUpTo.forM _ _ _ (2 + input.worldSize.toNat * 2) fun island inRange => ?_).congr Iff.rfl (by simp)
  have loop := TakesUpTo.forM (islandMembers islands island) _ _ 2 fun rank _ =>
    (pushReadyWaitTask_takesUpTo cap input rank (islands.leaderRank island) (finalReadyPhaseForIsland island)).bind
      (TakesUpTo.guarded ((!transportUsesDirectTma (transports rank (islands.leaderRank island))) = true)
        (pushCopyTask_takesUpTo cap input rank (islands.leaderRank island) rank
          (rankBufferRef (islands.leaderRank island)) (rankBufferRef rank) bytes numWindows
          (transports rank (islands.leaderRank island))))
  have publishes := pushReadyPublishForWaiters_takesUpTo cap input (islands.leaderRank island)
    (islandMembers islands island) (finalReadyPhaseForIsland island)
  refine (publishes.bind loop).congr (by simp [sized]) ?_
  have few := islandMembers_le partition island
  omega

/-- What the staged build wants besides staging slots: planned sizes, and leaders that reach their members. -/
def StagedServed (input : TransferPlanBuildInput) (transports : TransportMatrix) (islands : IslandPlan) : Prop :=
  ¬(totalBytes input = 0 ∨ totalWindows input ≤ 0) ∧ MembersDirect transports islands

/-- Assigning slots leaves the islands as they were, and every slot holds the partial sums of its island. -/
theorem assignStagingSlots_keeps (partition : Partition input.worldSize islands)
    (assigned : assignStagingSlots input islands bytes = some slotted) :
    Partition input.worldSize slotted ∧ { slotted with stagingSlot := islands.stagingSlot } = islands ∧
      ∀ island ∈ intRange islands.islandCount, stagingSliceValid input (slotted.stagingSlot island) 0 bytes = true := by
  have valid := ((assignStagingSlots_assigns input islands bytes).1.2 slotted assigned).valid
  obtain ⟨staged, same⟩ := assignStagingSlots_staged partition assigned
  exact ⟨staged.toPartition, same, valid⟩

/-- With slots of its own for each island the staged build succeeds wherever its sizes and pairs are served. -/
theorem buildStagedIslandAllreducePlan_takesUpTo (inPlace : input.outOfPlace = false)
    (partition : Partition input.worldSize islands)
    (assigned : totalBytes input ≠ 0 → ∃ slotted, assignStagingSlots input islands (totalBytes input) = some slotted) :
    TakesUpTo cap (buildStagedIslandAllreducePlan cap input transports islands) (StagedServed input transports islands)
      (6 * (input.worldSize.toNat * (input.worldSize.toNat + 1))) := by
  by_cases sized : totalBytes input = 0 ∨ totalWindows input ≤ 0
  · have unserved : ¬StagedServed input transports islands := fun served => served.1 sized
    have aborts : buildStagedIslandAllreducePlan cap input transports islands = transferPlanAbortBuild := if_pos sized
    rw [aborts]
    exact (TakesUpTo.of_takes (Takes.abort cap 0) (Nat.zero_le _)).congr (by simp [unserved]) (le_refl _)
  · obtain ⟨slotted, found⟩ := assigned (not_or.mp sized).1
    obtain ⟨partitionSlotted, same, slots⟩ := assignStagingSlots_keeps partition found
    have served : StagedServed input transports islands ↔ MembersDirect transports slotted := by
      rw [StagedServed, ← same]
      exact and_iff_right sized
    have noCopies : emitOptionalLocalCopies cap input (totalBytes input) (totalWindows input) = pure () := by
      simp [emitOptionalLocalCopies, inPlace]
    have steps : buildStagedIslandAllreducePlan cap input transports islands = (do
        emitOptionalLocalCopies cap input (totalBytes input) (totalWindows input)
        emitEntryRendezvous cap input
        emitIntraIslandReductionsToLeaders cap input transports slotted (totalBytes input) (totalWindows input)
        emitLeaderPartialsToStaging cap input slotted (totalBytes input) (totalWindows input)
        emitRemotePartialsToDestinationLeaders cap input slotted (totalBytes input) (totalWindows input)
        emitLeaderFinalToIslandRanks cap input transports slotted (totalBytes input) (totalWindows input)
        markLastTaskPerRankTerminal input.worldSize) := by
      refine (if_neg sized).trans ?_
      rw [found]
      rfl
    have entries := emitEntryRendezvous_takesUpTo cap input
    have reductions : TakesUpTo cap (emitIntraIslandReductionsToLeaders cap input transports slotted _ _) _ _ :=
      emitIntraIslandReductionsToLeaders_takesUpTo partitionSlotted sized
    have held : ∀ island ∈ intRange slotted.islandCount,
        stagingSliceValid input (slotted.stagingSlot island) 0 (totalBytes input) = true := by
      rw [← same] at slots
      exact slots
    have partials : TakesUpTo cap _ _ _ := emitLeaderPartialsToStaging_takesUpTo sized held
    have remote : TakesUpTo cap (emitRemotePartialsToDestinationLeaders cap input slotted _ _) _ _ :=
      emitRemotePartialsToDestinationLeaders_takesUpTo sized
    have final : TakesUpTo cap (emitLeaderFinalToIslandRanks cap input transports slotted _ _) _ _ :=
      emitLeaderFinalToIslandRanks_takesUpTo partitionSlotted sized
    have whole := entries.bind (reductions.bind (partials.bind (remote.bind (final.marked input.worldSize))))
    rw [steps, noCopies, pure_bind]
    refine whole.congr ?_ ?_
    · simp only [served, MembersDirect, true_and, forall_and]
    · calc _ ≤ input.worldSize.toNat * (input.worldSize.toNat + 1) + (input.worldSize.toNat * input.worldSize.toNat +
            (input.worldSize.toNat * 3 + (input.worldSize.toNat * (input.worldSize.toNat * 2) +
              input.worldSize.toNat * (2 + input.worldSize.toNat * 2)))) := by
            have few := partitionSlotted.count_le
            gcongr
        _ = 6 * (input.worldSize.toNat * (input.worldSize.toNat + 1)) := by ring

end Staged

section Planner

/-- At least as many staging slots as islands, each with room for all bytes of the call. -/
def StagingFor (input : TransferPlanBuildInput) (islands : IslandPlan) : Prop :=
  islands.islandCount ≤ input.stagingSlotCount ∧
    ∀ slot ∈ intRange input.stagingSlotCount, totalBytes input ≤ input.stagingBytes slot

/-- The pairs of ranks that the emitters of the plan take to be direct are: on one island every rank with a slice and
all others, on several every member and its leader, and then there is something to stage. -/
def EmittersServed (input : TransferPlanBuildInput) (transports : TransportMatrix) (islands : IslandPlan) : Prop :=
  if islands.islandCount ≤ 1 then
    ∀ rank ∈ intRange input.worldSize, SliceSkipped input rank ∨ PeersDirect input transports rank
  else StagedServed input transports islands

instance (input : TransferPlanBuildInput) (transports : TransportMatrix) (islands : IslandPlan) :
    Decidable (EmittersServed input transports islands) :=
  inferInstanceAs (Decidable (if islands.islandCount ≤ 1 then
    ∀ rank ∈ intRange input.worldSize, SliceSkipped input rank ∨
      ∀ peer ∈ peersOf rank input.worldSize, transportUsesDirectTma (transports rank peer) = true
    else ¬(totalBytes input = 0 ∨ totalWindows input ≤ 0) ∧
      ∀ island ∈ intRange islands.islandCount, ∀ rank ∈ islandMembers islands island,
        transportUsesDirectTma (transports (islands.leaderRank island) rank) = true ∧
          transportUsesDirectTma (transports rank (islands.leaderRank island)) = true))

/-- Slots in the order of the islands serve as an assignment. -/
theorem StagingFor.assigned (valid : validBuildInput input = true) (staging : StagingFor input islands)
    (sized : totalBytes input ≠ 0) : ∃ slotted, assignStagingSlots input islands (totalBytes input) = some slotted := by
  obtain ⟨_, _, _, _, slots⟩ := (validBuildInput_iff input).mp valid
  have limit : (kPlannerMaxStagingSlots : Int) = 4 := rfl
  refine (assignStagingSlots_assigns input islands (totalBytes input)).1.1.mpr ⟨sized, id, ?_, fun _ _ _ _ => id⟩
  intro island inRange
  have bounds := mem_intRange.mp inRange
  have holds := staging.2 island (mem_intRange.mpr ⟨bounds.1, bounds.2.trans_le staging.1⟩)
  have few := staging.1
  unfold stagingSliceValid
  rw [if_neg (by simp only [id]; omega)]
  simp only [id]
  rw [if_neg (by omega)]
  simpa using holds

/-- In place the planner is a build of bounded size, which its emitters' pairs guard, followed by the passes. -/
theorem planAllreduce_takesUpTo (cap : Nat) (valid : validBuildInput input = true) (inPlace : input.outOfPlace = false)
    (matrix : buildTransportMatrix input.topo input.worldSize = some transports)
    (grouped : buildIslands input transports = some islands) (staging : StagingFor input islands) :
    ∃ step : BuildM Unit, planAllreduce cap input = (step >>= fun _ => runAllreducePasses cap) ∧
      TakesUpTo cap step (EmittersServed input transports islands)
        (6 * (input.worldSize.toNat * (input.worldSize.toNat + 1))) := by
  unfold EmittersServed
  by_cases single : islands.islandCount ≤ 1
  · refine ⟨buildDirectAllreducePlan cap input transports, ?_, ?_⟩
    · simp only [planAllreduce, matrix, grouped, if_pos single, inPlace]
      rfl
    · rw [if_pos single]
      have more := Nat.mul_le_mul_left input.worldSize.toNat (Nat.le_add_right input.worldSize.toNat 1)
      refine buildDirectAllreducePlan_takesUpTo.congr Iff.rfl ?_
      rw [Nat.mul_assoc]
      omega
  · refine ⟨buildStagedIslandAllreducePlan cap input transports islands, ?_, ?_⟩
    · simp only [planAllreduce, matrix, grouped, if_neg single, inPlace]
      rfl
    · rw [if_neg single]
      exact buildStagedIslandAllreducePlan_takesUpTo inPlace (buildIslands_partition input transports grouped)
        (staging.assigned valid)

theorem emittersServed_of_built (valid : validBuildInput input = true) (inPlace : input.outOfPlace = false)
    (matrix : buildTransportMatrix input.topo input.worldSize = some transports)
    (grouped : buildIslands input transports = some islands) (staging : StagingFor input islands)
    (built : (buildAllreduceTransferPlan cap storage input).1 = true) : EmittersServed input transports islands := by
  obtain ⟨step, planned, takes⟩ := planAllreduce_takesUpTo cap valid inPlace matrix grouped staging
  obtain ⟨state, ran⟩ := (runPlanner_succeeds_iff valid _ storage).mp built
  rw [planned] at ran
  exact passed_guard takes ran

/-- Room for the tasks of every rank and for as many barriers. -/
def plannedRoom (worldSize : Int) : Nat :=
  12 * (worldSize.toNat * (worldSize.toNat + 1))

/-- Any two ranks of an island reach each other directly. -/
def Cliques (input : TransferPlanBuildInput) (transports : TransportMatrix) (islands : IslandPlan) : Prop :=
  ∀ rank ∈ intRange input.worldSize, ∀ other ∈ intRange input.worldSize,
    islands.islandOfRank rank = islands.islandOfRank other → transportUsesDirectTma (transports rank other) = true

instance (input : TransferPlanBuildInput) (transports : TransportMatrix) (islands : IslandPlan) :
    Decidable (Cliques input transports islands) :=
  inferInstanceAs (Decidable (∀ rank ∈ intRange input.worldSize, ∀ other ∈ intRange input.worldSize,
    islands.islandOfRank rank = islands.islandOfRank other → transportUsesDirectTma (transports rank other) = true))

theorem emittersServed_of_cliques (grouped : buildIslands input transports = some islands)
    (cliques : Cliques input transports islands)
    (sized : islands.islandCount ≤ 1 ∨ ¬(totalBytes input = 0 ∨ totalWindows input ≤ 0)) :
    EmittersServed input transports islands := by
  have partition := buildIslands_partition input transports grouped
  unfold EmittersServed
  split
  · rename_i single
    have home : ∀ rank ∈ intRange input.worldSize, islands.islandOfRank rank = 0 := by
      intro rank inRange
      have bounds := mem_intRange.mp (partition.home rank inRange)
      omega
    refine fun rank inRange => Or.inr fun peer isPeer => ?_
    have peerInRange := mem_intRange.mpr (mem_peersOf.mp isPeer).1
    exact cliques rank inRange peer peerInRange ((home rank inRange).trans (home peer peerInRange).symm)
  · rename_i several
    refine ⟨sized.resolve_left several, fun island inRange rank isMember => ?_⟩
    obtain ⟨rankInRange, here⟩ := (partition.mem_members.mp isMember).1
    have leaderInRange := partition.leader_inRange inRange
    have leaderHome := partition.leader_home inRange
    exact ⟨cliques _ leaderInRange _ rankInRange (leaderHome.trans here.symm),
      cliques _ rankInRange _ leaderInRange (here.trans leaderHome.symm)⟩

/-- With staging for its islands and room for its tasks, an in-place plan is built exactly where its emitters' pairs are
direct. Elsewhere no room suffices; on islands that are cliques they are, whatever the links between islands. -/
theorem buildAllreduceTransferPlan_served_iff (valid : validBuildInput input = true) (inPlace : input.outOfPlace = false)
    (matrix : buildTransportMatrix input.topo input.worldSize = some transports)
    (grouped : buildIslands input transports = some islands) (staging : StagingFor input islands)
    (storage : TransferPlan) :
    (∀ cap, plannedRoom input.worldSize ≤ cap →
        ((buildAllreduceTransferPlan cap storage input).1 = true ↔ EmittersServed input transports islands)) ∧
      (¬EmittersServed input transports islands → ∀ cap, (buildAllreduceTransferPlan cap storage input).1 = false) ∧
      (Cliques input transports islands →
        islands.islandCount ≤ 1 ∨ ¬(totalBytes input = 0 ∨ totalWindows input ≤ 0) →
        EmittersServed input transports islands) := by
  have served : ∀ cap, (buildAllreduceTransferPlan cap storage input).1 = true →
      EmittersServed input transports islands := fun _ => emittersServed_of_built valid inPlace matrix grouped staging
  refine ⟨fun cap room => ⟨served cap, fun served => ?_⟩, fun unserved cap => ?_, emittersServed_of_cliques grouped⟩
  · obtain ⟨step, planned, takes⟩ := planAllreduce_takesUpTo cap valid inPlace matrix grouped staging
    refine (runPlanner_succeeds_iff valid _ storage).mpr ?_
    rw [planned]
    unfold plannedRoom at room
    exact passed_succeeds takes (by omega) served input.worldSize
  · exact Bool.eq_false_iff.mpr fun built => unserved (served cap built)

/-- Four ranks in two pairs; the pairs share memory alone. -/
def twoPairs : TransferPlanBuildInput where
  topo := {
    topology := some { links := [0, 1, 2, 3].flatMap fun src => [0, 1, 2, 3].map fun dst =>
      ⟨src, dst, [⟨if src / 2 = dst / 2 then .directNvlink else .shm, true⟩]⟩ }
    rankDevices := some id }
  worldSize := 4
  count := 12
  dtypeSize := 4
  stagingSlotCount := 2
  stagingBytes _ := 48

theorem twoPairs_served : (buildAllreduceTransferPlan (plannedRoom 4) {} twoPairs).1 = true := by
  have probed : (buildTransportMatrix twoPairs.topo twoPairs.worldSize).isSome = true := rfl
  have found : (buildIslands twoPairs ((buildTransportMatrix twoPairs.topo twoPairs.worldSize).get probed)).isSome = true := by
    decide +revert +kernel
  have cliques : Cliques twoPairs ((buildTransportMatrix twoPairs.topo twoPairs.worldSize).get probed)
      ((buildIslands twoPairs _).get found) := by
    decide +revert +kernel
  have staging : StagingFor twoPairs ((buildIslands twoPairs _).get found) := by
    refine ⟨?_, by decide +kernel⟩
    decide +revert +kernel
  obtain ⟨built_iff, _, served⟩ := buildAllreduceTransferPlan_served_iff (by decide) rfl (Option.some_get probed).symm
    (Option.some_get found).symm staging {}
  exact (built_iff (plannedRoom 4) (le_refl _)).mpr (served cliques (.inr (by decide)))

/-- Every ordered pair of ranks has an available transport. -/
def PairsAvailable (input : TransferPlanBuildInput) : Prop :=
  ∃ rankDevices, input.topo.rankDevices = some rankDevices ∧
    ∀ rank ∈ intRange input.worldSize, ∀ peer ∈ peersOf rank input.worldSize, ∃ kind, transportAvailable
      (findTopologyLinkByDevices input.topo.topology (rankDevices rank) (rankDevices peer)) kind = true

/-- Three ranks in a chain of direct links; its ends share memory alone. -/
def chain : TransferPlanBuildInput where
  topo := {
    topology := some { links := [0, 1, 2].flatMap fun src => [0, 1, 2].map fun dst =>
      ⟨src, dst, [⟨if src = 1 ∨ dst = 1 then .directNvlink else .shm, true⟩]⟩ }
    rankDevices := some id }
  worldSize := 3
  count := 12
  dtypeSize := 4
  stagingSlotCount := 4
  stagingBytes _ := 48

/-- A chain is one island although its ends do not reach each other, and no capacity lets the direct emitters serve it. -/
theorem chain_unserved :
    validBuildInput chain = true ∧ chain.outOfPlace = false ∧ PairsAvailable chain ∧
      (∃ transports islands, buildTransportMatrix chain.topo chain.worldSize = some transports ∧
        buildIslands chain transports = some islands ∧ StagingFor chain islands) ∧
      ∀ cap storage, (buildAllreduceTransferPlan cap storage chain).1 = false := by
  have probed : (buildTransportMatrix chain.topo chain.worldSize).isSome = true := rfl
  have found : (buildIslands chain ((buildTransportMatrix chain.topo chain.worldSize).get probed)).isSome = true := by
    decide +revert +kernel
  have unserved : ¬EmittersServed chain ((buildTransportMatrix chain.topo chain.worldSize).get probed)
      ((buildIslands chain _).get found) := by decide +revert +kernel
  have staging : StagingFor chain ((buildIslands chain _).get found) := by
    refine ⟨?_, by decide +kernel⟩
    decide +revert +kernel
  have reachable : ∀ rank ∈ intRange chain.worldSize, ∀ peer ∈ peersOf rank chain.worldSize,
      transportAvailable (findTopologyLinkByDevices chain.topo.topology rank peer)
        (peerTransport chain rank peer) = true := by decide +kernel
  refine ⟨by decide, rfl, ⟨id, rfl, fun rank inRange peer isPeer => ⟨_, reachable rank inRange peer isPeer⟩⟩, ?_, ?_⟩
  · exact ⟨_, _, (Option.some_get probed).symm, (Option.some_get found).symm, staging⟩
  · intro cap storage
    refine Bool.eq_false_iff.mpr fun built => unserved ?_
    exact emittersServed_of_built (by decide) rfl (Option.some_get probed).symm (Option.some_get found).symm staging built

end Planner

end Ooverlap.Plan.AllReduce
