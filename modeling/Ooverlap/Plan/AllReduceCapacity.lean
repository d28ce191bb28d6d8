import Mathlib.Algebra.Order.BigOperators.Group.List
import Ooverlap.Plan.AllReduceRanks
import Ooverlap.Plan.Capacity

/-! Room of the all-reduce plan: its peak after emission and its size with fanouts and barriers. -/

namespace Ooverlap.Plan.AllReduce

section Barriers

theorem withBarriers_length (previous tasks : List TransferTask) :
    tasks.length ≤ (withBarriers previous tasks).length := by
  induction tasks generalizing previous with
  | nil => exact le_refl _
  | cons consumer rest ih =>
    simp only [withBarriers]
    split
    · have later := ih (previous ++ [barrierFor consumer, consumer])
      simp only [List.length_cons]
      omega
    · have later := ih (previous ++ [consumer])
      simp only [List.length_cons]
      omega

/-- The insertion scan has room exactly when the plan with all its barriers fits. -/
theorem insertBarriersFrom_isSome_iff (bounded : previous.length + tasks.length ≤ cap) :
    (insertBarriersFrom cap previous tasks).isSome = true ↔
      previous.length + (withBarriers previous tasks).length ≤ cap := by
  induction tasks generalizing previous with
  | nil => simpa [insertBarriersFrom, withBarriers] using bounded
  | cons consumer rest ih =>
    simp only [insertBarriersFrom, withBarriers]
    rw [List.length_cons] at bounded
    split
    · have longer := withBarriers_length (previous ++ [barrierFor consumer, consumer]) rest
      simp only [List.length_cons]
      by_cases full : previous.length + (rest.length + 1) ≥ cap
      · rw [if_pos full]
        simp only [Option.isSome_none, Bool.false_eq_true, false_iff]
        omega
      · rw [if_neg full, ih (by simp only [List.length_append, List.length_cons, List.length_nil]; omega)]
        simp only [List.length_append, List.length_cons, List.length_nil]
        omega
    · rw [ih (by simp only [List.length_append, List.length_cons, List.length_nil]; omega)]
      simp only [List.length_append, List.length_cons, List.length_nil]
      omega

theorem runAllreducePasses_succeeds_iff {state : BuildState} (bounded : state.plan.tasks.length ≤ cap) :
    (∃ state', runAllreducePasses cap state = .ok ((), state')) ↔
      (withBarriers [] (coalesceAdjacentCopyTasksIntoFanout state.plan.tasks)).length ≤ cap := by
  have shorter := coalesce_length state.plan.tasks
  have room : (insertBarriersFrom cap [] (coalesceAdjacentCopyTasksIntoFanout state.plan.tasks)).isSome = true ↔ _ :=
    insertBarriersFrom_isSome_iff (by simp only [List.length_nil]; omega)
  rw [List.length_nil, Nat.zero_add] at room
  rw [← room]
  unfold runAllreducePasses insertLocalReduceCopyBarriers
  cases insertBarriersFrom cap [] (coalesceAdjacentCopyTasksIntoFanout state.plan.tasks) <;> simp

end Barriers

section Copies

variable (input : TransferPlanBuildInput) (transports : TransportMatrix) (rank : Int)

/-- Copies to the listed peers from a phase on, the last one terminal. -/
def copyRun : Int → List Int → List TransferTask
  | _, [] => []
  | phase, peer :: rest => (copyMaker input transports rank peer phase).setTerminal rest.isEmpty :: copyRun (phase + 1) rest

theorem markedTerminal_copies (inRange : rank ∈ ranks) (peers : List Int) (start : Int) :
    markedTerminal ranks (peers.mapIdx fun index peer => copyMaker input transports rank peer (start + index)) =
      copyRun input transports rank start peers := by
  induction peers generalizing start with
  | nil => rfl
  | cons peer rest ih =>
    have shifted : (rest.mapIdx fun index other => copyMaker input transports rank other (start + (index + 1 : Nat))) =
        rest.mapIdx fun index other => copyMaker input transports rank other (start + 1 + index) := by
      congr 1
      funext index other
      push_cast
      rw [Int.add_assoc, Int.add_comm 1]
    rw [List.mapIdx_cons, markedTerminal, shifted, ih, copyRun]
    cases rest with
    | nil => simp [copyMaker, makeCopyTransferTask, inRange]
    | cons next others => simp [copyMaker, makeCopyTransferTask]

/-- The open group of the scan: copies to the `taken` peers, all by one transport, the last in the phase before `next`. -/
structure OpenGroup (group : List TransferTask) (taken : List Int) (current : TransportKind) (next : Int) (ended : Bool) :
    Prop where
  made : ∀ task ∈ group, ∃ peer ∈ taken, ∃ phase terminal,
    task = (copyMaker input transports rank peer phase).setTerminal terminal
  alike : ∀ task ∈ group, task.transport = current
  last : ∀ task ∈ group.getLast?, task.phase + 1 = next ∧ task.terminal = ended
  few : group.length ≤ tmaTwoGpuPeerMaxFanoutDsts

variable {input transports rank}

theorem copyMaker_eligible (reaches : ∀ src dst, transportUsesDirectTma (transports src dst) = true)
    (inRange : rank ∈ intRange input.worldSize) (windowed : 0 < input.launchConfig.windowChunks)
    (active : ¬SliceSkipped input rank) (isPeer : peer ∈ peersOf rank input.worldSize) (phase : Int) (terminal : Bool) :
    copyTaskIsFanoutEligible ((copyMaker input transports rank peer phase).setTerminal terminal) =
      AllGather.allGatherCopyFanoutCompatible (sliceBeginBytes input rank) (sliceBytes input rank) := by
  obtain ⟨someBytes, someWindows⟩ := not_or.mp active
  have bounds := mem_intRange.mp inRange
  have peerBounds := (mem_peersOf.mp isPeer).1
  have apart : (peer != rank) = true := by simpa using (mem_peersOf.mp isPeer).2
  have nonempty : (sliceBytes input rank != 0) = true := by simpa using someBytes
  simp [copyTaskIsFanoutEligible, copyMaker, makeCopyTransferTask, TransferTask.setTerminal, rankBufferRef,
    logicalBufferIsLocalDeviceBuffer, AllGather.allGatherCopyFanoutCompatible, kTmaBulkAlignment, reaches, bounds.1,
    peerBounds, apart, nonempty, Int.not_le.mp someWindows, windowed]

theorem OpenGroup.joins (opened : OpenGroup input transports rank (first :: rest) taken current next false)
    (reaches : ∀ src dst, transportUsesDirectTma (transports src dst) = true)
    (inRange : rank ∈ intRange input.worldSize) (windowed : 0 < input.launchConfig.windowChunks)
    (active : ¬SliceSkipped input rank) (peers : ∀ other ∈ taken, other ∈ peersOf rank input.worldSize)
    (aligned : AllGather.allGatherCopyFanoutCompatible (sliceBeginBytes input rank) (sliceBytes input rank) = true)
    (isPeer : peer ∈ peersOf rank input.worldSize) (fresh : peer ∉ taken) (terminal : Bool) :
    joinsFanoutGroup (first :: rest) ((copyMaker input transports rank peer next).setTerminal terminal) =
      (decide ((first :: rest).length < tmaTwoGpuPeerMaxFanoutDsts) && transports rank peer == current) := by
  obtain ⟨firstPeer, firstTaken, firstPhase, firstTerminal, sameFirst⟩ := opened.made first (List.mem_cons_self ..)
  have ends : (first :: rest).getLast? = some (rest.getLastD first) := by
    rw [List.getLast?_cons, List.getLastD_eq_getLast?]
  obtain ⟨follows, quiet⟩ := opened.last _ ends
  have transport := opened.alike first (List.mem_cons_self ..)
  have distinct : copyDestinationIsDistinct (first :: rest)
      ((copyMaker input transports rank peer next).setTerminal terminal) = true := by
    refine List.all_eq_true.mpr fun task member => ?_
    obtain ⟨other, isTaken, phase, terminal, rfl⟩ := opened.made task member
    have apart : other ≠ peer := fun same => fresh (same ▸ isTaken)
    simp [copyMaker, makeCopyTransferTask, rankBufferRef, apart]
  have firstEligible : copyTaskIsFanoutEligible first = true := by
    have eligible := copyMaker_eligible reaches inRange windowed active (peers firstPeer firstTaken) firstPhase firstTerminal
    rw [aligned] at eligible
    rw [sameFirst]
    exact eligible
  have eligible := copyMaker_eligible reaches inRange windowed active isPeer next terminal
  rw [aligned] at eligible
  have shape : copyTasksShareFanoutShape first (rest.getLastD first)
      ((copyMaker input transports rank peer next).setTerminal terminal) = (transports rank peer == current) := by
    unfold copyTasksShareFanoutShape
    rw [firstEligible, eligible, quiet, follows, ← transport, sameFirst]
    simp [copyMaker, makeCopyTransferTask, TransferTask.setTerminal, logicalBufferRefSameFanoutLayout, rankBufferRef,
      reaches]
  simp only [joinsFanoutGroup, shape, distinct, Bool.and_true]

theorem flushFanoutGroup_cons (first : TransferTask) (rest : List TransferTask) :
    (flushFanoutGroup (first :: rest)).length = 1 := by
  cases rest <;> rfl

theorem OpenGroup.fresh (input : TransferPlanBuildInput) (transports : TransportMatrix) (rank peer phase : Int)
    (terminal : Bool) :
    OpenGroup input transports rank [(copyMaker input transports rank peer phase).setTerminal terminal] [peer]
      (transports rank peer) (phase + 1) terminal where
  made task member := by
    rw [List.mem_singleton.mp member]
    exact ⟨peer, List.mem_singleton_self peer, phase, terminal, rfl⟩
  alike task member := by
    rw [List.mem_singleton.mp member]
    rfl
  last task member := by
    cases member
    exact ⟨rfl, rfl⟩
  few := by
    rw [List.length_singleton]
    decide

theorem OpenGroup.grow (opened : OpenGroup input transports rank group taken (transports rank peer) next ended)
    (room : group.length < tmaTwoGpuPeerMaxFanoutDsts) (terminal : Bool) :
    OpenGroup input transports rank (group ++ [(copyMaker input transports rank peer next).setTerminal terminal])
      (taken ++ [peer]) (transports rank peer) (next + 1) terminal where
  made task member := by
    rcases List.mem_append.mp member with earlier | here
    · obtain ⟨other, isTaken, phase, terminal, same⟩ := opened.made task earlier
      exact ⟨other, List.mem_append_left _ isTaken, phase, terminal, same⟩
    · rw [List.mem_singleton.mp here]
      exact ⟨peer, List.mem_append_right _ (List.mem_singleton_self peer), next, terminal, rfl⟩
  alike task member := by
    rcases List.mem_append.mp member with earlier | here
    · exact opened.alike task earlier
    · rw [List.mem_singleton.mp here]
      rfl
  last task member := by
    rw [List.getLast?_concat] at member
    cases member
    exact ⟨rfl, rfl⟩
  few := by
    rw [List.length_append, List.length_singleton]
    exact room

/-- Aligned copies of a slice leave the scan in as many tasks as there are batches of peers. -/
theorem coalesceFrom_copyRun (reaches : ∀ src dst, transportUsesDirectTma (transports src dst) = true)
    (inRange : rank ∈ intRange input.worldSize) (windowed : 0 < input.launchConfig.windowChunks)
    (active : ¬SliceSkipped input rank)
    (aligned : AllGather.allGatherCopyFanoutCompatible (sliceBeginBytes input rank) (sliceBytes input rank) = true)
    (pending : List Int) (distinct : (taken ++ pending).Nodup)
    (peers : ∀ peer ∈ taken ++ pending, peer ∈ peersOf rank input.worldSize)
    (opened : OpenGroup input transports rank group taken current next pending.isEmpty) :
    (coalesceFrom group (copyRun input transports rank next pending)).length =
      fanoutBatches group.length current (pending.map (transports rank)) := by
  induction pending generalizing group taken current next with
  | nil =>
    simp only [copyRun, coalesceFrom, List.map_nil, fanoutBatches]
    cases group with
    | nil => rfl
    | cons first rest => simp [flushFanoutGroup_cons]
  | cons peer rest ih =>
    have isPeer := peers peer (by simp)
    have fresh : peer ∉ taken := fun isTaken =>
      (List.nodup_append.mp distinct).2.2 peer isTaken peer (List.mem_cons_self ..) rfl
    have alone : (coalesceFrom [(copyMaker input transports rank peer next).setTerminal rest.isEmpty]
        (copyRun input transports rank (next + 1) rest)).length = _ := ih (List.nodup_append.mp distinct).2.1
      (fun other member => peers other (List.mem_append_right _ member))
      (OpenGroup.fresh input transports rank peer next rest.isEmpty)
    rw [copyRun, coalesceFrom, List.map_cons, fanoutBatches]
    cases group with
    | nil => simpa [joinsFanoutGroup, flushFanoutGroup] using alone
    | cons first others =>
      have few := opened.few
      rw [opened.joins reaches inRange windowed active (fun other isTaken => peers other (List.mem_append_left _ isTaken))
        aligned isPeer fresh]
      by_cases joins : (first :: others).length < tmaTwoGpuPeerMaxFanoutDsts ∧ transports rank peer = current
      · obtain ⟨room, same⟩ := joins
        subst same
        have stays : ¬((first :: others).length ≠ 0 ∧ ((first :: others).length = tmaTwoGpuPeerMaxFanoutDsts ∨
            transports rank peer ≠ transports rank peer)) := fun holds => holds.2.elim (fun full => by omega) fun apart => apart rfl
        have distinctRest : ((taken ++ [peer]) ++ rest).Nodup := by simpa using distinct
        have grown : (coalesceFrom (first :: others ++ [(copyMaker input transports rank peer next).setTerminal rest.isEmpty])
            (copyRun input transports rank (next + 1) rest)).length = _ :=
          ih distinctRest (by simpa using peers) (opened.grow room rest.isEmpty)
        rw [if_pos (by simpa using room), if_neg stays, grown]
        simp
      · have flushes : (first :: others).length ≠ 0 ∧ ((first :: others).length = tmaTwoGpuPeerMaxFanoutDsts ∨
            transports rank peer ≠ current) := by
          refine ⟨by simp, ?_⟩
          by_contra neither
          obtain ⟨notFull, same⟩ := not_or.mp neither
          exact joins ⟨by omega, not_not.mp same⟩
        have apart : (decide ((first :: others).length < tmaTwoGpuPeerMaxFanoutDsts) &&
            transports rank peer == current) = false := by
          simpa using fun room same => joins ⟨room, same⟩
        rw [apart, if_neg Bool.false_ne_true, if_pos flushes, List.length_append, flushFanoutGroup_cons, alone, Nat.add_comm]
        rfl

/-- A rank's finished copies number as many as the plan's copies of its slice. -/
theorem finishedCopies_count (reaches : ∀ src dst, transportUsesDirectTma (transports src dst) = true)
    (chosen : ∀ src ∈ intRange input.worldSize, ∀ dst ∈ intRange input.worldSize,
      transports src dst = peerTransport input src dst)
    (inRange : rank ∈ intRange input.worldSize) (windowed : 0 < input.launchConfig.windowChunks)
    (active : ¬SliceSkipped input rank) : (finishedCopies input transports rank).length = copyTasks input rank := by
  have emission : copyEmission input transports rank = (peersOf rank input.worldSize).mapIdx fun index peer =>
      copyMaker input transports rank peer ((gatherMakers input transports rank).length + index) := by
    rw [copyEmission]
    congr 1
    funext index peer
    rw [Nat.add_comm, Nat.cast_add]
  have transported : (peersOf rank input.worldSize).map (peerTransport input rank) =
      (peersOf rank input.worldSize).map (transports rank) :=
    List.map_congr_left fun peer isPeer => (chosen rank inRange peer (mem_intRange.mpr (mem_peersOf.mp isPeer).1)).symm
  unfold copyTasks
  rw [finishedCopies, transported]
  by_cases aligned : AllGather.allGatherCopyFanoutCompatible (sliceBeginBytes input rank) (sliceBytes input rank) = true
  · rw [if_pos aligned, emission, markedTerminal_copies input transports rank inRange]
    have distinct : ([] ++ peersOf rank input.worldSize).Nodup := peersOf_nodup rank input.worldSize
    exact coalesceFrom_copyRun reaches inRange windowed active aligned _ distinct (fun _ member => member)
      ⟨by simp, by simp, by simp, by simp⟩
  · rw [if_neg aligned]
    have ineligible : ∀ task ∈ markedTerminal (intRange input.worldSize) (copyEmission input transports rank),
        copyTaskIsFanoutEligible task = false := by
      intro task member
      obtain ⟨peer, isPeer, phase, terminal, rfl⟩ := copyEmission_made member
      rw [copyMaker_eligible reaches inRange windowed active isPeer]
      exact Bool.eq_false_iff.mpr aligned
    have unchanged := coalesceFrom_ineligible ineligible []
    rw [List.append_nil] at unchanged
    rw [unchanged, List.length_append, markedTerminal_length]
    simp [copyEmission, coalesceFrom, flushFanoutGroup]

end Copies

section Direct

variable {cap : Nat} {input : TransferPlanBuildInput} {transports : TransportMatrix}

/-- Tasks a rank has pushed when the emission loop is done: its peers' waits, reductions and single copies. -/
def emittedTasks (input : TransferPlanBuildInput) (rank : Int) : Nat :=
  if SliceSkipped input rank then 0
  else inputCopyTasks input + rendezvousTasks input + 2 * (input.worldSize.toNat - 1)

/-- Tasks of a rank in the finished plan: copies as they are batched, and one barrier before them. -/
def finishedTasks (input : TransferPlanBuildInput) (rank : Int) : Nat :=
  if SliceSkipped input rank ∨ input.worldSize ≤ 1 then 0
  else rendezvousTasks input + (input.worldSize.toNat - 1) + 1 + copyTasks input rank

theorem gatherMakers_length (direct : AllDirect input.topo input.worldSize) (inRange : rank ∈ intRange input.worldSize) :
    (gatherMakers input transports rank).length =
      inputCopyTasks input + rendezvousTasks input + (input.worldSize.toNat - 1) := by
  have locals : (localCopyMakers input rank).length = inputCopyTasks input := by
    unfold localCopyMakers inputCopyTasks
    split <;> rfl
  simp only [gatherMakers, List.length_append, List.length_map, locals, rendezvousMakers_length direct inRange,
    peersOf_length inRange]

theorem emitDirectRankTasks_takes (direct : AllDirect input.topo input.worldSize)
    (reaches : ∀ src dst, transportUsesDirectTma (transports src dst) = true)
    (inRange : rank ∈ intRange input.worldSize) :
    Takes cap (emitDirectRankTasks cap input transports rank) True (emittedTasks input rank) := by
  refine (Takes.of_emits (emitDirectRankTasks_emits cap input transports rank) fun phases => ?_).congr
    (iff_true_intro (Or.inr fun _ _ => reaches _ _)) rfl
  simp only [Emission.sequence, List.length_mapIdx, directRankMakers, emittedTasks]
  split
  · rfl
  · simp only [List.length_append, List.length_map, gatherMakers_length direct inRange, peersOf_length inRange]
    omega

theorem buildDirectAllreducePlan_takes (direct : AllDirect input.topo input.worldSize)
    (reaches : ∀ src dst, transportUsesDirectTma (transports src dst) = true) :
    Takes cap (buildDirectAllreducePlan cap input transports) True
      ((intRange input.worldSize).map (emittedTasks input)).sum := by
  have loop := Takes.forM (intRange input.worldSize) (emitDirectRankTasks cap input transports) (fun _ => True)
    (emittedTasks input) fun rank inRange => emitDirectRankTasks_takes direct reaches inRange
  exact (loop.marked input.worldSize).congr (by simp) rfl

theorem directRankBlock_length (inPlace : input.outOfPlace = false) (direct : AllDirect input.topo input.worldSize)
    (reaches : ∀ src dst, transportUsesDirectTma (transports src dst) = true)
    (chosen : ∀ src ∈ intRange input.worldSize, ∀ dst ∈ intRange input.worldSize,
      transports src dst = peerTransport input src dst)
    (windowed : 0 < input.launchConfig.windowChunks) (inRange : rank ∈ intRange input.worldSize) :
    (directRankBlock input transports rank).length = finishedTasks input rank := by
  unfold finishedTasks
  by_cases idle : SliceSkipped input rank ∨ input.worldSize ≤ 1
  · rw [if_pos idle, directRankBlock_idle inPlace (idle.imp id fun alone => peersOf_single alone inRange)]
    rfl
  · obtain ⟨active, several⟩ := not_or.mp idle
    obtain ⟨first, rest, copies, block⟩ :=
      directRankBlock_active transports inPlace active inRange (peersOf_busy (by omega) rank)
    have count := finishedCopies_count reaches chosen inRange windowed active
    rw [copies] at count
    have local0 : inputCopyTasks input = 0 := by simp [inputCopyTasks, inPlace]
    rw [if_neg idle, block, length_numberFrom, List.length_append, List.length_cons, count, gatherEmission,
      List.length_mapIdx, gatherMakers_length direct inRange, local0]
    omega

theorem directPlanner_succeeds_iff (inPlace : input.outOfPlace = false) (direct : AllDirect input.topo input.worldSize)
    (reaches : ∀ src dst, transportUsesDirectTma (transports src dst) = true)
    (chosen : ∀ src ∈ intRange input.worldSize, ∀ dst ∈ intRange input.worldSize,
      transports src dst = peerTransport input src dst)
    (windowed : 0 < input.launchConfig.windowChunks) (size : Int) :
    (∃ state, directPlanner cap input transports { plan := { worldSize := size } } = .ok ((), state)) ↔
      ((intRange input.worldSize).map (emittedTasks input)).sum ≤ cap ∧
        ((intRange input.worldSize).map (finishedTasks input)).sum ≤ cap := by
  have takes : Takes cap (buildDirectAllreducePlan cap input transports) True _ :=
    buildDirectAllreducePlan_takes direct reaches
  have blocks : (withBarriers [] (coalesceAdjacentCopyTasksIntoFanout (directTasks input transports))).length =
      ((intRange input.worldSize).map (finishedTasks input)).sum := by
    rw [directTasks_barriers inPlace, List.length_flatMap]
    refine congrArg List.sum (List.map_congr_left fun rank inRange => ?_)
    rw [← directRankBlock_length inPlace direct reaches chosen windowed inRange, directRankBlock, length_numberFrom]
    rfl
  by_cases fits : ((intRange input.worldSize).map (emittedTasks input)).sum ≤ cap
  · obtain ⟨middle, emitted, grown⟩ := takes.ok { plan := { worldSize := size } } trivial (by simpa using fits)
    have tasks : middle.plan.tasks = directTasks input transports := by
      rw [(buildDirectAllreducePlan_tasks emitted).1, directTasks]
    have passes : (∃ state', runAllreducePasses cap middle = .ok ((), state')) ↔ _ :=
      runAllreducePasses_succeeds_iff (grown.trans_le (by simpa using fits))
    rw [tasks, blocks] at passes
    rw [← passes]
    have run : directPlanner cap input transports { plan := { worldSize := size } } = runAllreducePasses cap middle := by
      change (buildDirectAllreducePlan cap input transports { plan := { worldSize := size } } >>= fun result =>
        runAllreducePasses cap result.2) = _
      rw [emitted]
      rfl
    rw [run]
    exact ⟨fun ran => ⟨fits, ran⟩, fun both => both.2⟩
  · have failed := takes.error { plan := { worldSize := size } } (Nat.zero_le _) (by simpa using fits)
    have run : directPlanner cap input transports { plan := { worldSize := size } } = .error {} := by
      change (buildDirectAllreducePlan cap input transports { plan := { worldSize := size } } >>= fun result =>
        runAllreducePasses cap result.2) = _
      rw [failed]
      rfl
    rw [run]
    constructor
    · rintro ⟨_, impossible⟩
      cases impossible
    · exact fun both => absurd both.1 fits

end Direct

section Fanout

variable {cap : Nat} {input : TransferPlanBuildInput} {transports : TransportMatrix}

/-- Sizes that the out-of-place planner accepts: at most as many ranks as a fanout has destinations. -/
def FanoutPlanned (input : TransferPlanBuildInput) : Prop :=
  input.worldSize ≤ (tmaTwoGpuPeerMaxFanoutDsts : Int) ∧ input.count ≤ (2 ^ 64 - 1) / input.dtypeSize ∧
    ¬(totalBytes input = 0 ∨ windowCountForTransferBytes (totalBytes input) input.launchConfig ≤ 0)

instance (input : TransferPlanBuildInput) : Decidable (FanoutPlanned input) :=
  inferInstanceAs (Decidable (_ ∧ _))

def fanoutPlanTasks (input : TransferPlanBuildInput) : Nat :=
  input.worldSize.toNat * (rendezvousTasks input + 1)

theorem buildOutOfPlaceDirectAllreduceFanoutPlan_takes (valid : validBuildInput input = true)
    (direct : AllDirect input.topo input.worldSize)
    (reaches : ∀ src dst, transportUsesDirectTma (transports src dst) = true) :
    Takes cap (buildOutOfPlaceDirectAllreduceFanoutPlan cap input transports) (FanoutPlanned input)
      (fanoutPlanTasks input) := by
  obtain ⟨size, dtype, _⟩ := (validBuildInput_iff input).mp valid
  by_cases planned : FanoutPlanned input
  · obtain ⟨few, counted, sized⟩ := planned
    have accepted : ¬(input.worldSize ≤ 0 ∨ input.worldSize > (tmaTwoGpuPeerMaxFanoutDsts : Int) ∨
        input.dtypeSize = 0 ∨ input.count > (2 ^ 64 - 1) / input.dtypeSize) := by omega
    simp only [buildOutOfPlaceDirectAllreduceFanoutPlan, if_neg accepted, if_neg sized]
    have entries := emitEntryRendezvous_takes cap direct
    have reductions := Takes.forM (intRange input.worldSize) (fun srcRank =>
      if (intRange input.worldSize).any fun dstRank => !transportUsesDirectTma (transports srcRank dstRank)
      then transferPlanAbortBuild
      else
        pushReduceFanoutTask cap input srcRank srcRank (intRange input.worldSize)
          (rankInputRef srcRank) ((intRange input.worldSize).map fun dstRank => rankOutputRef dstRank)
          (totalBytes input) (windowCountForTransferBytes (totalBytes input) input.launchConfig)
          (selectedFanoutTransport input transports srcRank)) (fun _ => True) (fun _ => 1) fun rank inRange => by
      rw [if_neg (by simp [reaches])]
      unfold pushReduceFanoutTask
      have destinations : ((intRange input.worldSize).map fun dstRank => rankOutputRef dstRank).length =
          input.worldSize.toNat := by simp
      rw [destinations, if_neg (by omega)]
      exact Takes.of_emits (Emits.push cap rank _) fun _ => rfl
    refine (entries.bind (reductions.marked input.worldSize)).congr ?_ ?_
    · exact iff_of_true (by simp) ⟨few, counted, sized⟩
    · simp [fanoutPlanTasks, Nat.mul_add]
  · have refused : buildOutOfPlaceDirectAllreduceFanoutPlan cap input transports = transferPlanAbortBuild := by
      simp only [buildOutOfPlaceDirectAllreduceFanoutPlan]
      split
      · rfl
      · split
        · rfl
        · rename_i accepted sized
          exact absurd ⟨by omega, by omega, sized⟩ planned
    rw [refused]
    exact (Takes.abort cap _).congr (iff_of_false id planned) rfl

theorem emitEntryRendezvous_noCopies :
    Appends cap (emitEntryRendezvous cap input) fun added => ∀ task ∈ added, isCopyTask task = false := by
  have loop : Appends cap (emitEntryRendezvous cap input) _ :=
    Appends.forM (intRange input.worldSize) (intRange_nodup _) _ _ fun rank _ =>
      Appends.of_emits (appendReadyRendezvousTasks_emits cap input.topo rank input.worldSize)
  refine loop.mono ?_
  rintro _ ⟨block, rfl, each⟩ task member
  obtain ⟨rank, inRange, inBlock⟩ := List.mem_flatMap.mp member
  obtain ⟨_, phases, same⟩ := each rank inRange
  rw [same] at inBlock
  obtain ⟨index, bound, rfl⟩ := List.mem_mapIdx.mp inBlock
  have maker := List.getElem_mem bound
  generalize (rendezvousMakers input.topo rank input.worldSize)[index] = make at maker
  unfold rendezvousMakers at maker
  split at maker
  · cases maker
  · rcases List.mem_append.mp maker with publish | wait
    · obtain ⟨channel, _, rfl⟩ := List.mem_map.mp publish
      rfl
    · obtain ⟨peer, _, rfl⟩ := List.mem_map.mp wait
      rfl

theorem markedTerminal_copies_iff (ranks : List Int) (tasks : List TransferTask) :
    (markedTerminal ranks tasks).map isCopyTask = tasks.map isCopyTask := by
  induction tasks with
  | nil => rfl
  | cons task rest ih => simp [markedTerminal, isCopyTask, ih]

theorem buildOutOfPlaceDirectAllreduceFanoutPlan_noCopies
    (built : buildOutOfPlaceDirectAllreduceFanoutPlan cap input transports { plan := { worldSize := size } } =
      .ok ((), state)) : ∀ task ∈ state.plan.tasks, isCopyTask task = false := by
  simp only [buildOutOfPlaceDirectAllreduceFanoutPlan] at built
  split at built
  · cases built
  · split at built
    · cases built
    · obtain ⟨_, entered, entry, later⟩ := BuildM.bind_ok built
      obtain ⟨_, reduced, loop, marks⟩ := BuildM.bind_ok later
      obtain ⟨within, ready, sameReady, quietReady⟩ := emitEntryRendezvous_noCopies.run (Nat.zero_le _) entry
      have fanouts := Appends.run (Appends.forM (intRange input.worldSize) (intRange_nodup _) _
        (fun _ added => ∀ task ∈ added, isCopyTask task = false) ?quiet) within loop
      case quiet =>
        intro rank _
        refine Appends.guarded _ fun _ => Appends.guarded _ fun _ => ?_
        refine (Appends.of_emits (Emits.push cap rank _)).mono ?_
        rintro _ ⟨_, phases, rfl⟩ task member
        rw [List.mem_singleton.mp member]
        rfl
      obtain ⟨_, added, sameAdded, block, rfl, quiet⟩ := fanouts
      rw [markLastTaskPerRankTerminal_run] at marks
      cases marks
      intro task member
      have copied := List.mem_map_of_mem (f := isCopyTask) member
      simp only [markedTerminal_copies_iff, List.map_map] at copied
      obtain ⟨original, inTasks, same⟩ := List.mem_map.mp copied
      rw [← same]
      rw [sameAdded, sameReady, List.nil_append] at inTasks
      rcases List.mem_append.mp inTasks with isReady | isFanout
      · exact quietReady original isReady
      · obtain ⟨rank, inRange, inBlock⟩ := List.mem_flatMap.mp isFanout
        exact quiet rank inRange original inBlock

/-- The passes leave a plan without copies alone. -/
theorem runAllreducePasses_quiet {state : BuildState} (bounded : state.plan.tasks.length ≤ cap)
    (noCopies : ∀ task ∈ state.plan.tasks, isCopyTask task = false) :
    ∃ state', runAllreducePasses cap state = .ok ((), state') := by
  have ineligible : ∀ task ∈ state.plan.tasks, copyTaskIsFanoutEligible task = false := by
    intro task member
    have noCopy := noCopies task member
    simp only [isCopyTask, Bool.or_eq_false_iff] at noCopy
    simp [copyTaskIsFanoutEligible, noCopy.1]
  have unchanged := coalesceFrom_ineligible ineligible []
  rw [List.append_nil] at unchanged
  rw [runAllreducePasses_succeeds_iff bounded, coalesceAdjacentCopyTasksIntoFanout, unchanged]
  simpa [coalesceFrom, flushFanoutGroup, withBarriers_quiet noCopies] using bounded

theorem fanoutPlanner_succeeds_iff (valid : validBuildInput input = true)
    (direct : AllDirect input.topo input.worldSize)
    (reaches : ∀ src dst, transportUsesDirectTma (transports src dst) = true) (size : Int) :
    (∃ state, (buildOutOfPlaceDirectAllreduceFanoutPlan cap input transports >>= fun _ => runAllreducePasses cap)
      { plan := { worldSize := size } } = .ok ((), state)) ↔ FanoutPlanned input ∧ fanoutPlanTasks input ≤ cap := by
  have takes : Takes cap (buildOutOfPlaceDirectAllreduceFanoutPlan cap input transports) _ _ :=
    buildOutOfPlaceDirectAllreduceFanoutPlan_takes valid direct reaches
  rw [← takes.succeeds_iff size]
  constructor
  · intro ⟨state, ran⟩
    obtain ⟨_, middle, built, _⟩ := BuildM.bind_ok ran
    exact ⟨middle, built⟩
  · intro ⟨middle, built⟩
    obtain ⟨planned, fits⟩ := (takes.succeeds_iff size).mp ⟨middle, built⟩
    obtain ⟨_, same, grown⟩ := takes.ok { plan := { worldSize := size } } planned (by simpa using fits)
    rw [built] at same
    cases same
    have bounded : middle.plan.tasks.length ≤ cap := by simpa using grown.trans_le (by simpa using fits)
    obtain ⟨state, passed⟩ := runAllreducePasses_quiet bounded (buildOutOfPlaceDirectAllreduceFanoutPlan_noCopies built)
    refine ⟨state, ?_⟩
    change (buildOutOfPlaceDirectAllreduceFanoutPlan cap input transports { plan := { worldSize := size } } >>=
      fun result => runAllreducePasses cap result.2) = _
    rw [built]
    exact passed

end Fanout

section Room

variable {cap : Nat} {input : TransferPlanBuildInput}

/-- Room for the all-reduce plan: out of place for one fanout of each rank, in place both for what the emission loop
pushes and for the plan with its fanouts and barriers. -/
def HasRoom (cap : Nat) (input : TransferPlanBuildInput) : Prop :=
  if input.outOfPlace then FanoutPlanned input ∧ fanoutPlanTasks input ≤ cap
  else ((intRange input.worldSize).map (emittedTasks input)).sum ≤ cap ∧
    ((intRange input.worldSize).map (finishedTasks input)).sum ≤ cap

instance (cap : Nat) (input : TransferPlanBuildInput) : Decidable (HasRoom cap input) :=
  inferInstanceAs (Decidable (if input.outOfPlace = true then FanoutPlanned input ∧ fanoutPlanTasks input ≤ cap
    else ((intRange input.worldSize).map (emittedTasks input)).sum ≤ cap ∧
      ((intRange input.worldSize).map (finishedTasks input)).sum ≤ cap))

/-- On a directly reachable group the planner succeeds exactly when it has room. -/
theorem buildAllreduceTransferPlan_succeeds_iff (valid : validBuildInput input = true)
    (direct : AllDirect input.topo input.worldSize) :
    (buildAllreduceTransferPlan cap storage input).1 = true ↔ HasRoom cap input := by
  obtain ⟨size, _, windowed, _⟩ := (validBuildInput_iff input).mp valid
  rw [buildAllreduceTransferPlan, runPlanner_succeeds_iff valid]
  obtain ⟨transports, matrix, reaches, chosen⟩ := buildTransportMatrix_some direct size
  obtain ⟨islands, grouped⟩ := buildIslands_some input transports size
  have single := buildIslands_direct input reaches grouped
  unfold HasRoom
  cases inPlace : input.outOfPlace with
  | false =>
    have planned : planAllreduce cap input = directPlanner cap input transports := by
      simp only [planAllreduce, matrix, grouped, if_pos single, inPlace]
      rfl
    rw [planned]
    exact directPlanner_succeeds_iff inPlace direct reaches chosen windowed input.worldSize
  | true =>
    have planned : planAllreduce cap input =
        (buildOutOfPlaceDirectAllreduceFanoutPlan cap input transports >>= fun _ => runAllreducePasses cap) := by
      simp only [planAllreduce, matrix, grouped, if_pos single, inPlace]
      rfl
    rw [planned]
    exact fanoutPlanner_succeeds_iff valid direct reaches input.worldSize

/-- With every slice planned the in-place plan has room for thirteen ranks and no more. -/
theorem hasRoom_iff (valid : validBuildInput input = true) (inPlace : input.outOfPlace = false)
    (planned : SlicesPlanned input) :
    HasRoom kTmaMultiGpuAllReduceMaxTransferTasks input ↔ input.worldSize ≤ 13 := by
  obtain ⟨size, _⟩ := (validBuildInput_iff input).mp valid
  have capacity : kTmaMultiGpuAllReduceMaxTransferTasks = 512 := rfl
  have noInput : inputCopyTasks input = 0 := by simp [inputCopyTasks, inPlace]
  have emitted : ((intRange input.worldSize).map (emittedTasks input)).sum =
      input.worldSize.toNat * (rendezvousTasks input + 2 * (input.worldSize.toNat - 1)) := by
    have each : ∀ rank ∈ intRange input.worldSize, emittedTasks input rank =
        rendezvousTasks input + 2 * (input.worldSize.toNat - 1) := by
      intro rank inRange
      have active : ¬SliceSkipped input rank := planned rank inRange
      rw [emittedTasks, if_neg active, noInput, Nat.zero_add]
    rw [List.map_congr_left each]
    simp
  have finished : ((intRange input.worldSize).map (finishedTasks input)).sum ≤
      input.worldSize.toNat * (rendezvousTasks input + 2 * (input.worldSize.toNat - 1) + 1) := by
    have each : ∀ rank ∈ intRange input.worldSize, finishedTasks input rank ≤
        rendezvousTasks input + 2 * (input.worldSize.toNat - 1) + 1 := by
      intro rank inRange
      have copies := copyTasks_le inRange
      unfold finishedTasks
      split <;> omega
    simpa using List.sum_le_card_nsmul _ _ (List.forall_mem_map.mpr each)
  rw [HasRoom, if_neg (by simp [inPlace]), emitted, capacity]
  obtain ⟨ranks, same⟩ : ∃ ranks : Nat, input.worldSize = ranks := ⟨input.worldSize.toNat, by omega⟩
  simp only [rendezvousTasks, same, Int.toNat_natCast] at finished ⊢
  have bounds : 1 ≤ ranks ∧ ranks ≤ 16 := by omega
  constructor
  · rintro ⟨fits, _⟩
    by_contra more
    obtain ⟨lower, upper⟩ : 14 ≤ ranks ∧ ranks ≤ 16 := by omega
    interval_cases ranks <;> simp at fits
  · intro few
    obtain ⟨lower, upper⟩ : 1 ≤ ranks ∧ ranks ≤ 13 := by omega
    constructor
    · interval_cases ranks <;> simp
    · refine finished.trans ?_
      interval_cases ranks <;> simp

end Room

end Ooverlap.Plan.AllReduce

namespace Ooverlap.Plan

/-- On a directly reachable group each planner succeeds exactly when the sizes are planned and its tasks fit. -/
theorem planners_succeed_iff (storage : TransferPlan) (valid : validBuildInput input = true)
    (direct : AllDirect input.topo input.worldSize) :
    ((AllReduce.buildAllreduceTransferPlan kTmaMultiGpuAllReduceMaxTransferTasks storage input).1 = true ↔
      AllReduce.HasRoom kTmaMultiGpuAllReduceMaxTransferTasks input) ∧
    (input.outOfPlace = false → SlicesPlanned input →
      ((AllReduce.buildAllreduceTransferPlan kTmaMultiGpuAllReduceMaxTransferTasks storage input).1 = true ↔
        input.worldSize ≤ 13)) ∧
    ((ReduceScatter.buildReduceScatterTransferPlan kTmaMultiGpuReduceScatterMaxTransferTasks storage input).1 = true ↔
      ReduceScatter.SizesPlanned input ∧ input.worldSize ≤ 11) ∧
    ((AllGather.buildAllGatherTransferPlan kTmaMultiGpuAllGatherMaxTransferTasks storage input).1 = true ↔
      AllGather.SizesPlanned input ∧ AllGather.directTasks input ≤ kTmaMultiGpuAllGatherMaxTransferTasks) := by
  have allReduce : (AllReduce.buildAllreduceTransferPlan kTmaMultiGpuAllReduceMaxTransferTasks storage input).1 = true ↔
      AllReduce.HasRoom kTmaMultiGpuAllReduceMaxTransferTasks input :=
    AllReduce.buildAllreduceTransferPlan_succeeds_iff valid direct
  refine ⟨allReduce, fun inPlace planned => allReduce.trans (AllReduce.hasRoom_iff valid inPlace planned), ?_,
    AllGather.buildAllGatherTransferPlan_succeeds_iff valid direct⟩
  rw [ReduceScatter.buildReduceScatterTransferPlan_succeeds_iff valid direct, ReduceScatter.directTasks_fit_iff valid]

/-- Ranks without a probed topology, each with sixteen bytes of the tensor. -/
def sixteenBytesEach (ranks : Nat) : TransferPlanBuildInput :=
  { worldSize := ranks, count := 4 * ranks, dtypeSize := 4 }

theorem planners_succeed_three :
    (AllReduce.buildAllreduceTransferPlan kTmaMultiGpuAllReduceMaxTransferTasks {} (sixteenBytesEach 3)).1 = true ∧
      (ReduceScatter.buildReduceScatterTransferPlan kTmaMultiGpuReduceScatterMaxTransferTasks {}
        (sixteenBytesEach 3)).1 = true ∧
      (AllGather.buildAllGatherTransferPlan kTmaMultiGpuAllGatherMaxTransferTasks {} (sixteenBytesEach 3)).1 = true := by
  obtain ⟨allReduce, _, reduceScatter, allGather⟩ :=
    @planners_succeed_iff (sixteenBytesEach 3) {} (by decide) (allDirect_of_absent rfl)
  exact ⟨allReduce.mpr (by decide), reduceScatter.mpr (by decide), allGather.mpr (by decide)⟩

theorem sixteenRanks_unplanned :
    validBuildInput (sixteenBytesEach 16) = true ∧ AllDirect (sixteenBytesEach 16).topo (sixteenBytesEach 16).worldSize ∧
      (sixteenBytesEach 16).worldSize ≤ (sixteenBytesEach 16).count ∧
      (AllReduce.buildAllreduceTransferPlan kTmaMultiGpuAllReduceMaxTransferTasks {} (sixteenBytesEach 16)).1 = false ∧
      (ReduceScatter.buildReduceScatterTransferPlan kTmaMultiGpuReduceScatterMaxTransferTasks {} (sixteenBytesEach 16)).1 =
        false ∧
      (AllGather.buildAllGatherTransferPlan kTmaMultiGpuAllGatherMaxTransferTasks {} (sixteenBytesEach 16)).1 = false := by
  have valid : validBuildInput (sixteenBytesEach 16) = true := by decide
  have direct : AllDirect (sixteenBytesEach 16).topo (sixteenBytesEach 16).worldSize := allDirect_of_absent rfl
  refine ⟨valid, direct, by decide, ?_, ?_, ?_⟩
  · rw [← Bool.not_eq_true, AllReduce.buildAllreduceTransferPlan_succeeds_iff valid direct]
    decide
  · rw [← Bool.not_eq_true, ReduceScatter.buildReduceScatterTransferPlan_succeeds_iff valid direct,
      ReduceScatter.directTasks_fit_iff valid]
    exact fun fits => absurd fits.2 (by decide)
  · rw [← Bool.not_eq_true, AllGather.buildAllGatherTransferPlan_succeeds_iff valid direct]
    exact fun fits => absurd fits.2 (by decide)

end Ooverlap.Plan
