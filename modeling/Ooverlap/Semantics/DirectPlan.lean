import Ooverlap.Plan.RankShape
import Ooverlap.Semantics.Column
import Ooverlap.Semantics.PlanStages

/-! Direct plans: every rank works on its own slice and touches no byte another rank writes. -/

namespace Ooverlap.Semantics

open Ooverlap.Plan Ooverlap.Plan.AllReduce Ooverlap.Interleaving

section Slices

variable {input : TransferPlanBuildInput}

def sliceStart (input : TransferPlanBuildInput) (rank : Int) : Nat :=
  Split.offset input.count input.worldSize.toNat rank.toNat

def sliceLength (input : TransferPlanBuildInput) (rank : Int) : Nat :=
  Split.share input.count input.worldSize.toNat rank.toNat

/-- An element of the part of the tensor that falls to a rank. -/
def OwnsElement (input : TransferPlanBuildInput) (rank : Int) (index : Nat) : Prop :=
  sliceStart input rank ≤ index ∧ index < sliceStart input rank + sliceLength input rank

/-- Slices of different ranks share no byte. -/
theorem slices_apart (fits : input.count * input.dtypeSize < 2 ^ 64) (firstInRange : first ∈ intRange input.worldSize)
    (secondInRange : second ∈ intRange input.worldSize) (apart : first ≠ second)
    (inFirst : sliceBeginBytes input first ≤ byte ∧ byte < sliceBeginBytes input first + sliceBytes input first)
    (inSecond : sliceBeginBytes input second ≤ byte ∧ byte < sliceBeginBytes input second + sliceBytes input second) :
    False := by
  have bounds := mem_intRange.mp firstInRange
  have boundsSecond := mem_intRange.mp secondInRange
  rw [sliceBeginBytes_eq fits firstInRange, sliceBytes_eq fits firstInRange, ← Nat.add_mul] at inFirst
  rw [sliceBeginBytes_eq fits secondInRange, sliceBytes_eq fits secondInRange, ← Nat.add_mul] at inSecond
  rcases lt_or_gt_of_ne (show first.toNat ≠ second.toNat by omega) with before | after
  · have disjoint := Nat.mul_le_mul_right input.dtypeSize
      (Split.offset_share_disjoint before input.count input.worldSize.toNat)
    omega
  · have disjoint := Nat.mul_le_mul_right input.dtypeSize
      (Split.offset_share_disjoint after input.count input.worldSize.toNat)
    omega

theorem inSlice_owns (positive : 0 < input.dtypeSize) (fits : input.count * input.dtypeSize < 2 ^ 64)
    (inRange : rank ∈ intRange input.worldSize) (index : Nat) :
    InSlice input.dtypeSize (sliceBeginBytes input rank) (sliceBytes input rank) index ↔
      OwnsElement input rank index := by
  unfold InSlice OwnsElement sliceStart sliceLength
  rw [sliceBeginBytes_eq fits inRange, sliceBytes_eq fits inRange, ← Nat.add_mul,
    Nat.mul_le_mul_right_iff positive, Nat.mul_lt_mul_right positive]

theorem owns_unique (firstInRange : first ∈ intRange input.worldSize) (secondInRange : second ∈ intRange input.worldSize)
    (ownsFirst : OwnsElement input first index) (ownsSecond : OwnsElement input second index) : first = second := by
  by_contra apart
  have bounds := mem_intRange.mp firstInRange
  have boundsSecond := mem_intRange.mp secondInRange
  unfold OwnsElement sliceStart sliceLength at ownsFirst ownsSecond
  rcases lt_or_gt_of_ne (show first.toNat ≠ second.toNat by omega) with before | after
  · have disjoint := Split.offset_share_disjoint before input.count input.worldSize.toNat
    omega
  · have disjoint := Split.offset_share_disjoint after input.count input.worldSize.toNat
    omega

end Slices

/-- A task whose data all lies in the `bytes` bytes at `start` of the buffers it names. -/
structure WithinSlice (start bytes : Nat) (task : TransferTask) : Prop where
  length : movesData task → task.bytes = bytes
  source : movesData task → task.src.byteOffset = start
  destinations : movesData task → ∀ dst ∈ destinationRefs task, dst.byteOffset = start

namespace WithinSlice

theorem quiet (still : ¬movesData task) : WithinSlice start bytes task :=
  ⟨fun moves => absurd moves still, fun moves => absurd moves still, fun moves => absurd moves still⟩

theorem aligned (within : WithinSlice (start * dtypeSize) bytes task) : Aligned dtypeSize task where
  source moves := by rw [within.source moves]; exact Nat.dvd_mul_left ..
  destinations moves dst member := by rw [within.destinations moves dst member]; exact Nat.dvd_mul_left ..

theorem writes (within : WithinSlice start bytes task) (written : writesByte task buffer byte) :
    start ≤ byte ∧ byte < start + bytes := by
  obtain ⟨moves, dst, member, _, lower, upper⟩ := written
  rw [within.destinations moves dst member, within.length moves] at upper
  rw [within.destinations moves dst member] at lower
  exact ⟨lower, upper⟩

theorem accesses (within : WithinSlice start bytes task) (accessed : accessesByte task buffer byte) :
    start ≤ byte ∧ byte < start + bytes := by
  rcases accessed with ⟨moves, _, lower, upper⟩ | written
  · rw [within.source moves, within.length moves] at upper
    rw [within.source moves] at lower
    exact ⟨lower, upper⟩
  · exact within.writes written

end WithinSlice

section Columns

variable {M : Type} [AddCommMonoid M] {dtypeSize start bytes index : Nat}

/-- What one element index holds in every buffer. -/
def columnAt (index : Nat) (shared : Shared M) : BufferId → M :=
  fun buffer => shared.mem buffer index

theorem columnOf_unshifted (index : Nat) (shared : Shared M) :
    columnOf (fun _ => 0) index shared = columnAt index shared := by
  funext buffer
  simp [columnOf, columnAt]

theorem WithinSlice.level (within : WithinSlice start bytes task) : Level dtypeSize (fun _ => 0) task := by
  intro moves dst member
  simp only [taskStart, within.destinations moves dst member, within.source moves]

theorem WithinSlice.acts (within : WithinSlice start bytes task) (moves : movesData task) :
    actsOn dtypeSize (fun _ => 0) index task ↔ InSlice dtypeSize start bytes index := by
  simp only [actsOn, taskStart, Nat.zero_mul, Nat.add_zero, within.source moves, within.length moves]

/-- Inside its slice a task acts on each element column alone. -/
theorem columnAt_inside (positive : 0 < dtypeSize) (inside : InSlice dtypeSize start bytes index)
    (within : WithinSlice start bytes task) (shared : Shared M) :
    columnAt index (taskEffect dtypeSize task shared) = bufferEffect task (columnAt index shared) := by
  by_cases moves : movesData task
  · rw [← columnOf_unshifted, columnOf_acted positive within.level ((within.acts moves).mpr inside),
      columnOf_unshifted]
  · rw [bufferEffect_quiet moves]
    funext buffer
    simp only [columnAt, quiet_mem moves]

theorem columnAt_outside (outside : ¬InSlice dtypeSize start bytes index)
    (within : WithinSlice start bytes task) (shared : Shared M) :
    columnAt index (taskEffect dtypeSize task shared) = columnAt index shared := by
  funext buffer
  exact taskEffect_unwritten (fun written => outside (within.writes written)) shared

end Columns

section Plans

variable (input : TransferPlanBuildInput) (work : Int → List TransferTask)

/-- One rank's part of a direct plan: its input, the rendezvous, then its work. -/
def directStage : Nat → Int → List TransferTask
  | 0, rank => inputCopies input rank
  | 1, rank => entryPublishes input rank
  | 2, rank => entryWaits input rank
  | _, rank => work rank

def directStages : Staged Int TransferTask where
  count := 4
  stage index rank := if rank ∈ intRange input.worldSize then directStage input work index rank else []

variable {input} {work}

theorem directStages_code (inRange : rank ∈ intRange input.worldSize) :
    (directStages input work).code rank =
      inputCopies input rank ++ (entryPublishes input rank ++ entryWaits input rank ++ work rank) := by
  have stages : List.range 4 = [0, 1, 2, 3] := rfl
  simp only [Staged.code, Staged.upTo, directStages, stages, if_pos inRange, List.flatMap_cons, List.flatMap_nil,
    directStage, List.append_nil, List.append_assoc]

theorem inputCopies_executor : ∀ task ∈ inputCopies input rank, task.executorRank = rank := by
  intro task member
  unfold inputCopies at member
  split at member
  · rw [List.mem_singleton.mp member]
    rfl
  · cases member

theorem entry_executor : ∀ task ∈ entryPublishes input rank ++ entryWaits input rank, task.executorRank = rank := by
  intro task member
  rcases List.mem_append.mp member with publish | wait
  · obtain ⟨_, _, rfl⟩ := List.mem_map.mp publish
    rfl
  · obtain ⟨_, _, rfl⟩ := List.mem_map.mp wait
    rfl

/-- What a direct build leaves for each rank. -/
theorem directBuild_code {step : Int → BuildM Unit}
    (each : ∀ rank ∈ intRange input.worldSize, Lists cap (step rank) (work rank))
    (executors : ∀ rank ∈ intRange input.worldSize, ∀ task ∈ work rank, task.executorRank = rank)
    (ran : directBuild cap input step { plan := { worldSize := size } } = .ok ((), state)) (rank : Int) :
    (rankTasks state.plan rank).map TransferTask.unmarked = (directStages input work).code rank := by
  have regrouped : directBuild cap input step =
      (emitOptionalSliceCopies cap input >>= fun _ => emitEntryRendezvous cap input >>= fun _ =>
        (intRange input.worldSize).forM step) >>= fun _ => markLastTaskPerRankTerminal input.worldSize := by
    simp only [directBuild, bind_assoc]
  rw [regrouped] at ran
  have listed := (emitOptionalSliceCopies_lists cap input).bind
    ((emitEntryRendezvous_lists cap input).bind (Lists.forM (intRange input.worldSize) step work each))
  rw [listed.marked input.worldSize ran, List.filter_append, List.filter_append,
    filter_executor_flatMap _ (intRange_nodup _) _ fun _ _ => inputCopies_executor,
    filter_executor_flatMap _ (intRange_nodup _) _ fun _ _ => entry_executor,
    filter_executor_flatMap _ (intRange_nodup _) _ executors]
  by_cases inRange : rank ∈ intRange input.worldSize
  · rw [if_pos inRange, if_pos inRange, if_pos inRange, directStages_code inRange]
  · rw [if_neg inRange, if_neg inRange, if_neg inRange]
    simp only [Staged.code, Staged.upTo, directStages, if_neg inRange]
    exact (List.flatMap_eq_nil_iff.mpr fun _ _ => rfl).symm

theorem publishes_quiet : ∀ task ∈ publishTasks input rank waiters readyPhase, ¬movesData task := by
  intro task member
  obtain ⟨_, _, rfl⟩ := List.mem_map.mp member
  simp [movesData, makeReadyPublishTransferTask]

theorem wait_quiet : ¬movesData (waitTask input waiter owner readyPhase) := by
  simp [movesData, waitTask, makeReadyWaitTransferTask]

theorem entry_quiet : ∀ task ∈ entryPublishes input rank ++ entryWaits input rank, ¬movesData task := by
  intro task member
  rcases List.mem_append.mp member with publish | wait
  · exact publishes_quiet task publish
  · obtain ⟨_, _, rfl⟩ := List.mem_map.mp wait
    exact wait_quiet

theorem inputCopies_within :
    ∀ task ∈ inputCopies input rank, WithinSlice (sliceBeginBytes input rank) (sliceBytes input rank) task := by
  intro task member
  unfold inputCopies at member
  split at member
  · rw [List.mem_singleton.mp member]
    refine ⟨fun _ => rfl, fun _ => rfl, fun _ dst isDestination => ?_⟩
    rw [List.mem_singleton.mp (show dst ∈ [rankBufferRef rank (sliceBeginBytes input rank)] from isDestination)]
    rfl
  · cases member

/-- Work of a direct plan: data on the rank's own slice, and no signals. -/
structure SliceWorkload (input : TransferPlanBuildInput) (work : Int → List TransferTask) : Prop where
  executor : ∀ rank ∈ intRange input.worldSize, ∀ task ∈ work rank, task.executorRank = rank
  moves : ∀ rank ∈ intRange input.worldSize, ∀ task ∈ work rank, movesData task
  within : ∀ rank ∈ intRange input.worldSize, ∀ task ∈ work rank,
    WithinSlice (sliceBeginBytes input rank) (sliceBytes input rank) task

theorem directStage_within (workload : SliceWorkload input work) (inRange : rank ∈ intRange input.worldSize)
    (index : Nat) (member : task ∈ directStage input work index rank) :
    WithinSlice (sliceBeginBytes input rank) (sliceBytes input rank) task := by
  match index with
  | 0 => exact inputCopies_within task member
  | 1 => exact .quiet (entry_quiet task (List.mem_append_left _ member))
  | 2 => exact .quiet (entry_quiet task (List.mem_append_right _ member))
  | _ + 3 => exact workload.within rank inRange task member

theorem movesData_op (moves : movesData task) : task.op ≠ .readyPublish ∧ task.op ≠ .readyWait := by
  rcases moves with op | op | op | op <;> simp [op]

theorem copyTask_moves : movesData (copyTask input executorRank srcRank dstRank src dst bytes numWindows transport) :=
  Or.inl rfl

theorem inputCopies_moves : ∀ task ∈ inputCopies input rank, movesData task := by
  intro task member
  unfold inputCopies at member
  split at member
  · rw [List.mem_singleton.mp member]
    exact copyTask_moves
  · cases member

/-- A direct plan is staged: the entry rendezvous is answered, and slices keep ranks apart. -/
theorem directBuild_staged {step : Int → BuildM Unit} (fits : input.count * input.dtypeSize < 2 ^ 64)
    (each : ∀ rank ∈ intRange input.worldSize, Lists cap (step rank) (work rank))
    (workload : SliceWorkload input work)
    (ran : directBuild cap input step { plan := { worldSize := size } } = .ok ((), state)) :
    StagedPlan input.dtypeSize input.worldSize state.plan (directStages input work) where
  code := directBuild_code each workload.executor ran
  listed rank outside index := if_neg outside
  aligned index _ rank task member := by
    simp only [directStages] at member
    split at member
    · rename_i inRange
      have within := directStage_within workload inRange index member
      rw [sliceBeginBytes_eq fits inRange] at within
      exact within.aligned
    · cases member
  ownSignals index _ rank task member publish := by
    simp only [directStages] at member
    split at member
    · rename_i inRange
      match index with
      | 0 => exact absurd publish (movesData_op (inputCopies_moves task member)).1
      | 1 =>
        obtain ⟨_, _, rfl⟩ := List.mem_map.mp member
        rfl
      | 2 =>
        obtain ⟨_, _, rfl⟩ := List.mem_map.mp member
        cases publish
      | _ + 3 => exact absurd publish (movesData_op (workload.moves rank inRange task member)).1
    · cases member
  answered index _ rank wait member waits := by
    simp only [directStages] at member
    split at member
    · rename_i inRange
      match index with
      | 0 => exact absurd waits (movesData_op (inputCopies_moves wait member)).2
      | 1 =>
        obtain ⟨_, _, rfl⟩ := List.mem_map.mp member
        cases waits
      | 2 =>
        obtain ⟨peer, isPeer, rfl⟩ := List.mem_map.mp member
        have bounds := mem_peersOf.mp isPeer
        have listens : rank ∈ peersOf peer input.worldSize :=
          mem_peersOf.mpr ⟨mem_intRange.mp inRange, bounds.2.symm⟩
        have published : makeReadyPublishTransferTask peer (chooseReadySignalChannel input.topo rank peer) 0 0 ∈
            entryPublishes input peer :=
          List.mem_map_of_mem (mem_publishChannels input.topo peer listens)
        refine ⟨1, by decide, makeReadyPublishTransferTask peer (chooseReadySignalChannel input.topo rank peer) 0 0, ?_,
          rfl, rfl, rfl, le_refl _⟩
        change _ ∈ if peer ∈ intRange input.worldSize then entryPublishes input peer else []
        rw [if_pos (mem_intRange.mpr bounds.1)]
        exact published
      | _ + 3 => exact absurd waits (movesData_op (workload.moves rank inRange wait member)).2
    · cases member
  ordered earlier later first second apart _ _ := by
    refine Or.inl fun task member other memberOther buffer byte => ?_
    simp only [directStages] at member memberOther
    split at member
    · rename_i firstInRange
      split at memberOther
      · rename_i secondInRange
        have within := directStage_within workload firstInRange earlier member
        have withinOther := directStage_within workload secondInRange later memberOther
        constructor
        · rintro ⟨writes, accesses⟩
          exact slices_apart fits firstInRange secondInRange apart (within.writes writes) (withinOther.accesses accesses)
        · rintro ⟨writes, accesses⟩
          exact slices_apart fits firstInRange secondInRange apart (within.accesses accesses) (withinOther.writes writes)
      · cases memberOther
    · cases member

/-- Every finished run leaves in an element what its owner's tasks alone make of it. -/
theorem directStages_column {plan : TransferPlan} {M : Type} [AddCommMonoid M] {mem : BufferId → Nat → M}
    {state : State Int (Shared M)} (workload : SliceWorkload input work) (positive : 0 < input.dtypeSize)
    (fits : input.count * input.dtypeSize < 2 ^ 64)
    (stagedPlan : StagedPlan input.dtypeSize input.worldSize plan (directStages input work))
    (reached : (planProgram input.dtypeSize plan).Reachable (entryState mem) state)
    (finished : (planProgram input.dtypeSize plan).Finished state)
    (inRange : owner ∈ intRange input.worldSize) (owns : OwnsElement input owner index) :
    columnAt index state.shared =
      runBuffers (work owner) (runBuffers (inputCopies input owner) fun buffer => mem buffer index) := by
  have reachedUnmarked := (unmarkedProgram_reachable input.dtypeSize plan _ state).mpr reached
  have inside := (inSlice_owns positive fits inRange index).mpr owns
  have withinCode : ∀ rank ∈ intRange input.worldSize, ∀ task ∈ (directStages input work).code rank,
      WithinSlice (sliceBeginBytes input rank) (sliceBytes input rank) task := by
    intro rank rankInRange task member
    obtain ⟨stage, _, inStage⟩ := List.mem_flatMap.mp member
    simp only [directStages, if_pos rankInRange] at inStage
    exact directStage_within workload rankInRange stage inStage
  have sequential := Program.view_sequential (columnAt index) bufferEffect owner
    (fun task member shared => by
      change task ∈ (rankTasks plan owner).map TransferTask.unmarked at member
      rw [stagedPlan.code] at member
      exact columnAt_inside positive inside (withinCode owner inRange task member) shared)
    (fun other apart task member shared => by
      change task ∈ (rankTasks plan other).map TransferTask.unmarked at member
      rw [stagedPlan.code] at member
      by_cases otherInRange : other ∈ intRange input.worldSize
      · refine columnAt_outside (fun insideOther => apart ?_) (withinCode other otherInRange task member) shared
        exact owns_unique otherInRange inRange ((inSlice_owns positive fits otherInRange index).mp insideOther) owns
      · obtain ⟨stage, _, inStage⟩ := List.mem_flatMap.mp member
        rw [stagedPlan.listed other otherInRange] at inStage
        cases inStage)
    reachedUnmarked
  rw [((unmarkedProgram_finished input.dtypeSize plan state).mpr finished) owner, List.take_length] at sequential
  change _ = runBuffers ((rankTasks plan owner).map TransferTask.unmarked) fun buffer => mem buffer index at sequential
  rw [sequential, stagedPlan.code, directStages_code inRange, runBuffers_append, runBuffers_append,
    runBuffers_quiet entry_quiet]

end Plans

end Ooverlap.Semantics
