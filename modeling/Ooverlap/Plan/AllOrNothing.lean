import Ooverlap.Plan.AllReduceRanks
import Ooverlap.Plan.StagedAllReduce
import Ooverlap.Plan.StagingSlots
import Ooverlap.Plan.WellFormed

/-! All or nothing: a planner leaves a complete plan, or none at all. -/

namespace Ooverlap.Plan

open AllReduce

/-- A task is terminal exactly when its executor has no further one. -/
def EndsMarked : List TransferTask → Prop
  | [] => True
  | task :: rest =>
    (task.terminal = true ↔ task.executorRank ∉ rest.map TransferTask.executorRank) ∧ EndsMarked rest

section Marks

theorem endsMarked_markedTerminal (ranks : List Int) (inRange : ∀ task ∈ tasks, task.executorRank ∈ ranks)
    (cleared : ∀ task ∈ tasks, task.terminal = false) : EndsMarked (markedTerminal ranks tasks) := by
  induction tasks with
  | nil => trivial
  | cons task rest ih =>
    have own := inRange task (List.mem_cons_self ..)
    have quiet := cleared task (List.mem_cons_self ..)
    refine ⟨?_, ih (fun other member => inRange other (List.mem_cons_of_mem _ member)) fun other member =>
      cleared other (List.mem_cons_of_mem _ member)⟩
    rw [markedTerminal_executors, TransferTask.setTerminal_terminal, quiet, Bool.false_or, decide_eq_true_eq]
    simp [own]

/-- The tasks of one rank: the last is terminal and no other. -/
theorem EndsMarked.terminalLast (marked : EndsMarked tasks) (rank : Int)
    (busy : tasks.filter (fun task => task.executorRank = rank) ≠ []) :
    TerminalLast (tasks.filter fun task => task.executorRank = rank) := by
  induction tasks with
  | nil => exact absurd rfl busy
  | cons task rest ih =>
    obtain ⟨here, later⟩ := marked
    by_cases own : task.executorRank = rank
    · rw [List.filter_cons_of_pos (by simpa using own)]
      by_cases last : rest.filter (fun task => task.executorRank = rank) = []
      · have final : task.terminal = true := by
          refine here.mpr fun listed => ?_
          obtain ⟨other, member, same⟩ := List.mem_map.mp listed
          exact List.filter_eq_nil_iff.mp last other member (decide_eq_true (same.trans own))
        rw [last]
        exact ⟨[], task, rfl, by simp, final⟩
      · obtain ⟨other, member⟩ := List.exists_mem_of_ne_nil _ last
        obtain ⟨inRest, sameRank⟩ := List.mem_filter.mp member
        have quiet : task.terminal = false := by
          refine Bool.eq_false_iff.mpr fun terminal => here.mp terminal ?_
          exact List.mem_map.mpr ⟨other, inRest, (of_decide_eq_true sameRank).trans own.symm⟩
        have quietHead : ∀ first ∈ [task], first.terminal = false := by simpa using quiet
        exact TerminalLast.append_left quietHead (ih later last)
    · rw [List.filter_cons_of_neg (by simpa using own)] at busy ⊢
      exact ih later busy

theorem EndsMarked.append_right (init : List TransferTask) (marked : EndsMarked (init ++ tasks)) : EndsMarked tasks := by
  induction init with
  | nil => exact marked
  | cons task rest ih => exact ih marked.2

end Marks

section Passes

theorem AllReduce.FanoutGroup.uniform (valid : FanoutGroup (first :: rest)) :
    ∀ task ∈ first :: rest, task.executorRank = first.executorRank := by
  intro task member
  rcases List.mem_cons.mp member with rfl | later
  · rfl
  · obtain ⟨previous, shape⟩ := valid.shape first rest rfl task later
    simp only [copyTasksShareFanoutShape, Bool.and_eq_true, beq_iff_eq] at shape
    tauto

theorem getLastD_concat (first second : α) (rest : List α) :
    ∃ init, first :: second :: rest = init ++ [rest.getLastD second] := by
  rcases List.eq_nil_or_concat rest with rfl | ⟨init, final, rfl⟩
  · exact ⟨[first], rfl⟩
  · exact ⟨first :: second :: init, by simp⟩

/-- A flushed group still has the executor of each of its tasks. -/
theorem flushFanoutGroup_executors (valid : FanoutGroup group) (rank : Int) :
    rank ∈ (flushFanoutGroup group).map TransferTask.executorRank ↔ rank ∈ group.map TransferTask.executorRank := by
  match group with
  | [] => exact Iff.rfl
  | [_] => exact Iff.rfl
  | first :: second :: rest =>
    simp only [flushFanoutGroup, List.map_singleton, List.mem_singleton]
    constructor
    · rintro rfl
      exact List.mem_map.mpr ⟨first, List.mem_cons_self .., rfl⟩
    · intro listed
      obtain ⟨task, member, rfl⟩ := List.mem_map.mp listed
      exact valid.uniform task member

theorem flushFanoutGroups_executors (groups : List (List TransferTask)) (each : ∀ group ∈ groups, FanoutGroup group)
    (rank : Int) : rank ∈ (groups.flatMap flushFanoutGroup).map TransferTask.executorRank ↔
      rank ∈ groups.flatten.map TransferTask.executorRank := by
  induction groups with
  | nil => exact Iff.rfl
  | cons group rest ih =>
    rw [List.flatMap_cons, List.flatten_cons, List.map_append, List.map_append, List.mem_append, List.mem_append,
      flushFanoutGroup_executors (each group (List.mem_cons_self ..)),
      ih fun other member => each other (List.mem_cons_of_mem _ member)]

theorem flushFanoutGroups_endsMarked (groups : List (List TransferTask)) (each : ∀ group ∈ groups, FanoutGroup group)
    (marked : EndsMarked groups.flatten) : EndsMarked (groups.flatMap flushFanoutGroup) := by
  induction groups with
  | nil => trivial
  | cons group rest ih =>
    have eachRest : ∀ other ∈ rest, FanoutGroup other := fun other member => each other (List.mem_cons_of_mem _ member)
    rw [List.flatten_cons] at marked
    have later := ih eachRest (marked.append_right group)
    rw [List.flatMap_cons]
    match group with
    | [] => exact later
    | [task] =>
      refine ⟨marked.1.trans (not_congr ?_), later⟩
      exact (flushFanoutGroups_executors rest eachRest _).symm
    | first :: second :: others =>
      obtain ⟨init, whole⟩ := getLastD_concat first second others
      have inGroup : others.getLastD second ∈ first :: second :: others := by simp [whole]
      have executor := (each _ (List.mem_cons_self ..)).uniform _ inGroup
      have final : EndsMarked (others.getLastD second :: rest.flatten) := by
        rw [whole, List.append_assoc] at marked
        exact marked.append_right init
      have last := final.1
      rw [executor] at last
      exact ⟨last.trans (not_congr (flushFanoutGroups_executors rest eachRest _).symm), later⟩

theorem coalesce_endsMarked (marked : EndsMarked tasks) : EndsMarked (coalesceAdjacentCopyTasksIntoFanout tasks) := by
  obtain ⟨groups, covers, each, flushed⟩ := coalesceFrom_groups fanoutGroup_nil tasks
  rw [List.nil_append] at covers
  rw [coalesceAdjacentCopyTasksIntoFanout, flushed]
  exact flushFanoutGroups_endsMarked groups each (covers ▸ marked)

theorem mem_executors_withBarriers (previous tasks : List TransferTask) (rank : Int) :
    rank ∈ (withBarriers previous tasks).map TransferTask.executorRank ↔
      rank ∈ tasks.map TransferTask.executorRank := by
  induction tasks generalizing previous with
  | nil => exact Iff.rfl
  | cons consumer rest ih =>
    rw [withBarriers]
    split
    · simp only [List.map_cons, List.mem_cons, ih, barrierFor, or_self_left]
    · simp only [List.map_cons, List.mem_cons, ih]

/-- A barrier is not the last task of its executor, and it is not terminal. -/
theorem withBarriers_endsMarked (marked : EndsMarked tasks) (previous : List TransferTask) :
    EndsMarked (withBarriers previous tasks) := by
  induction tasks generalizing previous with
  | nil => trivial
  | cons consumer rest ih =>
    obtain ⟨here, later⟩ := marked
    rw [withBarriers]
    split
    · refine ⟨?_, here.trans (not_congr (mem_executors_withBarriers _ rest _).symm), ih later _⟩
      simp [barrierFor]
    · exact ⟨here.trans (not_congr (mem_executors_withBarriers _ rest _).symm), ih later _⟩

theorem renumberPhases_executors (phases : Int → Int) (tasks : List TransferTask) :
    (renumberPhases phases tasks).map TransferTask.executorRank = tasks.map TransferTask.executorRank := by
  have same := congrArg (List.map TransferTask.executorRank) (renumberPhases_unmarked phases tasks)
  rwa [List.map_map, List.map_map] at same

theorem renumberPhases_endsMarked (marked : EndsMarked tasks) (phases : Int → Int) :
    EndsMarked (renumberPhases phases tasks) := by
  induction tasks generalizing phases with
  | nil => trivial
  | cons task rest ih =>
    obtain ⟨here, later⟩ := marked
    rw [renumberPhases]
    split
    · refine ⟨?_, ih later _⟩
      rwa [renumberPhases_executors]
    · refine ⟨?_, ih later _⟩
      rwa [renumberPhases_executors]

/-- A task with work, of a rank of the group. -/
structure Effective (worldSize : Int) (task : TransferTask) : Prop where
  inRange : task.executorRank ∈ intRange worldSize
  hasWork : transferTaskHasWork task = true

theorem Effective.setTerminal (effective : Effective worldSize task) (terminal : Bool) :
    Effective worldSize (task.setTerminal terminal) :=
  ⟨effective.inRange, effective.hasWork⟩

theorem Effective.setPhase (effective : Effective worldSize task) (phase : Int) : Effective worldSize (task.setPhase phase) :=
  ⟨effective.inRange, effective.hasWork⟩

theorem data_hasWork (moves : task.op = .copy ∨ task.op = .reduce) : transferTaskHasWork task = true ↔
    0 ≤ task.executorRank ∧ task.bytes ≠ 0 ∧ 0 < task.windowChunks ∧ task.beginWindow < task.endWindow := by
  rcases moves with op | op <;> simp [transferTaskHasWork, op, and_assoc]

theorem fanout_hasWork (fans : task.op = .copyFanout ∨ task.op = .reduceFanout) : transferTaskHasWork task = true ↔
    (0 ≤ task.executorRank ∧ task.bytes ≠ 0 ∧ 0 < task.windowChunks ∧ task.beginWindow < task.endWindow) ∧
      0 < task.fanoutDstCount ∧ task.fanoutDstCount ≤ (tmaTwoGpuPeerMaxFanoutDsts : Int) := by
  rcases fans with op | op <;> simp [transferTaskHasWork, op, and_assoc]

theorem coalesce_effective (effective : ∀ task ∈ tasks, Effective worldSize task) :
    ∀ task ∈ coalesceAdjacentCopyTasksIntoFanout tasks, Effective worldSize task := by
  obtain ⟨groups, covers, each, flushed⟩ := coalesceFrom_groups fanoutGroup_nil tasks
  rw [List.nil_append] at covers
  rw [coalesceAdjacentCopyTasksIntoFanout, flushed]
  intro task member
  obtain ⟨group, inGroups, inFlush⟩ := List.mem_flatMap.mp member
  have inTasks : ∀ other ∈ group, Effective worldSize other := fun other inGroup =>
    effective other (covers ▸ List.mem_flatten.mpr ⟨group, inGroups, inGroup⟩)
  have valid := each group inGroups
  rcases mem_flushFanoutGroup inFlush with rfl | ⟨first, second, rest, rfl, rfl⟩
  · exact inTasks task (List.mem_singleton_self task)
  · have here := inTasks first (List.mem_cons_self ..)
    obtain ⟨previous, shape⟩ := valid.shape first (second :: rest) rfl second (List.mem_cons_self ..)
    have copies : first.op = .copy := by
      simp only [copyTasksShareFanoutShape, copyTaskIsFanoutEligible, Bool.and_eq_true, beq_iff_eq] at shape
      tauto
    have work := (data_hasWork (Or.inl copies)).mp here.hasWork
    have several : 0 < (first :: second :: rest).length := Nat.succ_pos _
    exact ⟨here.inRange, (fanout_hasWork (Or.inl rfl)).mpr
      ⟨work, Int.natCast_pos.mpr several, Int.ofNat_le.mpr valid.size⟩⟩

theorem withBarriers_effective (effective : ∀ task ∈ tasks, Effective worldSize task) (previous : List TransferTask) :
    ∀ task ∈ withBarriers previous tasks, Effective worldSize task := by
  induction tasks generalizing previous with
  | nil => exact fun _ none => nomatch none
  | cons consumer rest ih =>
    have here := effective consumer (List.mem_cons_self ..)
    have later := ih fun task member => effective task (List.mem_cons_of_mem _ member)
    rw [withBarriers]
    split
    · rename_i needed
      have someBytes : consumer.bytes ≠ 0 := by
        simp only [needsBarrier, Bool.and_eq_true, bne_iff_ne] at needed
        exact needed.1.1.1.2
      have barrier : Effective worldSize (barrierFor consumer) := by
        refine ⟨here.inRange, ?_⟩
        simpa [transferTaskHasWork, barrierFor, someBytes] using (mem_intRange.mp here.inRange).1
      exact List.forall_mem_cons.mpr ⟨barrier, List.forall_mem_cons.mpr ⟨here, later _⟩⟩
    · exact List.forall_mem_cons.mpr ⟨here, later _⟩

/-- A plan of effective tasks within capacity, each executor's last one terminal. -/
structure Finished (cap : Nat) (worldSize : Int) (tasks : List TransferTask) : Prop where
  room : tasks.length ≤ cap
  effective : ∀ task ∈ tasks, Effective worldSize task
  marked : EndsMarked tasks

theorem runAllreducePasses_finished (finished : Finished cap worldSize state.plan.tasks)
    (ran : runAllreducePasses cap state = .ok ((), state')) : Finished cap worldSize state'.plan.tasks := by
  have room := runAllreducePasses_length ran finished.room
  simp only [runAllreducePasses, insertLocalReduceCopyBarriers] at ran
  cases inserted : insertBarriersFrom cap [] (coalesceAdjacentCopyTasksIntoFanout state.plan.tasks) with
  | none =>
    rw [inserted] at ran
    cases ran
  | some result =>
    rw [inserted] at ran
    cases ran
    have whole := insertBarriersFrom_eq inserted
    rw [List.nil_append] at whole
    refine ⟨room, fun task member => ?_, ?_⟩
    · obtain ⟨original, inResult, phase, rfl⟩ := mem_renumberPhases member
      rw [whole] at inResult
      exact (withBarriers_effective (coalesce_effective finished.effective) [] original inResult).setPhase phase
    · rw [whole]
      exact renumberPhases_endsMarked (withBarriers_endsMarked (coalesce_endsMarked finished.marked) []) _

end Passes

/-- A planner step that adds effective tasks within capacity, or leaves the cleared plan. -/
structure Builds (cap : Nat) (worldSize : Int) (step : BuildM α) : Prop where
  room : ∀ state value state', step state = .ok (value, state') → state.plan.tasks.length ≤ cap →
    state'.plan.tasks.length ≤ cap
  effective : ∀ state value state', step state = .ok (value, state') → state.plan.tasks.length ≤ cap →
    (∀ task ∈ state.plan.tasks, Effective worldSize task) → ∀ task ∈ state'.plan.tasks, Effective worldSize task
  cleared : ∀ state plan, step state = .error plan → plan = {}

theorem BuildM.bind_error {step : BuildM α} {next : α → BuildM β} (failed : (step >>= next) state = .error plan) :
    step state = .error plan ∨ ∃ value middle, next value middle = .error plan := by
  change (step state >>= fun outcome => next outcome.1 outcome.2) = .error plan at failed
  cases outcome : step state with
  | error left =>
    rw [outcome] at failed
    cases failed
    exact Or.inl rfl
  | ok result =>
    rw [outcome] at failed
    exact Or.inr ⟨result.1, result.2, failed⟩

namespace Builds

variable {cap : Nat} {worldSize : Int}

theorem pure (value : α) : Builds cap worldSize (Pure.pure value : BuildM α) where
  room _ _ _ ran bounded := by
    cases ran
    exact bounded
  effective _ _ _ ran _ each := by
    cases ran
    exact each
  cleared _ _ failed := by cases failed

theorem abort : Builds cap worldSize (transferPlanAbortBuild : BuildM α) where
  room _ _ _ ran := by cases ran
  effective _ _ _ ran := by cases ran
  cleared _ _ failed := by
    cases failed
    rfl

theorem bind {step : BuildM α} {next : α → BuildM β} (first : Builds cap worldSize step)
    (second : ∀ value, Builds cap worldSize (next value)) : Builds cap worldSize (step >>= next) where
  room state result state' ran bounded := by
    obtain ⟨value, middle, ranFirst, ranNext⟩ := BuildM.bind_ok ran
    exact (second value).room middle result state' ranNext (first.room state value middle ranFirst bounded)
  effective state result state' ran bounded each := by
    obtain ⟨value, middle, ranFirst, ranNext⟩ := BuildM.bind_ok ran
    exact (second value).effective middle result state' ranNext (first.room state value middle ranFirst bounded)
      (first.effective state value middle ranFirst bounded each)
  cleared state plan failed := by
    rcases BuildM.bind_error failed with here | ⟨value, middle, later⟩
    · exact first.cleared state plan here
    · exact (second value).cleared middle plan later

theorem forM (items : List α) (step : α → BuildM Unit) (each : ∀ item ∈ items, Builds cap worldSize (step item)) :
    Builds cap worldSize (items.forM step) := by
  induction items with
  | nil => exact pure ()
  | cons item rest ih =>
    exact bind (each item (List.mem_cons_self ..)) fun _ => ih fun other member =>
      each other (List.mem_cons_of_mem _ member)

theorem guarded {condition : Prop} [Decidable condition] {step : BuildM α}
    (taken : ¬condition → Builds cap worldSize step) :
    Builds cap worldSize (if condition then transferPlanAbortBuild else step) := by
  split
  · exact abort
  · rename_i fails
    exact taken fails

theorem ite {condition : Prop} [Decidable condition] {step other : BuildM α} (first : Builds cap worldSize step)
    (second : Builds cap worldSize other) : Builds cap worldSize (if condition then step else other) := by
  split
  · exact first
  · exact second

/-- Pushing a task made from the executor's next phase. -/
theorem push (rank : Int) (make : Int → TransferTask) (effective : ∀ phase, Effective worldSize (make phase)) :
    Builds cap worldSize (nextTaskPhase rank >>= fun phase => pushTaskOrAbort cap (make phase)) where
  room state value state' ran bounded := by
    obtain ⟨_, fits, rfl⟩ := (Emits.push cap rank make).inversion bounded ran
    simpa [Emission.Fits, Emission.apply] using fits
  effective state value state' ran bounded each := by
    obtain ⟨_, _, rfl⟩ := (Emits.push cap rank make).inversion bounded ran
    exact List.forall_mem_append.mpr ⟨each, List.forall_mem_singleton.mpr (effective _)⟩
  cleared state plan failed := by
    by_cases room : state.plan.tasks.length + 1 ≤ cap
    · rw [(Emits.push cap rank make).ok state trivial room] at failed
      cases failed
    · have full : state.plan.tasks.length ≥ cap := by omega
      simp only [nextTaskPhase, pushTaskOrAbort, transferPlanPushFast, full, Bind.bind, StateT.bind, Except.bind,
        if_true] at failed
      cases failed
      rfl

end Builds

section Emitters

variable {cap : Nat} {input : TransferPlanBuildInput} {transports : TransportMatrix}

theorem pushCopyTask_builds (windowed : 0 < input.launchConfig.windowChunks)
    (own : executorRank ∈ intRange input.worldSize) (srcRank dstRank : Int) (src dst : LogicalBufferRef) (bytes : Nat)
    (numWindows : Int) (transport : TransportKind) :
    Builds cap input.worldSize
      (pushCopyTask cap input executorRank srcRank dstRank src dst bytes numWindows transport) := by
  refine Builds.guarded fun sized => Builds.push executorRank _ fun phase => ⟨own, ?_⟩
  obtain ⟨someBytes, someWindows⟩ := not_or.mp sized
  exact (data_hasWork (Or.inl rfl)).mpr ⟨(mem_intRange.mp own).1, someBytes, windowed, not_le.mp someWindows⟩

theorem pushReduceTask_builds (windowed : 0 < input.launchConfig.windowChunks)
    (own : executorRank ∈ intRange input.worldSize) (srcRank dstRank : Int) (src dst : LogicalBufferRef) (bytes : Nat)
    (numWindows : Int) (transport : TransportKind) :
    Builds cap input.worldSize
      (pushReduceTask cap input executorRank srcRank dstRank src dst bytes numWindows transport) := by
  refine Builds.guarded fun sized => Builds.push executorRank _ fun phase => ?_
  obtain ⟨someBytes, someWindows⟩ := not_or.mp sized
  have effective : Effective input.worldSize (makeReduceTransferTask executorRank srcRank dstRank src dst bytes numWindows
      input.launchConfig.windowChunks transport false phase) :=
    ⟨own, (data_hasWork (Or.inr rfl)).mpr ⟨(mem_intRange.mp own).1, someBytes, windowed, not_le.mp someWindows⟩⟩
  unfold stagedReduceCapabilities
  split
  · exact ⟨own, effective.hasWork⟩
  · exact effective

/-- Ready phases that a task can carry. -/
def PhaseFits (readyPhase : Int) : Prop :=
  0 ≤ readyPhase ∧ readyPhase < kReadySignalPhaseStride

theorem readyPublish_effective (own : rank ∈ intRange worldSize) (fits : PhaseFits readyPhase)
    (channel : ReadySignalChannel) (phase : Int) :
    Effective worldSize (makeReadyPublishTransferTask rank channel phase readyPhase) := by
  have bounds := (mem_intRange.mp own).1
  refine ⟨own, ?_⟩
  cases channel <;>
    simp [transferTaskHasWork, makeReadyPublishTransferTask, ReadySignalChannel.index, kReadySignalChannelCount, bounds,
      fits.1, fits.2]

theorem readyWait_effective (own : rank ∈ intRange worldSize) (owner : ownerRank ∈ intRange worldSize)
    (fits : PhaseFits readyPhase) (channel : ReadySignalChannel) (phase : Int) :
    Effective worldSize (makeReadyWaitTransferTask rank ownerRank channel phase readyPhase) := by
  have bounds := (mem_intRange.mp own).1
  have ownerBounds := (mem_intRange.mp owner).1
  refine ⟨own, ?_⟩
  cases channel <;>
    simp [transferTaskHasWork, makeReadyWaitTransferTask, ReadySignalChannel.index, kReadySignalChannelCount, bounds,
      ownerBounds, fits.1, fits.2]

theorem pushReadyPublishForWaiters_builds (own : publisherRank ∈ intRange input.worldSize) (waiters : List Int)
    (fits : PhaseFits readyPhase) :
    Builds cap input.worldSize (pushReadyPublishForWaiters cap input publisherRank waiters readyPhase) :=
  Builds.forM _ _ fun channel _ => Builds.push publisherRank _ (readyPublish_effective own fits channel)

theorem pushReadyWaitTask_builds (own : waiterRank ∈ intRange input.worldSize)
    (owner : ownerRank ∈ intRange input.worldSize) (fits : PhaseFits readyPhase) :
    Builds cap input.worldSize (pushReadyWaitTask cap input waiterRank ownerRank readyPhase) :=
  Builds.push waiterRank _ (readyWait_effective own owner fits _)

theorem entryPhase_fits : PhaseFits 0 := ⟨by decide, by decide⟩

theorem appendReadyRendezvousTasks_builds (own : rank ∈ intRange input.worldSize) :
    Builds cap input.worldSize (appendReadyRendezvousTasks cap input.topo rank input.worldSize) := by
  refine Builds.ite (Builds.pure ()) ((Builds.forM _ _ fun channel _ => ?_).bind fun _ =>
    Builds.forM _ _ fun peer isPeer => ?_)
  · exact Builds.push rank _ (readyPublish_effective own entryPhase_fits channel)
  · have peerInRange := mem_intRange.mpr (mem_peersOf.mp isPeer).1
    exact Builds.push rank _ (readyWait_effective own peerInRange entryPhase_fits _)

theorem emitEntryRendezvous_builds : Builds cap input.worldSize (emitEntryRendezvous cap input) :=
  Builds.forM _ _ fun _ inRange => appendReadyRendezvousTasks_builds inRange

theorem emitOptionalSliceCopies_builds (windowed : 0 < input.launchConfig.windowChunks) :
    Builds cap input.worldSize (emitOptionalSliceCopies cap input) :=
  Builds.ite (Builds.pure ()) (Builds.forM _ _ fun _ inRange => pushCopyTask_builds windowed inRange ..)

end Emitters

/-- A planner step that leaves a finished plan or the cleared one. -/
structure Completes (cap : Nat) (worldSize : Int) (step : BuildM Unit) : Prop where
  finished : ∀ state state', step state = .ok ((), state') → state.plan.tasks.length ≤ cap →
    (∀ task ∈ state.plan.tasks, Effective worldSize task) → Finished cap worldSize state'.plan.tasks
  cleared : ∀ state plan, step state = .error plan → plan = {}

namespace Completes

variable {cap : Nat} {worldSize : Int}

theorem abort : Completes cap worldSize transferPlanAbortBuild where
  finished _ _ ran := by cases ran
  cleared _ _ failed := by
    cases failed
    rfl

theorem mark : Completes cap worldSize (markLastTaskPerRankTerminal worldSize) where
  finished state state' ran bounded effective := by
    rw [markLastTaskPerRankTerminal_run] at ran
    cases ran
    refine ⟨?_, fun task member => ?_, endsMarked_markedTerminal _ (fun task member => ?_) fun task member => ?_⟩
    · simpa [markedTerminal_length] using bounded
    · obtain ⟨original, inCleared, terminal, rfl⟩ := mem_markedTerminal member
      obtain ⟨first, inPlan, rfl⟩ := List.mem_map.mp inCleared
      exact ((effective first inPlan).setTerminal false).setTerminal terminal
    · obtain ⟨first, inPlan, rfl⟩ := List.mem_map.mp member
      exact (effective first inPlan).inRange
    · obtain ⟨first, _, rfl⟩ := List.mem_map.mp member
      rfl
  cleared state plan failed := by
    rw [markLastTaskPerRankTerminal_run] at failed
    cases failed

theorem after {step : BuildM α} {next : α → BuildM Unit} (first : Builds cap worldSize step)
    (second : ∀ value, Completes cap worldSize (next value)) : Completes cap worldSize (step >>= next) where
  finished state state' ran bounded effective := by
    obtain ⟨value, middle, ranFirst, ranNext⟩ := BuildM.bind_ok ran
    exact (second value).finished middle state' ranNext (first.room state value middle ranFirst bounded)
      (first.effective state value middle ranFirst bounded effective)
  cleared state plan failed := by
    rcases BuildM.bind_error failed with here | ⟨value, middle, later⟩
    · exact first.cleared state plan here
    · exact (second value).cleared middle plan later

theorem passes (first : Completes cap worldSize step) :
    Completes cap worldSize (step >>= fun _ => runAllreducePasses cap) where
  finished state state' ran bounded effective := by
    obtain ⟨_, middle, ranFirst, ranNext⟩ := BuildM.bind_ok ran
    exact runAllreducePasses_finished (first.finished state middle ranFirst bounded effective) ranNext
  cleared state plan failed := by
    rcases BuildM.bind_error failed with here | ⟨_, middle, later⟩
    · exact first.cleared state plan here
    · unfold runAllreducePasses at later
      split at later
      · cases later
      · cases later
        rfl

theorem guarded {condition : Prop} [Decidable condition] (taken : ¬condition → Completes cap worldSize step) :
    Completes cap worldSize (if condition then transferPlanAbortBuild else step) := by
  split
  · exact abort
  · rename_i fails
    exact taken fails

theorem ite {condition : Prop} [Decidable condition] (first : Completes cap worldSize step)
    (second : Completes cap worldSize other) : Completes cap worldSize (if condition then step else other) := by
  split
  · exact first
  · exact second

end Completes

section Planners

variable {cap : Nat} {input : TransferPlanBuildInput} {transports : TransportMatrix} {islands : IslandPlan}

/-- Ready phases of islands stay below the stride: there are at most sixteen islands. -/
theorem islandPhase_fits (partition : Partition input.worldSize islands) (small : input.worldSize ≤ 16)
    (inRange : island ∈ intRange islands.islandCount) (base : Int) (lower : 0 ≤ base) (upper : base ≤ 512) :
    PhaseFits (base + island) := by
  have bounds := mem_intRange.mp inRange
  have few := partition.count_le
  unfold PhaseFits kReadySignalPhaseStride
  omega

namespace ReduceScatter

theorem buildDirectReduceScatterPlan_completes (windowed : 0 < input.launchConfig.windowChunks) :
    Completes cap input.worldSize (buildDirectReduceScatterPlan cap input transports) := by
  refine Completes.guarded fun _ => Completes.after (emitOptionalSliceCopies_builds windowed) fun _ =>
    Completes.after emitEntryRendezvous_builds fun _ => Completes.after (Builds.forM _ _ fun rank inRange => ?_) fun _ =>
    Completes.mark
  exact Builds.forM _ _ fun peer _ => Builds.guarded fun _ => pushReduceTask_builds windowed inRange ..

variable (windowed : 0 < input.launchConfig.windowChunks) (small : input.worldSize ≤ 16)
  (partition : Partition input.worldSize islands)

include windowed partition

theorem emitIntraIslandReductionsToLeaders_builds :
    Builds cap input.worldSize (emitIntraIslandReductionsToLeaders cap input transports islands) :=
  Builds.forM _ _ fun _ inRange => Builds.forM _ _ fun _ _ => Builds.guarded fun _ =>
    pushReduceTask_builds windowed (partition.leader_inRange inRange) ..

include small

theorem emitLocalLeaderPartialsToIslandRanks_builds :
    Builds cap input.worldSize (emitLocalLeaderPartialsToIslandRanks cap input transports islands) := by
  refine Builds.forM _ _ fun island inRange => ?_
  have leader := partition.leader_inRange inRange
  have fits := islandPhase_fits partition small inRange kReadyPhaseIslandLocalPartialBase (by decide) (by decide)
  refine (pushReadyPublishForWaiters_builds leader _ fits).bind fun _ => Builds.forM _ _ fun rank isMember => ?_
  have own := (partition.mem_members.mp isMember).1.1
  exact (pushReadyWaitTask_builds own leader fits).bind fun _ => Builds.guarded fun _ =>
    pushCopyTask_builds windowed own ..

theorem emitLeaderPartialsToStaging_builds :
    Builds cap input.worldSize (emitLeaderPartialsToStaging cap input islands) := by
  refine Builds.forM _ _ fun island inRange => Builds.guarded fun _ => ?_
  have leader := partition.leader_inRange inRange
  have fits := islandPhase_fits partition small inRange kReadyPhaseIslandStagedBase (by decide) (by decide)
  exact (pushCopyTask_builds windowed leader ..).bind fun _ => pushReadyPublishForWaiters_builds leader _ fits

theorem emitRemotePartialsToDestinationRanks_builds :
    Builds cap input.worldSize (emitRemotePartialsToDestinationRanks cap input islands) := by
  refine Builds.forM _ _ fun dstIsland inRange => Builds.forM _ _ fun dstRank isRank => Builds.forM _ _ fun srcIsland isPeer => ?_
  have srcInRange := mem_intRange.mpr (mem_peersOf.mp isPeer).1
  have own := (partition.mem_ranks.mp isRank).1
  have fits := islandPhase_fits partition small srcInRange kReadyPhaseIslandStagedBase (by decide) (by decide)
  exact (pushReadyWaitTask_builds own (partition.leader_inRange srcInRange) fits).bind fun _ =>
    pushReduceTask_builds windowed own ..

theorem buildStagedIslandReduceScatterPlan_completes :
    Completes cap input.worldSize (buildStagedIslandReduceScatterPlan cap input transports islands) := by
  refine Completes.guarded fun _ => ?_
  cases assigned : assignStagingSlots input islands (totalBytes input) with
  | none => exact Completes.abort
  | some slotted =>
    have slottedPartition := (assignStagingSlots_staged partition assigned).1.toPartition
    have inputs : Builds cap input.worldSize (emitReduceScatterOptionalFullCopiesForStagedPath cap input) :=
      Builds.ite (Builds.pure ()) (Builds.forM _ _ fun _ inRange => pushCopyTask_builds windowed inRange ..)
    exact Completes.after inputs fun _ => Completes.after emitEntryRendezvous_builds fun _ =>
      Completes.after (emitIntraIslandReductionsToLeaders_builds windowed slottedPartition) fun _ =>
      Completes.after (emitLocalLeaderPartialsToIslandRanks_builds windowed small slottedPartition) fun _ =>
      Completes.after (emitLeaderPartialsToStaging_builds windowed small slottedPartition) fun _ =>
      Completes.after (emitRemotePartialsToDestinationRanks_builds windowed small slottedPartition) fun _ =>
      Completes.mark

omit partition in
theorem planReduceScatter_completes : Completes cap input.worldSize (planReduceScatter cap input) := by
  unfold planReduceScatter
  cases buildTransportMatrix input.topo input.worldSize with
  | none => exact Completes.abort
  | some transports =>
    dsimp only
    cases grouped : buildIslands input transports with
    | none => exact Completes.abort
    | some islands =>
      exact Completes.ite (buildDirectReduceScatterPlan_completes windowed)
        (buildStagedIslandReduceScatterPlan_completes windowed small (buildIslands_partition input transports grouped))

end ReduceScatter

namespace AllGather

variable (windowed : 0 < input.launchConfig.windowChunks) (small : input.worldSize ≤ 16)
  (partition : Partition input.worldSize islands)

include windowed

theorem pushCopyBatchTask_builds (own : srcRank ∈ intRange input.worldSize) (dstRanks : List Int)
    (src : LogicalBufferRef) (fanoutDsts : List LogicalBufferRef) (bytes : Nat) (numWindows : Int)
    (transport : TransportKind) :
    Builds cap input.worldSize
      (pushCopyBatchTask cap input srcRank srcRank dstRanks src fanoutDsts bytes numWindows transport) := by
  unfold pushCopyBatchTask
  split
  · exact pushCopyTask_builds windowed own ..
  · refine Builds.guarded fun accepted => Builds.push srcRank _ fun phase => ⟨own, ?_⟩
    simp only [not_or] at accepted
    obtain ⟨some, few, someBytes, someWindows, _⟩ := accepted
    exact (fanout_hasWork (Or.inl rfl)).mpr
      ⟨⟨(mem_intRange.mp own).1, someBytes, windowed, not_le.mp someWindows⟩,
        Int.natCast_pos.mpr (Nat.pos_of_ne_zero some), Int.ofNat_le.mpr (not_lt.mp few)⟩

theorem emitCopyBatches_builds (own : srcRank ∈ intRange input.worldSize) (beginBytes bytes : Nat) (numWindows : Int)
    (pending batch : List Int) (batchTransport : TransportKind) :
    Builds cap input.worldSize
      (emitCopyBatches cap input transports srcRank beginBytes bytes numWindows batch batchTransport pending) := by
  induction pending generalizing batch batchTransport with
  | nil => exact Builds.ite (Builds.pure ()) (pushCopyBatchTask_builds windowed own ..)
  | cons dstRank rest ih =>
    unfold emitCopyBatches
    refine Builds.ite (ih batch batchTransport) (Builds.guarded fun _ => Builds.guarded fun _ => Builds.ite ?_ (ih ..))
    exact (pushCopyBatchTask_builds windowed own ..).bind fun _ => ih ..

theorem emitAllGatherSourceCopies_builds (own : srcRank ∈ intRange input.worldSize) (candidates : List Int)
    (beginBytes bytes : Nat) (numWindows : Int) :
    Builds cap input.worldSize
      (emitAllGatherSourceCopies cap input transports srcRank candidates beginBytes bytes numWindows) :=
  Builds.guarded fun _ => Builds.ite
    (Builds.forM _ _ fun _ _ => Builds.guarded fun _ => pushCopyTask_builds windowed own ..)
    (emitCopyBatches_builds windowed own ..)

theorem buildDirectAllGatherPlan_completes :
    Completes cap input.worldSize (buildDirectAllGatherPlan cap input transports) :=
  Completes.guarded fun _ => Completes.after (emitOptionalSliceCopies_builds windowed) fun _ =>
    Completes.after emitEntryRendezvous_builds fun _ =>
    Completes.after (Builds.forM _ _ fun _ inRange => emitAllGatherSourceCopies_builds windowed inRange ..) fun _ =>
    Completes.mark

include partition

theorem emitIntraIslandAllGather_builds :
    Builds cap input.worldSize (emitIntraIslandAllGather cap input transports islands) :=
  Builds.forM _ _ fun _ _ => Builds.forM _ _ fun _ isRank =>
    emitAllGatherSourceCopies_builds windowed (partition.mem_ranks.mp isRank).1 ..

omit windowed in
theorem emitIslandGatherDoneSync_builds : Builds cap input.worldSize (emitIslandGatherDoneSync cap input islands) := by
  refine Builds.forM _ _ fun island inRange => Builds.forM _ _ fun rank isMember => ?_
  have leader := partition.leader_inRange inRange
  have own := (partition.mem_members.mp isMember).1.1
  have fits : PhaseFits kReadyPhaseIslandGatherDone := ⟨by decide, by decide⟩
  exact (pushReadyPublishForWaiters_builds own _ fits).bind fun _ => pushReadyWaitTask_builds leader own fits

include small

omit windowed in
theorem remoteLeaderReadyPhase_fits (srcInRange : srcIsland ∈ intRange islands.islandCount)
    (dstInRange : dstIsland ∈ intRange islands.islandCount) : PhaseFits (remoteLeaderReadyPhase srcIsland dstIsland) := by
  have src := mem_intRange.mp srcInRange
  have few := partition.count_le
  have base : kReadyPhaseRemoteLeaderHasBase + srcIsland * (kPlannerMaxRanks : Int) = 18 + srcIsland * 16 := rfl
  refine islandPhase_fits partition small dstInRange _ ?_ ?_
  · rw [base]
    omega
  · rw [base]
    omega

theorem emitIslandBlocksToStaging_builds : Builds cap input.worldSize (emitIslandBlocksToStaging cap input islands) := by
  refine Builds.forM _ _ fun srcIsland inRange => Builds.guarded fun _ => ?_
  have leader := partition.leader_inRange inRange
  have fits := islandPhase_fits partition small inRange kReadyPhaseIslandStagedBase (by decide) (by decide)
  exact (pushCopyTask_builds windowed leader ..).bind fun _ => pushReadyPublishForWaiters_builds leader _ fits

theorem emitRemoteStagingToDestinationLeaders_builds :
    Builds cap input.worldSize (emitRemoteStagingToDestinationLeaders cap input islands) := by
  refine Builds.forM _ _ fun dstIsland inRange => Builds.forM _ _ fun srcIsland isPeer => ?_
  have srcInRange := mem_intRange.mpr (mem_peersOf.mp isPeer).1
  have leader := partition.leader_inRange inRange
  have staged := islandPhase_fits partition small srcInRange kReadyPhaseIslandStagedBase (by decide) (by decide)
  have arrived := remoteLeaderReadyPhase_fits small partition srcInRange inRange
  exact (pushReadyWaitTask_builds leader (partition.leader_inRange srcInRange) staged).bind fun _ =>
    (pushCopyTask_builds windowed leader ..).bind fun _ => pushReadyPublishForWaiters_builds leader _ arrived

theorem emitDestinationLeaderToIslandRanks_builds :
    Builds cap input.worldSize (emitDestinationLeaderToIslandRanks cap input transports islands) := by
  refine Builds.forM _ _ fun dstIsland inRange => Builds.forM _ _ fun srcIsland isPeer => Builds.forM _ _ fun dstRank isMember => ?_
  have srcInRange := mem_intRange.mpr (mem_peersOf.mp isPeer).1
  have own := (partition.mem_members.mp isMember).1.1
  have arrived := remoteLeaderReadyPhase_fits small partition srcInRange inRange
  exact (pushReadyWaitTask_builds own (partition.leader_inRange inRange) arrived).bind fun _ => Builds.guarded fun _ =>
    pushCopyTask_builds windowed own ..

theorem buildStagedIslandAllGatherPlan_completes :
    Completes cap input.worldSize (buildStagedIslandAllGatherPlan cap input transports islands) := by
  refine Completes.guarded fun _ => ?_
  cases assigned : assignStagingSlots input islands with
  | none => exact Completes.abort
  | some slotted =>
    have slottedPartition := (assignStagingSlotsFrom_staged input _ partition assigned).1.toPartition
    exact Completes.after (emitOptionalSliceCopies_builds windowed) fun _ =>
      Completes.after emitEntryRendezvous_builds fun _ =>
      Completes.after (emitIntraIslandAllGather_builds windowed slottedPartition) fun _ =>
      Completes.after (emitIslandGatherDoneSync_builds slottedPartition) fun _ =>
      Completes.after (emitIslandBlocksToStaging_builds windowed small slottedPartition) fun _ =>
      Completes.after (emitRemoteStagingToDestinationLeaders_builds windowed small slottedPartition) fun _ =>
      Completes.after (emitDestinationLeaderToIslandRanks_builds windowed small slottedPartition) fun _ =>
      Completes.mark

omit partition in
theorem planAllGather_completes : Completes cap input.worldSize (planAllGather cap input) := by
  unfold planAllGather
  cases buildTransportMatrix input.topo input.worldSize with
  | none => exact Completes.abort
  | some transports =>
    dsimp only
    cases grouped : buildAllGatherIslands input transports with
    | none => exact Completes.abort
    | some islands =>
      exact Completes.ite (buildDirectAllGatherPlan_completes windowed)
        (buildStagedIslandAllGatherPlan_completes windowed small
          (buildAllGatherIslands_contiguous input transports grouped).toPartition)

end AllGather

namespace AllReduce

variable (windowed : 0 < input.launchConfig.windowChunks) (small : input.worldSize ≤ 16)
  (partition : Partition input.worldSize islands)

include windowed

theorem buildDirectAllreducePlan_completes :
    Completes cap input.worldSize (buildDirectAllreducePlan cap input transports) := by
  refine Completes.after (Builds.forM _ _ fun rank own => Builds.ite (Builds.pure ()) ?_) fun _ => Completes.mark
  have locals : Builds cap input.worldSize (emitOptionalSliceCopy cap input rank (sliceBeginBytes input rank)
      (sliceBytes input rank) (sliceWindows input rank)) :=
    Builds.ite (pushCopyTask_builds windowed own ..) (Builds.pure ())
  refine locals.bind fun _ => (appendReadyRendezvousTasks_builds own).bind fun _ =>
    (Builds.forM _ _ fun peer _ => Builds.guarded fun _ => ?_).bind fun _ =>
    Builds.forM _ _ fun peer _ => Builds.guarded fun _ => ?_
  · exact pushReduceTask_builds windowed own ..
  · exact pushCopyTask_builds windowed own ..

theorem buildOutOfPlaceDirectAllreduceFanoutPlan_completes :
    Completes cap input.worldSize (buildOutOfPlaceDirectAllreduceFanoutPlan cap input transports) := by
  refine Completes.guarded fun _ => Completes.guarded fun _ => Completes.after emitEntryRendezvous_builds fun _ =>
    Completes.after (Builds.forM _ _ fun rank own => Builds.guarded fun _ => Builds.guarded fun accepted =>
      Builds.push rank _ fun phase => ⟨own, ?_⟩) fun _ => Completes.mark
  simp only [not_or] at accepted
  obtain ⟨some, few, someBytes, someWindows⟩ := accepted
  exact (fanout_hasWork (Or.inr rfl)).mpr
    ⟨⟨(mem_intRange.mp own).1, someBytes, windowed, not_le.mp someWindows⟩,
      Int.natCast_pos.mpr (Nat.pos_of_ne_zero some), Int.ofNat_le.mpr (not_lt.mp few)⟩

variable {bytes : Nat} {numWindows : Int}

include partition

theorem emitIntraIslandReductionsToLeaders_builds :
    Builds cap input.worldSize (emitIntraIslandReductionsToLeaders cap input transports islands bytes numWindows) :=
  Builds.forM _ _ fun _ inRange => Builds.forM _ _ fun _ _ => Builds.guarded fun _ =>
    pushReduceTask_builds windowed (partition.leader_inRange inRange) ..

include small

theorem emitLeaderPartialsToStaging_builds :
    Builds cap input.worldSize (emitLeaderPartialsToStaging cap input islands bytes numWindows) := by
  refine Builds.forM _ _ fun island inRange => Builds.guarded fun _ => ?_
  have leader := partition.leader_inRange inRange
  have fits := islandPhase_fits partition small inRange kReadyPhaseIslandPartialStagedBase (by decide) (by decide)
  exact (pushCopyTask_builds windowed leader ..).bind fun _ => pushReadyPublishForWaiters_builds leader _ fits

theorem emitRemotePartialsToDestinationLeaders_builds :
    Builds cap input.worldSize (emitRemotePartialsToDestinationLeaders cap input islands bytes numWindows) := by
  refine Builds.forM _ _ fun dstIsland inRange => Builds.forM _ _ fun srcIsland isPeer => ?_
  have srcInRange := mem_intRange.mpr (mem_peersOf.mp isPeer).1
  have leader := partition.leader_inRange inRange
  have fits := islandPhase_fits partition small srcInRange kReadyPhaseIslandPartialStagedBase (by decide) (by decide)
  exact (pushReadyWaitTask_builds leader (partition.leader_inRange srcInRange) fits).bind fun _ =>
    pushReduceTask_builds windowed leader ..

theorem emitLeaderFinalToIslandRanks_builds :
    Builds cap input.worldSize (emitLeaderFinalToIslandRanks cap input transports islands bytes numWindows) := by
  refine Builds.forM _ _ fun island inRange => ?_
  have leader := partition.leader_inRange inRange
  have fits := islandPhase_fits partition small inRange kReadyPhaseIslandFinalBase (by decide) (by decide)
  refine (pushReadyPublishForWaiters_builds leader _ fits).bind fun _ => Builds.forM _ _ fun rank isMember => ?_
  have own := (partition.mem_members.mp isMember).1.1
  exact (pushReadyWaitTask_builds own leader fits).bind fun _ => Builds.guarded fun _ =>
    pushCopyTask_builds windowed own ..

theorem buildStagedIslandAllreducePlan_completes :
    Completes cap input.worldSize (buildStagedIslandAllreducePlan cap input transports islands) := by
  refine Completes.guarded fun _ => ?_
  cases assigned : assignStagingSlots input islands (totalBytes input) with
  | none => exact Completes.abort
  | some slotted =>
    have slottedPartition := (assignStagingSlots_staged partition assigned).1.toPartition
    have inputs : Builds cap input.worldSize (emitOptionalLocalCopies cap input (totalBytes input)
        (windowCountForTransferBytes (totalBytes input) input.launchConfig)) :=
      Builds.ite (Builds.pure ()) (Builds.forM _ _ fun _ inRange => pushCopyTask_builds windowed inRange ..)
    exact Completes.after inputs fun _ => Completes.after emitEntryRendezvous_builds fun _ =>
      Completes.after (emitIntraIslandReductionsToLeaders_builds windowed slottedPartition) fun _ =>
      Completes.after (emitLeaderPartialsToStaging_builds windowed small slottedPartition) fun _ =>
      Completes.after (emitRemotePartialsToDestinationLeaders_builds windowed small slottedPartition) fun _ =>
      Completes.after (emitLeaderFinalToIslandRanks_builds windowed small slottedPartition) fun _ =>
      Completes.mark

omit partition in
theorem planAllreduce_completes : Completes cap input.worldSize (planAllreduce cap input) := by
  unfold planAllreduce
  cases buildTransportMatrix input.topo input.worldSize with
  | none => exact Completes.abort
  | some transports =>
    dsimp only
    cases grouped : buildIslands input transports with
    | none => exact Completes.abort
    | some islands =>
      have partition := buildIslands_partition input transports grouped
      refine Completes.ite ?_ (Completes.guarded fun _ => ?_)
      · cases input.outOfPlace with
        | false => exact (buildDirectAllreducePlan_completes windowed).passes
        | true => exact (buildOutOfPlaceDirectAllreduceFanoutPlan_completes windowed).passes
      · exact (buildStagedIslandAllreducePlan_completes windowed small partition).passes

end AllReduce

/-- A plan within capacity whose tasks have work; of each rank's tasks the last is terminal and no other. -/
structure CompletePlan (cap : Nat) (plan : TransferPlan) : Prop where
  room : plan.tasks.length ≤ cap
  work : ∀ task ∈ plan.tasks, transferTaskHasWork task = true
  terminals : ∀ rank, rankTasks plan rank ≠ [] → TerminalLast (rankTasks plan rank)

def PlannedOrEmpty (cap : Nat) (result : Bool × TransferPlan) : Prop :=
  (result.1 = true ∧ CompletePlan cap result.2) ∨ result = (false, {})

theorem runPlanner_plannedOrEmpty (valid : validBuildInput input = true)
    (completes : Completes cap input.worldSize planner) (storage : TransferPlan) :
    PlannedOrEmpty cap (runPlanner planner storage input) := by
  have accepted : ¬(!validBuildInput input) = true := by simp [valid]
  unfold runPlanner
  rw [if_neg accepted]
  cases ran : planner { plan := { worldSize := input.worldSize } } with
  | error plan =>
    have empty := completes.cleared _ plan ran
    subst empty
    exact Or.inr rfl
  | ok result =>
    have finished := completes.finished _ result.2 ran (Nat.zero_le cap) fun _ none => nomatch none
    exact Or.inl ⟨rfl, finished.room, fun task member => (finished.effective task member).hasWork,
      fun rank busy => finished.marked.terminalLast rank busy⟩

end Planners

end Ooverlap.Plan
