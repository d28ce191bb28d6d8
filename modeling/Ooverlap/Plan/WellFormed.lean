import Ooverlap.Plan.AllGather
import Ooverlap.Plan.AllReduceShape
import Ooverlap.Plan.ReduceScatter

/-! What every finished plan of the three planners guarantees about its task list. -/

namespace Ooverlap.Plan

open AllReduce

/-- After a terminal task its executor has no further task. -/
def TerminalsLast (tasks : List TransferTask) : Prop :=
  tasks.Pairwise fun earlier later => earlier.terminal = true → later.executorRank ≠ earlier.executorRank

/-- Every task starts at its first window. -/
def StartsAtZero (tasks : List TransferTask) : Prop :=
  ∀ task ∈ tasks, task.beginWindow = 0

structure WellFormed (tasks : List TransferTask) : Prop where
  terminals : TerminalsLast tasks
  starts : StartsAtZero tasks

section Marking

theorem mem_markedTerminal (member : task ∈ markedTerminal ranks tasks) :
    ∃ original ∈ tasks, ∃ terminal, task = original.setTerminal terminal := by
  induction tasks with
  | nil => cases member
  | cons head rest ih =>
    rcases List.mem_cons.mp member with rfl | later
    · exact ⟨head, List.mem_cons_self .., _, rfl⟩
    · obtain ⟨original, inRest, terminal, same⟩ := ih later
      exact ⟨original, List.mem_cons_of_mem _ inRest, terminal, same⟩

theorem markedTerminal_terminals (ranks : List Int) (cleared : ∀ task ∈ tasks, task.terminal = false) :
    TerminalsLast (markedTerminal ranks tasks) := by
  induction tasks with
  | nil => exact List.Pairwise.nil
  | cons head rest ih =>
    refine List.Pairwise.cons ?_ (ih fun task member => cleared task (List.mem_cons_of_mem _ member))
    intro later member marked
    obtain ⟨original, inRest, _, rfl⟩ := mem_markedTerminal member
    have quiet : head.terminal = false := cleared head (List.mem_cons_self ..)
    rw [TransferTask.setTerminal_terminal, quiet, Bool.false_or, decide_eq_true_eq] at marked
    exact marked.2 original inRest

theorem markLastTaskPerRankTerminal_wellFormed (starts : StartsAtZero state.plan.tasks)
    (marked : markLastTaskPerRankTerminal worldSize state = .ok ((), state')) :
    WellFormed state'.plan.tasks := by
  rw [markLastTaskPerRankTerminal_run] at marked
  cases marked
  refine ⟨markedTerminal_terminals _ fun task member => ?_, fun task member => ?_⟩
  · obtain ⟨original, _, rfl⟩ := List.mem_map.mp member
    rfl
  · obtain ⟨original, inCleared, _, rfl⟩ := mem_markedTerminal member
    obtain ⟨first, inPlan, rfl⟩ := List.mem_map.mp inCleared
    exact starts first inPlan

end Marking

section Passes

/-- A flushed task stands for one member of its group. -/
theorem flushFanoutGroup_represents (valid : FanoutGroup group) (flushed : task ∈ flushFanoutGroup group) :
    ∃ member ∈ group, task.executorRank = member.executorRank ∧ task.terminal = member.terminal := by
  rcases mem_flushFanoutGroup flushed with rfl | ⟨first, second, rest, rfl, rfl⟩
  · exact ⟨task, by simp, rfl, rfl⟩
  · have inRest : rest.getLastD second ∈ second :: rest := by
      rcases List.eq_nil_or_concat rest with rfl | ⟨init, final, rfl⟩ <;> simp
    obtain ⟨previous, shape⟩ := valid.shape first (second :: rest) rfl _ inRest
    have sameExecutor : (rest.getLastD second).executorRank = first.executorRank := by
      simp only [copyTasksShareFanoutShape, Bool.and_eq_true, beq_iff_eq] at shape
      exact shape.1.1.1.1.1.1.1.1.1.1.1.1.2
    exact ⟨rest.getLastD second, List.mem_cons_of_mem _ inRest, sameExecutor.symm, rfl⟩

theorem flushFanoutGroups_terminals (groups : List (List TransferTask))
    (each : ∀ members ∈ groups, FanoutGroup members) (terminals : TerminalsLast groups.flatten) :
    TerminalsLast (groups.flatMap flushFanoutGroup) := by
  induction groups with
  | nil => exact List.Pairwise.nil
  | cons group rest ih =>
    rw [List.flatten_cons] at terminals
    obtain ⟨here, later, across⟩ := List.pairwise_append.mp terminals
    have valid := each group (List.mem_cons_self ..)
    have ihRest := ih (fun members member => each members (List.mem_cons_of_mem _ member)) later
    rw [List.flatMap_cons]
    refine List.pairwise_append.mpr ⟨?_, ihRest, ?_⟩
    · match group with
      | [] => exact List.Pairwise.nil
      | [_] => exact here
      | _ :: _ :: _ => exact List.pairwise_singleton _ _
    · intro first inFlush second inRest marked
      obtain ⟨original, inGroup, sameFirst, terminal⟩ := flushFanoutGroup_represents valid inFlush
      obtain ⟨members, inGroups, flushed⟩ := List.mem_flatMap.mp inRest
      obtain ⟨other, inMembers, sameSecond, _⟩ := flushFanoutGroup_represents
        (each members (List.mem_cons_of_mem _ inGroups)) flushed
      rw [sameFirst, sameSecond]
      exact across original inGroup other (List.mem_flatten.mpr ⟨members, inGroups, inMembers⟩)
        (terminal ▸ marked)

theorem flushFanoutGroup_starts (starts : StartsAtZero group) : StartsAtZero (flushFanoutGroup group) := by
  intro task flushed
  rcases mem_flushFanoutGroup flushed with rfl | ⟨first, second, rest, rfl, rfl⟩
  · exact starts task (by simp)
  · exact starts first (by simp)

theorem coalesce_wellFormed (valid : WellFormed tasks) :
    WellFormed (coalesceAdjacentCopyTasksIntoFanout tasks) := by
  obtain ⟨groups, covers, each, flushed⟩ := coalesceFrom_groups fanoutGroup_nil tasks
  rw [List.nil_append] at covers
  rw [coalesceAdjacentCopyTasksIntoFanout, flushed]
  refine ⟨flushFanoutGroups_terminals groups each (covers ▸ valid.terminals), fun task member => ?_⟩
  obtain ⟨group, inGroups, inFlush⟩ := List.mem_flatMap.mp member
  refine flushFanoutGroup_starts (fun other inGroup => valid.starts other ?_) task inFlush
  rw [← covers]
  exact List.mem_flatten.mpr ⟨group, inGroups, inGroup⟩

theorem mem_withBarriers (member : task ∈ withBarriers previous tasks) :
    task ∈ tasks ∨ ∃ consumer ∈ tasks, task = barrierFor consumer := by
  induction tasks generalizing previous with
  | nil => cases member
  | cons consumer rest ih =>
    have shift : ∀ previous, task ∈ withBarriers previous rest →
        task ∈ consumer :: rest ∨ ∃ other ∈ consumer :: rest, task = barrierFor other := by
      intro previous inRest
      rcases ih inRest with original | ⟨other, inOther, same⟩
      · exact Or.inl (List.mem_cons_of_mem _ original)
      · exact Or.inr ⟨other, List.mem_cons_of_mem _ inOther, same⟩
    rw [withBarriers] at member
    split at member
    · rcases List.mem_cons.mp member with rfl | member
      · exact Or.inr ⟨consumer, List.mem_cons_self .., rfl⟩
      · rcases List.mem_cons.mp member with rfl | member
        · exact Or.inl (List.mem_cons_self ..)
        · exact shift _ member
    · rcases List.mem_cons.mp member with rfl | member
      · exact Or.inl (List.mem_cons_self ..)
      · exact shift _ member

theorem withBarriers_terminals (terminals : TerminalsLast tasks) (previous : List TransferTask) :
    TerminalsLast (withBarriers previous tasks) := by
  induction tasks generalizing previous with
  | nil => exact List.Pairwise.nil
  | cons consumer rest ih =>
    obtain ⟨here, later⟩ := List.pairwise_cons.mp terminals
    have apart : ∀ previous, ∀ task ∈ withBarriers previous rest, consumer.terminal = true →
        task.executorRank ≠ consumer.executorRank := by
      intro previous task member marked
      rcases mem_withBarriers member with original | ⟨other, inOther, rfl⟩
      · exact here task original marked
      · exact here other inOther marked
    rw [withBarriers]
    split
    · refine List.Pairwise.cons (fun task _ marked => ?_)
        (List.Pairwise.cons (apart _) (ih later _))
      cases marked
    · exact List.Pairwise.cons (apart _) (ih later _)

theorem withBarriers_wellFormed (valid : WellFormed tasks) (previous : List TransferTask) :
    WellFormed (withBarriers previous tasks) := by
  refine ⟨withBarriers_terminals valid.terminals previous, fun task member => ?_⟩
  rcases mem_withBarriers member with original | ⟨consumer, _, rfl⟩
  · exact valid.starts task original
  · rfl

theorem mem_renumberPhases (member : task ∈ renumberPhases phases tasks) :
    ∃ original ∈ tasks, ∃ phase, task = original.setPhase phase := by
  induction tasks generalizing phases with
  | nil => cases member
  | cons head rest ih =>
    have shift : ∀ phases, task ∈ renumberPhases phases rest →
        ∃ original ∈ head :: rest, ∃ phase, task = original.setPhase phase := by
      intro phases inRest
      obtain ⟨original, inOriginal, phase, same⟩ := ih inRest
      exact ⟨original, List.mem_cons_of_mem _ inOriginal, phase, same⟩
    rw [renumberPhases] at member
    split at member
    · rcases List.mem_cons.mp member with rfl | member
      · exact ⟨head, List.mem_cons_self .., _, rfl⟩
      · exact shift _ member
    · rcases List.mem_cons.mp member with rfl | member
      · exact ⟨task, List.mem_cons_self .., task.phase, rfl⟩
      · exact shift _ member

theorem renumberPhases_terminals (terminals : TerminalsLast tasks) (phases : Int → Int) :
    TerminalsLast (renumberPhases phases tasks) := by
  induction tasks generalizing phases with
  | nil => exact List.Pairwise.nil
  | cons head rest ih =>
    obtain ⟨here, later⟩ := List.pairwise_cons.mp terminals
    have apart : ∀ phases, ∀ task ∈ renumberPhases phases rest, head.terminal = true →
        task.executorRank ≠ head.executorRank := by
      intro phases task member marked
      obtain ⟨original, inRest, _, rfl⟩ := mem_renumberPhases member
      exact here original inRest marked
    rw [renumberPhases]
    split
    · exact List.Pairwise.cons (apart _) (ih later _)
    · exact List.Pairwise.cons (apart _) (ih later _)

theorem renumberPhases_wellFormed (valid : WellFormed tasks) (phases : Int → Int) :
    WellFormed (renumberPhases phases tasks) := by
  refine ⟨renumberPhases_terminals valid.terminals phases, fun task member => ?_⟩
  obtain ⟨original, inTasks, _, rfl⟩ := mem_renumberPhases member
  exact valid.starts original inTasks

theorem runAllreducePasses_wellFormed (valid : WellFormed state.plan.tasks)
    (ran : runAllreducePasses cap state = .ok ((), state')) : WellFormed state'.plan.tasks := by
  simp only [runAllreducePasses, insertLocalReduceCopyBarriers] at ran
  cases inserted : insertBarriersFrom cap [] (coalesceAdjacentCopyTasksIntoFanout state.plan.tasks) with
  | none =>
    rw [inserted] at ran
    cases ran
  | some result =>
    rw [inserted] at ran
    cases ran
    rw [insertBarriersFrom_eq inserted, List.nil_append]
    exact renumberPhases_wellFormed (withBarriers_wellFormed (coalesce_wellFormed valid) _) _

end Passes

/-- A planner step that only ever appends tasks starting at their first window. -/
structure KeepsStarts (step : BuildM α) : Prop where
  keeps : ∀ state value state', step state = .ok (value, state') → StartsAtZero state.plan.tasks →
    StartsAtZero state'.plan.tasks

namespace KeepsStarts

theorem pure (value : α) : KeepsStarts (Pure.pure value : BuildM α) where
  keeps _ _ _ ran starts := by
    cases ran
    exact starts

theorem abort : KeepsStarts (transferPlanAbortBuild : BuildM α) where
  keeps _ _ _ ran := by cases ran

theorem bind {step : BuildM α} {next : α → BuildM β} (first : KeepsStarts step)
    (second : ∀ value, KeepsStarts (next value)) : KeepsStarts (step >>= next) where
  keeps state result state' ran starts := by
    obtain ⟨value, middle, ranFirst, ranNext⟩ := BuildM.bind_ok ran
    exact (second value).keeps middle result state' ranNext (first.keeps state value middle ranFirst starts)

theorem forM (items : List α) (step : α → BuildM Unit) (each : ∀ item, KeepsStarts (step item)) :
    KeepsStarts (items.forM step) := by
  induction items with
  | nil => exact pure ()
  | cons item rest ih => exact bind (each item) fun _ => ih

theorem ite {condition : Prop} [Decidable condition] {step other : BuildM α} (first : KeepsStarts step)
    (second : KeepsStarts other) : KeepsStarts (if condition then step else other) := by
  split
  · exact first
  · exact second

/-- Pushing a task made from the executor's next phase. -/
theorem push (cap : Nat) (rank : Int) (task : Int → TransferTask) (starts : ∀ phase, (task phase).beginWindow = 0) :
    KeepsStarts (nextTaskPhase rank >>= fun phase => pushTaskOrAbort cap (task phase)) where
  keeps state value state' ran earlier := by
    by_cases room : state.plan.tasks.length + 1 ≤ cap
    · rw [(Emits.push cap rank task).ok state trivial room] at ran
      cases ran
      intro other member
      rcases List.mem_append.mp member with before | here
      · exact earlier other before
      · rw [List.mem_singleton.mp here]
        exact starts _
    · have full : state.plan.tasks.length ≥ cap := by omega
      simp [nextTaskPhase, pushTaskOrAbort, transferPlanPushFast, transferPlanAbortBuild, full,
        Bind.bind, StateT.bind, Except.bind] at ran

end KeepsStarts

section Emitters

open KeepsStarts

variable (cap : Nat) (input : TransferPlanBuildInput)

theorem pushCopyTask_keeps (executorRank srcRank dstRank : Int) (src dst : LogicalBufferRef) (bytes : Nat)
    (numWindows : Int) (transport : TransportKind) :
    KeepsStarts (pushCopyTask cap input executorRank srcRank dstRank src dst bytes numWindows transport) :=
  ite abort (push cap executorRank _ fun _ => rfl)

theorem pushReduceTask_keeps (executorRank srcRank dstRank : Int) (src dst : LogicalBufferRef) (bytes : Nat)
    (numWindows : Int) (transport : TransportKind) :
    KeepsStarts (pushReduceTask cap input executorRank srcRank dstRank src dst bytes numWindows transport) := by
  refine ite abort (push cap executorRank _ fun phase => ?_)
  unfold stagedReduceCapabilities
  split <;> rfl

theorem pushReadyWaitTask_keeps (waiterRank ownerRank readyPhase : Int) :
    KeepsStarts (pushReadyWaitTask cap input waiterRank ownerRank readyPhase) :=
  push cap waiterRank _ fun _ => rfl

theorem pushReadyPublishForWaiters_keeps (publisherRank : Int) (waiters : List Int) (readyPhase : Int) :
    KeepsStarts (pushReadyPublishForWaiters cap input publisherRank waiters readyPhase) :=
  forM _ _ fun _ => push cap publisherRank _ fun _ => rfl

theorem appendReadyRendezvousTasks_keeps (rank worldSize : Int) :
    KeepsStarts (appendReadyRendezvousTasks cap input.topo rank worldSize) :=
  ite (pure ()) (bind (forM _ _ fun _ => push cap rank _ fun _ => rfl) fun _ =>
    forM _ _ fun _ => push cap rank _ fun _ => rfl)

theorem emitEntryRendezvous_keeps : KeepsStarts (emitEntryRendezvous cap input) :=
  forM _ _ fun rank => appendReadyRendezvousTasks_keeps cap input rank input.worldSize

theorem emitOptionalSliceCopies_keeps : KeepsStarts (emitOptionalSliceCopies cap input) :=
  ite (pure ()) (forM _ _ fun _ => pushCopyTask_keeps ..)

theorem pushCopyFanoutTask_keeps (executorRank srcRank : Int) (dstRanks : List Int) (src : LogicalBufferRef)
    (fanoutDsts : List LogicalBufferRef) (bytes : Nat) (numWindows : Int) (transport : TransportKind) :
    KeepsStarts (AllGather.pushCopyFanoutTask cap input executorRank srcRank dstRanks src fanoutDsts bytes
      numWindows transport) :=
  ite abort (push cap executorRank _ fun _ => rfl)

theorem pushCopyBatchTask_keeps (executorRank srcRank : Int) (dstRanks : List Int) (src : LogicalBufferRef)
    (fanoutDsts : List LogicalBufferRef) (bytes : Nat) (numWindows : Int) (transport : TransportKind) :
    KeepsStarts (AllGather.pushCopyBatchTask cap input executorRank srcRank dstRanks src fanoutDsts bytes
      numWindows transport) := by
  unfold AllGather.pushCopyBatchTask
  split
  · exact pushCopyTask_keeps ..
  · exact pushCopyFanoutTask_keeps ..

theorem emitCopyBatches_keeps (transports : TransportMatrix) (srcRank : Int) (sliceBegin slice : Nat)
    (windows : Int) (batch : List Int) (batchTransport : TransportKind) (rest : List Int) :
    KeepsStarts (AllGather.emitCopyBatches cap input transports srcRank sliceBegin slice windows batch
      batchTransport rest) := by
  induction rest generalizing batch batchTransport with
  | nil => exact ite (pure ()) (pushCopyBatchTask_keeps ..)
  | cons dstRank rest ih =>
    exact ite (ih ..) (ite abort (ite abort (ite (bind (pushCopyBatchTask_keeps ..) fun _ => ih ..) (ih ..))))

theorem emitAllGatherSourceCopies_keeps (transports : TransportMatrix) (srcRank : Int) (candidates : List Int)
    (sliceBegin slice : Nat) (windows : Int) :
    KeepsStarts (AllGather.emitAllGatherSourceCopies cap input transports srcRank candidates sliceBegin slice
      windows) :=
  ite abort (ite (forM _ _ fun _ => ite abort (pushCopyTask_keeps ..)) (emitCopyBatches_keeps ..))

end Emitters

/-- A planner step that, started on an empty plan, leaves a well-formed one. -/
structure Finishes (step : BuildM Unit) : Prop where
  finishes : ∀ state state', step state = .ok ((), state') → StartsAtZero state.plan.tasks →
    WellFormed state'.plan.tasks

namespace Finishes

theorem abort : Finishes transferPlanAbortBuild where
  finishes _ _ ran := by cases ran

theorem mark (worldSize : Int) : Finishes (markLastTaskPerRankTerminal worldSize) where
  finishes _ _ ran starts := markLastTaskPerRankTerminal_wellFormed starts ran

theorem after {step : BuildM α} {next : α → BuildM Unit} (first : KeepsStarts step)
    (second : ∀ value, Finishes (next value)) : Finishes (step >>= next) where
  finishes state state' ran starts := by
    obtain ⟨value, middle, ranFirst, ranNext⟩ := BuildM.bind_ok ran
    exact (second value).finishes middle state' ranNext (first.keeps state value middle ranFirst starts)

theorem passes {step : BuildM Unit} (first : Finishes step) (cap : Nat) :
    Finishes (step >>= fun _ => runAllreducePasses cap) where
  finishes state state' ran starts := by
    obtain ⟨_, middle, ranFirst, ranNext⟩ := BuildM.bind_ok ran
    exact runAllreducePasses_wellFormed (first.finishes state middle ranFirst starts) ranNext

theorem ite {condition : Prop} [Decidable condition] (first : Finishes step) (second : Finishes other) :
    Finishes (if condition then step else other) := by
  split
  · exact first
  · exact second

variable (cap : Nat) (input : TransferPlanBuildInput) (transports : TransportMatrix)

open KeepsStarts in
theorem buildDirectReduceScatterPlan :
    Finishes (ReduceScatter.buildDirectReduceScatterPlan cap input transports) :=
  ite abort <| after (emitOptionalSliceCopies_keeps cap input) fun _ =>
    after (emitEntryRendezvous_keeps cap input) fun _ =>
    after (forM _ _ fun _ => forM _ _ fun _ => KeepsStarts.ite KeepsStarts.abort (pushReduceTask_keeps ..)) fun _ =>
    mark _

open KeepsStarts in
theorem buildStagedIslandReduceScatterPlan (islands : IslandPlan) :
    Finishes (ReduceScatter.buildStagedIslandReduceScatterPlan cap input transports islands) := by
  refine ite abort ?_
  split
  · exact abort
  · exact after (KeepsStarts.ite (pure ()) (forM _ _ fun _ => pushCopyTask_keeps ..)) fun _ =>
      after (emitEntryRendezvous_keeps cap input) fun _ =>
      after (forM _ _ fun _ => forM _ _ fun _ =>
        KeepsStarts.ite KeepsStarts.abort (pushReduceTask_keeps ..)) fun _ =>
      after (forM _ _ fun _ => bind (pushReadyPublishForWaiters_keeps ..) fun _ => forM _ _ fun _ =>
        bind (pushReadyWaitTask_keeps ..) fun _ => KeepsStarts.ite KeepsStarts.abort (pushCopyTask_keeps ..)) fun _ =>
      after (forM _ _ fun _ => KeepsStarts.ite KeepsStarts.abort
        (bind (pushCopyTask_keeps ..) fun _ => pushReadyPublishForWaiters_keeps ..)) fun _ =>
      after (forM _ _ fun _ => forM _ _ fun _ => forM _ _ fun _ =>
        bind (pushReadyWaitTask_keeps ..) fun _ => pushReduceTask_keeps ..) fun _ =>
      mark _

open KeepsStarts in
theorem buildDirectAllGatherPlan :
    Finishes (AllGather.buildDirectAllGatherPlan cap input transports) :=
  ite abort <| after (emitOptionalSliceCopies_keeps cap input) fun _ =>
    after (emitEntryRendezvous_keeps cap input) fun _ =>
    after (forM _ _ fun _ => emitAllGatherSourceCopies_keeps ..) fun _ =>
    mark _

open KeepsStarts in
theorem buildStagedIslandAllGatherPlan (islands : IslandPlan) :
    Finishes (AllGather.buildStagedIslandAllGatherPlan cap input transports islands) := by
  refine ite abort ?_
  split
  · exact abort
  · exact after (emitOptionalSliceCopies_keeps cap input) fun _ =>
      after (emitEntryRendezvous_keeps cap input) fun _ =>
      after (forM _ _ fun _ => forM _ _ fun _ => emitAllGatherSourceCopies_keeps ..) fun _ =>
      after (forM _ _ fun _ => forM _ _ fun _ =>
        bind (pushReadyPublishForWaiters_keeps ..) fun _ => pushReadyWaitTask_keeps ..) fun _ =>
      after (forM _ _ fun _ => KeepsStarts.ite KeepsStarts.abort
        (bind (pushCopyTask_keeps ..) fun _ => pushReadyPublishForWaiters_keeps ..)) fun _ =>
      after (forM _ _ fun _ => forM _ _ fun _ => bind (pushReadyWaitTask_keeps ..) fun _ =>
        bind (pushCopyTask_keeps ..) fun _ => pushReadyPublishForWaiters_keeps ..) fun _ =>
      after (forM _ _ fun _ => forM _ _ fun _ => forM _ _ fun _ =>
        bind (pushReadyWaitTask_keeps ..) fun _ => KeepsStarts.ite KeepsStarts.abort (pushCopyTask_keeps ..)) fun _ =>
      mark _

open KeepsStarts in
theorem buildDirectAllreducePlan : Finishes (buildDirectAllreducePlan cap input transports) :=
  after (forM _ _ fun rank => KeepsStarts.ite (pure ()) <|
    bind (KeepsStarts.ite (pushCopyTask_keeps ..) (pure ())) fun _ =>
    bind (appendReadyRendezvousTasks_keeps cap input rank input.worldSize) fun _ =>
    bind (forM _ _ fun _ => KeepsStarts.ite KeepsStarts.abort (pushReduceTask_keeps ..)) fun _ =>
    forM _ _ fun _ => KeepsStarts.ite KeepsStarts.abort (pushCopyTask_keeps ..)) fun _ =>
  mark _

open KeepsStarts in
theorem buildOutOfPlaceDirectAllreduceFanoutPlan :
    Finishes (buildOutOfPlaceDirectAllreduceFanoutPlan cap input transports) :=
  ite abort <| ite abort <| after (emitEntryRendezvous_keeps cap input) fun _ =>
    after (forM _ _ fun _ => KeepsStarts.ite KeepsStarts.abort <|
      KeepsStarts.ite KeepsStarts.abort (push cap _ _ fun _ => rfl)) fun _ =>
    mark _

open KeepsStarts in
theorem buildStagedIslandAllreducePlan (islands : IslandPlan) :
    Finishes (buildStagedIslandAllreducePlan cap input transports islands) := by
  refine ite abort ?_
  split
  · exact abort
  · exact after (KeepsStarts.ite (pure ()) (forM _ _ fun _ => pushCopyTask_keeps ..)) fun _ =>
      after (emitEntryRendezvous_keeps cap input) fun _ =>
      after (forM _ _ fun _ => forM _ _ fun _ =>
        KeepsStarts.ite KeepsStarts.abort (pushReduceTask_keeps ..)) fun _ =>
      after (forM _ _ fun _ => KeepsStarts.ite KeepsStarts.abort
        (bind (pushCopyTask_keeps ..) fun _ => pushReadyPublishForWaiters_keeps ..)) fun _ =>
      after (forM _ _ fun _ => forM _ _ fun _ =>
        bind (pushReadyWaitTask_keeps ..) fun _ => pushReduceTask_keeps ..) fun _ =>
      after (forM _ _ fun _ => bind (pushReadyPublishForWaiters_keeps ..) fun _ => forM _ _ fun _ =>
        bind (pushReadyWaitTask_keeps ..) fun _ => KeepsStarts.ite KeepsStarts.abort (pushCopyTask_keeps ..)) fun _ =>
      mark _

end Finishes

section Planners

variable {cap : Nat} {storage : TransferPlan} {input : TransferPlanBuildInput}

theorem runPlanner_wellFormed (finishes : Finishes planner)
    (built : (runPlanner planner storage input).1 = true) :
    WellFormed (runPlanner planner storage input).2.tasks := by
  obtain ⟨_, state, ran, left⟩ := runPlanner_ok built
  rw [left]
  exact finishes.finishes _ state ran fun task member => nomatch member

theorem planAllreduce_finishes : Finishes (planAllreduce cap input) := by
  unfold planAllreduce
  split
  · exact Finishes.abort
  · split
    · exact Finishes.abort
    · refine Finishes.ite ?_ (Finishes.ite Finishes.abort ?_)
      · exact Finishes.ite (Finishes.passes (Finishes.buildOutOfPlaceDirectAllreduceFanoutPlan ..) cap)
          (Finishes.passes (Finishes.buildDirectAllreducePlan ..) cap)
      · exact Finishes.passes (Finishes.buildStagedIslandAllreducePlan ..) cap

theorem planReduceScatter_finishes : Finishes (ReduceScatter.planReduceScatter cap input) := by
  unfold ReduceScatter.planReduceScatter
  split
  · exact Finishes.abort
  · split
    · exact Finishes.abort
    · exact Finishes.ite (Finishes.buildDirectReduceScatterPlan ..)
        (Finishes.buildStagedIslandReduceScatterPlan ..)

theorem planAllGather_finishes : Finishes (AllGather.planAllGather cap input) := by
  unfold AllGather.planAllGather
  split
  · exact Finishes.abort
  · split
    · exact Finishes.abort
    · exact Finishes.ite (Finishes.buildDirectAllGatherPlan ..)
        (Finishes.buildStagedIslandAllGatherPlan ..)

end Planners

end Ooverlap.Plan
