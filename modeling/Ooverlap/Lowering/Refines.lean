import Ooverlap.Lowering.Emission
import Ooverlap.Lowering.Execute
import Ooverlap.Lowering.Payload
import Ooverlap.Plan.WellFormed

/-! The stripes that the CTAs execute carry out exactly the transfer tasks of the rank. -/

namespace Ooverlap.Lowering

open Plan

/-- A plan that one of the three planners has built. -/
inductive Planned : TransferPlan → Prop
  | allreduce (built : (AllReduce.buildAllreduceTransferPlan cap input storage).1 = true) :
    Planned (AllReduce.buildAllreduceTransferPlan cap input storage).2
  | reduceScatter (built : (ReduceScatter.buildReduceScatterTransferPlan cap input storage).1 = true) :
    Planned (ReduceScatter.buildReduceScatterTransferPlan cap input storage).2
  | allGather (built : (AllGather.buildAllGatherTransferPlan cap input storage).1 = true) :
    Planned (AllGather.buildAllGatherTransferPlan cap input storage).2

theorem Planned.wellFormed (planned : Planned plan) : WellFormed plan.tasks := by
  cases planned with
  | allreduce built => exact runPlanner_wellFormed planAllreduce_finishes built
  | reduceScatter built => exact runPlanner_wellFormed planReduceScatter_finishes built
  | allGather built => exact runPlanner_wellFormed planAllGather_finishes built

theorem executableTasks_terminal (terminals : TerminalsLast plan.tasks)
    (found : (executableTasks plan rank)[index]? = some task) (terminal : task.terminal = true) :
    index + 1 = (executableTasks plan rank).length := by
  have bound := (List.getElem?_eq_some_iff.mp found).1
  by_contra notLast
  have next : index + 1 < (executableTasks plan rank).length := by omega
  have pairs : TerminalsLast (executableTasks plan rank) := (terminals.filter _).filter _
  have apart := List.pairwise_iff_getElem.mp pairs index (index + 1) bound next (Nat.lt_succ_self index)
  have own : ∀ other ∈ executableTasks plan rank, other.executorRank = rank := by
    intro other member
    exact of_decide_eq_true (List.mem_filter.mp (List.mem_of_mem_filter member)).2
  have here : (executableTasks plan rank)[index] = task := (List.getElem?_eq_some_iff.mp found).2
  rw [here] at apart
  exact apart terminal ((own _ (List.getElem_mem next)).trans (own _ (List.mem_of_getElem? found)).symm)

section Performed

variable {limits : LoweringLimits} {plan : TransferPlan} {binding : RankPointerBinding}
  {options : LoweringPassOptions} {windowPlan destination : WindowTaskExecutorPlan}
  {ctx : LoweringContext} {buffer : RankTransferTaskBuffer} {shape : LoweringShape}

theorem Launches.complete (launches : Launches limits plan binding options windowPlan ctx buffer shape) :
    Complete windowPlan shape.ctaCount.toNat buffer.tasks.length := by
  obtain ⟨_, _, _, _, _, shaped, emitted⟩ := launches
  have count : (shape.ctaCount.toNat : Int) = shape.ctaCount := by
    have launched := shaped.ctas.1
    omega
  have width := shaped.tasksPerCta
  have nonempty := shaped.nonempty
  refine ⟨by omega, emitted.tasksPerCta.trans width, ?_, ?_⟩
  · rw [emitted.totalTasks, shaped.total, count, width]
  · intro ctaIdx below position within
    obtain ⟨task, found, _⟩ :=
      emitted.slot ctaIdx (by omega) position _ (List.getElem?_eq_getElem within)
    exact Option.isSome_iff_exists.mpr ⟨task, found⟩

/-- What one CTA performs of the transfer task at a position. -/
inductive Performs (limits : LoweringLimits) (binding : RankPointerBinding) (ctx : LoweringContext)
    (shape : LoweringShape) (buffer : RankTransferTaskBuffer) (ctaIdx : Nat) (index : Nat)
    (transfer : TransferTask) : WindowTask → Prop
  | barrier (active : activeBarrier ctx buffer.tasks shape.ctaCount index transfer = true) :
    Performs limits binding ctx shape buffer ctaIdx index transfer
      (makeBarrierTask (barrierTarget ctx shape (activeBarriersBefore ctx buffer.tasks shape.ctaCount index)))
  | windows (windowed : transferTaskIsWindowed transfer = true)
    (nonempty : (taskRange ctx shape buffer.windowCount ctaIdx (reducesBefore buffer.tasks index) transfer).beginWindow <
      (taskRange ctx shape buffer.windowCount ctaIdx (reducesBefore buffer.tasks index) transfer).endWindow) :
    Performs limits binding ctx shape buffer ctaIdx index transfer
      (transferWindows limits binding transfer (taskMask ctx shape (reducesBefore buffer.tasks index) transfer)
        (taskRange ctx shape buffer.windowCount ctaIdx (reducesBefore buffer.tasks index) transfer).beginWindow
        (taskRange ctx shape buffer.windowCount ctaIdx (reducesBefore buffer.tasks index) transfer).endWindow)

theorem taskMask_runs (checked : Checked ctx) (launched : 0 < shape.ctaCount ∧ shape.ctaCount ≤ 32)
    (ctaIdx : Nat) (below : (ctaIdx : Int) < shape.ctaCount) (reduceTaskIndex : Nat)
    (nonempty : (taskRange ctx shape windowCount ctaIdx reduceTaskIndex transfer).beginWindow <
      (taskRange ctx shape windowCount ctaIdx reduceTaskIndex transfer).endWindow) :
    (taskMask ctx shape reduceTaskIndex transfer).getLsbD ctaIdx = true := by
  unfold taskRange at nonempty
  unfold taskMask
  by_cases grouped : usesReduceGroup ctx transfer = true
  · have enabled : ctx.options.enableReduceCtaGroups = true := by
      simp only [usesReduceGroup, Bool.and_eq_true] at grouped
      exact grouped.1
    have within := reduceCtaGroup_within launched (checked.perReduce enabled) reduceTaskIndex
    simp only [if_pos grouped] at nonempty ⊢
    rw [makeContiguousCtaMask_getLsbD within launched.2 ctaIdx (by omega), decide_eq_true_eq]
    by_contra outside
    rw [if_pos (by omega)] at nonempty
    exact absurd nonempty (lt_irrefl _)
  · rw [if_neg grouped, kWindowTaskAllCtas, BitVec.getLsbD_allOnes, decide_eq_true_eq]
    omega

theorem runsOnCta_eq (small : ctaIdx < 32) (task : WindowTask) :
    windowTaskRunsOnCta task (ctaIdx : Nat) = task.ctaMask.getLsbD ctaIdx := by
  have limit : kWindowTaskMaxCtas = 32 := rfl
  rw [windowTaskRunsOnCta, limit, if_neg (by omega), Int.toNat_natCast]

theorem stripeTask_windows (windowed : transferTaskIsWindowed transfer = true) :
    stripeTask limits binding ctx shape buffer ctaIdx index transfer =
      lowerWindows limits binding transfer (taskMask ctx shape (reducesBefore buffer.tasks index) transfer)
        (taskRange ctx shape buffer.windowCount ctaIdx (reducesBefore buffer.tasks index) transfer).beginWindow
        (taskRange ctx shape buffer.windowCount ctaIdx (reducesBefore buffer.tasks index) transfer).endWindow := by
  have passing : ¬transferTaskIsBarrier transfer = true := fun barrier =>
    Bool.false_ne_true ((barrier_not_windowed barrier).symm.trans windowed)
  rw [stripeTask, if_neg passing, lowerTaskForCta_eq]

theorem windowOp_busy (windowed : transferTaskIsWindowed transfer = true) : windowOp transfer.op ≠ .none := by
  simp only [transferTaskIsWindowed, Bool.or_eq_true, decide_eq_true_eq] at windowed
  rcases windowed with ((op | op) | op) | op <;> simp [windowOp, op]

/-- The busy slots of a stripe are what its CTA performs of each transfer task. -/
theorem stripeTask_performs (launches : Launches limits plan binding options windowPlan ctx buffer shape)
    (ctaIdx : Nat) (below : (ctaIdx : Int) < shape.ctaCount) (found : buffer.tasks[index]? = some transfer)
    (lowered : stripeTask limits binding ctx shape buffer ctaIdx index transfer = some stored) :
    (stored = task ∧ task.op ≠ .none ∧ windowTaskRunsOnCta task ctaIdx = true) ↔
      Performs limits binding ctx shape buffer ctaIdx index transfer task := by
  have launched := launches.shaped.ctas
  have small : ctaIdx < 32 := by omega
  have executable := launches.executable transfer (List.mem_of_getElem? found)
  rw [runsOnCta_eq small]
  constructor
  · rintro ⟨rfl, busy, _⟩
    rcases executable.kind with barrier | windowed
    · rw [stripeTask, if_pos barrier] at lowered
      split at lowered
      · cases lowered
        exact absurd rfl busy
      · rename_i active
        cases lowered
        exact .barrier (by simp [activeBarrier, barrier, active])
    · rw [stripeTask_windows windowed] at lowered
      rcases lt_or_ge
        (taskRange ctx shape buffer.windowCount ctaIdx (reducesBefore buffer.tasks index) transfer).beginWindow
        (taskRange ctx shape buffer.windowCount ctaIdx (reducesBefore buffer.tasks index) transfer).endWindow
        with nonempty | empty
      · obtain ⟨_, rfl⟩ := (lowerWindows_eq_some_iff _ nonempty).mp lowered
        exact .windows windowed nonempty
      · rw [lowerWindows_empty _ empty] at lowered
        cases lowered
        exact absurd rfl busy
  · intro performs
    cases performs with
    | barrier active =>
      simp only [activeBarrier, Bool.and_eq_true, Bool.not_eq_true'] at active
      rw [stripeTask, if_pos active.1, if_neg (by simp [active.2])] at lowered
      cases lowered
      refine ⟨rfl, by simp [makeBarrierTask], ?_⟩
      change (BitVec.allOnes 32).getLsbD ctaIdx = true
      rw [BitVec.getLsbD_allOnes, decide_eq_true_eq]
      exact small
    | windows windowed nonempty =>
      rw [stripeTask_windows windowed] at lowered
      obtain ⟨_, rfl⟩ := (lowerWindows_eq_some_iff _ nonempty).mp lowered
      exact ⟨rfl, windowOp_busy windowed, taskMask_runs launches.checked launched ctaIdx below _ nonempty⟩

theorem stripeTask_terminal (lowered : stripeTask limits binding ctx shape buffer ctaIdx index transfer = some task)
    (terminal : task.terminal = true) : transfer.terminal = true := by
  unfold stripeTask at lowered
  split at lowered
  · split at lowered
    · cases lowered
      cases terminal
    · cases lowered
      cases terminal
  · rw [lowerTaskForCta_eq] at lowered
    rcases lt_or_ge
      (taskRange ctx shape buffer.windowCount ctaIdx (reducesBefore buffer.tasks index) transfer).beginWindow
      (taskRange ctx shape buffer.windowCount ctaIdx (reducesBefore buffer.tasks index) transfer).endWindow
      with nonempty | empty
    · obtain ⟨_, rfl⟩ := (lowerWindows_eq_some_iff _ nonempty).mp lowered
      exact terminal
    · rw [lowerWindows_empty _ empty] at lowered
      cases lowered
      cases terminal

/-- A CTA performs exactly its windows of every transfer task and every active barrier. -/
theorem Launches.performs_iff (launches : Launches limits plan binding options windowPlan ctx buffer shape)
    (terminals : TerminalsLast plan.tasks) (room : limits.maxWindowTasks ≤ destination.tasks.length)
    (ctaIdx : Nat) (below : (ctaIdx : Int) < shape.ctaCount) (index : Nat) (task : WindowTask) :
    (index, task) ∈ executeWindowTaskStripe (windowTaskExecutorPlanPack windowPlan destination) ctaIdx ↔
      ∃ transfer, buffer.tasks[index]? = some transfer ∧
        Performs limits binding ctx shape buffer ctaIdx index transfer task := by
  have complete := launches.complete
  have slotOf := launches.emitted.slot ctaIdx below
  have capacity : windowPlan.totalTasks ≤ destination.tasks.length := by
    rw [launches.emitted.totalTasks]
    exact le_trans launches.emitted.capacity (by exact_mod_cast room)
  have last : ∀ position task, windowPlan.tasks[ctaIdx * buffer.tasks.length + position]? = some task →
      position < buffer.tasks.length → task.terminal = true → position + 1 = buffer.tasks.length := by
    intro position task found within terminal
    obtain ⟨transfer, here⟩ : ∃ transfer, buffer.tasks[position]? = some transfer :=
      ⟨_, List.getElem?_eq_getElem within⟩
    obtain ⟨stored, foundStored, lowered⟩ := slotOf position transfer here
    rw [found, Option.some.injEq] at foundStored
    subst foundStored
    have marked := stripeTask_terminal lowered terminal
    rw [launches.tasks] at here ⊢
    exact executableTasks_terminal terminals here marked
  rw [executeWindowTaskStripe_mem_iff complete capacity ctaIdx (by omega) last index task]
  constructor
  · rintro ⟨within, found, busy, runs⟩
    obtain ⟨transfer, here⟩ : ∃ transfer, buffer.tasks[index]? = some transfer :=
      ⟨_, List.getElem?_eq_getElem within⟩
    obtain ⟨stored, foundStored, lowered⟩ := slotOf index transfer here
    rw [found, Option.some.injEq] at foundStored
    exact ⟨transfer, here, (stripeTask_performs launches ctaIdx below here lowered).mp ⟨foundStored.symm, busy, runs⟩⟩
  · rintro ⟨transfer, here, performs⟩
    obtain ⟨stored, found, lowered⟩ := slotOf index transfer here
    obtain ⟨rfl, busy, runs⟩ := (stripeTask_performs launches ctaIdx below here lowered).mpr performs
    exact ⟨(List.getElem?_eq_some_iff.mp here).1, found, busy, runs⟩

end Performed

section Refinement

/-- First and end window of a window task. -/
def windowTaskWindows (task : WindowTask) : WindowRange :=
  match task.payload with
  | .window payload => { beginWindow := payload.beginWindow, endWindow := payload.endWindow }
  | .fanout payload => { beginWindow := payload.beginWindow, endWindow := payload.endWindow }
  | .barrierTarget _ => {}

theorem transferWindows_windows (limits : LoweringLimits) (binding : RankPointerBinding) (transfer : TransferTask)
    (ctaMask : WindowTaskCtaMask) (beginWindow endWindow : Int) :
    windowTaskWindows (transferWindows limits binding transfer ctaMask beginWindow endWindow) =
      { beginWindow, endWindow } := by
  cases op : transfer.op <;> simp [windowTaskWindows, transferWindows, transferPayload, op]

/-- What a window task may do for a transfer task: a part of its windows, or its CTA barrier. -/
inductive CarriesOut (limits : LoweringLimits) (binding : RankPointerBinding) (transfer : TransferTask)
    (task : WindowTask) : Prop
  | barrier (barrier : transferTaskIsBarrier transfer = true) (target : Nat)
    (same : task = makeBarrierTask target)
  | windows (windowed : transferTaskIsWindowed transfer = true)
    (range : transfer.beginWindow ≤ (windowTaskWindows task).beginWindow ∧
      (windowTaskWindows task).beginWindow < (windowTaskWindows task).endWindow ∧
      (windowTaskWindows task).endWindow ≤ transfer.endWindow)
    (same : task = transferWindows limits binding transfer task.ctaMask (windowTaskWindows task).beginWindow
      (windowTaskWindows task).endWindow)
    (hasWork : windowTaskHasWork task = true)

/-- Stripes that execute every window of every task exactly once, nothing else, and in task order. -/
structure Refines (limits : LoweringLimits) (binding : RankPointerBinding) (tasks : List TransferTask)
    (ctaCount : Int) (stripe : Nat → List (Nat × WindowTask)) : Prop where
  only : ∀ ctaIdx : Nat, (ctaIdx : Int) < ctaCount → ∀ index task, (index, task) ∈ stripe ctaIdx →
    ∃ transfer, tasks[index]? = some transfer ∧ CarriesOut limits binding transfer task
  once : ∀ index transfer, tasks[index]? = some transfer → transferTaskIsWindowed transfer = true →
    ∀ window, transfer.beginWindow ≤ window → window < transfer.endWindow →
      ∃! ctaIdx : Nat, (ctaIdx : Int) < ctaCount ∧ ∃ task, (index, task) ∈ stripe ctaIdx ∧
        (windowTaskWindows task).beginWindow ≤ window ∧ window < (windowTaskWindows task).endWindow
  ordered : ∀ ctaIdx : Nat, ((stripe ctaIdx).map Prod.fst).Pairwise (· < ·)

theorem Launches.carriesOut (launches : Launches limits plan binding options windowPlan ctx buffer shape)
    (ctaIdx : Nat) (below : (ctaIdx : Int) < shape.ctaCount) (found : buffer.tasks[index]? = some transfer)
    (performs : Performs limits binding ctx shape buffer ctaIdx index transfer task) :
    CarriesOut limits binding transfer task := by
  cases performs with
  | barrier active =>
    simp only [activeBarrier, Bool.and_eq_true] at active
    exact .barrier active.1 _ rfl
  | windows windowed nonempty =>
    obtain ⟨stored, _, lowered⟩ := launches.emitted.slot ctaIdx below index transfer found
    rw [stripeTask_windows windowed] at lowered
    have lowerable := ((lowerWindows_eq_some_iff _ nonempty).mp lowered).1
    have inside := taskRange_inside ctaIdx nonempty
    refine .windows windowed ?_ ?_ (transferWindows_hasWork _ lowerable nonempty)
    · rw [transferWindows_windows]
      exact ⟨inside.1, nonempty, inside.2⟩
    · rw [transferWindows_windows]
      rfl

theorem Launches.once (launches : Launches limits plan binding options windowPlan ctx buffer shape)
    (wellFormed : WellFormed plan.tasks) (room : limits.maxWindowTasks ≤ destination.tasks.length)
    (found : buffer.tasks[index]? = some transfer) (windowed : transferTaskIsWindowed transfer = true)
    (window : Int) (inside : transfer.beginWindow ≤ window ∧ window < transfer.endWindow) :
    ∃! ctaIdx : Nat, (ctaIdx : Int) < shape.ctaCount ∧
      ∃ task, (index, task) ∈ executeWindowTaskStripe (windowTaskExecutorPlanPack windowPlan destination) ctaIdx ∧
        (windowTaskWindows task).beginWindow ≤ window ∧ window < (windowTaskWindows task).endWindow := by
  have member := List.mem_of_getElem? found
  have nonempty := executable_windows (launches.executable transfer member) windowed
  obtain ⟨windows, reaches⟩ := launches.counted.reaches transfer member windowed
  rw [← launches.shaped.maxEndWindow] at reaches
  have starts : transfer.beginWindow = 0 := by
    rw [launches.tasks] at member
    exact wellFormed.starts transfer (List.mem_of_mem_filter (List.mem_of_mem_filter member))
  have cover := taskRange_cover launches.checked launches.shaped.ctas windows (by omega) (le_of_lt nonempty)
    reaches (reducesBefore buffer.tasks index) window
  rw [Split.covers_eq_one inside] at cover
  have performs := fun (ctaIdx : Nat) (below : (ctaIdx : Int) < shape.ctaCount) (task : WindowTask) =>
    launches.performs_iff wellFormed.terminals room ctaIdx below index task
  obtain ⟨owner, ⟨small, lower, upper⟩, only⟩ := Split.covers_unique cover
  have below : (owner : Int) < shape.ctaCount := by omega
  refine ⟨owner, ⟨below, _, (performs owner below _).mpr
    ⟨transfer, found, .windows windowed (lt_of_le_of_lt lower upper)⟩, ?_⟩, ?_⟩
  · rw [transferWindows_windows]
    exact ⟨lower, upper⟩
  · rintro other ⟨belowOther, task, performed, reachesWindow⟩
    obtain ⟨same, foundSame, performsOther⟩ := (performs other belowOther task).mp performed
    rw [found, Option.some.injEq] at foundSame
    subst foundSame
    cases performsOther with
    | barrier active =>
      simp only [activeBarrier, Bool.and_eq_true] at active
      rw [barrier_not_windowed active.1] at windowed
      cases windowed
    | windows _ _ =>
      rw [transferWindows_windows] at reachesWindow
      exact only other ⟨by omega, reachesWindow⟩

/-- Whatever plan a planner built, the launched CTAs together execute exactly the rank's tasks. -/
theorem lowerTransferPlanForRank_refines (planned : Planned plan)
    (lowered : lowerTransferPlanForRank limits plan binding launchConfig options =
      (true, windowPlan, numBlocks))
    (room : limits.maxWindowTasks ≤ destination.tasks.length) :
    Refines limits binding (executableTasks plan binding.currentRank) numBlocks fun ctaIdx =>
      executeWindowTaskStripe (windowTaskExecutorPlanPack windowPlan destination) ctaIdx := by
  have wellFormed := planned.wellFormed
  have starts : ∀ task ∈ plan.tasks, 0 ≤ task.beginWindow := fun task member =>
    le_of_eq (wellFormed.starts task member).symm
  rcases lowerTransferPlanForRank_cases starts lowered with
    ⟨empty, _, rfl⟩ | ⟨ctx, buffer, shape, rfl, launches⟩
  · refine ⟨fun ctaIdx below => by omega, fun index transfer found => ?_,
      fun ctaIdx => executeWindowTaskStripe_ordered ..⟩
    rw [empty] at found
    cases found
  · rw [← launches.tasks]
    refine ⟨?_, ?_, fun ctaIdx => executeWindowTaskStripe_ordered ..⟩
    · intro ctaIdx below index task performed
      obtain ⟨transfer, found, performs⟩ :=
        (launches.performs_iff wellFormed.terminals room ctaIdx below index task).mp performed
      exact ⟨transfer, found, launches.carriesOut ctaIdx below found performs⟩
    · intro index transfer found windowed window lower upper
      exact launches.once wellFormed room found windowed window ⟨lower, upper⟩

/-- Rank 1 of three ranks, whose slice of two windows spreads over two CTAs. -/
theorem lowerTransferPlanForRank_refines_three :
    let input : TransferPlanBuildInput := { worldSize := 3, count := 20000, dtypeSize := 2 }
    let plan := (AllReduce.buildAllreduceTransferPlan 512 {} input).2
    let binding : RankPointerBinding :=
      { currentRank := 1, worldSize := 3, rankBuffer := fun rank => 65536 * (rank.toNat + 1) }
    let options : LoweringPassOptions := { enableReduceCtaGroups := true, ctaBarrierStart := 0 }
    let lowered := lowerTransferPlanForRank {} plan binding {} options
    lowered.2.2 = 2 ∧
      Refines {} binding (executableTasks plan 1) lowered.2.2 fun ctaIdx =>
        executeWindowTaskStripe
          (windowTaskExecutorPlanPack lowered.2.1 { tasks := List.replicate 112 {} }) ctaIdx := by
  intro input plan binding options lowered
  have success : lowered.1 = true := by decide +kernel
  have blocks : lowered.2.2 = 2 := by decide +kernel
  have planned : Planned plan := .allreduce (by decide +kernel)
  have split : lowerTransferPlanForRank {} plan binding {} options = (true, lowered.2.1, lowered.2.2) := by
    rw [← success]
  have room : ({} : LoweringLimits).maxWindowTasks ≤
      ({ tasks := List.replicate 112 {} } : WindowTaskExecutorPlan).tasks.length := by
    simp
  exact ⟨blocks, lowerTransferPlanForRank_refines planned split room⟩

end Refinement

end Ooverlap.Lowering
