import Ooverlap.Lowering.Stripe

/-! The window task in every slot of an emitted plan, one transfer task and one CTA at a time. -/

namespace Ooverlap.Lowering

open Plan

section Counting

variable (ctx : LoweringContext) (tasks : List TransferTask) (launchedCtas : Int)

/-- A barrier that stays in the stripes as a window task. -/
def activeBarrier (index : Nat) (transfer : TransferTask) : Bool :=
  transferTaskIsBarrier transfer && !barrierFollowsFullCtaReduce ctx tasks index launchedCtas

/-- Active barriers before a task position. -/
def activeBarriersBefore (index : Nat) : Nat :=
  (tasks.zipIdx.take index).countP fun entry => activeBarrier ctx tasks launchedCtas entry.2 entry.1

theorem countP_take_succ (items : List α) (test : α → Bool) (found : items[index]? = some item) :
    (items.take (index + 1)).countP test = (items.take index).countP test + if test item then 1 else 0 := by
  rw [List.take_add_one, found, List.countP_append]
  simp [List.countP_cons]

theorem reducesBefore_succ (found : tasks[index]? = some transfer) :
    reducesBefore tasks (index + 1) = reducesBefore tasks index + if transfer.op = .reduce then 1 else 0 := by
  unfold reducesBefore
  rw [countP_take_succ tasks _ found]
  simp

theorem activeBarriersBefore_succ (found : tasks[index]? = some transfer) :
    activeBarriersBefore ctx tasks launchedCtas (index + 1) =
      activeBarriersBefore ctx tasks launchedCtas index +
        if activeBarrier ctx tasks launchedCtas index transfer then 1 else 0 := by
  have indexed : tasks.zipIdx[index]? = some (transfer, index) := by
    rw [List.getElem?_zipIdx, found, Option.map_some, Nat.zero_add]
  unfold activeBarriersBefore
  rw [countP_take_succ tasks.zipIdx _ indexed]

end Counting

section Slots

variable (limits : LoweringLimits) (binding : RankPointerBinding) (ctx : LoweringContext)
  (shape : LoweringShape) (buffer : RankTransferTaskBuffer)

/-- Window task that CTA `ctaIdx` gets for the transfer task at `index`. -/
def stripeTask (ctaIdx : Int) (index : Nat) (transfer : TransferTask) : Option WindowTask :=
  if transferTaskIsBarrier transfer then
    if barrierFollowsFullCtaReduce ctx buffer.tasks index shape.ctaCount then some {}
    else
      some (makeBarrierTask
        (barrierTarget ctx shape (activeBarriersBefore ctx buffer.tasks shape.ctaCount index)))
  else lowerTaskForCta limits binding ctx shape buffer.windowCount ctaIdx (reducesBefore buffer.tasks index) transfer

theorem emitStripeFrom_eq (ctaIdx : Int) (rest : List TransferTask) (index : Nat)
    (reduceTaskIndex activeBarrierIndex : Int) (position : buffer.tasks.drop index = rest)
    (reduces : ctx.options.enableReduceCtaGroups = true → reduceTaskIndex = reducesBefore buffer.tasks index)
    (barriers : activeBarrierIndex = activeBarriersBefore ctx buffer.tasks shape.ctaCount index) :
    emitStripeFrom limits binding ctx shape buffer ctaIdx index reduceTaskIndex activeBarrierIndex rest =
      (rest.zipIdx index).mapM fun entry =>
        stripeTask limits binding ctx shape buffer ctaIdx entry.2 entry.1 := by
  induction rest generalizing index reduceTaskIndex activeBarrierIndex with
  | nil => rfl
  | cons transfer rest ih =>
    have found : buffer.tasks[index]? = some transfer := by
      rw [← List.head?_drop, position, List.head?_cons]
    have later : buffer.tasks.drop (index + 1) = rest := by
      rw [← List.drop_drop, position]
      rfl
    have reducesNext := reducesBefore_succ buffer.tasks found
    have barriersNext := activeBarriersBefore_succ ctx buffer.tasks shape.ctaCount found
    rw [List.zipIdx_cons, List.mapM_cons]
    simp only [emitStripeFrom, Option.pure_def, Option.bind_eq_bind]
    by_cases barrier : transferTaskIsBarrier transfer = true
    · have notReduce : transfer.op ≠ .reduce := by
        simp only [transferTaskIsBarrier, decide_eq_true_eq] at barrier
        simp [barrier]
      have sameReduces : ctx.options.enableReduceCtaGroups = true →
          reduceTaskIndex = reducesBefore buffer.tasks (index + 1) := by
        intro enabled
        rw [reduces enabled, reducesNext, if_neg notReduce, Nat.add_zero]
      rw [if_pos barrier]
      by_cases elided : barrierFollowsFullCtaReduce ctx buffer.tasks index shape.ctaCount = true
      · have here : stripeTask limits binding ctx shape buffer ctaIdx index transfer = some {} := by
          rw [stripeTask, if_pos barrier, if_pos elided]
        have sameBarriers : activeBarrierIndex = activeBarriersBefore ctx buffer.tasks shape.ctaCount (index + 1) := by
          rw [barriers, barriersNext]
          simp [activeBarrier, elided]
        rw [if_pos elided, ih _ _ _ later sameReduces sameBarriers, here, Option.bind_some]
        simp only [Option.map_eq_bind, Function.comp_def]
      · have here : stripeTask limits binding ctx shape buffer ctaIdx index transfer =
            some (makeBarrierTask (barrierTarget ctx shape activeBarrierIndex)) := by
          rw [stripeTask, if_pos barrier, if_neg elided, barriers]
        have nextBarrier : activeBarrierIndex + 1 =
            activeBarriersBefore ctx buffer.tasks shape.ctaCount (index + 1) := by
          rw [barriers, barriersNext]
          simp [activeBarrier, barrier, elided]
        rw [if_neg elided, ih _ _ _ later sameReduces nextBarrier, here, Option.bind_some]
        simp only [Option.map_eq_bind, Function.comp_def]
    · have sameBarriers : activeBarrierIndex = activeBarriersBefore ctx buffer.tasks shape.ctaCount (index + 1) := by
        rw [barriers, barriersNext]
        simp [activeBarrier, barrier]
      have here : stripeTask limits binding ctx shape buffer ctaIdx index transfer =
          lowerTaskForCta limits binding ctx shape buffer.windowCount ctaIdx reduceTaskIndex transfer := by
        rw [stripeTask, if_neg barrier]
        by_cases grouped : usesReduceGroup ctx transfer = true
        · simp only [usesReduceGroup, Bool.and_eq_true] at grouped
          rw [reduces grouped.1]
        · exact lowerTaskForCta_ungrouped ctx shape _ ctaIdx limits binding (Bool.eq_false_of_not_eq_true grouped) _ _
      have nextReduces : ctx.options.enableReduceCtaGroups = true →
          (if usesReduceGroup ctx transfer = true then reduceTaskIndex + 1 else reduceTaskIndex) =
            reducesBefore buffer.tasks (index + 1) := by
        intro enabled
        rw [reducesNext, reduces enabled]
        by_cases reduce : transfer.op = .reduce
        · simp [usesReduceGroup, enabled, reduce]
        · simp [usesReduceGroup, reduce]
      rw [if_neg barrier, here]
      simp only [ih _ _ _ later nextReduces sameBarriers, Option.map_eq_bind, Function.comp_def]

theorem emitStripe_eq (ctaIdx : Nat) :
    emitStripeFrom limits binding ctx shape buffer ctaIdx 0 0 0 buffer.tasks =
      buffer.tasks.zipIdx.mapM fun entry =>
        stripeTask limits binding ctx shape buffer ctaIdx entry.2 entry.1 :=
  emitStripeFrom_eq limits binding ctx shape buffer ctaIdx buffer.tasks 0 0 0 rfl
    (fun _ => rfl) rfl

end Slots

/-- An emitted plan: every CTA has one slot for every executable task of the rank, in order. -/
structure Emitted (limits : LoweringLimits) (binding : RankPointerBinding) (ctx : LoweringContext)
    (shape : LoweringShape) (buffer : RankTransferTaskBuffer) (windowPlan : WindowTaskExecutorPlan) : Prop where
  totalTasks : windowPlan.totalTasks = shape.totalWindowTasks
  tasksPerCta : windowPlan.tasksPerCta = shape.tasksPerCta
  capacity : shape.totalWindowTasks ≤ limits.maxWindowTasks
  slot : ∀ ctaIdx : Nat, (ctaIdx : Int) < shape.ctaCount → ∀ index transfer, buffer.tasks[index]? = some transfer →
    ∃ task, windowPlan.tasks[ctaIdx * buffer.tasks.length + index]? = some task ∧
      stripeTask limits binding ctx shape buffer ctaIdx index transfer = some task

theorem emitWindowPlan_emitted (shaped : Shaped ctx buffer shape)
    (emitted : emitWindowPlanFromRankTasks limits binding ctx shape buffer = some (windowPlan, numBlocks)) :
    numBlocks = shape.ctaCount ∧ Emitted limits binding ctx shape buffer windowPlan := by
  unfold emitWindowPlanFromRankTasks at emitted
  have launches := shaped.ctas.1
  have nonempty := shaped.nonempty
  rw [if_neg (by omega)] at emitted
  split at emitted
  · cases emitted
  · rename_i fits
    obtain ⟨stripes, ran, same⟩ := Option.map_eq_some_iff.mp emitted
    cases same
    refine ⟨rfl, rfl, rfl, not_lt.mp fits, ?_⟩
    have stripeOf : ∀ {ctaIdx stripe}, emitStripe limits binding ctx shape buffer ctaIdx = some stripe →
        buffer.tasks.zipIdx.mapM (fun entry =>
          stripeTask limits binding ctx shape buffer ctaIdx entry.2 entry.1) = some stripe := by
      intro ctaIdx stripe found
      obtain ⟨inner, here, kept⟩ := Option.bind_eq_some_iff.mp found
      rw [emitStripe_eq] at here
      split at kept
      · cases kept
      · cases kept
        exact here
    have widths : ∀ stripe ∈ stripes, stripe.length = buffer.tasks.length := by
      intro stripe member
      obtain ⟨position, found⟩ := List.getElem?_of_mem member
      have within : position < (List.range shape.ctaCount.toNat).length := by
        rw [← Traverse.mapM_length ran]
        exact (List.getElem?_eq_some_iff.mp found).1
      obtain ⟨other, foundOther, here⟩ := Traverse.mapM_getElem? ran (List.getElem?_eq_getElem within)
      rw [found, Option.some.injEq] at foundOther
      subst foundOther
      rw [Traverse.mapM_length (stripeOf here), List.length_zipIdx]
    intro ctaIdx below index transfer found
    have launched : (List.range shape.ctaCount.toNat)[ctaIdx]? = some ctaIdx := by
      rw [List.getElem?_range (by omega)]
    obtain ⟨stripe, foundStripe, here⟩ := Traverse.mapM_getElem? ran launched
    have indexed : buffer.tasks.zipIdx[index]? = some (transfer, index) := by
      rw [List.getElem?_zipIdx, found, Option.map_some, Nat.zero_add]
    obtain ⟨task, foundTask, lowered⟩ := Traverse.mapM_getElem? (stripeOf here) indexed
    refine ⟨task, ?_, lowered⟩
    have within : index < buffer.tasks.length := (List.getElem?_eq_some_iff.mp found).1
    rw [Traverse.flatten_getElem? widths foundStripe within, foundTask]

/-- What a successful lowering that launches a kernel has established. -/
structure Launches (limits : LoweringLimits) (plan : TransferPlan) (binding : RankPointerBinding)
    (options : LoweringPassOptions) (windowPlan : WindowTaskExecutorPlan) (ctx : LoweringContext)
    (buffer : RankTransferTaskBuffer) (shape : LoweringShape) : Prop where
  checked : Checked ctx
  sameOptions : ctx.options = options
  tasks : buffer.tasks = executableTasks plan binding.currentRank
  counted : Counted buffer.tasks buffer
  executable : ∀ task ∈ buffer.tasks, Executable binding.currentRank task
  shaped : Shaped ctx buffer shape
  emitted : Emitted limits binding ctx shape buffer windowPlan

theorem executable_windows (executable : Executable rank task) (windowed : transferTaskIsWindowed task = true) :
    task.beginWindow < task.endWindow := by
  have hasWork := executable.hasWork
  simp only [transferTaskIsWindowed, Bool.or_eq_true, decide_eq_true_eq] at windowed
  rcases windowed with ((op | op) | op) | op <;> simp_all [transferTaskHasWork]

theorem computeLoweringShape_launches (checked : Checked ctx) (counted : Counted buffer.tasks buffer)
    (executable : ∀ task ∈ buffer.tasks, Executable rank task)
    (starts : ∀ task ∈ buffer.tasks, 0 ≤ task.beginWindow)
    (computed : computeLoweringShape limits ctx buffer = some shape) :
    (shape.ctaCount ≤ 0 ∨ shape.tasksPerCta ≤ 0) → buffer.tasks = [] := by
  intro idle
  have total := counted.total
  have barriers := counted.barriers
  have windows := counted.windows
  unfold computeLoweringShape at computed
  split at computed
  · rename_i none
    exact List.eq_nil_of_length_eq_zero (by omega)
  · split at computed
    · cases computed
    · rename_i fits
      split at computed
      · cases computed
      · rename_i roomy
        have ends : ∀ task ∈ buffer.tasks, transferTaskIsWindowed task = true → 0 < task.endWindow := by
          intro task member windowed
          have nonempty := executable_windows (executable task member) windowed
          have start := starts task member
          omega
        have roomy : 0 < (limits.maxWindowTasks : Int) / tasksPerCta buffer := by omega
        have spread := launchedCtaCount_positive checked counted ends roomy
        rw [if_neg (by omega)] at computed
        split at computed
        · cases computed
        · cases computed
          simp only at idle
          omega

/-- A successful lowering either has nothing to execute or launches an emitted plan. -/
theorem lowerTransferPlanForRank_cases (starts : ∀ task ∈ plan.tasks, 0 ≤ task.beginWindow)
    (lowered : lowerTransferPlanForRank limits plan binding launchConfig options =
      (true, windowPlan, numBlocks)) :
    (executableTasks plan binding.currentRank = [] ∧ windowPlan = {} ∧ numBlocks = 0) ∨
      ∃ ctx buffer shape, numBlocks = shape.ctaCount ∧
        Launches limits plan binding options windowPlan ctx buffer shape := by
  have passes : lowerPasses limits plan binding launchConfig options = some (windowPlan, numBlocks) := by
    unfold lowerTransferPlanForRank at lowered
    split at lowered <;> simp_all
  simp only [lowerPasses, Option.bind_eq_bind, Option.bind_eq_some_iff] at passes
  obtain ⟨ctx, made, first, collected, buffer, passed, shape, computed, emission⟩ := passes
  obtain ⟨checked, rank, _, sameOptions⟩ := makeLoweringContext_checked made
  obtain ⟨same, counted, executable⟩ := collect_passes collected passed
  rw [rank] at same executable
  have startsBuffer : ∀ task ∈ buffer.tasks, 0 ≤ task.beginWindow := by
    intro task member
    rw [same] at member
    exact starts task (List.mem_of_mem_filter (List.mem_of_mem_filter member))
  have idles := computeLoweringShape_launches checked counted executable startsBuffer computed
  split at emission
  · rename_i idle
    cases emission
    exact Or.inl ⟨same ▸ idles idle, rfl, rfl⟩
  · rename_i launches
    obtain ⟨⟨emittedPlan, blocks⟩, ran, kept⟩ := Option.bind_eq_some_iff.mp emission
    split at kept
    · cases kept
      have shaped := computeLoweringShape_shaped checked counted computed (by omega)
      obtain ⟨sameBlocks, emitted⟩ := emitWindowPlan_emitted shaped ran
      exact Or.inr ⟨ctx, buffer, shape, sameBlocks,
        ⟨checked, sameOptions, same, counted, executable, shaped, emitted⟩⟩
    · cases kept

end Ooverlap.Lowering
