import Ooverlap.Lowering.Emission
import Ooverlap.Lowering.Payload
import Ooverlap.Plan.RankShape

/-! When the lowering of a rank's tasks succeeds, and with how many blocks. -/

namespace Ooverlap.Lowering

open Plan

section Collecting

theorem collectFrom_own (rank : Int) (seen : Bool) (tasks : List TransferTask) :
    collectFrom rank seen tasks = collectFrom rank seen (tasks.filter fun task => task.executorRank = rank) := by
  induction tasks generalizing seen with
  | nil => rfl
  | cons task rest ih =>
    by_cases own : task.executorRank = rank
    · rw [List.filter_cons_of_pos (by simpa using own), collectFrom, collectFrom]
      simp only [ih]
    · rw [List.filter_cons_of_neg (by simpa using own), collectFrom, if_pos own, ih]

theorem collectFrom_ready (ready : ∀ task ∈ opening, EntryReady rank task) (body : List TransferTask) :
    collectFrom rank false (opening ++ body) = collectFrom rank false body := by
  induction opening with
  | nil => rfl
  | cons task rest ih =>
    obtain ⟨executor, op, hasWork, phase, channel⟩ := ready task (List.mem_cons_self ..)
    have isReady : transferTaskIsReady task = true := by
      rcases op with op | op <;> simp [transferTaskIsReady, op]
    have notBarrier : transferTaskIsBarrier task = false := by
      rcases op with op | op <;> simp [transferTaskIsBarrier, op]
    have prologue : transferReadyTaskIsKernelPrologue task rank = true := by
      simp [transferReadyTaskIsKernelPrologue, isReady, executor, phase, channel]
    rw [List.cons_append, collectFrom]
    simp [executor, hasWork, notBarrier, isReady, prologue,
      ih fun other member => ready other (List.mem_cons_of_mem _ member)]

theorem collectFrom_body (body : ∀ task ∈ tasks, Executable rank task) (seen : Bool) :
    collectFrom rank seen tasks = some tasks := by
  induction tasks generalizing seen with
  | nil => rfl
  | cons task rest ih =>
    obtain ⟨executor, hasWork, kind⟩ := body task (List.mem_cons_self ..)
    have later := ih (fun other member => body other (List.mem_cons_of_mem _ member)) true
    rw [collectFrom]
    rcases kind with barrier | windowed
    · simp [executor, hasWork, barrier, later]
    · have notReady := windowed_not_ready windowed
      simp [executor, hasWork, notReady, windowed, later]

theorem recompute_some (body : ∀ task ∈ tasks, Executable rank task) :
    ∃ buffer, recomputeRankTransferTaskStats tasks = some buffer := by
  have counts : ∀ (rest : List TransferTask) (buffer : RankTransferTaskBuffer),
      (∀ task ∈ rest, Executable rank task) → ∃ counted, rest.foldlM countRankTask buffer = some counted := by
    intro rest
    induction rest with
    | nil => exact fun buffer _ => ⟨buffer, rfl⟩
    | cons task rest ih =>
      intro buffer each
      have kind := (each task (List.mem_cons_self ..)).kind
      obtain ⟨middle, here⟩ : ∃ middle, countRankTask buffer task = some middle := by
        unfold countRankTask
        rcases kind with barrier | windowed
        · exact ⟨_, if_pos barrier⟩
        · have notReady := windowed_not_ready windowed
          split
          · exact ⟨_, rfl⟩
          · simp [notReady, windowed]
      obtain ⟨counted, later⟩ := ih middle fun other member => each other (List.mem_cons_of_mem _ member)
      exact ⟨counted, by rw [List.foldlM_cons, here]; exact later⟩
  exact counts tasks { tasks } body

theorem validate_body (body : ∀ task ∈ tasks, Executable ctx.currentRank task) :
    passValidateTransferTasks ctx tasks = true := by
  rw [passValidateTransferTasks, List.all_eq_true]
  intro task member
  obtain ⟨executor, hasWork, kind⟩ := body task member
  rcases kind with barrier | windowed
  · simp [executor, hasWork, barrier]
  · simp [executor, hasWork, windowed, windowed_not_ready windowed]

/-- Ready tasks at the entry and executable tasks after them are collected and counted. -/
theorem collect_working (within : plan.tasks.length ≤ limits.maxTransferTasks)
    (own : rankTasks plan ctx.currentRank = opening ++ body)
    (ready : ∀ task ∈ opening, EntryReady ctx.currentRank task)
    (executable : ∀ task ∈ body, Executable ctx.currentRank task) :
    ∃ first buffer, collectRankTransferTasks limits plan ctx = some first ∧
      runTransferTaskLoweringPasses ctx first = some buffer ∧ buffer.tasks = body ∧
      Counted buffer.tasks buffer := by
  obtain ⟨buffer, counted⟩ := recompute_some executable
  obtain ⟨same, agrees⟩ := recompute_counted counted
  have again : recomputeRankTransferTaskStats buffer.tasks = some buffer := same ▸ counted
  refine ⟨buffer, buffer, ?_, ?_, same, agrees⟩
  · have collected : collectFrom ctx.currentRank false plan.tasks = some body := by
      rw [collectFrom_own]
      change collectFrom ctx.currentRank false (rankTasks plan ctx.currentRank) = some body
      rw [own, collectFrom_ready ready, collectFrom_body executable]
    rw [collectRankTransferTasks, if_neg (by omega), collected]
    exact counted
  · have valid : passValidateTransferTasks ctx buffer.tasks = true := validate_body (same ▸ executable)
    simp [runTransferTaskLoweringPasses, again, valid]

end Collecting

section Launching

variable {limits : LoweringLimits} {ctx : LoweringContext} {buffer : RankTransferTaskBuffer}

/-- A nonempty list of executable tasks that fits the window plan gets a launch shape. -/
theorem computeLoweringShape_some (checked : Checked ctx) (counted : Counted buffer.tasks buffer)
    (windows : ∀ task ∈ buffer.tasks, transferTaskIsWindowed task = true → 0 < task.endWindow)
    (nonempty : buffer.tasks ≠ []) (fits : buffer.tasks.length ≤ limits.maxWindowTasks) :
    ∃ shape, computeLoweringShape limits ctx buffer = some shape ∧ Shaped ctx buffer shape ∧
      shape.totalWindowTasks ≤ limits.maxWindowTasks := by
  have total : tasksPerCta buffer = buffer.tasks.length := counted.total
  have positive := List.length_pos_iff.mpr nonempty
  have roomy : 0 < (limits.maxWindowTasks : Int) / tasksPerCta buffer :=
    (Int.le_ediv_iff_mul_le (by omega)).mpr (by omega)
  have launches := launchedCtaCount_positive checked counted windows roomy
  have bound : launchedCtaCount limits ctx buffer ≤ (limits.maxWindowTasks : Int) / tasksPerCta buffer := by
    unfold launchedCtaCount
    dsimp only
    split <;> split <;> omega
  have product : launchedCtaCount limits ctx buffer * tasksPerCta buffer ≤ limits.maxWindowTasks :=
    calc
      launchedCtaCount limits ctx buffer * tasksPerCta buffer ≤
          (limits.maxWindowTasks : Int) / tasksPerCta buffer * tasksPerCta buffer :=
        Int.mul_le_mul_of_nonneg_right bound (by omega)
      _ ≤ limits.maxWindowTasks := Int.ediv_mul_le _ (by omega)
  have counts : ¬(buffer.barrierCount = 0 ∧ buffer.windowCount = 0) := by
    have sum := counted.total
    omega
  refine ⟨{ tasksPerCta := tasksPerCta buffer, ctaCount := launchedCtaCount limits ctx buffer,
            totalWindowTasks := launchedCtaCount limits ctx buffer * tasksPerCta buffer,
            maxEndWindow := buffer.maxEndWindow }, ?_, ?_, product⟩
  · rw [computeLoweringShape, if_neg counts, if_neg (by omega), if_neg (by omega), if_neg (by omega),
      if_neg (by omega)]
  · exact ⟨⟨launches, launchedCtaCount_le checked buffer⟩, total, by simp only; omega, rfl, rfl⟩

variable {binding : RankPointerBinding} {shape : LoweringShape}

/-- Every slot lowers when every windowed task may be lowered. -/
theorem stripeTask_some (lowerable : ∀ task ∈ buffer.tasks, transferTaskIsWindowed task = true →
      Lowerable limits binding task)
    (executable : ∀ task ∈ buffer.tasks, Executable rank task) (ctaIdx : Int)
    (member : transfer ∈ buffer.tasks) :
    (stripeTask limits binding ctx shape buffer ctaIdx index transfer).isSome = true := by
  unfold stripeTask
  split
  · split <;> rfl
  · rename_i passing
    have windowed := (executable transfer member).kind.resolve_left passing
    rw [lowerTaskForCta_eq]
    rcases lt_or_ge
      (taskRange ctx shape buffer.windowCount ctaIdx (reducesBefore buffer.tasks index) transfer).beginWindow
      (taskRange ctx shape buffer.windowCount ctaIdx (reducesBefore buffer.tasks index) transfer).endWindow
      with nonempty | empty
    · rw [(lowerWindows_eq_some_iff _ nonempty).mpr ⟨lowerable transfer member windowed, rfl⟩]
      rfl
    · rw [lowerWindows_empty _ empty]
      rfl

theorem emitWindowPlan_some (shaped : Shaped ctx buffer shape)
    (fits : shape.totalWindowTasks ≤ limits.maxWindowTasks)
    (lowerable : ∀ task ∈ buffer.tasks, transferTaskIsWindowed task = true → Lowerable limits binding task)
    (executable : ∀ task ∈ buffer.tasks, Executable rank task) :
    ∃ windowPlan, emitWindowPlanFromRankTasks limits binding ctx shape buffer = some (windowPlan, shape.ctaCount) ∧
      windowPlan.totalTasks = shape.totalWindowTasks ∧ windowPlan.tasksPerCta = shape.tasksPerCta := by
  have launches := shaped.ctas.1
  have nonempty := shaped.nonempty
  have width := shaped.tasksPerCta
  have stripes : ∀ ctaIdx ∈ List.range shape.ctaCount.toNat,
      (emitStripe limits binding ctx shape buffer ctaIdx).isSome = true := by
    intro ctaIdx _
    have slots : (buffer.tasks.zipIdx.mapM fun entry =>
        stripeTask limits binding ctx shape buffer ctaIdx entry.2 entry.1).isSome = true := by
      rw [Traverse.mapM_isSome_iff]
      intro entry member
      exact stripeTask_some lowerable executable ctaIdx (List.fst_mem_of_mem_zipIdx member)
    obtain ⟨stripe, ran⟩ := Option.isSome_iff_exists.mp slots
    have length := Traverse.mapM_length ran
    rw [List.length_zipIdx] at length
    rw [emitStripe, emitStripe_eq, ran, Option.bind_some, if_neg (by omega)]
    rfl
  obtain ⟨emitted, ran⟩ := Option.isSome_iff_exists.mp (Traverse.mapM_isSome_iff.mpr stripes)
  refine ⟨{ totalTasks := shape.totalWindowTasks, tasksPerCta := shape.tasksPerCta, tasks := emitted.flatten }, ?_,
    rfl, rfl⟩
  rw [emitWindowPlanFromRankTasks, if_neg (by omega), if_neg (by omega), ran]
  rfl

end Launching

end Ooverlap.Lowering
