import Ooverlap.Kernel.CtaBarrier

/-! Histories of launches on one barrier counter: the host's record predicts the device's counter. -/

namespace Ooverlap.Kernel

open Relation Lowering CounterBarrier Interleaving Plan Word

/-- Host record, device counter, launched kernels in stream order, and the kernel that runs. -/
structure Scratch where
  lastValue : Nat := 0
  counter : Nat := 0
  pending : List KernelLaunch := []
  running : Option (KernelLaunch × State Nat) := none

section Steps

variable (admits : Nat → Nat → Nat → Prop)

/-- The host prepares launches; the device begins, runs and finishes them in stream order. -/
inductive HistoryStep : Scratch → Scratch → Prop where
  | launch (striped : Striped plan numBlocks perCta barriers) (room : plan.totalTasks ≤ destination.tasks.length)
    (prepared : prepareKernelLaunch scratch.lastValue numBlocks plan destination = some kernel)
    (admitted : admits scratch.lastValue numBlocks barriers) :
    HistoryStep scratch
      { scratch with lastValue := kernel.ctaBarrierFinalTarget, pending := scratch.pending ++ [kernel] }
  | refused (prepared : prepareKernelLaunch scratch.lastValue numBlocks plan destination = none) :
    HistoryStep scratch scratch
  | failed (prepared : prepareKernelLaunch scratch.lastValue numBlocks plan destination = some kernel) :
    HistoryStep scratch scratch
  | begin (idle : scratch.running = none) (next : scratch.pending = kernel :: rest) :
    HistoryStep scratch { scratch with pending := rest, running := some (kernel, start scratch.counter) }
  | run (busy : scratch.running = some (kernel, state)) (taken : Step (kernelSystem kernel) state after) :
    HistoryStep scratch { scratch with running := some (kernel, after) }
  | finish (busy : scratch.running = some (kernel, state)) (finished : Finished (kernelSystem kernel) state) :
    HistoryStep scratch { scratch with counter := toUInt32 state.count, running := none }

abbrev HistoryReachable (scratch : Scratch) : Prop :=
  ReflTransGen (HistoryStep admits) {} scratch

end Steps

/-- No CTA leaves a barrier early, none waits for nothing, and the record is the counter a launch leaves behind. -/
structure BarriersSound (scratch : Scratch) : Prop where
  separates : ∀ kernel state, scratch.running = some (kernel, state) → Separates (kernelSystem kernel) state
  released : ∀ kernel state, scratch.running = some (kernel, state) →
    ∀ ctaIdx ∈ (kernelSystem kernel).agents, ∀ target,
      ((kernelSystem kernel).items ctaIdx)[state.pc ctaIdx]? = some (.barrier target) →
      state.waiting ctaIdx = true →
      (∀ other ∈ (kernelSystem kernel).agents,
        passes (kernelSystem kernel) state ctaIdx + 1 ≤ arrivals (kernelSystem kernel) state other) →
      target ≤ toUInt32 state.count
  finishes : ∀ kernel state, scratch.running = some (kernel, state) →
    ∃ final, ReflTransGen (Step (kernelSystem kernel)) state final ∧ Finished (kernelSystem kernel) final
  recorded : ∀ kernel state, scratch.running = some (kernel, state) → Finished (kernelSystem kernel) state →
    toUInt32 state.count = kernel.ctaBarrierFinalTarget
  predicted : scratch.running = none → scratch.pending = [] → scratch.counter = scratch.lastValue

section Invariant

/-- A kernel that was prepared for a counter value, without wrapping. -/
structure PreparedFor (base : Nat) (kernel : KernelLaunch) (barriers : Nat) : Prop where
  word : base < 2 ^ 32
  aligned : Aligned (kernelSystem kernel) (launchRounds base kernel.numBlocks barriers)
  final : kernel.ctaBarrierFinalTarget = toUInt32 (base + kernel.numBlocks * (barriers + 2))
  noWrap : NoWrap base kernel.numBlocks barriers

/-- Pending kernels lead the counter from one value to another. -/
inductive Leads : Nat → List KernelLaunch → Nat → Prop
  | done (value : Nat) : Leads value [] value
  | next (prepared : PreparedFor base kernel barriers) (rest : Leads kernel.ctaBarrierFinalTarget later last) :
    Leads base (kernel :: later) last

theorem Leads.append (leads : Leads base pending last) (prepared : PreparedFor last kernel barriers) :
    Leads base (pending ++ [kernel]) kernel.ctaBarrierFinalTarget := by
  induction leads with
  | done value => exact .next prepared (.done _)
  | next first _ ih => exact .next first (ih prepared)

theorem Leads.word (leads : Leads base pending last) (word : base < 2 ^ 32) : last < 2 ^ 32 := by
  induction leads with
  | done value => exact word
  | next prepared _ ih =>
    refine ih ?_
    rw [prepared.final]
    exact toUInt32_lt _

/-- The host's record is what the counter will be once the running and the pending kernels are done. -/
inductive Predicts : Scratch → Prop
  | idle (word : counter < 2 ^ 32) (leads : Leads counter pending lastValue) :
    Predicts { lastValue, counter, pending, running := none }
  | busy (prepared : PreparedFor base kernel barriers)
    (consistent : Consistent (kernelSystem kernel) base (launchRounds base kernel.numBlocks barriers) state)
    (leads : Leads kernel.ctaBarrierFinalTarget pending lastValue) :
    Predicts { lastValue, counter, pending, running := some (kernel, state) }

theorem PreparedFor.faithful (prepared : PreparedFor base kernel barriers) :
    Faithful (kernelSystem kernel) base (launchRounds base kernel.numBlocks barriers) :=
  launchRounds_faithful prepared.word prepared.noWrap _

theorem PreparedFor.finished_count (prepared : PreparedFor base kernel barriers)
    (consistent : Consistent (kernelSystem kernel) base (launchRounds base kernel.numBlocks barriers) state)
    (finished : Finished (kernelSystem kernel) state) : toUInt32 state.count = kernel.ctaBarrierFinalTarget := by
  have counted := CounterBarrier.finished_count prepared.aligned consistent finished
  have card : (kernelSystem kernel).agents.card = kernel.numBlocks := Finset.card_range _
  rw [counted, prepared.final, card, launchRounds, List.length_map, List.length_range]

theorem prepareKernelLaunch_preparedFor (striped : Striped plan numBlocks perCta barriers)
    (room : plan.totalTasks ≤ destination.tasks.length) (word : lastValue < 2 ^ 32)
    (prepared : prepareKernelLaunch lastValue numBlocks plan destination = some kernel)
    (admitted : NoWrap lastValue numBlocks barriers) : PreparedFor lastValue kernel barriers := by
  obtain ⟨blocks, aligned, final⟩ := prepareKernelLaunch_aligned striped room prepared
  subst blocks
  exact ⟨word, aligned, final, admitted⟩

theorem predicts_step (before : Predicts scratch) (taken : HistoryStep NoWrap scratch after) : Predicts after := by
  cases taken with
  | launch striped room prepared admitted =>
    cases before with
    | idle word leads =>
      exact .idle word (leads.append
        (prepareKernelLaunch_preparedFor striped room (leads.word word) prepared admitted))
    | busy running consistent leads =>
      have word := leads.word (by rw [running.final]; exact toUInt32_lt _)
      exact .busy running consistent (leads.append
        (prepareKernelLaunch_preparedFor striped room word prepared admitted))
  | refused => exact before
  | failed => exact before
  | begin idle next =>
    cases before with
    | idle word leads =>
      subst next
      cases leads with
      | next prepared rest => exact .busy prepared (consistent_start _) rest
    | busy => cases idle
  | run busy taken =>
    cases before with
    | idle => cases busy
    | busy prepared consistent leads =>
      cases busy
      exact .busy prepared (consistent_step prepared.aligned prepared.faithful consistent taken) leads
  | finish busy finished =>
    cases before with
    | idle => cases busy
    | busy prepared consistent leads =>
      cases busy
      have counted := prepared.finished_count consistent finished
      rw [← counted] at leads
      exact .idle (toUInt32_lt _) leads

theorem predicts_of_reachable (reached : HistoryReachable NoWrap scratch) : Predicts scratch :=
  invariant Predicts (.idle (by decide) (.done 0)) (fun _ _ before taken => predicts_step before taken) reached

theorem Predicts.sound (predicts : Predicts scratch) : BarriersSound scratch := by
  cases predicts with
  | idle word leads =>
    refine ⟨nofun, nofun, nofun, nofun, fun _ none => ?_⟩
    dsimp only at none ⊢
    subst none
    cases leads
    rfl
  | busy prepared consistent leads =>
    refine ⟨?_, ?_, ?_, ?_, nofun⟩
    · intro kernel state busy
      cases busy
      exact consistent.separates
    · intro kernel state busy ctaIdx member target next waiting all
      cases busy
      exact (passes_arrived prepared.aligned prepared.faithful consistent member next waiting).mpr all
    · intro kernel state busy
      cases busy
      exact finishable prepared.aligned prepared.faithful consistent
    · intro kernel state busy finished
      cases busy
      exact prepared.finished_count consistent finished

/-- In every history whose launches do not wrap, barriers separate, release and leave the recorded value. -/
theorem historyReachable_barriersSound (reached : HistoryReachable NoWrap scratch) : BarriersSound scratch :=
  (predicts_of_reachable reached).sound

end Invariant

section Lowered

variable {limits : LoweringLimits} {plan : TransferPlan} {binding : RankPointerBinding}
  {options : LoweringPassOptions} {windowPlan : WindowTaskExecutorPlan}
  {ctx : LoweringContext} {buffer : RankTransferTaskBuffer} {shape : LoweringShape}

theorem barrierTarget?_windows (windowed : transferTaskIsWindowed transfer = true) (ctaMask : WindowTaskCtaMask)
    (beginWindow endWindow : Int) :
    barrierTarget? (transferWindows limits binding transfer ctaMask beginWindow endWindow) = none := by
  have none : barrierEntry (0, transferWindows limits binding transfer ctaMask beginWindow endWindow) = none :=
    barrierEntry_windows windowed ctaMask beginWindow endWindow
  rw [barrierEntry_eq, Option.map_eq_none_iff] at none
  exact none

/-- The stored target at a position: the barrier's, if it stays active. -/
theorem stripeTask_barrierTarget? (executable : Executable rank transfer)
    (lowered : stripeTask limits binding ctx shape buffer ctaIdx index transfer = some task) :
    barrierTarget? task = (if activeBarrier ctx buffer.tasks shape.ctaCount index transfer then
      some (barrierTarget ctx shape (activeBarriersBefore ctx buffer.tasks shape.ctaCount index)) else none) ∧
      ((barrierTarget? task).isSome = true → task.ctaMask = kWindowTaskAllCtas) := by
  rcases executable.kind with barrier | windowed
  · rw [stripeTask, if_pos barrier] at lowered
    split at lowered
    · rename_i dropped
      cases lowered
      simp [activeBarrier, dropped, barrierTarget?]
    · rename_i kept
      cases lowered
      simp [activeBarrier, barrier, kept, barrierTarget?, makeBarrierTask]
  · have inactive : activeBarrier ctx buffer.tasks shape.ctaCount index transfer = false := by
      have passing : transferTaskIsBarrier transfer = false := by
        by_contra barrier
        rw [barrier_not_windowed (Bool.eq_true_of_not_eq_false barrier)] at windowed
        cases windowed
      simp [activeBarrier, passing]
    rw [stripeTask_windows windowed] at lowered
    have noTarget : barrierTarget? task = none := by
      rcases lt_or_ge
        (taskRange ctx shape buffer.windowCount ctaIdx (reducesBefore buffer.tasks index) transfer).beginWindow
        (taskRange ctx shape buffer.windowCount ctaIdx (reducesBefore buffer.tasks index) transfer).endWindow
        with nonempty | empty
      · obtain ⟨_, rfl⟩ := (lowerWindows_eq_some_iff _ nonempty).mp lowered
        exact barrierTarget?_windows windowed ..
      · rw [lowerWindows_empty _ empty] at lowered
        cases lowered
        rfl
    rw [noTarget, inactive]
    simp

/-- What lowering launches, with relative targets, is a plan that the host can rebase. -/
theorem Launches.striped (launches : Launches limits plan binding options windowPlan ctx buffer shape)
    (terminals : TerminalsLast plan.tasks) (relative : ctx.options.ctaBarrierStart = 0)
    (small : limits.maxWindowTasks < 2 ^ 32) :
    Striped windowPlan shape.ctaCount.toNat buffer.tasks.length
      (activeBarriersBefore ctx buffer.tasks shape.ctaCount buffer.tasks.length) := by
  have launched := launches.shaped.ctas
  have slotOf : ∀ ctaIdx < shape.ctaCount.toNat, ∀ position, ∀ found : position < buffer.tasks.length, ∃ task,
      windowPlan.tasks[ctaIdx * buffer.tasks.length + position]? = some task ∧
        stripeTask limits binding ctx shape buffer ctaIdx position buffer.tasks[position] = some task := by
    intro ctaIdx below position within
    exact launches.emitted.slot ctaIdx (by omega) position _ (List.getElem?_eq_getElem within)
  have executable : ∀ position, ∀ within : position < buffer.tasks.length,
      Executable binding.currentRank buffer.tasks[position] :=
    fun position within => launches.executable _ (List.getElem_mem within)
  refine ⟨⟨by omega, by omega⟩, launches.complete, ?_, ?_, ?_⟩
  · intro ctaIdx below position task found within terminal
    obtain ⟨stored, foundStored, lowered⟩ := slotOf ctaIdx below position within
    rw [found, Option.some.injEq] at foundStored
    subst foundStored
    have marked := stripeTask_terminal lowered terminal
    have here : buffer.tasks[position]? = some buffer.tasks[position] := List.getElem?_eq_getElem within
    generalize buffer.tasks[position] = transfer at here marked
    rw [launches.tasks] at here ⊢
    exact executableTasks_terminal terminals here marked
  · intro ctaIdx below position within task found isBarrier
    obtain ⟨stored, foundStored, lowered⟩ := slotOf ctaIdx below position within
    rw [found, Option.some.injEq] at foundStored
    subst foundStored
    rw [runsOnCta_eq (by omega), (stripeTask_barrierTarget? (executable position within) lowered).2 isBarrier,
      kWindowTaskAllCtas, BitVec.getLsbD_allOnes, decide_eq_true_eq]
    omega
  · intro ctaIdx below
    have stored : storedTargets windowPlan buffer.tasks.length ctaIdx =
        (activeBarriers ctx buffer shape buffer.tasks.length).map Prod.snd := by
      rw [storedTargets, activeBarriers, List.map_filterMap]
      refine List.filterMap_congr fun position inRange => ?_
      have within := List.mem_range.mp inRange
      obtain ⟨task, found, lowered⟩ := slotOf ctaIdx below position within
      rw [found, Option.bind_some, (stripeTask_barrierTarget? (executable position within) lowered).1,
        List.getElem?_eq_getElem within, Option.bind_some]
      split <;> rfl
    have few := launch_small launches
    have counted := launch_countsRounds launches
    rw [stored]
    refine List.ext_getElem? fun round => ?_
    have length : ((activeBarriers ctx buffer shape buffer.tasks.length).map Prod.snd).length =
        activeBarriersBefore ctx buffer.tasks shape.ctaCount buffer.tasks.length := by
      rw [activeBarriers_targets (le_refl _), List.length_map, List.length_range]
    rw [length] at few
    cases found : ((activeBarriers ctx buffer shape buffer.tasks.length).map Prod.snd)[round]? with
    | none =>
      rw [List.getElem?_eq_none_iff, length] at found
      rw [List.getElem?_eq_none (by rw [List.length_map, List.length_range]; exact found)]
    | some target =>
      have within := (List.getElem?_eq_some_iff.mp found).1
      rw [length] at within
      have bound : shape.ctaCount.toNat * (round + 1) ≤ limits.maxWindowTasks :=
        le_trans (Nat.mul_le_mul_left _ within) few
      rw [List.getElem?_map, List.getElem?_range within, Option.map_some, counted round target found, relative,
        Nat.zero_add, toUInt32_of_lt (by omega)]

end Lowered

section Wrapping

/-- A plan of idle slots, one for each CTA. -/
def idlePlan (numBlocks : Nat) : WindowTaskExecutorPlan where
  totalTasks := numBlocks
  tasksPerCta := 1
  tasks := List.replicate numBlocks {}

theorem idlePlan_striped (blocks : 0 < numBlocks ∧ numBlocks ≤ 32) : Striped (idlePlan numBlocks) numBlocks 1 0 := by
  have idle : ∀ (index : Nat) (task : WindowTask), (idlePlan numBlocks).tasks[index]? = some task → task = {} := by
    intro index task found
    exact List.eq_of_mem_replicate (List.mem_of_getElem? found)
  refine ⟨blocks, ⟨by decide, rfl, by simp [idlePlan], ?_⟩, ?_, ?_, ?_⟩
  · intro ctaIdx below position within
    have inside : ctaIdx + position < numBlocks := by omega
    simp [idlePlan, inside]
  · intro ctaIdx below position task found within terminal
    rw [idle _ _ found] at terminal
    cases terminal
  · intro ctaIdx below position within task found isBarrier
    rw [idle _ _ found] at isBarrier
    cases isBarrier
  · intro ctaIdx below
    have inside : ctaIdx < numBlocks := below
    simp [storedTargets, idlePlan, inside, barrierTarget?]

/-- Two CTAs are launched once, without barriers of their own. -/
theorem historyReachable_barriersSound_two :
    ∃ kernel, BarriersSound { lastValue := 4, pending := [kernel] } := by
  obtain ⟨kernel, prepared⟩ : ∃ kernel, prepareKernelLaunch 0 2 (idlePlan 2) (idlePlan 2) = some kernel :=
    ⟨_, rfl⟩
  have final : kernel.ctaBarrierFinalTarget = 4 :=
    (prepareKernelLaunch_aligned (idlePlan_striped (by decide)) (by decide) prepared).2.2
  have taken : HistoryStep NoWrap {} { lastValue := kernel.ctaBarrierFinalTarget, pending := [kernel] } :=
    .launch (idlePlan_striped (by decide)) (by decide) prepared (Or.inr (by decide))
  rw [final] at taken
  exact ⟨kernel, historyReachable_barriersSound (.single taken)⟩

theorem run_history (steps : ReflTransGen (Step (kernelSystem kernel)) first state) :
    ReflTransGen (HistoryStep admits) { lastValue, counter, pending, running := some (kernel, first) }
      { lastValue, counter, pending, running := some (kernel, state) } := by
  induction steps with
  | refl => exact .refl
  | tail _ taken ih => exact ih.tail (.run rfl taken)

/-- A launch that is alone in the stream runs to its end and leaves its final value. -/
theorem launch_runs (striped : Striped plan numBlocks perCta barriers)
    (room : plan.totalTasks ≤ destination.tasks.length) (word : value < 2 ^ 32)
    (prepared : prepareKernelLaunch value numBlocks plan destination = some kernel)
    (admitted : NoWrap value numBlocks barriers) :
    ReflTransGen (HistoryStep fun _ _ _ => True) { lastValue := value, counter := value }
      { lastValue := kernel.ctaBarrierFinalTarget, counter := kernel.ctaBarrierFinalTarget } := by
  have preparedFor := prepareKernelLaunch_preparedFor striped room word prepared admitted
  obtain ⟨final, run, finished⟩ := finishable preparedFor.aligned preparedFor.faithful (consistent_start value)
  have consistent := consistent_of_reachable preparedFor.aligned preparedFor.faithful run
  have counted := preparedFor.finished_count consistent finished
  have launches : HistoryStep (fun _ _ _ => True) { lastValue := value, counter := value }
      { lastValue := kernel.ctaBarrierFinalTarget, counter := value, pending := [kernel] } :=
    .launch striped room prepared trivial
  have begins : HistoryStep (fun _ _ _ => True)
      { lastValue := kernel.ctaBarrierFinalTarget, counter := value, pending := [kernel] }
      { lastValue := kernel.ctaBarrierFinalTarget, counter := value, running := some (kernel, start value) } :=
    .begin rfl rfl
  have finishes : HistoryStep (fun _ _ _ => True)
      { lastValue := kernel.ctaBarrierFinalTarget, counter := value, running := some (kernel, final) }
      { lastValue := kernel.ctaBarrierFinalTarget, counter := kernel.ctaBarrierFinalTarget } := by
    rw [← counted]
    exact .finish rfl finished
  exact ((ReflTransGen.single launches).tail begins).trans ((run_history run).tail finishes)

/-- Launches of two CTAs bring the counter up to any multiple of four. -/
theorem launches_climb (count : Nat) (small : count < 2 ^ 30) :
    HistoryReachable (fun _ _ _ => True) { lastValue := 4 * count, counter := 4 * count } := by
  induction count with
  | zero => exact .refl
  | succ count ih =>
    have before := ih (by omega)
    have word : 4 * count < 2 ^ 32 := by omega
    have striped : Striped (idlePlan 2) 2 1 0 := idlePlan_striped (by decide)
    obtain ⟨kernel, prepared⟩ : ∃ kernel, prepareKernelLaunch (4 * count) 2 (idlePlan 2) (idlePlan 2) = some kernel :=
      ⟨_, rfl⟩
    have noWrap : NoWrap (4 * count) 2 0 := Or.inr (by rw [Nat.mod_eq_of_lt (by omega)]; omega)
    have final : kernel.ctaBarrierFinalTarget = 4 * (count + 1) := by
      rw [(prepareKernelLaunch_aligned striped (by decide) prepared).2.2]
      exact toUInt32_of_lt (by omega)
    have runs := launch_runs striped (by decide) word prepared noWrap
    rw [final] at runs
    exact before.trans runs

/-- At value 2 ^ 32 - 4 the final target of two CTAs wraps to zero, and one leaves before the other has arrived. -/
theorem historyReachable_barriers_wrap :
    ∃ scratch, HistoryReachable (fun _ _ _ => True) scratch ∧ ¬BarriersSound scratch := by
  have before := launches_climb (2 ^ 30 - 1) (by decide)
  have value : 4 * (2 ^ 30 - 1) = 2 ^ 32 - 4 := by decide
  rw [value] at before
  have striped : Striped (idlePlan 2) 2 1 0 := idlePlan_striped (by decide)
  let kernel := (prepareKernelLaunch (2 ^ 32 - 4) 2 (idlePlan 2) (idlePlan 2)).get (by decide +kernel)
  have prepared : prepareKernelLaunch (2 ^ 32 - 4) 2 (idlePlan 2) (idlePlan 2) = some kernel := by simp [kernel]
  have launches : HistoryStep (fun _ _ _ => True) { lastValue := 2 ^ 32 - 4, counter := 2 ^ 32 - 4 }
      { lastValue := kernel.ctaBarrierFinalTarget, counter := 2 ^ 32 - 4, pending := [kernel] } :=
    .launch striped (by decide) prepared trivial
  have begins : HistoryStep (fun _ _ _ => True)
      { lastValue := kernel.ctaBarrierFinalTarget, counter := 2 ^ 32 - 4, pending := [kernel] }
      { lastValue := kernel.ctaBarrierFinalTarget, counter := 2 ^ 32 - 4,
        running := some (kernel, start (2 ^ 32 - 4)) } :=
    .begin rfl rfl
  have code : ∀ ctaIdx ∈ [0, 1], (kernelSystem kernel).items ctaIdx = [.barrier (2 ^ 32 - 2), .barrier 0] := by
    decide +kernel
  have members : ∀ ctaIdx ∈ [0, 1], ctaIdx ∈ (kernelSystem kernel).agents := by decide +kernel
  let arrived (state : State Nat) (ctaIdx : Nat) : State Nat :=
    { state with waiting := Function.update state.waiting ctaIdx true, count := state.count + 1 }
  let passed (state : State Nat) (ctaIdx : Nat) : State Nat :=
    { state with
      pc := Function.update state.pc ctaIdx (state.pc ctaIdx + 1)
      waiting := Function.update state.waiting ctaIdx false }
  let entered := arrived (arrived (start (2 ^ 32 - 4)) 0) 1
  have firstArrives : Step (kernelSystem kernel) (start (2 ^ 32 - 4)) (arrived (start (2 ^ 32 - 4)) 0) :=
    .arrive 0 (members 0 (by decide)) (2 ^ 32 - 2) (by rw [code 0 (by decide)]; rfl) rfl
  have secondArrives : Step (kernelSystem kernel) (arrived (start (2 ^ 32 - 4)) 0) entered :=
    .arrive 1 (members 1 (by decide)) (2 ^ 32 - 2) (by rw [code 1 (by decide)]; rfl) rfl
  have firstPasses : Step (kernelSystem kernel) entered (passed entered 0) :=
    .pass 0 (members 0 (by decide)) (2 ^ 32 - 2) (by rw [code 0 (by decide)]; rfl) rfl (by decide +kernel)
  have firstArrivesAgain : Step (kernelSystem kernel) (passed entered 0) (arrived (passed entered 0) 0) :=
    .arrive 0 (members 0 (by decide)) 0 (by rw [code 0 (by decide)]; rfl) rfl
  -- The final target is zero, so nobody is waited for.
  have firstLeaves : Step (kernelSystem kernel) (arrived (passed entered 0) 0)
      (passed (arrived (passed entered 0) 0) 0) :=
    .pass 0 (members 0 (by decide)) 0 (by rw [code 0 (by decide)]; rfl) rfl (Nat.zero_le _)
  have run := ((((ReflTransGen.single firstArrives).tail secondArrives).tail firstPasses).tail firstArrivesAgain).tail
    firstLeaves
  refine ⟨_, ((before.tail launches).tail begins).trans (run_history run), fun sound => ?_⟩
  have separated := sound.separates _ _ rfl 0 (members 0 (by decide)) 1 (members 1 (by decide))
  unfold arrivals passes at separated
  rw [code 0 (by decide), code 1 (by decide)] at separated
  exact absurd separated (by decide +kernel)

end Wrapping

end Ooverlap.Kernel
