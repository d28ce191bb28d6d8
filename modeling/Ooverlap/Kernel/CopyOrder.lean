import Ooverlap.Kernel.CtaOrder
import Ooverlap.Lowering.Agreement

/-! Copies of a rank's slice follow the reductions into it, on whichever CTAs either of them runs. -/

namespace Ooverlap.Kernel

open Lowering CounterBarrier Interleaving Plan AllReduce Word

section Dropped

variable {ctx : LoweringContext} {shape : LoweringShape}

/-- If one reduction's group holds every CTA, so does every reduction's. -/
theorem reduceCtaGroup_whole (launched : 0 < launchedCtas ∧ launchedCtas ≤ 32)
    (perReduce : 0 < maxCtasPerReduceTask ∧ maxCtasPerReduceTask ≤ 32) (reduceTaskIndex other : Nat)
    (whole : (reduceCtaGroupForTask reduceTaskIndex launchedCtas maxCtasPerReduceTask).ctaCount = launchedCtas) :
    (reduceCtaGroupForTask other launchedCtas maxCtasPerReduceTask).firstCta = 0 ∧
      (reduceCtaGroupForTask other launchedCtas maxCtasPerReduceTask).ctaCount = launchedCtas := by
  have limit : kWindowTaskMaxCtas = 32 := rfl
  unfold reduceCtaGroupForTask at whole ⊢
  rw [if_neg (by omega), limit, min_eq_left launched.2] at whole ⊢
  dsimp only at whole ⊢
  have size : min maxCtasPerReduceTask launchedCtas = launchedCtas := by omega
  rw [size]
  have single : ceilDivInt launchedCtas launchedCtas = 1 := by
    have positive := ceilDivInt_pos launched.1 launched.1 (by omega)
    have few := (ceilDivInt_le_iff launched.1 launched.1 (by omega)).mpr (one_mul launchedCtas).ge
    omega
  rw [single, Int.emod_one, Int.zero_mul]
  exact ⟨rfl, by omega⟩

/-- When a barrier is dropped, reductions and copies over the same windows are dealt out alike. -/
theorem taskRange_dropped (checked : Checked ctx) (launched : 0 < shape.ctaCount ∧ shape.ctaCount ≤ 32)
    (producer : tasks[producerIndex]? = some reduction) (reduction_op : reduction.op = .reduce)
    (dropped : barrierFollowsFullCtaReduce ctx tasks (producerIndex + 1) shape.ctaCount = true)
    (some : 0 < windowCount) (reduce : transfer.op = .reduce) (copy : consumer.op ≠ .reduce)
    (windows : transfer.beginWindow = 0 ∧ transfer.endWindow = shape.maxEndWindow)
    (sameWindows : consumer.beginWindow = 0 ∧ consumer.endWindow = shape.maxEndWindow)
    (ctaIdx : Nat) (below : (ctaIdx : Int) < shape.ctaCount) (reduceTaskIndex other : Nat) :
    taskRange ctx shape windowCount ctaIdx reduceTaskIndex transfer =
      taskRange ctx shape windowCount ctaIdx other consumer := by
  have ungrouped : usesReduceGroup ctx consumer = false := by simp [usesReduceGroup, copy]
  have full : fullCtaRange shape windowCount ctaIdx =
      ctaWindowRange ctaIdx shape.ctaCount { beginWindow := 0, endWindow := shape.maxEndWindow } := if_pos some
  unfold taskRange
  rw [ungrouped, if_neg Bool.false_ne_true, full, windows.1, windows.2, sameWindows.1, sameWindows.2]
  by_cases enabled : ctx.options.enableReduceCtaGroups = true
  · simp only [barrierFollowsFullCtaReduce, producer, reduction_op, enabled, reduceCtorEq, if_false, ne_eq,
      not_true_eq_false, Bool.not_true, Bool.false_eq_true, Bool.and_eq_true, decide_eq_true_eq] at dropped
    obtain ⟨first, count⟩ := reduceCtaGroup_whole launched (checked.perReduce enabled) _ reduceTaskIndex dropped.2
    have grouped : usesReduceGroup ctx transfer = true := by simp [usesReduceGroup, enabled, reduce]
    simp only [grouped, if_true, first, count]
    rw [if_neg (by omega), Int.sub_zero]
  · have plain : usesReduceGroup ctx transfer = false := by simp [usesReduceGroup, enabled]
    rw [plain, if_neg Bool.false_ne_true]

end Dropped

section Order

/-- Some CTA performs a barrier task between two positions. -/
def BarrierBetween (plan : WindowTaskExecutorPlan) (ctaCount first last : Nat) : Prop :=
  ∃ ctaIdx < ctaCount, ∃ index task, (index, task) ∈ executeWindowTaskStripe plan ctaIdx ∧ task.op = .barrier ∧
    first < index ∧ index < last

/-- A reduction into a slice and a later copy of it. -/
structure ReduceThenCopy (tasks : List TransferTask) (slice : LogicalBufferRef) (reduceIndex copyIndex : Nat)
    (reduce copy : TransferTask) : Prop where
  reduceFound : tasks[reduceIndex]? = some reduce
  copyFound : tasks[copyIndex]? = some copy
  before : reduceIndex < copyIndex
  reduceOp : reduce.op = .reduce
  writes : reduce.dst = slice
  copyOp : isCopyTask copy = true
  reads : copy.src = slice

/-- A copy's window starts after the same window of every earlier reduction, and after all if a barrier is kept. -/
structure CopiesFollow (tasks : List TransferTask) (slice : LogicalBufferRef) (plan : WindowTaskExecutorPlan)
    (ctaCount : Nat) (state : State Nat) : Prop where
  sameWindow : ∀ reduceIndex copyIndex reduce copy, ReduceThenCopy tasks slice reduceIndex copyIndex reduce copy →
    ∀ ctaIdx < ctaCount, ∀ window, Started (launchSystem plan ctaCount) state ctaIdx copyIndex window →
      Completed (launchSystem plan ctaCount) state reduceIndex window
  allWindows : ∀ reduceIndex copyIndex reduce copy, ReduceThenCopy tasks slice reduceIndex copyIndex reduce copy →
    BarrierBetween plan ctaCount reduceIndex copyIndex →
    ∀ ctaIdx < ctaCount, ∀ window, Started (launchSystem plan ctaCount) state ctaIdx copyIndex window →
      ∀ other, reduce.beginWindow ≤ other → other < reduce.endWindow →
        Completed (launchSystem plan ctaCount) state reduceIndex other

variable {limits : LoweringLimits} {plan : TransferPlan} {binding : RankPointerBinding}
  {options : LoweringPassOptions} {windowPlan destination : WindowTaskExecutorPlan}
  {ctx : LoweringContext} {buffer : RankTransferTaskBuffer} {shape : LoweringShape}

theorem executeWindowTask_windows (index : Nat) (windowed : transferTaskIsWindowed transfer = true)
    (ctaMask : WindowTaskCtaMask) (beginWindow endWindow : Int) :
    executeWindowTask index (transferWindows limits binding transfer ctaMask beginWindow endWindow) =
      (windowStarts index { beginWindow, endWindow }).map .work ++ [.work (.complete index { beginWindow, endWindow })] := by
  unfold executeWindowTask
  rw [transferWindows_windows]
  simp only [transferTaskIsWindowed, Bool.or_eq_true, decide_eq_true_eq] at windowed
  rcases windowed with ((op | op) | op) | op <;> simp [transferWindows, windowOp, op]

theorem stripe_complete (windowed : transferTaskIsWindowed transfer = true)
    (member : (index, transferWindows limits binding transfer ctaMask beginWindow endWindow) ∈ stripe) :
    .work (.complete index { beginWindow, endWindow }) ∈ stripeCode stripe := by
  refine List.mem_flatMap.mpr ⟨_, member, ?_⟩
  rw [executeWindowTask_windows index windowed]
  exact List.mem_append_right _ (List.mem_singleton_self _)

section Launched

variable (launches : Launches limits plan binding options windowPlan ctx buffer shape)
  (wellFormed : WellFormed plan.tasks) (room : limits.maxWindowTasks ≤ destination.tasks.length)
  (small : ctx.options.ctaBarrierStart + limits.maxWindowTasks < 2 ^ 32)

include launches wellFormed room in
/-- A started window lies in the windows of its task. -/
theorem started_inside (windowed : transferTaskIsWindowed transfer = true)
    (found : buffer.tasks[index]? = some transfer) (below : ctaIdx < shape.ctaCount.toNat)
    (started : Started (launchSystem (windowTaskExecutorPlanPack windowPlan destination) shape.ctaCount.toNat) state
      ctaIdx index window) :
    (taskRange ctx shape buffer.windowCount ctaIdx (reducesBefore buffer.tasks index) transfer).beginWindow ≤ window ∧
      window < (taskRange ctx shape buffer.windowCount ctaIdx (reducesBefore buffer.tasks index) transfer).endWindow := by
  obtain ⟨task, inStripe, lower, upper⟩ := stripeCode_start (List.mem_of_mem_take started)
  obtain ⟨same, foundSame, performs⟩ :=
    (launches.performs_iff wellFormed.terminals room ctaIdx (by omega) index task).mp inStripe
  rw [found, Option.some.injEq] at foundSame
  subst foundSame
  cases performs with
  | barrier active =>
    simp only [activeBarrier, Bool.and_eq_true] at active
    rw [barrier_not_windowed active.1] at windowed
    cases windowed
  | windows _ _ =>
    rw [transferWindows_windows] at lower upper
    exact ⟨lower, upper⟩

include launches wellFormed room small in
/-- Behind a kept barrier every window of an earlier task has completed, on whichever CTA. -/
theorem kept_barrier_completes
    (reached : Reachable (launchSystem (windowTaskExecutorPlanPack windowPlan destination) shape.ctaCount.toNat)
      ctx.options.ctaBarrierStart state)
    (foundBarrier : buffer.tasks[barrierIndex]? = some barrier)
    (active : activeBarrier ctx buffer.tasks shape.ctaCount barrierIndex barrier = true)
    (windowed : transferTaskIsWindowed transfer = true) (found : buffer.tasks[index]? = some transfer)
    (before : index < barrierIndex) (after : barrierIndex < laterIndex) (below : ctaIdx < shape.ctaCount.toNat)
    (started : Started (launchSystem (windowTaskExecutorPlanPack windowPlan destination) shape.ctaCount.toNat) state
      ctaIdx laterIndex window) (inside : transfer.beginWindow ≤ other ∧ other < transfer.endWindow) :
    Completed (launchSystem (windowTaskExecutorPlanPack windowPlan destination) shape.ctaCount.toNat) state index
      other := by
  obtain ⟨owner, ⟨ownerBelow, task, performed, lower, upper⟩, _⟩ :=
    launches.once wellFormed room found windowed other inside
  obtain ⟨same, foundSame, performs⟩ :=
    (launches.performs_iff wellFormed.terminals room owner ownerBelow index task).mp performed
  rw [found, Option.some.injEq] at foundSame
  subst foundSame
  cases performs with
  | barrier barrierActive =>
    simp only [activeBarrier, Bool.and_eq_true] at barrierActive
    rw [barrier_not_windowed barrierActive.1] at windowed
    cases windowed
  | windows _ _ =>
    rw [transferWindows_windows] at lower upper
    have inCode := stripe_complete windowed performed
    exact ⟨owner, Finset.mem_range.mpr (by omega), _,
      kept_barrier_orders launches wellFormed.terminals room small reached foundBarrier active below (by omega) started
        after inCode before, lower, upper⟩

include launches wellFormed room in
/-- Without a barrier, a CTA that deals out both tasks alike has completed the earlier one's part. -/
theorem sequential_completes (windowed : transferTaskIsWindowed transfer = true)
    (found : buffer.tasks[index]? = some transfer) (windowedLater : transferTaskIsWindowed later = true)
    (foundLater : buffer.tasks[laterIndex]? = some later) (before : index < laterIndex)
    (below : ctaIdx < shape.ctaCount.toNat)
    (alike : taskRange ctx shape buffer.windowCount ctaIdx (reducesBefore buffer.tasks index) transfer =
      taskRange ctx shape buffer.windowCount ctaIdx (reducesBefore buffer.tasks laterIndex) later)
    (started : Started (launchSystem (windowTaskExecutorPlanPack windowPlan destination) shape.ctaCount.toNat) state
      ctaIdx laterIndex window) :
    Completed (launchSystem (windowTaskExecutorPlanPack windowPlan destination) shape.ctaCount.toNat) state index
      window := by
  have inside := started_inside launches wellFormed room windowedLater foundLater below started
  rw [← alike] at inside
  have performed := (launches.performs_iff wellFormed.terminals room ctaIdx (by omega) index _).mpr
    ⟨transfer, found, .windows windowed (lt_of_le_of_lt inside.1 inside.2)⟩
  exact ⟨ctaIdx, Finset.mem_range.mpr below, _,
    stripeCode_sequential (executeWindowTaskStripe_ordered ..) started (stripe_complete windowed performed) before,
    inside⟩

end Launched

section Direct

variable {input : TransferPlanBuildInput} {rank : Int} {reduces copies : List TransferTask} {barrier : TransferTask}

theorem reduceThenCopy_positions (shape : ReducesThenCopies input rank reduces barrier copies)
    (pair : ReduceThenCopy (reduces ++ barrier :: copies) slice reduceIndex copyIndex reduce copy) :
    (reduceIndex < reduces.length ∧ reduce ∈ reduces) ∧ reduces.length < copyIndex ∧ copy ∈ copies := by
  obtain ⟨reduceFound, copyFound, before, reduceOp, _, copyOp, _⟩ := pair
  have inReduces : ∀ index task, (reduces ++ barrier :: copies)[index]? = some task → task.op = .reduce →
      index < reduces.length ∧ task ∈ reduces := by
    intro index task found op
    rcases lt_trichotomy index reduces.length with early | here | late
    · rw [List.getElem?_append_left early] at found
      exact ⟨early, List.mem_of_getElem? found⟩
    · rw [here, List.getElem?_append_right (le_refl _), Nat.sub_self] at found
      cases found
      rw [shape.isBarrier] at op
      cases op
    · rw [List.getElem?_append_right (le_of_lt late), List.getElem?_cons, if_neg (by omega)] at found
      have isCopy := (shape.copy task (List.mem_of_getElem? found)).1
      simp [isCopyTask, op] at isCopy
  refine ⟨inReduces _ _ reduceFound reduceOp, ?_⟩
  rcases lt_trichotomy copyIndex reduces.length with early | here | late
  · rw [List.getElem?_append_left early] at copyFound
    have op := (shape.reduce copy (List.mem_of_getElem? copyFound)).1
    simp [isCopyTask, op] at copyOp
  · rw [here, List.getElem?_append_right (le_refl _), Nat.sub_self] at copyFound
    cases copyFound
    simp [isCopyTask, shape.isBarrier] at copyOp
  · rw [List.getElem?_append_right (le_of_lt late), List.getElem?_cons, if_neg (by omega)] at copyFound
    exact ⟨late, List.mem_of_getElem? copyFound⟩

theorem reduceWindowed (op : transfer.op = .reduce) : transferTaskIsWindowed transfer = true := by
  simp [transferTaskIsWindowed, op]

theorem copyWindowed (copy : isCopyTask transfer = true) :
    transferTaskIsWindowed transfer = true ∧ transfer.op ≠ .reduce := by
  simp only [isCopyTask, Bool.or_eq_true, beq_iff_eq] at copy
  rcases copy with op | op <;> simp [transferTaskIsWindowed, op]

/-- In the direct plan's shape every data task of the rank ends at the largest end window. -/
theorem direct_maxEndWindow (shaped : ReducesThenCopies input rank reduces barrier copies)
    (launches : Launches limits plan binding options windowPlan ctx buffer shape)
    (tasks : buffer.tasks = reduces ++ barrier :: copies) :
    0 < buffer.windowCount ∧ shape.maxEndWindow = sliceWindows input rank := by
  have ends : ∀ task ∈ buffer.tasks, transferTaskIsWindowed task = true →
      task.endWindow = sliceWindows input rank := by
    intro task member windowed
    rw [tasks] at member
    rcases List.mem_append.mp member with inReduces | inRest
    · exact (shaped.reduce task inReduces).2.2.2
    · rcases List.mem_cons.mp inRest with rfl | inCopies
      · simp [transferTaskIsWindowed, shaped.isBarrier] at windowed
      · exact (shaped.copy task inCopies).2.2.2
  obtain ⟨first, inReduces⟩ := List.exists_mem_of_ne_nil _ shaped.several
  have member : first ∈ buffer.tasks := tasks ▸ List.mem_append_left _ inReduces
  obtain ⟨op, _, begins, _⟩ := shaped.reduce first inReduces
  have windowed := reduceWindowed op
  obtain ⟨some, reaches⟩ := launches.counted.reaches first member windowed
  have nonempty := executable_windows (launches.executable first member) windowed
  refine ⟨some, ?_⟩
  rw [launches.shaped.maxEndWindow]
  rcases launches.counted.attained with none | ⟨task, inTasks, taskWindowed, attains⟩
  · omega
  · rw [attains, ends task inTasks taskWindowed]

/-- The order of a launch whose tasks have the direct plan's shape. -/
theorem direct_copiesFollow (shaped : ReducesThenCopies input rank reduces barrier copies)
    (launches : Launches limits plan binding options windowPlan ctx buffer shape)
    (tasks : buffer.tasks = reduces ++ barrier :: copies) (wellFormed : WellFormed plan.tasks)
    (room : limits.maxWindowTasks ≤ destination.tasks.length)
    (small : ctx.options.ctaBarrierStart + limits.maxWindowTasks < 2 ^ 32)
    (reached : Reachable (launchSystem (windowTaskExecutorPlanPack windowPlan destination) shape.ctaCount.toNat)
      ctx.options.ctaBarrierStart state) :
    CopiesFollow buffer.tasks (rankBufferRef rank (sliceBeginBytes input rank))
      (windowTaskExecutorPlanPack windowPlan destination) shape.ctaCount.toNat state := by
  obtain ⟨some, maxEnd⟩ := direct_maxEndWindow shaped launches tasks
  constructor
  · intro reduceIndex copyIndex reduce copy pair ctaIdx below window started
    obtain ⟨⟨early, inReduces⟩, late, inCopies⟩ := reduceThenCopy_positions shaped (tasks ▸ pair)
    obtain ⟨op, _, reduceBegins, reduceEnds⟩ := shaped.reduce reduce inReduces
    obtain ⟨isCopy, _, copyBegins, copyEnds⟩ := shaped.copy copy inCopies
    obtain ⟨copied, notReduce⟩ := copyWindowed isCopy
    have foundBarrier : buffer.tasks[reduces.length]? = Option.some barrier := by
      rw [tasks, List.getElem?_append_right (le_refl _), Nat.sub_self]
      rfl
    by_cases dropped : barrierFollowsFullCtaReduce ctx buffer.tasks reduces.length shape.ctaCount = true
    · obtain ⟨producerIndex, count⟩ : ∃ producerIndex, reduces.length = producerIndex + 1 :=
        ⟨reduces.length - 1, by omega⟩
      have within : producerIndex < reduces.length := by omega
      have producer : buffer.tasks[producerIndex]? = Option.some reduces[producerIndex] := by
        rw [tasks, List.getElem?_append_left within, List.getElem?_eq_getElem within]
      refine sequential_completes launches wellFormed room (reduceWindowed op) pair.reduceFound copied pair.copyFound
        pair.before below ?_ started
      rw [count] at dropped
      exact taskRange_dropped launches.checked launches.shaped.ctas producer
        (shaped.reduce _ (List.getElem_mem within)).1 dropped some op notReduce ⟨reduceBegins, by rw [reduceEnds, maxEnd]⟩
        ⟨copyBegins, by rw [copyEnds, maxEnd]⟩ ctaIdx (by omega) _ _
    · have active : activeBarrier ctx buffer.tasks shape.ctaCount reduces.length barrier = true := by
        simp [activeBarrier, transferTaskIsBarrier, shaped.isBarrier, dropped]
      have inside := started_inside launches wellFormed room copied pair.copyFound below started
      have bounds := taskRange_inside (ctaIdx : Int) (lt_of_le_of_lt inside.1 inside.2)
      exact kept_barrier_completes launches wellFormed room small reached foundBarrier active (reduceWindowed op)
        pair.reduceFound early late below started (by omega)
  · intro reduceIndex copyIndex reduce copy pair between ctaIdx below window started other lower upper
    obtain ⟨⟨early, inReduces⟩, late, inCopies⟩ := reduceThenCopy_positions shaped (tasks ▸ pair)
    obtain ⟨barrierCta, inRange, index, task, inStripe, op, after, before⟩ := between
    obtain ⟨transfer, found, performs⟩ :=
      (launches.performs_iff wellFormed.terminals room barrierCta (by omega) index task).mp inStripe
    cases performs with
    | barrier active =>
      exact kept_barrier_completes launches wellFormed room small reached found active (reduceWindowed pair.reduceOp)
        pair.reduceFound after before below started ⟨lower, upper⟩
    | windows windowed _ =>
      simp only [transferTaskIsWindowed, Bool.or_eq_true, decide_eq_true_eq] at windowed
      rcases windowed with ((data | data) | data) | data <;> simp [transferWindows, windowOp, data] at op

/-- In-place all-reduce on one island: copies of a slice follow the reductions into it, and no CTA gets stuck. -/
theorem buildAllreduceTransferPlan_copiesFollow (inPlace : input.outOfPlace = false) (single : OneIsland input)
    (built : (buildAllreduceTransferPlan cap storage input).1 = true)
    (lowered : lowerForRank .allReduce (buildAllreduceTransferPlan cap storage input).2 input.launchConfig binding =
      (true, windowPlan, numBlocks))
    (room : 112 ≤ destination.tasks.length) :
    (∀ state, Reachable (launchSystem (windowTaskExecutorPlanPack windowPlan destination) numBlocks.toNat) 0 state →
      CopiesFollow (executableTasks (buildAllreduceTransferPlan cap storage input).2 binding.currentRank)
        (rankBufferRef binding.currentRank (sliceBeginBytes input binding.currentRank))
        (windowTaskExecutorPlanPack windowPlan destination) numBlocks.toNat state) ∧
      Completes (Step (launchSystem (windowTaskExecutorPlanPack windowPlan destination) numBlocks.toNat)) (start 0)
        (Finished (launchSystem (windowTaskExecutorPlanPack windowPlan destination) numBlocks.toNat)) := by
  have wellFormed := (Planned.allreduce built).wellFormed
  have starts : ∀ task ∈ (buildAllreduceTransferPlan cap storage input).2.tasks, 0 ≤ task.beginWindow :=
    fun task member => le_of_eq (wellFormed.starts task member).symm
  rcases lowerTransferPlanForRank_cases starts lowered with ⟨empty, _, rfl⟩ | ⟨ctx, buffer, shape, rfl, launches⟩
  · refine ⟨fun state reached => ⟨?_, ?_⟩, fun state reached => ⟨state, .refl, fun agent member => ?_⟩⟩
    · intro _ _ _ _ _ ctaIdx below
      exact absurd below (Nat.not_lt_zero _)
    · intro _ _ _ _ _ _ ctaIdx below
      exact absurd below (Nat.not_lt_zero _)
    · exact absurd (Finset.mem_range.mp member) (Nat.not_lt_zero _)
  · have baseZero : ctx.options.ctaBarrierStart = 0 := by
      rw [launches.sameOptions]
      rfl
    have small : ctx.options.ctaBarrierStart +
        ({ maxTransferTasks := maxTransferTasks .allReduce } : LoweringLimits).maxWindowTasks < 2 ^ 32 := by
      rw [baseZero]
      decide
    obtain ⟨_, transports, _, ranks⟩ := buildAllreduceTransferPlan_ranks inPlace single built
    have own := ranks binding.currentRank
    have nonempty : buffer.tasks ≠ [] := by
      have width := launches.shaped.tasksPerCta
      have positive := launches.shaped.nonempty
      intro none
      rw [none, List.length_nil] at width
      omega
    have busy : binding.currentRank ∈ intRange input.worldSize ∧ ¬(SliceSkipped input binding.currentRank ∨
        peersOf binding.currentRank input.worldSize = []) := by
      by_contra idle
      refine nonempty ?_
      rw [launches.tasks, executableTasks, own]
      split
      · rename_i inRange
        have none : SliceSkipped input binding.currentRank ∨ peersOf binding.currentRank input.worldSize = [] := by
          by_contra active
          exact idle ⟨inRange, active⟩
        rw [directRankBlock_idle inPlace none]
        rfl
      · rfl
    obtain ⟨inRange, active⟩ := busy
    obtain ⟨working, hasPeers⟩ := not_or.mp active
    obtain ⟨ready, reduces, barrier, copies, block, isReady, shaped⟩ :=
      directRankBlock_order transports inPlace working inRange hasPeers
    have tasks : buffer.tasks = reduces ++ barrier :: copies := by
      have dropReady : ready.filter (fun task => !transferTaskIsReady task) = [] := by
        refine List.filter_eq_nil_iff.mpr fun task member => ?_
        rcases isReady task member with op | op <;> simp [transferTaskIsReady, op]
      have keepRest : (reduces ++ barrier :: copies).filter (fun task => !transferTaskIsReady task) =
          reduces ++ barrier :: copies := by
        refine List.filter_eq_self.mpr fun task member => ?_
        rcases List.mem_append.mp member with inReduces | inRest
        · simp [transferTaskIsReady, (shaped.reduce task inReduces).1]
        · rcases List.mem_cons.mp inRest with rfl | inCopies
          · simp [transferTaskIsReady, shaped.isBarrier]
          · have isCopy := (shaped.copy task inCopies).1
            simp only [isCopyTask, Bool.or_eq_true, beq_iff_eq] at isCopy
            rcases isCopy with op | op <;> simp [transferTaskIsReady, op]
      rw [launches.tasks, executableTasks, own, if_pos inRange, block, List.filter_append, dropReady, keepRest,
        List.nil_append]
    constructor
    · intro state reached
      rw [← launches.tasks]
      exact direct_copiesFollow shaped launches tasks wellFormed room small (baseZero ▸ reached)
    · have faithful : Faithful
          (launchSystem (windowTaskExecutorPlanPack windowPlan destination) shape.ctaCount.toNat)
          ctx.options.ctaBarrierStart ((activeBarriers ctx buffer shape buffer.tasks.length).map Prod.snd) :=
        launch_faithful launches small
      have finishes := completes (launch_aligned launches wellFormed.terminals room) faithful
      rwa [baseZero] at finishes

/-- Two ranks with three windows each: the reductions of all CTAs precede the copies, window by window. -/
theorem buildAllreduceTransferPlan_copiesFollow_two :
    let input : TransferPlanBuildInput := { worldSize := 2, count := 20000, dtypeSize := 2 }
    let plan := (buildAllreduceTransferPlan 512 {} input).2
    let lowered := lowerForRank .allReduce plan input.launchConfig (mappedBinding 2 0)
    let packed := windowTaskExecutorPlanPack lowered.2.1 { tasks := List.replicate 112 {} }
    lowered.2.2 = 3 ∧ (∀ state, Reachable (launchSystem packed lowered.2.2.toNat) 0 state →
      CopiesFollow (executableTasks plan 0) (rankBufferRef 0 (sliceBeginBytes input 0)) packed lowered.2.2.toNat
        state) ∧
      Completes (Step (launchSystem packed lowered.2.2.toNat)) (start 0)
        (Finished (launchSystem packed lowered.2.2.toNat)) := by
  intro input plan lowered packed
  have success : lowered.1 = true := by decide +kernel
  have blocks : lowered.2.2 = 3 := by decide +kernel
  have split : lowered = (true, lowered.2.1, lowered.2.2) := by rw [← success]
  exact ⟨blocks, buildAllreduceTransferPlan_copiesFollow rfl (oneIsland_of_allDirect (allDirect_of_absent rfl))
    (by decide +kernel) split (by simp)⟩

/-- There CTA 0 starts its copy while the reduction of window 1 still waits on CTA 1: the barrier was dropped. -/
theorem buildAllreduceTransferPlan_copyStarts_early :
    let input : TransferPlanBuildInput := { worldSize := 2, count := 20000, dtypeSize := 2 }
    let plan := (buildAllreduceTransferPlan 512 {} input).2
    let lowered := lowerForRank .allReduce plan input.launchConfig (mappedBinding 2 0)
    let packed := windowTaskExecutorPlanPack lowered.2.1 { tasks := List.replicate 112 {} }
    (buildAllreduceTransferPlan 512 {} input).1 = true ∧ lowered.1 = true ∧
      ∃ state, Reachable (launchSystem packed lowered.2.2.toNat) 0 state ∧
        ∃ reduce copy,
          ReduceThenCopy (executableTasks plan 0) (rankBufferRef 0 (sliceBeginBytes input 0)) 0 2 reduce copy ∧
          Started (launchSystem packed lowered.2.2.toNat) state 0 2 0 ∧
          (reduce.beginWindow ≤ 1 ∧ 1 < reduce.endWindow) ∧
          ¬Completed (launchSystem packed lowered.2.2.toNat) state 0 1 := by
  intro input plan lowered packed
  have success : lowered.1 = true := by decide +kernel
  have blocks : lowered.2.2.toNat = 3 := by decide +kernel
  have code : (launchSystem packed lowered.2.2.toNat).items 0 =
      [.work (.start 0 0), .work (.complete 0 { beginWindow := 0, endWindow := 1 }), .work (.start 2 0),
        .work (.complete 2 { beginWindow := 0, endWindow := 1 })] := by
    decide +kernel
  have member : 0 ∈ (launchSystem packed lowered.2.2.toNat).agents := by
    rw [launchSystem, ctaSystem, blocks]
    decide
  have works : ∀ position < 3, ∃ event,
      ((launchSystem packed lowered.2.2.toNat).items 0)[position]? = some (.work event) := by
    intro position small
    rw [code]
    match position, small with
    | 0, _ => exact ⟨_, rfl⟩
    | 1, _ => exact ⟨_, rfl⟩
    | 2, _ => exact ⟨_, rfl⟩
  have pair : ∃ reduce copy,
      ReduceThenCopy (executableTasks plan 0) (rankBufferRef 0 (sliceBeginBytes input 0)) 0 2 reduce copy ∧
        (reduce.beginWindow ≤ 1 ∧ 1 < reduce.endWindow) := by
    exact ⟨(executableTasks plan 0).getD 0 {}, (executableTasks plan 0).getD 2 {},
      ⟨by decide +kernel, by decide +kernel, by decide, by decide +kernel, by decide +kernel, by decide +kernel,
        by decide +kernel⟩, by decide +kernel⟩
  obtain ⟨reduce, copy, isPair, inside⟩ := pair
  refine ⟨by decide +kernel, success, _, reachable_ahead member works, reduce, copy, isPair, ?_, inside, ?_⟩
  · unfold Started
    rw [code]
    simp
  · rintro ⟨ctaIdx, _, windows, done, lower, upper⟩
    by_cases first : ctaIdx = 0
    · subst first
      rw [code] at done
      simp only [Function.update_self, List.take_succ_cons, List.take_zero, List.mem_cons, reduceCtorEq,
        Item.work.injEq, WindowEvent.complete.injEq, true_and, List.not_mem_nil, or_false, false_or] at done
      subst done
      exact absurd upper (by decide)
    · simp only [Function.update_of_ne first, List.take_zero] at done
      cases done

end Direct

end Order

end Ooverlap.Kernel
