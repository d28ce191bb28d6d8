import Ooverlap.Lowering.Launch
import Ooverlap.Lowering.Refines
import Ooverlap.Plan.AllReduceRanks

/-! When the ranks of one collective agree on whether to launch a kernel. -/

namespace Ooverlap.Lowering

open Plan

section Rank

variable {input : TransferPlanBuildInput} {rank : Int} {limits : LoweringLimits} {binding : RankPointerBinding}

/-- A rank's view of the group in which every rank's device buffer is mapped. -/
structure Mapped (input : TransferPlanBuildInput) (rank : Int) (binding : RankPointerBinding) : Prop where
  currentRank : binding.currentRank = rank
  worldSize : binding.worldSize = input.worldSize
  buffers : ∀ owner ∈ intRange input.worldSize, binding.rankBuffer owner ≠ 0

/-- A lowering that succeeds with blocks to launch. -/
def Launched (result : Bool × WindowTaskExecutorPlan × Int) : Prop :=
  result.1 = true ∧ 0 < result.2.2

instance : DecidablePred Launched := fun result =>
  inferInstanceAs (Decidable (result.1 = true ∧ 0 < result.2.2))

theorem resolve_mapped (mapped : Mapped input rank binding) (ranks : input.worldSize ≤ limits.maxRanks)
    (ref : OnRankBuffer input ref₀) :
    resolveLogicalConstPtr limits ref₀ binding ≠ 0 ∧ resolveLogicalMutPtr limits ref₀ binding ≠ 0 := by
  obtain ⟨owner, inRange, byteOffset, rfl⟩ := ref
  have bounds := mem_intRange.mp inRange
  have present := mapped.buffers owner inRange
  have resolved : resolveLogicalConstPtr limits (rankBufferRef owner byteOffset) binding ≠ 0 := by
    change (if owner < 0 ∨ owner ≥ limits.maxRanks then 0
      else offsetBytes (binding.rankBuffer owner) byteOffset) ≠ 0
    rw [if_neg (by omega), offsetBytes, if_neg present]
    exact fun sum => present (Nat.eq_zero_of_add_eq_zero_right sum)
  exact ⟨resolved, resolved⟩

theorem sliceWork_lowerable_iff (mapped : Mapped input rank binding) (ranks : input.worldSize ≤ limits.maxRanks)
    (chunks : 0 < input.launchConfig.windowChunks) (some : sliceBytes input rank ≠ 0)
    (work : SliceWork input rank task) :
    Lowerable limits binding task ↔ sliceBytes input rank ≤ kWindowTaskMaxBytes := by
  obtain ⟨executor, bytes, windows, windowChunks, direct, src, kind⟩ := work
  have source := (resolve_mapped mapped ranks src).1
  unfold Lowerable Sized
  rw [bytes, windowChunks]
  constructor
  · rintro ⟨_, ⟨_, _, small⟩, _⟩
    exact small
  · intro small
    refine ⟨source, ⟨chunks, Nat.pos_of_ne_zero some, small⟩, ?_⟩
    rcases kind with ⟨op, dst⟩ | ⟨op, dst, reduce⟩ | ⟨op, ⟨several, few⟩, count, dsts, load, store⟩
    · rw [op]
      exact ⟨(resolve_mapped mapped ranks dst).2, Or.inl direct⟩
    · rw [op]
      exact ⟨(resolve_mapped mapped ranks dst).2, Or.inl direct, reduce⟩
    · rw [op]
      refine ⟨⟨by rw [count]; omega, fun dst member => ?_⟩, direct, load, store⟩
      obtain ⟨index, bound, rfl⟩ := List.mem_map.mp member
      rw [List.mem_range, count, Int.toNat_natCast] at bound
      rw [List.getD_eq_getElem?_getD, List.getElem?_eq_getElem bound, Option.getD_some]
      exact (resolve_mapped mapped ranks (dsts _ (List.getElem_mem bound))).2

theorem sliceWork_windowed (work : SliceWork input rank task) : transferTaskIsWindowed task = true := by
  rcases work.kind with ⟨op, _⟩ | ⟨op, _⟩ | ⟨op, _⟩ <;> simp [transferTaskIsWindowed, op]

theorem rankBody_executable (inRange : 0 ≤ rank) (chunks : 0 < input.launchConfig.windowChunks)
    (active : ¬AllReduce.SliceSkipped input rank) (body : RankBody input rank task) : Executable rank task := by
  obtain ⟨some, windows⟩ := not_or.mp active
  rcases body with ⟨op, executor, bytes⟩ | work
  · refine ⟨executor, ?_, Or.inl (by simp [transferTaskIsBarrier, op])⟩
    simp [transferTaskHasWork, op, executor, inRange, bytes, some]
  · refine ⟨work.executor, ?_, Or.inr (sliceWork_windowed work)⟩
    have ranges := work.windows
    have positive : 0 < sliceWindows input rank := by omega
    rcases work.kind with ⟨op, _⟩ | ⟨op, _⟩ | ⟨op, ⟨several, few⟩, count, _⟩
    · simp [transferTaskHasWork, op, work.executor, inRange, work.bytes, some, work.windowChunks, chunks, ranges,
        positive]
    · simp [transferTaskHasWork, op, work.executor, inRange, work.bytes, some, work.windowChunks, chunks, ranges,
        positive]
    · simp [transferTaskHasWork, op, work.executor, inRange, work.bytes, some, work.windowChunks, chunks, ranges,
        positive, count, several, few]

/-- The limits and options under which the launchers lower a plan. -/
structure LaunchLimits (limits : LoweringLimits) (cap : Nat) (launchConfig : LaunchConfig)
    (options : LoweringPassOptions) : Prop where
  transferTasks : cap ≤ limits.maxTransferTasks
  windowTasks : 3 * kPlannerMaxRanks ≤ limits.maxWindowTasks
  ranks : kPlannerMaxRanks ≤ limits.maxRanks
  maxCtas : 0 < launchConfig.maxCtas ∧ launchConfig.maxCtas ≤ 32
  perReduce : options.enableReduceCtaGroups = true →
    0 < options.maxCtasPerReduceTask ∧ options.maxCtasPerReduceTask ≤ 32
  unlimited : options.enforceExecutorTaskLimit = false

theorem makeLoweringContext_some (mapped : Mapped input rank binding) (inRange : rank ∈ intRange input.worldSize)
    (small : input.worldSize ≤ 16) (admitted : LaunchLimits limits cap launchConfig options) :
    makeLoweringContext limits binding launchConfig options =
      some { currentRank := binding.currentRank, worldSize := binding.worldSize, launchConfig, options } := by
  obtain ⟨_, _, ranks, maxCtas, perReduce, _⟩ := admitted
  have bounds := mem_intRange.mp inRange
  have plannerRanks : kPlannerMaxRanks = 16 := rfl
  have ctas : kWindowTaskMaxCtas = 32 := rfl
  rw [makeLoweringContext, if_neg]
  rw [mapped.currentRank, mapped.worldSize, ctas]
  rintro (low | high | none | many | none | many | ⟨enabled, few⟩)
  all_goals try omega
  have groups := perReduce enabled
  omega

/-- A working rank whose slice fits a window task launches. -/
theorem lower_working (mapped : Mapped input rank binding) (inRange : rank ∈ intRange input.worldSize)
    (small : input.worldSize ≤ 16) (chunks : 0 < input.launchConfig.windowChunks)
    (admitted : LaunchLimits limits cap launchConfig options) (capacity : plan.tasks.length ≤ cap)
    (active : ¬AllReduce.SliceSkipped input rank) (working : Working input rank (rankTasks plan rank))
    (fits : sliceBytes input rank ≤ kWindowTaskMaxBytes) :
    Launched (lowerTransferPlanForRank limits plan binding launchConfig options) := by
  obtain ⟨opening, body, own, ready, bodies, ⟨worker, inBody, _⟩, few⟩ := working
  have bounds := mem_intRange.mp inRange
  have made := makeLoweringContext_some mapped inRange small admitted
  have checked := (makeLoweringContext_checked made).1
  have current := mapped.currentRank
  generalize contextOf : ({ currentRank := binding.currentRank, worldSize := binding.worldSize, launchConfig, options } :
    LoweringContext) = ctx at made checked
  have currentRank : ctx.currentRank = rank := by rw [← contextOf]; exact current
  have executable : ∀ task ∈ body, Executable ctx.currentRank task := fun task member =>
    currentRank ▸ rankBody_executable bounds.1 chunks active (bodies task member)
  obtain ⟨first, buffer, collected, passed, rfl, counted⟩ := collect_working
    (le_trans capacity admitted.transferTasks) (currentRank ▸ own) (currentRank ▸ ready) executable
  have works : ∀ task ∈ buffer.tasks, transferTaskIsWindowed task = true → SliceWork input rank task := by
    intro task member windowed
    refine (bodies task member).resolve_left ?_
    rintro ⟨op, _⟩
    simp [transferTaskIsWindowed, op] at windowed
  have ends : ∀ task ∈ buffer.tasks, transferTaskIsWindowed task = true → 0 < task.endWindow := by
    intro task member windowed
    rw [(works task member windowed).windows.2]
    exact not_le.mp (not_or.mp active).2
  obtain ⟨shape, computed, shaped, total⟩ := computeLoweringShape_some checked counted ends
    (List.ne_nil_of_mem inBody) (le_trans few admitted.windowTasks)
  have ranks : input.worldSize ≤ limits.maxRanks := by
    have enough := admitted.ranks
    have plannerRanks : kPlannerMaxRanks = 16 := rfl
    omega
  have lowerable : ∀ task ∈ buffer.tasks, transferTaskIsWindowed task = true → Lowerable limits binding task :=
    fun task member windowed =>
      (sliceWork_lowerable_iff mapped ranks chunks (not_or.mp active).1 (works task member windowed)).mpr fits
  obtain ⟨windowPlan, emitted, totalTasks, perCta⟩ := emitWindowPlan_some shaped total lowerable executable
  have launches := shaped.ctas.1
  have nonempty := shaped.nonempty
  have validated : runWindowPlanLoweringPasses limits ctx windowPlan shape.ctaCount = true := by
    have unlimited : ctx.options.enforceExecutorTaskLimit = false := by
      rw [← contextOf]
      exact admitted.unlimited
    have nonnegative : 0 ≤ shape.ctaCount * shape.tasksPerCta := Int.mul_nonneg (le_of_lt launches) (le_of_lt nonempty)
    have shapeOk : passValidateWindowPlanShape limits windowPlan shape.ctaCount = true := by
      rw [passValidateWindowPlanShape, totalTasks, perCta, if_neg, if_neg (by omega), if_neg (by omega), shaped.total]
      · simp
      · have product := shaped.total
        omega
    have limitOk : passValidateExecutorTaskLimit ctx windowPlan = true := by
      simp [passValidateExecutorTaskLimit, unlimited]
    simp [runWindowPlanLoweringPasses, shapeOk, limitOk]
  have passes : lowerPasses limits plan binding launchConfig options = some (windowPlan, shape.ctaCount) := by
    simp only [lowerPasses, made, collected, passed, computed, emitted, Option.bind_eq_bind, Option.bind_some,
      validated, if_true]
    rw [if_neg (by omega)]
    rfl
  rw [lowerTransferPlanForRank, passes]
  exact ⟨rfl, launches⟩

/-- In a launch every windowed task was lowered on the CTA that owns its first window. -/
theorem Launches.lowerable (launches : Launches limits plan binding options windowPlan ctx buffer shape)
    (starts : ∀ task ∈ plan.tasks, 0 ≤ task.beginWindow) (member : transfer ∈ buffer.tasks)
    (windowed : transferTaskIsWindowed transfer = true) : Lowerable limits binding transfer := by
  have nonempty := executable_windows (launches.executable transfer member) windowed
  obtain ⟨windows, reaches⟩ := launches.counted.reaches transfer member windowed
  rw [← launches.shaped.maxEndWindow] at reaches
  obtain ⟨index, found⟩ := List.getElem?_of_mem member
  rw [launches.tasks] at member
  have start := starts transfer (List.mem_of_mem_filter (List.mem_of_mem_filter member))
  have cover := taskRange_cover launches.checked launches.shaped.ctas windows start (le_of_lt nonempty) reaches
    (reducesBefore buffer.tasks index) transfer.beginWindow
  rw [Split.covers_eq_one ⟨le_refl _, nonempty⟩] at cover
  obtain ⟨owner, ⟨small, lower, upper⟩, _⟩ := Split.covers_unique cover
  obtain ⟨stored, _, lowered⟩ := launches.emitted.slot owner (by omega) index transfer found
  rw [stripeTask_windows windowed] at lowered
  exact ((lowerWindows_eq_some_iff _ (lt_of_le_of_lt lower upper)).mp lowered).1

/-- A rank without tasks does not launch. -/
theorem lower_idle (starts : ∀ task ∈ plan.tasks, 0 ≤ task.beginWindow)
    (idle : rankTasks plan binding.currentRank = []) :
    ¬Launched (lowerTransferPlanForRank limits plan binding launchConfig options) := by
  rintro ⟨success, blocks⟩
  have split : lowerTransferPlanForRank limits plan binding launchConfig options =
      (true, (lowerTransferPlanForRank limits plan binding launchConfig options).2.1,
        (lowerTransferPlanForRank limits plan binding launchConfig options).2.2) := by
    rw [← success]
  rcases lowerTransferPlanForRank_cases starts split with ⟨_, _, none⟩ | ⟨ctx, buffer, shape, _, launches⟩
  · omega
  · have empty : buffer.tasks = [] := by
      rw [launches.tasks, executableTasks, idle]
      rfl
    have width := launches.shaped.tasksPerCta
    have nonempty := launches.shaped.nonempty
    rw [empty, List.length_nil] at width
    omega

/-- A working rank launches only when its slice fits a window task. -/
theorem lower_working_fits (mapped : Mapped input rank binding) (small : input.worldSize ≤ limits.maxRanks)
    (chunks : 0 < input.launchConfig.windowChunks) (starts : ∀ task ∈ plan.tasks, 0 ≤ task.beginWindow)
    (active : ¬AllReduce.SliceSkipped input rank) (working : Working input rank (rankTasks plan rank))
    (launched : Launched (lowerTransferPlanForRank limits plan binding launchConfig options)) :
    sliceBytes input rank ≤ kWindowTaskMaxBytes := by
  obtain ⟨success, blocks⟩ := launched
  obtain ⟨opening, body, own, _, _, ⟨worker, inBody, work⟩, _⟩ := working
  have split : lowerTransferPlanForRank limits plan binding launchConfig options =
      (true, (lowerTransferPlanForRank limits plan binding launchConfig options).2.1,
        (lowerTransferPlanForRank limits plan binding launchConfig options).2.2) := by
    rw [← success]
  rcases lowerTransferPlanForRank_cases starts split with ⟨_, _, none⟩ | ⟨ctx, buffer, shape, _, launches⟩
  · omega
  · have windowed := sliceWork_windowed work
    have member : worker ∈ buffer.tasks := by
      rw [launches.tasks, executableTasks, mapped.currentRank, own]
      refine List.mem_filter.mpr ⟨List.mem_append_right _ inBody, ?_⟩
      rw [windowed_not_ready windowed]
      rfl
    exact (sliceWork_lowerable_iff mapped small chunks (not_or.mp active).1 work).mp
      (launches.lowerable starts member windowed)

end Rank

section Collectives

inductive Collective where
  | allReduce
  | reduceScatter
  | allGather
  deriving DecidableEq, Repr

/-- Transfer-task capacity of a collective's plan. -/
def maxTransferTasks : Collective → Nat
  | .allReduce => 512
  | .reduceScatter => 256
  | .allGather => 256

def buildTransferPlan (collective : Collective) (storage : TransferPlan) (input : TransferPlanBuildInput) :
    Bool × TransferPlan :=
  match collective with
  | .allReduce => AllReduce.buildAllreduceTransferPlan (maxTransferTasks collective) storage input
  | .reduceScatter => ReduceScatter.buildReduceScatterTransferPlan (maxTransferTasks collective) storage input
  | .allGather => AllGather.buildAllGatherTransferPlan (maxTransferTasks collective) storage input

/-- Options of the launchers: only the reducing collectives group their CTAs. -/
def loweringOptions (collective : Collective) (launchConfig : LaunchConfig) : LoweringPassOptions :=
  match collective with
  | .allGather => { ctaBarrierStart := 0 }
  | _ =>
    { enableReduceCtaGroups := true, maxCtasPerReduceTask := launchConfig.maxCtasPerReduceTask, ctaBarrierStart := 0 }

/-- What a rank's launcher gets when it lowers the collective's plan for itself. -/
def lowerForRank (collective : Collective) (plan : TransferPlan) (launchConfig : LaunchConfig)
    (binding : RankPointerBinding) : Bool × WindowTaskExecutorPlan × Int :=
  lowerTransferPlanForRank { maxTransferTasks := maxTransferTasks collective } plan binding launchConfig
    (loweringOptions collective launchConfig)

variable {input : TransferPlanBuildInput} {collective : Collective}

/-- Every rank launches, or none does. -/
def LaunchesAgree (collective : Collective) (input : TransferPlanBuildInput) (plan : TransferPlan)
    (binding : Int → RankPointerBinding) : Prop :=
  (∀ rank ∈ intRange input.worldSize, Launched (lowerForRank collective plan input.launchConfig (binding rank))) ∨
    ∀ rank ∈ intRange input.worldSize, ¬Launched (lowerForRank collective plan input.launchConfig (binding rank))

/-- A slice of some bytes and windows that one window task can carry. -/
def SliceLaunchable (input : TransferPlanBuildInput) (bytes : Nat) : Prop :=
  (0 < bytes ∧ bytes ≤ kWindowTaskMaxBytes) ∧ 0 < windowCountForTransferBytes bytes input.launchConfig

instance (input : TransferPlanBuildInput) : DecidablePred (SliceLaunchable input) := fun bytes =>
  inferInstanceAs (Decidable ((0 < bytes ∧ bytes ≤ kWindowTaskMaxBytes) ∧
    0 < windowCountForTransferBytes bytes input.launchConfig))

theorem buildTransferPlan_planned (built : (buildTransferPlan collective storage input).1 = true) :
    Planned (buildTransferPlan collective storage input).2 := by
  cases collective with
  | allReduce => exact .allreduce built
  | reduceScatter => exact .reduceScatter built
  | allGather => exact .allGather built

theorem buildTransferPlan_shape (inPlace : input.outOfPlace = false) (direct : AllDirect input.topo input.worldSize)
    (built : (buildTransferPlan collective storage input).1 = true) :
    PlanShape (maxTransferTasks collective) input (buildTransferPlan collective storage input).2 := by
  cases collective with
  | allReduce => exact AllReduce.buildAllreduceTransferPlan_shape inPlace direct built
  | reduceScatter => exact (buildReduceScatterTransferPlan_shape inPlace direct built).1
  | allGather => exact (buildAllGatherTransferPlan_shape inPlace direct built).1

/-- A rank launches exactly when it is not alone and its slice is launchable. -/
theorem lowerForRank_launched_iff (planned : Planned plan)
    (shape : PlanShape (maxTransferTasks collective) input plan)
    (ctas : 0 < input.launchConfig.maxCtas ∧ input.launchConfig.maxCtas ≤ 32)
    (perReduce : 0 < input.launchConfig.maxCtasPerReduceTask ∧ input.launchConfig.maxCtasPerReduceTask ≤ 32)
    (inRange : rank ∈ intRange input.worldSize) (mapped : Mapped input rank binding) :
    Launched (lowerForRank collective plan input.launchConfig binding) ↔
      input.worldSize ≠ 1 ∧ SliceLaunchable input (sliceBytes input rank) := by
  obtain ⟨⟨_, small⟩, _, chunks, _, _⟩ := (validBuildInput_iff input).mp shape.valid
  have starts : ∀ task ∈ plan.tasks, 0 ≤ task.beginWindow := fun task member =>
    le_of_eq (planned.wellFormed.starts task member).symm
  have admitted : LaunchLimits { maxTransferTasks := maxTransferTasks collective } (maxTransferTasks collective)
      input.launchConfig (loweringOptions collective input.launchConfig) := by
    refine ⟨le_refl _, (by decide : 48 ≤ 112), le_refl 16, ctas, ?_, ?_⟩
    · cases collective with
      | allGather => exact fun enabled => nomatch enabled
      | allReduce => exact fun _ => perReduce
      | reduceScatter => exact fun _ => perReduce
    · cases collective <;> rfl
  have ranks : input.worldSize ≤ ({ maxTransferTasks := maxTransferTasks collective } : LoweringLimits).maxRanks :=
    small
  by_cases idle : input.worldSize = 1 ∨ AllReduce.SliceSkipped input rank
  · have empty := (shape.ranks rank inRange).idle idle
    rw [← mapped.currentRank] at empty
    refine iff_of_false (lower_idle starts empty) ?_
    rintro ⟨several, ⟨some, _⟩, windows⟩
    rcases idle with single | none | few
    · exact several single
    · omega
    · exact absurd windows (not_lt.mpr few)
  · have working := (shape.ranks rank inRange).working idle
    obtain ⟨several, active⟩ := not_or.mp idle
    constructor
    · intro launched
      have fits := lower_working_fits mapped ranks chunks starts active working launched
      obtain ⟨some, windows⟩ := not_or.mp active
      exact ⟨several, ⟨Nat.pos_of_ne_zero some, fits⟩, not_le.mp windows⟩
    · rintro ⟨_, ⟨_, fits⟩, _⟩
      exact lower_working mapped inRange small chunks admitted shape.capacity active working fits

/-- The ranks of an in-place collective on a directly reachable group agree on launching exactly when there is
one rank, the count divides evenly, or the two slice sizes are both launchable or both not. -/
theorem buildTransferPlan_launchesAgree_iff (inPlace : input.outOfPlace = false)
    (direct : AllDirect input.topo input.worldSize) (fits : input.count * input.dtypeSize < 2 ^ 64)
    (ctas : 0 < input.launchConfig.maxCtas ∧ input.launchConfig.maxCtas ≤ 32)
    (perReduce : 0 < input.launchConfig.maxCtasPerReduceTask ∧ input.launchConfig.maxCtasPerReduceTask ≤ 32)
    (built : (buildTransferPlan collective storage input).1 = true)
    (mapped : ∀ rank ∈ intRange input.worldSize, Mapped input rank (binding rank)) :
    LaunchesAgree collective input (buildTransferPlan collective storage input).2 binding ↔
      input.worldSize = 1 ∨ input.count % input.worldSize.toNat = 0 ∨
        (SliceLaunchable input (input.count / input.worldSize.toNat * input.dtypeSize) ↔
          SliceLaunchable input ((input.count / input.worldSize.toNat + 1) * input.dtypeSize)) := by
  have planned := buildTransferPlan_planned built
  have shape := buildTransferPlan_shape inPlace direct built
  have nonempty := ((validBuildInput_iff input).mp shape.valid).1.1
  have launches := fun rank inRange =>
    lowerForRank_launched_iff planned shape ctas perReduce inRange (mapped rank inRange)
  by_cases single : input.worldSize = 1
  · refine iff_of_true (Or.inr fun rank inRange launched => ?_) (Or.inl single)
    exact ((launches rank inRange).mp launched).1 single
  have owns : ∀ rank (inRange : rank ∈ intRange input.worldSize),
      Launched (lowerForRank collective (buildTransferPlan collective storage input).2 input.launchConfig
        (binding rank)) ↔
        SliceLaunchable input
          (Split.share input.count input.worldSize.toNat rank.toNat * input.dtypeSize) := by
    intro rank inRange
    rw [launches rank inRange, sliceBytes_eq fits inRange]
    exact and_iff_right single
  have small : input.count % input.worldSize.toNat < input.worldSize.toNat := Nat.mod_lt _ (by omega)
  constructor
  · intro agree
    refine Or.inr (or_iff_not_imp_left.mpr fun uneven => ?_)
    have first : (0 : Int) ∈ intRange input.worldSize := mem_intRange.mpr ⟨le_refl _, nonempty⟩
    have last : input.worldSize - 1 ∈ intRange input.worldSize := mem_intRange.mpr ⟨by omega, by omega⟩
    have firstShare : Split.share input.count input.worldSize.toNat (0 : Int).toNat =
        input.count / input.worldSize.toNat + 1 := by
      rw [Split.share, if_pos (by simpa using Nat.pos_of_ne_zero uneven)]
    have lastShare : Split.share input.count input.worldSize.toNat (input.worldSize - 1).toNat =
        input.count / input.worldSize.toNat := by
      rw [Split.share, if_neg (by omega), Nat.add_zero]
    have firstOwns := owns 0 first
    have lastOwns := owns _ last
    rw [firstShare] at firstOwns
    rw [lastShare] at lastOwns
    rw [← firstOwns, ← lastOwns]
    rcases agree with all | none
    · exact iff_of_true (all _ last) (all _ first)
    · exact iff_of_false (none _ last) (none _ first)
  · intro holds
    have even := holds.resolve_left single
    have sameForAll : ∀ rank, SliceLaunchable input
        (Split.share input.count input.worldSize.toNat rank * input.dtypeSize) ↔
        SliceLaunchable input (input.count / input.worldSize.toNat * input.dtypeSize) := by
      intro rank
      unfold Split.share
      split
      · rename_i early
        exact (even.resolve_left (by omega)).symm
      · rw [Nat.add_zero]
    by_cases launchable : SliceLaunchable input (input.count / input.worldSize.toNat * input.dtypeSize)
    · exact Or.inl fun rank inRange => (owns rank inRange).mpr ((sameForAll _).mpr launchable)
    · exact Or.inr fun rank inRange launched => launchable ((sameForAll _).mp ((owns rank inRange).mp launched))

/-- The view of a group in which every rank's buffer is mapped somewhere. -/
def mappedBinding (worldSize rank : Int) : RankPointerBinding where
  currentRank := rank
  worldSize := worldSize
  rankBuffer := fun owner => 65536 * (owner.toNat + 1)

theorem mappedBinding_mapped (input : TransferPlanBuildInput) (rank : Int) :
    Mapped input rank (mappedBinding input.worldSize rank) :=
  ⟨rfl, rfl, fun _ _ => Nat.mul_ne_zero (by decide) (Nat.succ_ne_zero _)⟩

/-- Seven half-precision elements leave three launchable slices of two sizes. -/
theorem buildTransferPlan_launchesAgree_three :
    LaunchesAgree .allReduce { worldSize := 3, count := 7, dtypeSize := 2 }
      (buildTransferPlan .allReduce {} { worldSize := 3, count := 7, dtypeSize := 2 }).2 (mappedBinding 3) :=
  (buildTransferPlan_launchesAgree_iff rfl (allDirect_of_absent rfl) (by decide) (by decide) (by decide)
    (by decide +kernel) fun rank _ => mappedBinding_mapped _ rank).mpr
      (Or.inr (Or.inr (iff_of_true (by decide) (by decide))))

/-- With one element on two ranks, rank 0 launches and rank 1 returns success without launching. -/
theorem buildTransferPlan_launches_split :
    let input : TransferPlanBuildInput := { worldSize := 2, count := 1, dtypeSize := 2 }
    let plan := (buildTransferPlan .allReduce {} input).2
    (buildTransferPlan .allReduce {} input).1 = true ∧
      (lowerForRank .allReduce plan input.launchConfig (mappedBinding 2 1)).1 = true ∧
      ¬LaunchesAgree .allReduce input plan (mappedBinding 2) := by
  intro input plan
  have built : (buildTransferPlan .allReduce {} input).1 = true := by decide +kernel
  have first : Launched (lowerForRank .allReduce plan input.launchConfig (mappedBinding 2 0)) := by decide +kernel
  have second : ¬Launched (lowerForRank .allReduce plan input.launchConfig (mappedBinding 2 1)) := by
    decide +kernel
  have returns : (lowerForRank .allReduce plan input.launchConfig (mappedBinding 2 1)).1 = true := by
    decide +kernel
  refine ⟨built, returns, ?_⟩
  rintro (all | none)
  · exact second (all 1 (by decide))
  · exact none 0 (by decide) first

end Collectives

end Ooverlap.Lowering
