import Ooverlap.Lowering.Emission
import Ooverlap.Plan.AllOrNothing
import Ooverlap.Plan.TransportSoundness

/-! What planning and lowering leave behind: a complete plan, or none at all. -/

namespace Ooverlap.Lowering

open Plan

variable {limits : LoweringLimits} {binding : RankPointerBinding} {ctx : LoweringContext} {shape : LoweringShape}
  {buffer : RankTransferTaskBuffer} {windowPlan : WindowTaskExecutorPlan} {numBlocks : Int}

/-- A window plan whose blocks' stripes fill its task count, and whose task count fits the plan. -/
structure WithinCapacity (limits : LoweringLimits) (windowPlan : WindowTaskExecutorPlan) (numBlocks : Int) : Prop where
  room : windowPlan.totalTasks ≤ limits.maxWindowTasks
  stored : (windowPlan.tasks.length : Int) = windowPlan.totalTasks
  blocks : 0 ≤ numBlocks ∧ windowPlan.totalTasks = numBlocks * windowPlan.tasksPerCta

def LoweredOrZeroed (limits : LoweringLimits) (result : Bool × WindowTaskExecutorPlan × Int) : Prop :=
  (result.1 = true ∧ WithinCapacity limits result.2.1 result.2.2) ∨ result = (false, {}, 0)

theorem withinCapacity_empty (limits : LoweringLimits) : WithinCapacity limits {} 0 where
  room := Int.natCast_nonneg _
  stored := rfl
  blocks := ⟨le_refl 0, rfl⟩

theorem computeLoweringShape_total (computed : computeLoweringShape limits ctx buffer = some shape)
    (launches : 0 < shape.ctaCount) : shape.totalWindowTasks = shape.ctaCount * shape.tasksPerCta := by
  unfold computeLoweringShape at computed
  split at computed
  · cases computed
    cases launches
  · split at computed
    · cases computed
    · split at computed
      · cases computed
      · split at computed
        · rename_i idle
          cases computed
          exact absurd launches (not_lt.mpr idle)
        · split at computed
          · cases computed
          · cases computed
            rfl

theorem emitStripe_length (emitted : emitStripe limits binding ctx shape buffer ctaIdx = some stripe) :
    (stripe.length : Int) = shape.tasksPerCta := by
  obtain ⟨inner, _, kept⟩ := Option.bind_eq_some_iff.mp emitted
  split at kept
  · cases kept
  · rename_i same
    cases kept
    exact not_not.mp same

/-- Stripes of one length, one for each CTA. -/
theorem stripes_length (ctas : List Nat) (stripes : List (List WindowTask))
    (ran : ctas.mapM (emitStripe limits binding ctx shape buffer) = some stripes) :
    (stripes.flatten.length : Int) = ctas.length * shape.tasksPerCta := by
  induction ctas generalizing stripes with
  | nil =>
    cases ran
    simp
  | cons cta rest ih =>
    rw [List.mapM_cons] at ran
    obtain ⟨stripe, here, ran⟩ := Option.bind_eq_some_iff.mp ran
    obtain ⟨others, later, same⟩ := Option.bind_eq_some_iff.mp ran
    cases same
    have width := emitStripe_length here
    have widths := ih others later
    rw [List.flatten_cons, List.length_append, List.length_cons]
    push_cast
    rw [width, widths, Int.add_mul, Int.one_mul, Int.add_comm]

theorem emitWindowPlan_within (computed : computeLoweringShape limits ctx buffer = some shape)
    (launches : 0 < shape.ctaCount) (emitted : emitWindowPlanFromRankTasks limits binding ctx shape buffer =
      some (windowPlan, numBlocks)) : WithinCapacity limits windowPlan numBlocks := by
  unfold emitWindowPlanFromRankTasks at emitted
  split at emitted
  · cases emitted
    exact withinCapacity_empty limits
  · split at emitted
    · cases emitted
    · rename_i fits
      obtain ⟨stripes, ran, same⟩ := Option.map_eq_some_iff.mp emitted
      cases same
      have total := computeLoweringShape_total computed launches
      have length := stripes_length _ stripes ran
      rw [List.length_range, Int.toNat_of_nonneg launches.le] at length
      exact ⟨not_lt.mp fits, length.trans total.symm, launches.le, total⟩

theorem lowerTransferPlanForRank_loweredOrZeroed (limits : LoweringLimits) (plan : TransferPlan)
    (binding : RankPointerBinding) (launchConfig : LaunchConfig) (options : LoweringPassOptions) :
    LoweredOrZeroed limits (lowerTransferPlanForRank limits plan binding launchConfig options) := by
  unfold lowerTransferPlanForRank
  cases passes : lowerPasses limits plan binding launchConfig options with
  | none => exact Or.inr rfl
  | some result =>
    refine Or.inl ⟨rfl, ?_⟩
    simp only [lowerPasses, Option.bind_eq_bind, Option.bind_eq_some_iff] at passes
    obtain ⟨ctx, _, _, _, buffer, _, shape, computed, emission⟩ := passes
    split at emission
    · cases emission
      exact withinCapacity_empty limits
    · rename_i launches
      obtain ⟨⟨windowPlan, numBlocks⟩, emitted, kept⟩ := Option.bind_eq_some_iff.mp emission
      split at kept
      · cases kept
        exact emitWindowPlan_within computed (by omega) emitted
      · cases kept

/-- Each planner leaves a complete plan or none, and so does the lowering of any plan. -/
theorem planners_lowering_allOrNothing (valid : validBuildInput input = true) (cap : Nat) (storage : TransferPlan) :
    PlannedOrEmpty cap (AllReduce.buildAllreduceTransferPlan cap storage input) ∧
      PlannedOrEmpty cap (ReduceScatter.buildReduceScatterTransferPlan cap storage input) ∧
      PlannedOrEmpty cap (AllGather.buildAllGatherTransferPlan cap storage input) ∧
      ∀ limits plan binding launchConfig options,
        LoweredOrZeroed limits (lowerTransferPlanForRank limits plan binding launchConfig options) := by
  obtain ⟨⟨_, small⟩, _, windowed, _⟩ := (validBuildInput_iff input).mp valid
  refine ⟨?_, ?_, ?_, lowerTransferPlanForRank_loweredOrZeroed⟩
  · exact runPlanner_plannedOrEmpty valid (AllReduce.planAllreduce_completes windowed small) storage
  · exact runPlanner_plannedOrEmpty valid (ReduceScatter.planReduceScatter_completes windowed small) storage
  · exact runPlanner_plannedOrEmpty valid (AllGather.planAllGather_completes windowed small) storage

theorem planners_lowering_allOrNothing_nvlinkPair :
    PlannedOrEmpty 512 (AllReduce.buildAllreduceTransferPlan 512 {} nvlinkPair) ∧
      PlannedOrEmpty 256 (ReduceScatter.buildReduceScatterTransferPlan 256 {} nvlinkPair) ∧
      PlannedOrEmpty 0 (AllGather.buildAllGatherTransferPlan 0 {} nvlinkPair) :=
  ⟨(planners_lowering_allOrNothing (by decide) 512 {}).1, (planners_lowering_allOrNothing (by decide) 256 {}).2.1,
    (planners_lowering_allOrNothing (by decide) 0 {}).2.2.1⟩

end Ooverlap.Lowering
