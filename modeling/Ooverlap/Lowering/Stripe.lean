import Ooverlap.Lowering.Collect
import Ooverlap.Support.Traverse

/-! Which windows of a task each CTA receives, and what its stripe holds. -/

namespace Ooverlap.Lowering

open Plan

section Shapes

/-- A computed shape with at least one CTA. -/
structure Shaped (ctx : LoweringContext) (buffer : RankTransferTaskBuffer) (shape : LoweringShape) : Prop where
  ctas : 0 < shape.ctaCount ∧ shape.ctaCount ≤ 32
  tasksPerCta : shape.tasksPerCta = buffer.tasks.length
  nonempty : 0 < shape.tasksPerCta
  total : shape.totalWindowTasks = shape.ctaCount * shape.tasksPerCta
  maxEndWindow : shape.maxEndWindow = buffer.maxEndWindow

/-- A context whose launch limits have been checked. -/
structure Checked (ctx : LoweringContext) : Prop where
  maxCtas : 0 < ctx.launchConfig.maxCtas ∧ ctx.launchConfig.maxCtas ≤ 32
  perReduce : ctx.options.enableReduceCtaGroups = true →
    0 < ctx.options.maxCtasPerReduceTask ∧ ctx.options.maxCtasPerReduceTask ≤ 32

theorem makeLoweringContext_checked
    (made : makeLoweringContext limits binding launchConfig options = some ctx) :
    Checked ctx ∧ ctx.currentRank = binding.currentRank ∧ ctx.launchConfig = launchConfig ∧
      ctx.options = options := by
  unfold makeLoweringContext at made
  split at made
  · cases made
  · rename_i valid
    cases made
    have limit : kWindowTaskMaxCtas = 32 := rfl
    rw [limit] at valid
    refine ⟨⟨by simp only; omega, fun enabled => ?_⟩, rfl, rfl, rfl⟩
    simp only [not_or, not_and, not_le, not_lt] at valid
    have groups := valid.2.2.2.2.2.2 enabled
    exact ⟨groups.1, groups.2⟩

theorem ctaCountForWindows_bounds (checked : 0 < maxCtas ∧ maxCtas ≤ 32) (windows : Int) :
    ctaCountForWindows windows maxCtas ≤ 32 ∧ (0 < windows → 0 < ctaCountForWindows windows maxCtas) := by
  unfold ctaCountForWindows
  split <;> omega

theorem launchedCtaCount_le (checked : Checked ctx) (buffer : RankTransferTaskBuffer) :
    launchedCtaCount limits ctx buffer ≤ 32 := by
  have bounds := (ctaCountForWindows_bounds checked.maxCtas buffer.maxEndWindow).1
  have limit : kWindowTaskMaxCtas = 32 := rfl
  unfold launchedCtaCount
  rw [limit]
  dsimp only
  split <;> split <;> omega

theorem launchedCtaCount_positive (checked : Checked ctx) (counted : Counted buffer.tasks buffer)
    (windows : ∀ task ∈ buffer.tasks, transferTaskIsWindowed task = true → 0 < task.endWindow)
    (roomy : 0 < (limits.maxWindowTasks : Int) / tasksPerCta buffer) :
    0 < launchedCtaCount limits ctx buffer := by
  have limit : kWindowTaskMaxCtas = 32 := rfl
  unfold launchedCtaCount
  rw [limit]
  dsimp only
  by_cases positive : buffer.windowCount > 0
  · obtain ⟨task, member, windowed⟩ := counted.occupied positive
    have reaches := (counted.reaches task member windowed).2
    have several := (ctaCountForWindows_bounds checked.maxCtas buffer.maxEndWindow).2
      (lt_of_lt_of_le (windows task member windowed) reaches)
    rw [if_pos positive]
    split <;> omega
  · rw [if_neg positive]
    split <;> omega

theorem computeLoweringShape_shaped (checked : Checked ctx) (counted : Counted buffer.tasks buffer)
    (computed : computeLoweringShape limits ctx buffer = some shape) (launches : 0 < shape.ctaCount) :
    Shaped ctx buffer shape := by
  unfold computeLoweringShape at computed
  split at computed
  · cases computed
    cases launches
  · split at computed
    · cases computed
    · rename_i fits
      split at computed
      · cases computed
      · split at computed
        · rename_i idle
          cases computed
          exact absurd launches (not_lt.mpr idle)
        · split at computed
          · cases computed
          · cases computed
            exact ⟨⟨launches, launchedCtaCount_le checked buffer⟩, counted.total, by simp only; omega, rfl, rfl⟩

end Shapes

section Groups

/-- A CTA group of a launch: a nonempty range of its CTAs, with the matching mask. -/
structure GroupWithin (launchedCtas : Int) (group : ReduceCtaGroup) : Prop where
  first : 0 ≤ group.firstCta
  nonempty : 0 < group.ctaCount
  within : group.firstCta + group.ctaCount ≤ launchedCtas
  mask : group.mask = makeContiguousCtaMask group.firstCta group.ctaCount

theorem reduceCtaGroup_within (launched : 0 < launchedCtas ∧ launchedCtas ≤ 32)
    (perReduce : 0 < maxCtasPerReduceTask ∧ maxCtasPerReduceTask ≤ 32) (reduceTaskIndex : Nat) :
    GroupWithin launchedCtas (reduceCtaGroupForTask reduceTaskIndex launchedCtas maxCtasPerReduceTask) := by
  have limit : kWindowTaskMaxCtas = 32 := rfl
  unfold reduceCtaGroupForTask
  rw [if_neg (by omega), limit, min_eq_left launched.2]
  dsimp only
  have size : 0 < min maxCtasPerReduceTask launchedCtas ∧ min maxCtasPerReduceTask launchedCtas ≤ 32 := by
    omega
  generalize min maxCtasPerReduceTask launchedCtas = groupSize at size
  have counted := ceilDivInt_pos launched.1 size.1 (by omega)
  have index := Int.emod_nonneg (reduceTaskIndex : Int) (ne_of_gt counted)
  have below := Int.emod_lt_of_pos (reduceTaskIndex : Int) counted
  have starts : (reduceTaskIndex : Int) % ceilDivInt launchedCtas groupSize * groupSize < launchedCtas := by
    rw [← not_le, ceilDivInt_le_iff launched.1 size.1 (by omega)] at below
    omega
  have nonnegative := Int.mul_nonneg index (le_of_lt size.1)
  exact ⟨nonnegative, by simp only; omega, by simp only; omega, rfl⟩

theorem foldMask_getLsbD (first count : Nat) (bit : Nat) (small : bit < 32) :
    ((List.range count).foldl
      (fun mask step => mask ||| (1 : WindowTaskCtaMask) <<< (first + step)) 0).getLsbD bit =
      decide (first ≤ bit ∧ bit < first + count) := by
  induction count with
  | zero => simp
  | succ count ih =>
    rw [List.range_succ, List.foldl_append, List.foldl_cons, List.foldl_nil, BitVec.getLsbD_or, ih]
    rw [BitVec.getLsbD_shiftLeft]
    by_cases here : bit = first + count
    · subst here
      simp [small]
    · by_cases before : bit < first + count
      · simp [before, small]
        omega
      · have after : ¬(first ≤ bit ∧ bit < first + (count + 1)) := by omega
        have shifted : bit - (first + count) ≠ 0 := by omega
        simp [before, after, shifted, small]

/-- The bit of a CTA is set in a contiguous mask exactly when the CTA lies in the range. -/
theorem makeContiguousCtaMask_getLsbD (within : GroupWithin launchedCtas group) (limit : launchedCtas ≤ 32)
    (cta : Nat) (small : cta < 32) :
    group.mask.getLsbD cta = decide (group.firstCta ≤ cta ∧ (cta : Int) < group.firstCta + group.ctaCount) := by
  obtain ⟨first, nonempty, inside, mask⟩ := within
  have width : kWindowTaskMaxCtas = 32 := rfl
  rw [mask, makeContiguousCtaMask, width, if_neg (by omega), min_eq_left (by omega), foldMask_getLsbD _ _ _ small]
  exact decide_eq_decide.mpr (by omega)

end Groups

section Ranges

variable (ctx : LoweringContext) (shape : LoweringShape) (windowCount ctaIdx : Int)

/-- Windows of a task that one CTA receives; empty outside the task's group. -/
def taskRange (reduceTaskIndex : Int) (transfer : TransferTask) : WindowRange :=
  if usesReduceGroup ctx transfer then
    let group := reduceCtaGroupForTask reduceTaskIndex shape.ctaCount ctx.options.maxCtasPerReduceTask
    if ctaIdx < group.firstCta ∨ ctaIdx ≥ group.firstCta + group.ctaCount then {}
    else
      let range := ctaWindowRange (ctaIdx - group.firstCta) group.ctaCount
        { beginWindow := transfer.beginWindow, endWindow := transfer.endWindow }
      { beginWindow := max transfer.beginWindow range.beginWindow
        endWindow := min transfer.endWindow range.endWindow }
  else
    let range := fullCtaRange shape windowCount ctaIdx
    { beginWindow := max transfer.beginWindow range.beginWindow
      endWindow := min transfer.endWindow range.endWindow }

def taskMask (reduceTaskIndex : Int) (transfer : TransferTask) : WindowTaskCtaMask :=
  if usesReduceGroup ctx transfer then
    (reduceCtaGroupForTask reduceTaskIndex shape.ctaCount ctx.options.maxCtasPerReduceTask).mask
  else kWindowTaskAllCtas

theorem lowerTaskForCta_eq (limits : LoweringLimits) (binding : RankPointerBinding)
    (reduceTaskIndex : Int) (transfer : TransferTask) :
    lowerTaskForCta limits binding ctx shape windowCount ctaIdx reduceTaskIndex transfer =
      lowerWindows limits binding transfer (taskMask ctx shape reduceTaskIndex transfer)
        (taskRange ctx shape windowCount ctaIdx reduceTaskIndex transfer).beginWindow
        (taskRange ctx shape windowCount ctaIdx reduceTaskIndex transfer).endWindow := by
  unfold lowerTaskForCta taskRange taskMask
  by_cases grouped : usesReduceGroup ctx transfer = true
  · simp only [if_pos grouped]
    split
    · exact (if_pos (le_refl _)).symm
    · rfl
  · simp only [if_neg grouped]

theorem lowerTaskForCta_ungrouped (limits : LoweringLimits) (binding : RankPointerBinding)
    (ungrouped : usesReduceGroup ctx transfer = false) (first second : Int) :
    lowerTaskForCta limits binding ctx shape windowCount ctaIdx first transfer =
      lowerTaskForCta limits binding ctx shape windowCount ctaIdx second transfer := by
  simp [lowerTaskForCta, ungrouped]

variable {ctx shape windowCount}

theorem taskRange_inside (nonempty :
      (taskRange ctx shape windowCount ctaIdx reduceTaskIndex transfer).beginWindow <
        (taskRange ctx shape windowCount ctaIdx reduceTaskIndex transfer).endWindow) :
    transfer.beginWindow ≤ (taskRange ctx shape windowCount ctaIdx reduceTaskIndex transfer).beginWindow ∧
      (taskRange ctx shape windowCount ctaIdx reduceTaskIndex transfer).endWindow ≤ transfer.endWindow := by
  unfold taskRange at nonempty ⊢
  by_cases grouped : usesReduceGroup ctx transfer = true
  · simp only [if_pos grouped] at nonempty ⊢
    split
    · rename_i outside
      rw [if_pos outside] at nonempty
      exact absurd nonempty (lt_irrefl _)
    · exact ⟨le_max_left _ _, min_le_left _ _⟩
  · simp only [if_neg grouped]
    exact ⟨le_max_left _ _, min_le_left _ _⟩

theorem range_split (first count launched : Nat) (within : first + count ≤ launched) (values : Nat → Nat)
    (outside : ∀ cta < launched, cta < first ∨ first + count ≤ cta → values cta = 0) :
    ((List.range launched).map values).sum = ((List.range count).map fun cta => values (first + cta)).sum := by
  obtain ⟨rest, rfl⟩ := Nat.exists_eq_add_of_le within
  have before : ((List.range first).map values).sum = 0 := by
    apply List.sum_eq_zero
    rintro value member
    obtain ⟨cta, small, rfl⟩ := List.mem_map.mp member
    have bound := List.mem_range.mp small
    exact outside cta (by omega) (Or.inl bound)
  have after : ((List.range rest).map fun cta => values (first + count + cta)).sum = 0 := by
    apply List.sum_eq_zero
    rintro value member
    obtain ⟨cta, small, rfl⟩ := List.mem_map.mp member
    have bound := List.mem_range.mp small
    exact outside _ (by omega) (Or.inr (Nat.le_add_right _ _))
  rw [List.range_add, List.range_add, List.map_append, List.map_append, List.sum_append, List.sum_append,
    List.map_map, List.map_map]
  simp only [Function.comp_def, before, after]
  omega

/-- Over all launched CTAs, every window of a task is handed out exactly once. -/
theorem taskRange_cover (checked : Checked ctx) (launched : 0 < shape.ctaCount ∧ shape.ctaCount ≤ 32)
    (windows : 0 < windowCount) (starts : 0 ≤ transfer.beginWindow)
    (ordered : transfer.beginWindow ≤ transfer.endWindow) (reaches : transfer.endWindow ≤ shape.maxEndWindow)
    (reduceTaskIndex : Nat) (window : Int) :
    ((List.range shape.ctaCount.toNat).map fun cta : Nat =>
      Split.covers (taskRange ctx shape windowCount cta reduceTaskIndex transfer).beginWindow
        (taskRange ctx shape windowCount cta reduceTaskIndex transfer).endWindow window).sum =
      Split.covers transfer.beginWindow transfer.endWindow window := by
  by_cases grouped : usesReduceGroup ctx transfer = true
  · have enabled : ctx.options.enableReduceCtaGroups = true := by
      simp only [usesReduceGroup, Bool.and_eq_true] at grouped
      exact grouped.1
    have within := reduceCtaGroup_within launched (checked.perReduce enabled) reduceTaskIndex
    simp only [taskRange, if_pos grouped]
    generalize reduceCtaGroupForTask reduceTaskIndex shape.ctaCount ctx.options.maxCtasPerReduceTask = group
      at within ⊢
    obtain ⟨first, nonempty, inside, _⟩ := within
    rw [range_split group.firstCta.toNat group.ctaCount.toNat shape.ctaCount.toNat (by omega)]
    · have whole := ctaWindowRange_cover
        { beginWindow := transfer.beginWindow, endWindow := transfer.endWindow } ordered
        (by omega : 0 < group.ctaCount.toNat) window
      have count : (group.ctaCount.toNat : Int) = group.ctaCount := by omega
      have each : ∀ cta ∈ List.range group.ctaCount.toNat,
          ¬(((group.firstCta.toNat + cta : Nat) : Int) < group.firstCta ∨
            ((group.firstCta.toNat + cta : Nat) : Int) ≥ group.firstCta + group.ctaCount) ∧
          ((group.firstCta.toNat + cta : Nat) : Int) - group.firstCta = cta := by
        intro cta member
        have small := List.mem_range.mp member
        omega
      rw [count] at whole
      rw [List.map_congr_left fun cta member => by rw [if_neg (each cta member).1, (each cta member).2],
        Split.covers_clip_sum, whole]
      unfold Split.covers
      split <;> rfl
    · intro cta small outside
      rw [if_pos (by omega)]
      exact Split.covers_self _ _
  · simp only [taskRange, if_neg grouped, fullCtaRange, if_pos windows]
    have whole := ctaWindowRange_cover { beginWindow := 0, endWindow := shape.maxEndWindow }
      (by simp only; omega) (by omega : 0 < shape.ctaCount.toNat) window
    have count : (shape.ctaCount.toNat : Int) = shape.ctaCount := by omega
    rw [count] at whole
    rw [Split.covers_clip_sum, whole]
    unfold Split.covers
    simp only
    split <;> split <;> first | rfl | omega

end Ranges

end Ooverlap.Lowering
