import Ooverlap.Lowering.Emission
import Ooverlap.Lowering.Execute
import Ooverlap.Lowering.Payload

/-! Packing into a block that is used again: what the CTAs perform does not depend on what was in it. -/

namespace Ooverlap.Lowering

open Plan

section Blocks

variable {source destination : WindowTaskExecutorPlan} {ctaIdx : Int}

/-- The slots that a plan counts are there, and the block has room for them. -/
structure Packable (source destination : WindowTaskExecutorPlan) : Prop where
  stored : source.totalTasks ≤ source.tasks.length
  room : source.totalTasks ≤ destination.tasks.length

/-- A slot of the packed block is the source's slot, up to what an empty one leaves behind. -/
theorem stripeSlot_pack (packable : Packable source destination) (start : 0 ≤ ctaIdx * source.tasksPerCta)
    (position : Nat) :
    (stripeSlot source ctaIdx position = none ∧
      stripeSlot (windowTaskExecutorPlanPack source destination) ctaIdx position = none) ∨
    ∃ task old, stripeSlot source ctaIdx position = some task ∧
      stripeSlot (windowTaskExecutorPlanPack source destination) ctaIdx position = some (packWindowTask task old) := by
  have packedSlot : stripeSlot (windowTaskExecutorPlanPack source destination) ctaIdx position =
      if ctaIdx * source.tasksPerCta + position ≥ source.totalTasks then none
      else (windowTaskExecutorPlanPack source destination).tasks[(ctaIdx * source.tasksPerCta + position).toNat]? := rfl
  rw [packedSlot, stripeSlot]
  by_cases past : ctaIdx * source.tasksPerCta + position ≥ source.totalTasks
  · rw [if_pos past, if_pos past]
    exact Or.inl ⟨rfl, rfl⟩
  · have stored := packable.stored
    have room := packable.room
    have inSource : (ctaIdx * source.tasksPerCta + position).toNat < source.tasks.length := by omega
    have inBlock : (ctaIdx * source.tasksPerCta + position).toNat < destination.tasks.length := by omega
    have counted : (((ctaIdx * source.tasksPerCta + position).toNat : Nat) : Int) < source.totalTasks := by omega
    refine Or.inr ⟨source.tasks[(ctaIdx * source.tasksPerCta + position).toNat],
      destination.tasks[(ctaIdx * source.tasksPerCta + position).toNat], ?_, ?_⟩
    · rw [if_neg past, List.getElem?_eq_getElem inSource]
    · rw [if_neg past, windowTaskExecutorPlanPack, List.getElem?_mapIdx, List.getElem?_eq_getElem inBlock,
        Option.map_some, List.getElem?_eq_getElem inSource]
      simp only [if_pos counted]

/-- No empty slot that runs on the CTA ends its stripe. -/
def EmptySlotsPass (source : WindowTaskExecutorPlan) (ctaIdx : Int) : Prop :=
  ∀ (position : Nat) task, position < source.tasksPerCta → stripeSlot source ctaIdx position = some task →
    task.op = .none → windowTaskRunsOnCta task ctaIdx = true → task.terminal = false

theorem executeStripeFrom_pack (packable : Packable source destination) (start : 0 ≤ ctaIdx * source.tasksPerCta)
    (passes : EmptySlotsPass source ctaIdx) (remaining position : Nat)
    (within : (position : Int) + remaining ≤ source.tasksPerCta) :
    executeStripeFrom (windowTaskExecutorPlanPack source destination) ctaIdx remaining position =
      (executeStripeFrom source ctaIdx remaining position).filter fun entry => entry.2.op ≠ .none := by
  induction remaining generalizing position with
  | zero => rfl
  | succ remaining ih =>
    rw [executeStripeFrom_succ, executeStripeFrom_succ]
    have later := ih (position + 1) (by push_cast at within ⊢; omega)
    rcases stripeSlot_pack packable start position with ⟨slot, packed⟩ | ⟨task, old, slot, packed⟩
    · rw [slot, packed]
      rfl
    · rw [slot, packed]
      dsimp only
      by_cases idle : task.op = .none
      · rw [packWindowTask_idle task old idle, Bool.not_false, if_pos rfl, later]
        by_cases runs : windowTaskRunsOnCta task ctaIdx = true
        · rw [runs, Bool.not_true, if_neg Bool.false_ne_true, passes position task (by omega) slot idle runs,
            if_neg Bool.false_ne_true, List.filter_cons_of_neg (by simpa using idle)]
        · rw [Bool.eq_false_of_not_eq_true runs, Bool.not_false, if_pos rfl]
      · rw [packWindowTask_busy task old idle, later]
        split
        · rfl
        · split
          · rw [List.filter_cons_of_pos (by simpa using idle), List.filter_nil]
          · rw [List.filter_cons_of_pos (by simpa using idle)]

end Blocks

section Lowered

variable {limits : LoweringLimits} {binding : RankPointerBinding} {ctx : LoweringContext} {shape : LoweringShape}
  {buffer : RankTransferTaskBuffer}

theorem lowerWindows_passes (lowered : lowerWindows limits binding transfer ctaMask beginWindow endWindow = some task)
    (idle : task.op = .none) : task.terminal = false := by
  rcases Int.lt_or_le beginWindow endWindow with nonempty | empty
  · obtain ⟨lowerable, rfl⟩ := (lowerWindows_eq_some_iff ctaMask nonempty).mp lowered
    obtain ⟨-, -, kind⟩ := lowerable
    change windowOp transfer.op = .none at idle
    cases op : transfer.op <;> rw [op] at idle kind <;> first | exact kind.elim | cases idle
  · rw [lowerWindows_empty ctaMask empty] at lowered
    cases lowered
    rfl

theorem stripeTask_passes (lowered : stripeTask limits binding ctx shape buffer ctaIdx index transfer = some task)
    (idle : task.op = .none) : task.terminal = false := by
  unfold stripeTask lowerTaskForCta at lowered
  split at lowered
  · split at lowered <;> cases lowered <;> rfl
  · split at lowered
    · dsimp only at lowered
      split at lowered
      · cases lowered
        rfl
      · exact lowerWindows_passes lowered idle
    · exact lowerWindows_passes lowered idle

/-- The lowering ends no stripe at an empty slot. -/
theorem Launches.emptySlotsPass (launches : Launches limits plan binding options windowPlan ctx buffer shape)
    (ctaIdx : Nat) (below : (ctaIdx : Int) < shape.ctaCount) : EmptySlotsPass windowPlan ctaIdx := by
  intro position task within slot idle _
  have width : windowPlan.tasksPerCta = buffer.tasks.length :=
    launches.emitted.tasksPerCta.trans launches.shaped.tasksPerCta
  have inside : position < buffer.tasks.length := by omega
  obtain ⟨task', found, lowered⟩ :=
    launches.emitted.slot ctaIdx below position buffer.tasks[position] (List.getElem?_eq_getElem inside)
  unfold stripeSlot at slot
  split at slot
  · cases slot
  · have flat : (ctaIdx : Int) * buffer.tasks.length + position =
        ((ctaIdx * buffer.tasks.length + position : Nat) : Int) := by push_cast; rfl
    rw [width, flat, Int.toNat_natCast, found] at slot
    obtain rfl := Option.some.inj slot
    exact stripeTask_passes lowered idle

end Lowered

section Executions

theorem pack_executes {source destination : WindowTaskExecutorPlan} (packable : Packable source destination)
    (ctaIdx : Int) (passes : EmptySlotsPass source ctaIdx) :
    executeWindowTaskStripe (windowTaskExecutorPlanPack source destination) ctaIdx =
      (executeWindowTaskStripe source ctaIdx).filter fun entry => entry.2.op ≠ .none := by
  unfold executeWindowTaskStripe
  change (if source.totalTasks ≤ 0 ∨ source.tasksPerCta ≤ 0 ∨ ctaIdx < 0 then _ else
    if ctaIdx * source.tasksPerCta ≥ source.totalTasks then _ else _) = _
  split
  · rfl
  · rename_i launched
    have start : 0 ≤ ctaIdx * source.tasksPerCta := Int.mul_nonneg (by omega) (by omega)
    split
    · rfl
    · change executeStripeFrom _ ctaIdx source.tasksPerCta.toNat 0 = _
      exact executeStripeFrom_pack packable start passes _ 0 (by omega)

/-- Whatever the block held, a CTA performs the tasks of the source, with their positions and fields. -/
theorem windowTaskExecutorPlanPack_executes (source destination : WindowTaskExecutorPlan)
    (packable : Packable source destination) (ctaIdx : Int) (passes : EmptySlotsPass source ctaIdx) :
    executeWindowTaskStripe (windowTaskExecutorPlanPack source destination) ctaIdx =
      (executeWindowTaskStripe source ctaIdx).filter fun entry => entry.2.op ≠ .none :=
  pack_executes packable ctaIdx passes

/-- Of what the lowering launches, every CTA performs the same in whatever block it is packed. -/
theorem Launches.pack_executes (launches : Launches limits plan binding options windowPlan ctx buffer shape)
    (packable : Packable windowPlan destination) (ctaIdx : Nat) (below : (ctaIdx : Int) < shape.ctaCount) :
    executeWindowTaskStripe (windowTaskExecutorPlanPack windowPlan destination) ctaIdx =
      (executeWindowTaskStripe windowPlan ctaIdx).filter fun entry => entry.2.op ≠ .none :=
  Lowering.pack_executes packable ctaIdx (launches.emptySlotsPass ctaIdx below)

def copySlot (src : Pointer) : WindowTask where
  op := .copyTma
  terminal := true
  payload := .window { src, dst := 2, totalBytes := 16, beginWindow := 0, endWindow := 1, windowChunks := 1 }

/-- A block of the smallest capacity, full of tasks of an earlier plan. -/
def staleBlock : WindowTaskExecutorPlan where
  totalTasks := 16
  tasksPerCta := 16
  tasks := List.replicate 16 (copySlot 7)

theorem windowTaskExecutorPlanPack_executes_passing :
    executeWindowTaskStripe (windowTaskExecutorPlanPack
      { totalTasks := 2, tasksPerCta := 2, tasks := [{}, copySlot 1] } staleBlock) 0 = [(1, copySlot 1)] := by
  refine (windowTaskExecutorPlanPack_executes _ _ ⟨by decide, by decide⟩ 0 ?_).trans (by decide)
  intro position task within slot idle runs
  match position with
  | 0 =>
    obtain rfl := Option.some.inj slot
    rfl
  | 1 =>
    obtain rfl := Option.some.inj slot
    cases idle
  | position + 2 =>
    simp only at within
    omega

/-- An empty slot that ends the stripe of the source is passed over in the packed block. -/
theorem windowTaskExecutorPlanPack_executes_ended :
    ¬∀ source destination : WindowTaskExecutorPlan, Packable source destination → ∀ ctaIdx : Int,
      executeWindowTaskStripe (windowTaskExecutorPlanPack source destination) ctaIdx =
        (executeWindowTaskStripe source ctaIdx).filter fun entry => entry.2.op ≠ .none := by
  intro all
  have ended := all { totalTasks := 2, tasksPerCta := 2, tasks := [{ terminal := true }, copySlot 1] } staleBlock
    ⟨by decide, by decide⟩ 0
  exact absurd ended (by decide)

end Executions

end Ooverlap.Lowering
