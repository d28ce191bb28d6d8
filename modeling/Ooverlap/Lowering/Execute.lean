import Ooverlap.Lowering.WindowTask

/-! Which slots of its stripe a CTA performs, and in which order. -/

namespace Ooverlap.Lowering

section Stripe

variable {plan : WindowTaskExecutorPlan} {ctaIdx : Int}

/-- Slot of a CTA's stripe in the stored plan. -/
def stripeSlot (plan : WindowTaskExecutorPlan) (ctaIdx : Int) (position : Nat) : Option WindowTask :=
  if ctaIdx * plan.tasksPerCta + position ≥ plan.totalTasks then none
  else plan.tasks[(ctaIdx * plan.tasksPerCta + position).toNat]?

theorem executeStripeFrom_succ (plan : WindowTaskExecutorPlan) (ctaIdx : Int) (remaining position : Nat) :
    executeStripeFrom plan ctaIdx (remaining + 1) position =
      match stripeSlot plan ctaIdx position with
      | none => []
      | some task =>
        if !windowTaskRunsOnCta task ctaIdx then executeStripeFrom plan ctaIdx remaining (position + 1)
        else if task.terminal then [(position, task)]
        else (position, task) :: executeStripeFrom plan ctaIdx remaining (position + 1) := by
  rw [executeStripeFrom, stripeSlot]
  by_cases past : ctaIdx * plan.tasksPerCta + position ≥ plan.totalTasks
  · rw [if_pos past, if_pos past]
  · rw [if_neg past]
    exact if_neg past ▸ rfl

/-- Every performed task is one of the stripe's slots that runs on the CTA. -/
theorem executeStripeFrom_sound (performed : (index, task) ∈ executeStripeFrom plan ctaIdx remaining position) :
    (position ≤ index ∧ index < position + remaining) ∧ stripeSlot plan ctaIdx index = some task ∧
      windowTaskRunsOnCta task ctaIdx = true := by
  induction remaining generalizing position with
  | zero => cases performed
  | succ remaining ih =>
    rw [executeStripeFrom_succ] at performed
    cases slot : stripeSlot plan ctaIdx position with
    | none =>
      rw [slot] at performed
      cases performed
    | some here =>
      rw [slot] at performed
      have inLater : (index, task) ∈ executeStripeFrom plan ctaIdx remaining (position + 1) →
          (position ≤ index ∧ index < position + (remaining + 1)) ∧ stripeSlot plan ctaIdx index = some task ∧
            windowTaskRunsOnCta task ctaIdx = true := by
        intro later
        obtain ⟨⟨lower, upper⟩, found, runs⟩ := ih later
        exact ⟨⟨by omega, by omega⟩, found, runs⟩
      by_cases runs : windowTaskRunsOnCta here ctaIdx = true
      · have isHere : (index, task) = (position, here) →
            (position ≤ index ∧ index < position + (remaining + 1)) ∧
              stripeSlot plan ctaIdx index = some task ∧ windowTaskRunsOnCta task ctaIdx = true := by
          intro same
          cases same
          exact ⟨⟨le_refl _, by omega⟩, slot, runs⟩
        cases terminal : here.terminal with
        | true =>
          simp only [runs, terminal, Bool.not_true, Bool.false_eq_true, if_false, if_true, List.mem_singleton]
            at performed
          exact isHere performed
        | false =>
          simp only [runs, terminal, Bool.not_true, Bool.false_eq_true, if_false, List.mem_cons] at performed
          exact performed.elim isHere inLater
      · simp only [runs, Bool.not_false, if_true] at performed
        exact inLater performed

/-- A CTA performs its slots in stripe order, each at most once. -/
theorem executeStripeFrom_ordered (plan : WindowTaskExecutorPlan) (ctaIdx : Int) (remaining position : Nat) :
    ((executeStripeFrom plan ctaIdx remaining position).map Prod.fst).Pairwise (· < ·) := by
  induction remaining generalizing position with
  | zero => exact List.Pairwise.nil
  | succ remaining ih =>
    rw [executeStripeFrom_succ]
    cases stripeSlot plan ctaIdx position with
    | none => exact List.Pairwise.nil
    | some here =>
      dsimp only
      split
      · exact ih _
      · split
        · exact List.pairwise_singleton ..
        · rw [List.map_cons]
          refine List.Pairwise.cons ?_ (ih _)
          intro later member
          obtain ⟨entry, performed, rfl⟩ := List.mem_map.mp member
          exact (executeStripeFrom_sound performed).1.1

/-- A slot that runs on the CTA is performed, unless an earlier performed slot is terminal. -/
theorem executeStripeFrom_complete (index : Nat) (within : position ≤ index ∧ index < position + remaining)
    (stored : ∀ earlier, position ≤ earlier → earlier < index → (stripeSlot plan ctaIdx earlier).isSome = true)
    (quiet : ∀ earlier other, position ≤ earlier → earlier < index →
      stripeSlot plan ctaIdx earlier = some other → windowTaskRunsOnCta other ctaIdx = true →
        other.terminal = false)
    (found : stripeSlot plan ctaIdx index = some task) (runs : windowTaskRunsOnCta task ctaIdx = true) :
    (index, task) ∈ executeStripeFrom plan ctaIdx remaining position := by
  induction remaining generalizing position with
  | zero => omega
  | succ remaining ih =>
    rw [executeStripeFrom_succ]
    rcases Nat.eq_or_lt_of_le within.1 with rfl | later
    · rw [found]
      dsimp only
      rw [runs, Bool.not_true, if_neg Bool.false_ne_true]
      split
      · exact List.mem_singleton_self _
      · exact List.mem_cons_self ..
    · have tail : (index, task) ∈ executeStripeFrom plan ctaIdx remaining (position + 1) :=
        ih ⟨later, by omega⟩ (fun earlier after before => stored earlier (by omega) before)
          (fun earlier other after before => quiet earlier other (by omega) before)
      obtain ⟨here, slot⟩ := Option.isSome_iff_exists.mp (stored position (le_refl _) later)
      rw [slot]
      dsimp only
      by_cases runsHere : windowTaskRunsOnCta here ctaIdx = true
      · have open' := quiet position here (le_refl _) later slot runsHere
        rw [runsHere, open', Bool.not_true, if_neg Bool.false_ne_true, if_neg Bool.false_ne_true]
        exact List.mem_cons_of_mem _ tail
      · rw [Bool.eq_false_of_not_eq_true runsHere, Bool.not_false, if_pos rfl]
        exact tail

end Stripe

section Packing

theorem packWindowTask_idle (task old : WindowTask) (idle : task.op = .none) (ctaIdx : Int) :
    windowTaskRunsOnCta (packWindowTask task old) ctaIdx = false := by
  unfold packWindowTask windowTaskRunsOnCta
  rw [if_pos idle]
  split
  · rfl
  · exact BitVec.getLsbD_zero

theorem packWindowTask_busy (task old : WindowTask) (busy : task.op ≠ .none) : packWindowTask task old = task := by
  rw [packWindowTask, if_neg busy]

/-- A complete plan: a positive number of slots for each of its CTAs. -/
structure Complete (plan : WindowTaskExecutorPlan) (ctaCount perCta : Nat) : Prop where
  positive : 0 < perCta
  tasksPerCta : plan.tasksPerCta = perCta
  totalTasks : plan.totalTasks = ctaCount * perCta
  stored : ∀ ctaIdx < ctaCount, ∀ position < perCta, (plan.tasks[ctaIdx * perCta + position]?).isSome = true

variable {source destination : WindowTaskExecutorPlan} {ctaCount perCta : Nat}

theorem slot_below (below : ctaIdx < ctaCount) (within : position < perCta) :
    ctaIdx * perCta + position < ctaCount * perCta :=
  calc
    ctaIdx * perCta + position < (ctaIdx + 1) * perCta := by
      rw [Nat.succ_mul]
      omega
    _ ≤ ctaCount * perCta := Nat.mul_le_mul_right perCta below

theorem windowTaskExecutorPlanPack_slot (complete : Complete source ctaCount perCta)
    (room : source.totalTasks ≤ destination.tasks.length) (ctaIdx position : Nat) (below : ctaIdx < ctaCount)
    (within : position < perCta) :
    ∃ task old, source.tasks[ctaIdx * perCta + position]? = some task ∧
      stripeSlot (windowTaskExecutorPlanPack source destination) ctaIdx position =
        some (packWindowTask task old) := by
  obtain ⟨task, found⟩ := Option.isSome_iff_exists.mp (complete.stored ctaIdx below position within)
  have inside : ((ctaIdx * perCta + position : Nat) : Int) < source.totalTasks := by
    rw [complete.totalTasks]
    exact_mod_cast slot_below below within
  have capacity : ctaIdx * perCta + position < destination.tasks.length := by omega
  have flat : (ctaIdx : Int) * perCta + position = ((ctaIdx * perCta + position : Nat) : Int) := by push_cast; rfl
  refine ⟨task, destination.tasks[ctaIdx * perCta + position], found, ?_⟩
  unfold stripeSlot windowTaskExecutorPlanPack
  simp only [complete.tasksPerCta, flat, Int.toNat_natCast]
  rw [if_neg (not_le.mpr inside), List.getElem?_mapIdx, List.getElem?_eq_getElem capacity, Option.map_some, found]
  simp only [if_pos inside]

/-- A packed plan performs exactly the slots that hold a task of the CTA, when terminal tasks come last. -/
theorem executeWindowTaskStripe_mem_iff (complete : Complete source ctaCount perCta)
    (room : source.totalTasks ≤ destination.tasks.length) (ctaIdx : Nat) (below : ctaIdx < ctaCount)
    (last : ∀ position task, source.tasks[ctaIdx * perCta + position]? = some task → position < perCta →
      task.terminal = true → position + 1 = perCta) (index : Nat) (task : WindowTask) :
    (index, task) ∈ executeWindowTaskStripe (windowTaskExecutorPlanPack source destination) ctaIdx ↔
      index < perCta ∧ source.tasks[ctaIdx * perCta + index]? = some task ∧ task.op ≠ .none ∧
        windowTaskRunsOnCta task ctaIdx = true := by
  have starts : ctaIdx * perCta < ctaCount * perCta := Nat.mul_lt_mul_of_pos_right below complete.positive
  have whole : executeWindowTaskStripe (windowTaskExecutorPlanPack source destination) ctaIdx =
      executeStripeFrom (windowTaskExecutorPlanPack source destination) ctaIdx perCta 0 := by
    have total : (windowTaskExecutorPlanPack source destination).totalTasks = (ctaCount * perCta : Nat) := by
      exact_mod_cast complete.totalTasks
    have width : (windowTaskExecutorPlanPack source destination).tasksPerCta = perCta := complete.tasksPerCta
    have first : (ctaIdx : Int) * perCta < (ctaCount * perCta : Nat) := by exact_mod_cast starts
    have positive := complete.positive
    unfold executeWindowTaskStripe
    rw [total, width, if_neg (by omega), if_neg (not_le.mpr first), Int.toNat_natCast]
  have slots := windowTaskExecutorPlanPack_slot complete room ctaIdx
  rw [whole]
  constructor
  · intro performed
    obtain ⟨⟨_, upper⟩, slot, runs⟩ := executeStripeFrom_sound performed
    rw [Nat.zero_add] at upper
    obtain ⟨stored, old, found, packed⟩ := slots index below upper
    rw [slot, Option.some.injEq] at packed
    have busy : stored.op ≠ .none := by
      intro idle
      rw [packed, packWindowTask_idle stored old idle] at runs
      cases runs
    rw [packWindowTask_busy stored old busy] at packed
    exact ⟨upper, packed ▸ found, packed ▸ busy, runs⟩
  · rintro ⟨upper, found, busy, runs⟩
    obtain ⟨stored, old, foundStored, packed⟩ := slots index below upper
    rw [found, Option.some.injEq] at foundStored
    subst foundStored
    rw [packWindowTask_busy task old busy] at packed
    refine executeStripeFrom_complete index ⟨Nat.zero_le _, by omega⟩ ?_ ?_ packed runs
    · intro earlier _ before
      obtain ⟨_, _, _, slot⟩ := slots earlier below (Nat.lt_trans before upper)
      rw [slot]
      rfl
    · intro earlier other _ before slot runsOther
      obtain ⟨storedOther, oldOther, foundOther, packedOther⟩ := slots earlier below (Nat.lt_trans before upper)
      rw [slot, Option.some.injEq] at packedOther
      have busyOther : storedOther.op ≠ .none := by
        intro idle
        rw [packedOther, packWindowTask_idle storedOther oldOther idle] at runsOther
        cases runsOther
      rw [packWindowTask_busy storedOther oldOther busyOther] at packedOther
      rw [packedOther]
      by_contra marked
      have final := last earlier storedOther foundOther (Nat.lt_trans before upper) (Bool.eq_true_of_not_eq_false marked)
      omega

theorem executeWindowTaskStripe_ordered (plan : WindowTaskExecutorPlan) (ctaIdx : Int) :
    ((executeWindowTaskStripe plan ctaIdx).map Prod.fst).Pairwise (· < ·) := by
  unfold executeWindowTaskStripe
  split
  · exact List.Pairwise.nil
  · split
    · exact List.Pairwise.nil
    · exact executeStripeFrom_ordered ..

end Packing

end Ooverlap.Lowering
