import Ooverlap.Kernel.CtaOrder

/-! The barrier counter of a scratch slot over a history of stream-ordered launches. -/

namespace Ooverlap.Kernel

open Relation Lowering CounterBarrier Interleaving Word

section Host

def barrierTarget? (task : WindowTask) : Option Nat :=
  match task.op, task.payload with
  | .barrier, .barrierTarget target => some target
  | _, _ => none

def rebaseTask (offset : Nat) (task : WindowTask) : Option WindowTask :=
  match task.op, task.payload with
  | .barrier, .barrierTarget target =>
    if target > 2 ^ 32 - 1 - offset then none else some { task with payload := .barrierTarget (target + offset) }
  | _, _ => some task

/-- Shifts every relative barrier target by the entry value; `none` is the `false` return. -/
def rebaseCtaBarrierTargets (plan : WindowTaskExecutorPlan) (offset : Nat) : Option WindowTaskExecutorPlan :=
  if plan.totalTasks < 0 then none
  else
    ((plan.tasks.take plan.totalTasks.toNat).mapM (rebaseTask offset)).map fun rebased =>
      { plan with tasks := rebased ++ plan.tasks.drop plan.totalTasks.toNat }

/-- Target of the last barrier in the first stripe, or the entry value. -/
def finalCtaBarrierCounterValue (plan : WindowTaskExecutorPlan) (entryValue : Nat) : Nat :=
  let firstStripeTasks := if plan.tasksPerCta < plan.totalTasks then plan.tasksPerCta else plan.totalTasks
  (plan.tasks.take firstStripeTasks.toNat).foldl (fun value task => (barrierTarget? task).getD value) entryValue

/-- What a launch hands to the device. -/
structure KernelLaunch where
  numBlocks : Nat
  plan : WindowTaskExecutorPlan
  ctaBarrierEntryTarget : Nat
  ctaBarrierFinalTarget : Nat

/-- Bookkeeping of a launcher before it launches; `none` is its error return. -/
def prepareKernelLaunch (lastValue numBlocks : Nat) (windowPlan destination : WindowTaskExecutorPlan) :
    Option KernelLaunch :=
  let entryTarget := toUInt32 (lastValue + numBlocks)
  (rebaseCtaBarrierTargets windowPlan entryTarget).map fun rebased =>
    { numBlocks
      plan := windowTaskExecutorPlanPack rebased destination
      ctaBarrierEntryTarget := entryTarget
      ctaBarrierFinalTarget := toUInt32 (finalCtaBarrierCounterValue rebased entryTarget + numBlocks) }

/-- Code of every CTA: entry barrier, its stripe, final barrier. -/
def kernelSystem (kernel : KernelLaunch) : System Nat WindowEvent :=
  ctaSystem kernel.numBlocks fun ctaIdx =>
    .barrier kernel.ctaBarrierEntryTarget ::
      (stripeCode (executeWindowTaskStripe kernel.plan ctaIdx) ++ [.barrier kernel.ctaBarrierFinalTarget])

end Host

section Striped

/-- Relative targets of the barriers in one stored stripe. -/
def storedTargets (plan : WindowTaskExecutorPlan) (perCta ctaIdx : Nat) : List Nat :=
  (List.range perCta).filterMap fun position => plan.tasks[ctaIdx * perCta + position]?.bind barrierTarget?

/-- A lowered plan: complete stripes that all hold the same barriers, with targets in rounds of the CTA count. -/
structure Striped (plan : WindowTaskExecutorPlan) (numBlocks perCta barriers : Nat) : Prop where
  blocks : 0 < numBlocks ∧ numBlocks ≤ 32
  complete : Complete plan numBlocks perCta
  terminal : ∀ ctaIdx < numBlocks, ∀ position task, plan.tasks[ctaIdx * perCta + position]? = some task →
    position < perCta → task.terminal = true → position + 1 = perCta
  everyCta : ∀ ctaIdx < numBlocks, ∀ position < perCta, ∀ task, plan.tasks[ctaIdx * perCta + position]? = some task →
    (barrierTarget? task).isSome = true → windowTaskRunsOnCta task ctaIdx = true
  targets : ∀ ctaIdx < numBlocks, storedTargets plan perCta ctaIdx =
    (List.range barriers).map fun round => numBlocks * (round + 1)

theorem rebaseTask_spec (bounded : offset < 2 ^ 32) (rebased : rebaseTask offset task = some result) :
    (result.op = task.op ∧ result.ctaMask = task.ctaMask ∧ result.terminal = task.terminal) ∧
      barrierTarget? result = (barrierTarget? task).map (· + offset) ∧
      ∀ target, barrierTarget? result = some target → target < 2 ^ 32 := by
  unfold rebaseTask at rebased
  split at rebased
  · rename_i target barrier payload
    split at rebased
    · cases rebased
    · rename_i fits
      cases rebased
      refine ⟨⟨rfl, rfl, rfl⟩, by simp [barrierTarget?, barrier, payload], ?_⟩
      intro other found
      simp only [barrierTarget?, barrier, Option.some.injEq] at found
      omega
  · rename_i notBarrier
    cases rebased
    have none : barrierTarget? task = none := by
      unfold barrierTarget?
      split
      · rename_i barrier payload
        exact absurd payload (notBarrier _ barrier)
      · rfl
    rw [none]
    exact ⟨⟨rfl, rfl, rfl⟩, rfl, fun _ found => by cases found⟩

theorem barrierTarget?_busy (found : barrierTarget? task = some target) : task.op ≠ .none := by
  unfold barrierTarget? at found
  split at found
  · rename_i barrier _
    rw [barrier]
    exact fun same => by cases same
  · cases found

theorem barrierEntry_eq (index : Nat) (task : WindowTask) :
    barrierEntry (index, task) = (barrierTarget? task).map (index, ·) := by
  obtain ⟨op, terminal, ctaMask, payload⟩ := task
  cases op <;> cases payload <;> rfl

variable {plan rebased destination : WindowTaskExecutorPlan} {numBlocks perCta barriers offset : Nat}

/-- Every stored slot is rebased on its own. -/
theorem rebaseCtaBarrierTargets_slot (complete : Complete plan numBlocks perCta)
    (ran : rebaseCtaBarrierTargets plan offset = some rebased) (index : Nat) (within : index < numBlocks * perCta) :
    ∃ task result, plan.tasks[index]? = some task ∧ rebased.tasks[index]? = some result ∧
      rebaseTask offset task = some result := by
  have total := complete.totalTasks
  unfold rebaseCtaBarrierTargets at ran
  split at ran
  · cases ran
  · obtain ⟨results, mapped, rfl⟩ := Option.map_eq_some_iff.mp ran
    have width : plan.totalTasks.toNat = numBlocks * perCta := by
      rw [total]
      exact_mod_cast Int.toNat_natCast _
    rw [width] at mapped
    have ctaOf : index / perCta < numBlocks := Nat.div_lt_of_lt_mul (by rwa [mul_comm])
    have stored := complete.stored (index / perCta) ctaOf (index % perCta) (Nat.mod_lt _ complete.positive)
    rw [Nat.div_add_mod' index perCta] at stored
    obtain ⟨task, found⟩ := Option.isSome_iff_exists.mp stored
    have taken : (plan.tasks.take (numBlocks * perCta))[index]? = some task := by
      rw [List.getElem?_take, if_pos within]
      exact found
    obtain ⟨result, there, here⟩ := Traverse.mapM_getElem? mapped taken
    have bound := (List.getElem?_eq_some_iff.mp there).1
    refine ⟨task, result, found, ?_, here⟩
    rw [List.getElem?_append_left bound]
    exact there

theorem rebaseCtaBarrierTargets_fields (ran : rebaseCtaBarrierTargets plan offset = some rebased) :
    rebased.totalTasks = plan.totalTasks ∧ rebased.tasksPerCta = plan.tasksPerCta := by
  unfold rebaseCtaBarrierTargets at ran
  split at ran
  · cases ran
  · obtain ⟨results, _, rfl⟩ := Option.map_eq_some_iff.mp ran
    exact ⟨rfl, rfl⟩

theorem rebased_complete (complete : Complete plan numBlocks perCta)
    (ran : rebaseCtaBarrierTargets plan offset = some rebased) : Complete rebased numBlocks perCta := by
  obtain ⟨total, width⟩ := rebaseCtaBarrierTargets_fields ran
  refine ⟨complete.positive, width.trans complete.tasksPerCta, total.trans complete.totalTasks, ?_⟩
  intro ctaIdx below position within
  obtain ⟨_, result, _, found, _⟩ := rebaseCtaBarrierTargets_slot complete ran _ (slot_below below within)
  rw [found]
  rfl

/-- The stored targets of a rebased stripe are the relative ones, shifted and still words. -/
theorem rebased_targets (striped : Striped plan numBlocks perCta barriers) (bounded : offset < 2 ^ 32)
    (ran : rebaseCtaBarrierTargets plan offset = some rebased) (ctaIdx : Nat) (below : ctaIdx < numBlocks) :
    storedTargets rebased perCta ctaIdx = (List.range barriers).map (fun round => numBlocks * (round + 1) + offset) ∧
      ∀ target ∈ storedTargets rebased perCta ctaIdx, target < 2 ^ 32 := by
  have slots : ∀ position ∈ List.range perCta, (rebased.tasks[ctaIdx * perCta + position]?.bind barrierTarget?) =
      (plan.tasks[ctaIdx * perCta + position]?.bind barrierTarget?).map (· + offset) := by
    intro position inRange
    obtain ⟨task, result, found, foundResult, here⟩ := rebaseCtaBarrierTargets_slot striped.complete ran _
      (slot_below below (List.mem_range.mp inRange))
    rw [found, foundResult]
    exact (rebaseTask_spec bounded here).2.1
  constructor
  · have shifted : storedTargets rebased perCta ctaIdx = (storedTargets plan perCta ctaIdx).map (· + offset) := by
      rw [storedTargets, List.filterMap_congr slots, storedTargets, List.map_filterMap]
    rw [shifted, striped.targets ctaIdx below, List.map_map]
    rfl
  · intro target member
    obtain ⟨position, inRange, found⟩ := List.mem_filterMap.mp member
    obtain ⟨task, result, _, foundResult, here⟩ := rebaseCtaBarrierTargets_slot striped.complete ran _
      (slot_below below (List.mem_range.mp inRange))
    rw [foundResult] at found
    exact (rebaseTask_spec bounded here).2.2 target found

/-- A CTA of the packed plan meets exactly the barriers stored in its stripe. -/
theorem rebased_executes (striped : Striped plan numBlocks perCta barriers) (bounded : offset < 2 ^ 32)
    (ran : rebaseCtaBarrierTargets plan offset = some rebased)
    (room : plan.totalTasks ≤ destination.tasks.length) (ctaIdx : Nat) (below : ctaIdx < numBlocks) :
    targets (stripeCode (executeWindowTaskStripe (windowTaskExecutorPlanPack rebased destination) ctaIdx)) =
      storedTargets rebased perCta ctaIdx := by
  have complete := rebased_complete striped.complete ran
  have slotOf := fun position (within : position < perCta) =>
    rebaseCtaBarrierTargets_slot striped.complete ran _ (slot_below below within)
  have last : ∀ position task, rebased.tasks[ctaIdx * perCta + position]? = some task → position < perCta →
      task.terminal = true → position + 1 = perCta := by
    intro position task found within terminal
    obtain ⟨original, result, foundOriginal, foundResult, here⟩ := slotOf position within
    rw [found, Option.some.injEq] at foundResult
    subst foundResult
    rw [(rebaseTask_spec bounded here).1.2.2] at terminal
    exact striped.terminal ctaIdx below position original foundOriginal within terminal
  have members := executeWindowTaskStripe_mem_iff complete
    (by rw [(rebaseCtaBarrierTargets_fields ran).1]; exact room) ctaIdx below last
  rw [stripeCode_targets, storedTargets]
  have keyed : stripeBarriers (executeWindowTaskStripe (windowTaskExecutorPlanPack rebased destination) ctaIdx) =
      (List.range perCta).filterMap fun position =>
        (rebased.tasks[ctaIdx * perCta + position]?.bind barrierTarget?).map (position, ·) := by
    refine keyed_ext (stripeBarriers_ordered (executeWindowTaskStripe_ordered ..)) ?_ ?_
    · rw [List.pairwise_map]
      refine List.pairwise_lt_range.filterMap _ ?_
      intro first second before entry found other foundOther
      obtain ⟨_, _, rfl⟩ := Option.map_eq_some_iff.mp found
      obtain ⟨_, _, rfl⟩ := Option.map_eq_some_iff.mp foundOther
      exact before
    · rintro ⟨index, target⟩
      simp only [stripeBarriers, List.mem_filterMap, Prod.exists, List.mem_range, barrierEntry_eq,
        Option.map_eq_some_iff, Prod.mk.injEq, Option.bind_eq_some_iff]
      constructor
      · rintro ⟨position, task, inStripe, _, found, rfl, rfl⟩
        obtain ⟨within, stored, _, _⟩ := (members position task).mp inStripe
        exact ⟨position, within, _, ⟨task, stored, found⟩, rfl, rfl⟩
      · rintro ⟨position, within, _, ⟨task, stored, found⟩, rfl, rfl⟩
        obtain ⟨original, result, foundOriginal, foundResult, here⟩ := slotOf position within
        rw [stored, Option.some.injEq] at foundResult
        subst foundResult
        obtain ⟨⟨_, sameMask, _⟩, shifted, _⟩ := rebaseTask_spec bounded here
        have isBarrier : (barrierTarget? original).isSome = true := by
          rw [shifted] at found
          obtain ⟨_, here, _⟩ := Option.map_eq_some_iff.mp found
          rw [here]
          rfl
        have runs := striped.everyCta ctaIdx below position within original foundOriginal isBarrier
        have runsToo : windowTaskRunsOnCta task ctaIdx = true := by
          rw [← runs]
          simp only [windowTaskRunsOnCta, sameMask]
        exact ⟨position, task, (members position task).mpr ⟨within, stored, barrierTarget?_busy found, runsToo⟩, _,
          found, rfl, rfl⟩
  rw [keyed, List.map_filterMap]
  refine List.filterMap_congr fun position _ => ?_
  cases rebased.tasks[ctaIdx * perCta + position]?.bind barrierTarget? <;> rfl

end Striped

section Prepared

variable {plan rebased destination : WindowTaskExecutorPlan} {lastValue numBlocks perCta barriers offset : Nat}

/-- Targets that every CTA of a launch meets: entry, the plan's barriers, final. -/
def launchRounds (lastValue numBlocks barriers : Nat) : List Nat :=
  (List.range (barriers + 2)).map fun round => toUInt32 (lastValue + numBlocks * (round + 1))

theorem launchRounds_counts (lastValue numBlocks barriers : Nat) :
    CountsRounds numBlocks lastValue (launchRounds lastValue numBlocks barriers) := by
  intro round target found
  rw [launchRounds, List.getElem?_map] at found
  obtain ⟨index, here, rfl⟩ := Option.map_eq_some_iff.mp found
  have bound := (List.getElem?_eq_some_iff.mp here).1
  rw [List.length_range] at bound
  rw [List.getElem?_range bound, Option.some.injEq] at here
  rw [here]

theorem filterMap_range_take (items : List α) (view : α → Option β) (count : Nat) :
    (List.range count).filterMap (fun position => items[position]?.bind view) = (items.take count).filterMap view := by
  induction count with
  | zero => rfl
  | succ count ih =>
    rw [List.range_succ, List.filterMap_append, ih, List.take_add_one, List.filterMap_append]
    cases found : items[count]? <;> simp [found, List.filterMap_cons]

theorem foldl_getD_filterMap (items : List α) (view : α → Option β) (value : β) :
    items.foldl (fun value item => (view item).getD value) value = (items.filterMap view).getLastD value := by
  induction items generalizing value with
  | nil => rfl
  | cons item rest ih =>
    rw [List.foldl_cons, ih, List.filterMap_cons]
    cases view item with
    | none => rfl
    | some found => cases rest.filterMap view <;> rfl

/-- The host finds the target of the last barrier that any CTA will meet. -/
theorem finalCtaBarrierCounterValue_eq (complete : Complete rebased numBlocks perCta) (some : 0 < numBlocks)
    (entryValue : Nat) :
    finalCtaBarrierCounterValue rebased entryValue = (storedTargets rebased perCta 0).getLastD entryValue := by
  have total : rebased.totalTasks = (numBlocks * perCta : Nat) := by exact_mod_cast complete.totalTasks
  have enough : perCta ≤ numBlocks * perCta := Nat.le_mul_of_pos_left perCta some
  have first : (if rebased.tasksPerCta < rebased.totalTasks then rebased.tasksPerCta else rebased.totalTasks).toNat =
      perCta := by
    rw [complete.tasksPerCta, total]
    split <;> omega
  unfold finalCtaBarrierCounterValue
  dsimp only
  rw [first, foldl_getD_filterMap, storedTargets, ← filterMap_range_take]
  simp only [Nat.zero_mul, Nat.zero_add]

/-- A prepared launch has every CTA meet the same rounds of arrivals, counted from the recorded value on. -/
theorem prepareKernelLaunch_aligned (striped : Striped plan numBlocks perCta barriers)
    (room : plan.totalTasks ≤ destination.tasks.length)
    (prepared : prepareKernelLaunch lastValue numBlocks plan destination = some kernel) :
    kernel.numBlocks = numBlocks ∧ Aligned (kernelSystem kernel) (launchRounds lastValue numBlocks barriers) ∧
      kernel.ctaBarrierFinalTarget = toUInt32 (lastValue + numBlocks * (barriers + 2)) := by
  obtain ⟨rebased, ran, rfl⟩ := Option.map_eq_some_iff.mp prepared
  have bounded := toUInt32_lt (lastValue + numBlocks)
  have stored := fun ctaIdx below => rebased_targets striped bounded ran ctaIdx below
  -- A target that is still a word after the shift is the count of whole rounds, reduced.
  have reduced : ∀ round, numBlocks * (round + 1) + toUInt32 (lastValue + numBlocks) < 2 ^ 32 →
      numBlocks * (round + 1) + toUInt32 (lastValue + numBlocks) =
        toUInt32 (lastValue + numBlocks * (round + 1 + 1)) := by
    intro round fits
    have split : lastValue + numBlocks * (round + 1 + 1) = numBlocks * (round + 1) + (lastValue + numBlocks) := by ring
    rw [split]
    unfold toUInt32 at fits ⊢
    calc
      numBlocks * (round + 1) + (lastValue + numBlocks) % 2 ^ 32 =
          (numBlocks * (round + 1) + (lastValue + numBlocks) % 2 ^ 32) % 2 ^ 32 := (Nat.mod_eq_of_lt fits).symm
      _ = (numBlocks * (round + 1) + (lastValue + numBlocks)) % 2 ^ 32 := Nat.add_mod_mod ..
  have barrierTargets : ∀ ctaIdx < numBlocks, storedTargets rebased perCta ctaIdx =
      (List.range barriers).map fun round => toUInt32 (lastValue + numBlocks * (round + 1 + 1)) := by
    intro ctaIdx below
    obtain ⟨same, words⟩ := stored ctaIdx below
    rw [same] at words ⊢
    refine List.map_congr_left fun round inRange => reduced round (words _ (List.mem_map.mpr ⟨round, inRange, rfl⟩))
  have final : toUInt32 (finalCtaBarrierCounterValue rebased (toUInt32 (lastValue + numBlocks)) + numBlocks) =
      toUInt32 (lastValue + numBlocks * (barriers + 2)) := by
    rw [finalCtaBarrierCounterValue_eq (rebased_complete striped.complete ran) striped.blocks.1,
      barrierTargets 0 striped.blocks.1]
    have lastTarget : ((List.range barriers).map fun round =>
        toUInt32 (lastValue + numBlocks * (round + 1 + 1))).getLastD (toUInt32 (lastValue + numBlocks)) =
        toUInt32 (lastValue + numBlocks * (barriers + 1)) := by
      cases barriers with
      | zero => simp
      | succ barriers => simp [List.range_succ]
    have split : lastValue + numBlocks * (barriers + 2) = lastValue + numBlocks * (barriers + 1) + numBlocks := by ring
    rw [lastTarget, split]
    unfold toUInt32
    rw [Nat.mod_add_mod]
  refine ⟨rfl, ?_, final⟩
  intro ctaIdx member
  have below := Finset.mem_range.mp member
  have shape : launchRounds lastValue numBlocks barriers =
      toUInt32 (lastValue + numBlocks) ::
        ((List.range barriers).map (fun round => toUInt32 (lastValue + numBlocks * (round + 1 + 1))) ++
          [toUInt32 (lastValue + numBlocks * (barriers + 2))]) := by
    rw [launchRounds, List.range_succ, List.map_append, List.range_succ_eq_map, List.map_cons, List.map_map]
    simp [Function.comp_def]
  rw [shape, ← barrierTargets ctaIdx below, ← rebased_executes striped bounded ran room ctaIdx below, ← final]
  simp only [kernelSystem, ctaSystem, targets, List.filterMap_cons, List.filterMap_append, List.filterMap_nil,
    Item.target?]

/-- The counter's values from the first arrival to the last one do not wrap; a single CTA needs no such care. -/
def NoWrap (lastValue numBlocks barriers : Nat) : Prop :=
  numBlocks = 1 ∨ (lastValue + 1) % 2 ^ 32 + numBlocks * (barriers + 2) ≤ 2 ^ 32

instance : Decidable (NoWrap lastValue numBlocks barriers) :=
  inferInstanceAs (Decidable (_ ∨ _))

theorem launchRounds_faithful (word : lastValue < 2 ^ 32) (noWrap : NoWrap lastValue numBlocks barriers)
    (code : Nat → List (Item WindowEvent)) :
    Faithful (ctaSystem numBlocks code) lastValue (launchRounds lastValue numBlocks barriers) := by
  intro round target found count lower upper reachable
  have within := (List.getElem?_eq_some_iff.mp found).1
  have length : (launchRounds lastValue numBlocks barriers).length = barriers + 2 := by simp [launchRounds]
  have card : (ctaSystem numBlocks code).agents.card = numBlocks := Finset.card_range numBlocks
  rw [length] at within reachable
  rw [card] at lower upper reachable ⊢
  rw [launchRounds_counts lastValue numBlocks barriers round target found]
  change (lastValue + numBlocks * (round + 1)) % 2 ^ 32 ≤ count % 2 ^ 32 ↔ _
  have wide : numBlocks * (round + 1) ≤ numBlocks * (barriers + 2) := Nat.mul_le_mul_left _ within
  rcases noWrap with rfl | fits
  · have exact : count = lastValue + 1 * (round + 1) := by omega
    rw [exact]
    exact iff_of_true (le_refl _) (le_refl _)
  · rcases Nat.lt_or_ge (lastValue + 1) (2 ^ 32) with small | last
    · rw [Nat.mod_eq_of_lt small] at fits
      rw [Nat.mod_eq_of_lt (by omega), Nat.mod_eq_of_lt (by omega)]
    · -- The recorded value is the largest word: the first arrival takes the counter back to zero.
      have top : lastValue = 2 ^ 32 - 1 := by omega
      subst top
      have blocks : 0 < numBlocks := by
        by_contra none
        have zero : numBlocks = 0 := by omega
        rw [zero, Nat.zero_mul] at lower upper
        omega
      have some : 0 < numBlocks * (round + 1) := Nat.mul_pos blocks (Nat.succ_pos _)
      have shift : ∀ value, 2 ^ 32 ≤ value → value < 2 ^ 32 + 2 ^ 32 → value % 2 ^ 32 = value - 2 ^ 32 := by
        intro value above below
        omega
      have zero : (2 ^ 32 - 1 + 1) % 2 ^ 32 = 0 := by decide
      rw [zero] at fits
      have more : numBlocks * round + numBlocks = numBlocks * (round + 1) := by ring
      rw [shift (2 ^ 32 - 1 + numBlocks * (round + 1)) (by omega) (by omega), shift count (by omega) (by omega)]
      omega

end Prepared

end Ooverlap.Kernel
