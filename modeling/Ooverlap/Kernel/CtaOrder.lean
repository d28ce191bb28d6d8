import Ooverlap.Kernel.WindowTaskExecutor

/-! The barriers of a launch line up across its CTAs, and what they order. -/

namespace Ooverlap.Kernel

open Lowering CounterBarrier Interleaving Plan Word

section Lists

/-- Lists with increasing keys are equal as soon as they have the same members. -/
theorem keyed_ext {first second : List (Nat × α)} (firstOrdered : (first.map Prod.fst).Pairwise (· < ·))
    (secondOrdered : (second.map Prod.fst).Pairwise (· < ·)) (same : ∀ entry, entry ∈ first ↔ entry ∈ second) :
    first = second := by
  rw [List.pairwise_map] at firstOrdered secondOrdered
  have distinct : ∀ {items : List (Nat × α)}, items.Pairwise (fun left right => left.1 < right.1) → items.Nodup :=
    fun ordered => ordered.imp fun before equal => absurd (equal ▸ before) (lt_irrefl _)
  refine List.Perm.eq_of_pairwise ?_ firstOrdered secondOrdered
    ((List.perm_ext_iff_of_nodup (distinct firstOrdered) (distinct secondOrdered)).mpr same)
  intro left right _ _ before after
  exact absurd before (not_lt.mpr (le_of_lt after))

/-- The keys before a member are exactly the smaller ones. -/
theorem keyed_countP {front back : List (Nat × α)} {entry : Nat × α}
    (ordered : ((front ++ entry :: back).map Prod.fst).Pairwise (· < ·)) :
    (front ++ entry :: back).countP (fun other => other.1 < entry.1) = front.length := by
  rw [List.pairwise_map] at ordered
  obtain ⟨_, later, across⟩ := List.pairwise_append.mp ordered
  have before : front.countP (fun other => other.1 < entry.1) = front.length := by
    rw [List.countP_eq_length]
    intro other member
    exact decide_eq_true (across other member entry (List.mem_cons_self ..))
  have after : (entry :: back).countP (fun other => other.1 < entry.1) = 0 := by
    rw [List.countP_eq_zero]
    intro other member
    rcases List.mem_cons.mp member with rfl | inBack
    · simp
    · have bigger := (List.pairwise_cons.mp later).1 other inBack
      simpa using le_of_lt bigger
  rw [List.countP_append, before, after, Nat.add_zero]

/-- A prefix that reaches something outside the front covers the front. -/
theorem taken_beyond {front back : List α} (member : item ∈ (front ++ back).take count) (absent : item ∉ front) :
    front.length < count := by
  by_contra short
  rw [List.take_append_of_le_length (not_lt.mp short)] at member
  exact absent (List.mem_of_mem_take member)

theorem front_taken {front back : List α} (covered : front.length ≤ count) (member : item ∈ front) :
    item ∈ (front ++ back).take count := by
  rw [List.take_append]
  refine List.mem_append_left _ ?_
  rwa [List.take_of_length_le covered]

end Lists

section Events

/-- Position of the transfer task that an event belongs to. -/
def WindowEvent.index : WindowEvent → Nat
  | .start index _ => index
  | .complete index _ => index

theorem executeWindowTask_index (member : .work event ∈ executeWindowTask index task) : event.index = index := by
  unfold executeWindowTask at member
  split at member
  · cases member
  · simp at member
  · rcases List.mem_append.mp member with starts | completes
    · obtain ⟨other, inStarts, same⟩ := List.mem_map.mp starts
      obtain ⟨step, _, rfl⟩ := List.mem_map.mp inStarts
      cases same
      rfl
    · cases List.mem_singleton.mp completes
      rfl

/-- Events before a stripe entry belong to earlier tasks. -/
theorem stripeCode_earlier {front : List (Nat × WindowTask)}
    (ordered : ((front ++ entry :: back).map Prod.fst).Pairwise (· < ·))
    (member : .work event ∈ stripeCode front) : event.index < entry.1 := by
  obtain ⟨earlier, inFront, executed⟩ := List.mem_flatMap.mp member
  rw [executeWindowTask_index executed]
  rw [List.pairwise_map] at ordered
  exact (List.pairwise_append.mp ordered).2.2 earlier inFront entry (List.mem_cons_self ..)

theorem stripeCode_split (front back : List (Nat × WindowTask)) (entry : Nat × WindowTask) :
    stripeCode (front ++ entry :: back) =
      stripeCode front ++ (executeWindowTask entry.1 entry.2 ++ stripeCode back) := by
  simp [stripeCode]

/-- Events of earlier tasks stand before a stripe entry. -/
theorem stripeCode_front {front back : List (Nat × WindowTask)}
    (ordered : ((front ++ entry :: back).map Prod.fst).Pairwise (· < ·))
    (member : .work event ∈ stripeCode (front ++ entry :: back)) (earlier : event.index < entry.1) :
    .work event ∈ stripeCode front := by
  obtain ⟨owner, inStripe, executed⟩ := List.mem_flatMap.mp member
  rw [executeWindowTask_index executed] at earlier
  rw [List.pairwise_map] at ordered
  have later := (List.pairwise_append.mp ordered).2.1
  rcases List.mem_append.mp inStripe with inFront | inRest
  · exact List.mem_flatMap.mpr ⟨owner, inFront, executed⟩
  · rcases List.mem_cons.mp inRest with rfl | inBack
    · exact absurd earlier (lt_irrefl _)
    · exact absurd earlier (not_lt.mpr (le_of_lt ((List.pairwise_cons.mp later).1 owner inBack)))

/-- A CTA does its tasks one after the other: a later event comes after every event of an earlier task. -/
theorem stripeCode_sequential (ordered : (stripe.map Prod.fst).Pairwise (· < ·))
    (done : .work later ∈ (stripeCode stripe).take count) (member : .work earlier ∈ stripeCode stripe)
    (before : earlier.index < later.index) : .work earlier ∈ (stripeCode stripe).take count := by
  obtain ⟨⟨position, task⟩, inStripe, executed⟩ := List.mem_flatMap.mp (List.mem_of_mem_take done)
  have here : later.index = position := executeWindowTask_index executed
  obtain ⟨front, back, rfl⟩ := List.append_of_mem inStripe
  have inFront := stripeCode_front ordered member (here ▸ before)
  rw [stripeCode_split] at done ⊢
  refine front_taken (le_of_lt (taken_beyond done fun inEarlier => ?_)) inFront
  have sooner := stripeCode_earlier ordered inEarlier
  dsimp only at sooner
  omega

/-- A window that has started belongs to a task of the stripe. -/
theorem stripeCode_start (member : .work (.start index window) ∈ stripeCode stripe) :
    ∃ task, (index, task) ∈ stripe ∧ (windowTaskWindows task).beginWindow ≤ window ∧
      window < (windowTaskWindows task).endWindow := by
  obtain ⟨⟨position, task⟩, inStripe, executed⟩ := List.mem_flatMap.mp member
  have same := executeWindowTask_index executed
  simp only [WindowEvent.index] at same
  subst same
  refine ⟨task, inStripe, ?_⟩
  unfold executeWindowTask at executed
  split at executed
  · cases executed
  · simp at executed
  · rcases List.mem_append.mp executed with starts | completes
    · obtain ⟨other, inStarts, same⟩ := List.mem_map.mp starts
      obtain ⟨step, inRange, rfl⟩ := List.mem_map.mp inStarts
      cases same
      have small := List.mem_range.mp inRange
      dsimp only at small ⊢
      omega
    · cases List.mem_singleton.mp completes

end Events

section Runs

variable (launch : System Nat WindowEvent) (state : State Nat)

/-- A CTA has started a window of the task at a position. -/
def Started (ctaIdx index : Nat) (window : Int) : Prop :=
  .work (.start index window) ∈ (launch.items ctaIdx).take (state.pc ctaIdx)

/-- Some CTA has waited for all transfers of its part of a task, and the window is in that part. -/
def Completed (index : Nat) (window : Int) : Prop :=
  ∃ ctaIdx ∈ launch.agents, ∃ windows : WindowRange,
    .work (.complete index windows) ∈ (launch.items ctaIdx).take (state.pc ctaIdx) ∧
      windows.beginWindow ≤ window ∧ window < windows.endWindow

end Runs

section Launched

variable {limits : LoweringLimits} {plan : TransferPlan} {binding : RankPointerBinding}
  {options : LoweringPassOptions} {windowPlan destination : WindowTaskExecutorPlan}
  {ctx : LoweringContext} {buffer : RankTransferTaskBuffer} {shape : LoweringShape}

/-- Position and target of every active barrier among the first tasks. -/
def activeBarriers (ctx : LoweringContext) (buffer : RankTransferTaskBuffer) (shape : LoweringShape) (count : Nat) :
    List (Nat × Nat) :=
  (List.range count).filterMap fun index =>
    buffer.tasks[index]?.bind fun transfer =>
      if activeBarrier ctx buffer.tasks shape.ctaCount index transfer then
        some (index, barrierTarget ctx shape (activeBarriersBefore ctx buffer.tasks shape.ctaCount index))
      else none

theorem activeBarriers_targets (within : count ≤ buffer.tasks.length) :
    (activeBarriers ctx buffer shape count).map Prod.snd =
      (List.range (activeBarriersBefore ctx buffer.tasks shape.ctaCount count)).map fun round : Nat =>
        barrierTarget ctx shape round := by
  induction count with
  | zero => rfl
  | succ count ih =>
    have found : buffer.tasks[count]? = some buffer.tasks[count] := List.getElem?_eq_getElem within
    have counted := activeBarriersBefore_succ ctx buffer.tasks shape.ctaCount found
    rw [activeBarriers, List.range_succ, List.filterMap_append, List.map_append]
    change (activeBarriers ctx buffer shape count).map Prod.snd ++ _ = _
    rw [ih (by omega), counted]
    by_cases active : activeBarrier ctx buffer.tasks shape.ctaCount count buffer.tasks[count] = true
    · rw [if_pos active, List.range_succ, List.map_append]
      simp [found, active]
    · rw [if_neg active]
      simp [found, active]

theorem activeBarriers_ordered : ((activeBarriers ctx buffer shape count).map Prod.fst).Pairwise (· < ·) := by
  rw [List.pairwise_map]
  refine List.pairwise_lt_range.filterMap _ ?_
  intro first second before barrier found other foundOther
  have keyed : ∀ {index : Nat} {entry : Nat × Nat}, (buffer.tasks[index]?.bind fun transfer =>
      if activeBarrier ctx buffer.tasks shape.ctaCount index transfer then
        some (index, barrierTarget ctx shape (activeBarriersBefore ctx buffer.tasks shape.ctaCount index))
      else none) = some entry → entry.1 = index := by
    intro index entry here
    obtain ⟨transfer, _, kept⟩ := Option.bind_eq_some_iff.mp here
    split at kept
    · cases kept
      rfl
    · cases kept
  rw [keyed found, keyed foundOther]
  exact before

theorem barrierEntry_windows (windowed : transferTaskIsWindowed transfer = true) (ctaMask : WindowTaskCtaMask)
    (beginWindow endWindow : Int) :
    barrierEntry (index, transferWindows limits binding transfer ctaMask beginWindow endWindow) = none := by
  simp only [transferTaskIsWindowed, Bool.or_eq_true, decide_eq_true_eq] at windowed
  rcases windowed with ((op | op) | op) | op <;> simp [barrierEntry, transferWindows, windowOp, op]

/-- Every CTA meets exactly the active barriers, in order. -/
theorem stripeBarriers_eq (launches : Launches limits plan binding options windowPlan ctx buffer shape)
    (terminals : TerminalsLast plan.tasks) (room : limits.maxWindowTasks ≤ destination.tasks.length)
    (ctaIdx : Nat) (below : (ctaIdx : Int) < shape.ctaCount) :
    stripeBarriers (executeWindowTaskStripe (windowTaskExecutorPlanPack windowPlan destination) ctaIdx) =
      activeBarriers ctx buffer shape buffer.tasks.length := by
  refine keyed_ext (stripeBarriers_ordered (executeWindowTaskStripe_ordered ..)) activeBarriers_ordered ?_
  rintro ⟨index, target⟩
  have performs := launches.performs_iff terminals room ctaIdx below
  simp only [stripeBarriers, activeBarriers, List.mem_filterMap, Prod.exists, List.mem_range,
    Option.bind_eq_some_iff]
  constructor
  · rintro ⟨position, task, inStripe, entry⟩
    obtain ⟨transfer, found, performed⟩ := (performs position task).mp inStripe
    cases performed with
    | barrier active =>
      refine ⟨position, (List.getElem?_eq_some_iff.mp found).1, transfer, found, ?_⟩
      rw [if_pos active]
      exact entry
    | windows windowed _ =>
      rw [barrierEntry_windows windowed] at entry
      cases entry
  · rintro ⟨position, _, transfer, found, kept⟩
    split at kept
    · rename_i active
      exact ⟨position, _, (performs position _).mpr ⟨transfer, found, .barrier active⟩, kept⟩
    · cases kept

theorem launch_aligned (launches : Launches limits plan binding options windowPlan ctx buffer shape)
    (terminals : TerminalsLast plan.tasks) (room : limits.maxWindowTasks ≤ destination.tasks.length) :
    Aligned (launchSystem (windowTaskExecutorPlanPack windowPlan destination) shape.ctaCount.toNat)
      ((activeBarriers ctx buffer shape buffer.tasks.length).map Prod.snd) := by
  intro ctaIdx member
  have below := Finset.mem_range.mp member
  change targets (stripeCode (executeWindowTaskStripe _ ctaIdx)) = _
  rw [stripeCode_targets, stripeBarriers_eq launches terminals room ctaIdx (by omega)]

theorem launch_countsRounds (launches : Launches limits plan binding options windowPlan ctx buffer shape) :
    CountsRounds shape.ctaCount.toNat ctx.options.ctaBarrierStart
      ((activeBarriers ctx buffer shape buffer.tasks.length).map Prod.snd) := by
  intro round target found
  have launched := launches.shaped.ctas.1
  rw [activeBarriers_targets (le_refl _), List.getElem?_map] at found
  obtain ⟨index, here, rfl⟩ := Option.map_eq_some_iff.mp found
  have same : index = round := by
    have bound := (List.getElem?_eq_some_iff.mp here).1
    rw [List.length_range] at bound
    rw [List.getElem?_range bound] at here
    exact (Option.some.inj here).symm
  subst same
  have product : (((index : Int) + 1) * shape.ctaCount).toNat = shape.ctaCount.toNat * (index + 1) := by
    have count : (shape.ctaCount.toNat : Int) = shape.ctaCount := by omega
    rw [← count, mul_comm]
    exact_mod_cast Int.toNat_natCast _
  unfold barrierTarget toUInt32
  rw [product, Nat.add_mod_mod]

theorem launch_small (launches : Launches limits plan binding options windowPlan ctx buffer shape) :
    shape.ctaCount.toNat * ((activeBarriers ctx buffer shape buffer.tasks.length).map Prod.snd).length ≤
      limits.maxWindowTasks := by
  have launched := launches.shaped.ctas.1
  have count : (shape.ctaCount.toNat : Int) = shape.ctaCount := by omega
  have few : ((activeBarriers ctx buffer shape buffer.tasks.length).map Prod.snd).length ≤
      buffer.tasks.length := by
    rw [List.length_map]
    exact le_trans (List.length_filterMap_le ..) (le_of_eq List.length_range)
  have capacity : shape.ctaCount.toNat * buffer.tasks.length ≤ limits.maxWindowTasks := by
    have fits := launches.emitted.capacity
    rw [launches.shaped.total, launches.shaped.tasksPerCta, ← count] at fits
    exact_mod_cast fits
  exact le_trans (Nat.mul_le_mul_left _ few) capacity

theorem launch_faithful (launches : Launches limits plan binding options windowPlan ctx buffer shape)
    (small : ctx.options.ctaBarrierStart + limits.maxWindowTasks < 2 ^ 32) :
    Faithful (launchSystem (windowTaskExecutorPlanPack windowPlan destination) shape.ctaCount.toNat)
      ctx.options.ctaBarrierStart ((activeBarriers ctx buffer shape buffer.tasks.length).map Prod.snd) := by
  have few := launch_small launches
  exact faithful_small (launch_countsRounds launches) (by omega)

/-- A kept barrier separates: what stands before it is done on every CTA before anything after it starts. -/
theorem kept_barrier_orders (launches : Launches limits plan binding options windowPlan ctx buffer shape)
    (terminals : TerminalsLast plan.tasks) (room : limits.maxWindowTasks ≤ destination.tasks.length)
    (small : ctx.options.ctaBarrierStart + limits.maxWindowTasks < 2 ^ 32)
    (reached : Reachable (launchSystem (windowTaskExecutorPlanPack windowPlan destination) shape.ctaCount.toNat)
      ctx.options.ctaBarrierStart state)
    (found : buffer.tasks[index]? = some transfer)
    (active : activeBarrier ctx buffer.tasks shape.ctaCount index transfer = true)
    (below : ctaIdx < shape.ctaCount.toNat) (otherBelow : other < shape.ctaCount.toNat)
    (done : .work later ∈ (stripeCode (executeWindowTaskStripe
      (windowTaskExecutorPlanPack windowPlan destination) ctaIdx)).take (state.pc ctaIdx))
    (after : index < later.index)
    (member : .work earlier ∈ stripeCode (executeWindowTaskStripe
      (windowTaskExecutorPlanPack windowPlan destination) other))
    (before : earlier.index < index) :
    .work earlier ∈ (stripeCode (executeWindowTaskStripe
      (windowTaskExecutorPlanPack windowPlan destination) other)).take (state.pc other) := by
  generalize packed : windowTaskExecutorPlanPack windowPlan destination = packedPlan at *
  have aligned := packed ▸ launch_aligned launches terminals room
  have consistent := consistent_of_reachable aligned (packed ▸ launch_faithful launches small) reached
  have barrierOf : ∀ cta : Nat, cta < shape.ctaCount.toNat → ∃ target front back,
      executeWindowTaskStripe packedPlan cta = front ++ (index, makeBarrierTask target) :: back := by
    intro cta inRange
    have performed := (launches.performs_iff terminals room cta (by omega) index _).mpr
      ⟨transfer, found, .barrier active⟩
    rw [packed] at performed
    obtain ⟨front, back, split⟩ := List.append_of_mem performed
    exact ⟨_, front, back, split⟩
  have sameBarriers : ∀ cta : Nat, cta < shape.ctaCount.toNat →
      stripeBarriers (executeWindowTaskStripe packedPlan cta) =
        activeBarriers ctx buffer shape buffer.tasks.length := by
    intro cta inRange
    rw [← packed]
    exact stripeBarriers_eq launches terminals room cta (by omega)
  -- The barrier stands behind the same number of rounds in every stripe.
  have roundsAt : ∀ {cta : Nat} {target front back}, cta < shape.ctaCount.toNat →
      executeWindowTaskStripe packedPlan cta = front ++ (index, makeBarrierTask target) :: back →
      roundsBefore (stripeCode (executeWindowTaskStripe packedPlan cta)) (stripeCode front).length =
        (activeBarriers ctx buffer shape buffer.tasks.length).countP fun entry => entry.1 < index := by
    intro cta target front back inRange split
    have whole : stripeBarriers (executeWindowTaskStripe packedPlan cta) =
        stripeBarriers front ++ (index, target) :: stripeBarriers back := by
      rw [split, stripeBarriers, List.filterMap_append]
      rfl
    have ordered := stripeBarriers_ordered (executeWindowTaskStripe_ordered packedPlan cta)
    have counted := sameBarriers cta inRange
    rw [whole] at ordered counted
    rw [← counted, keyed_countP ordered, roundsBefore, split, stripeCode_split, List.take_left,
      stripeCode_targets, List.length_map]
  obtain ⟨target, front, back, split⟩ := barrierOf ctaIdx below
  obtain ⟨otherTarget, otherFront, otherBack, otherSplit⟩ := barrierOf other otherBelow
  have ordered := executeWindowTaskStripe_ordered packedPlan ctaIdx
  have otherOrdered := executeWindowTaskStripe_ordered packedPlan other
  have past : (stripeCode front).length < state.pc ctaIdx := by
    rw [split] at ordered done
    rw [stripeCode_split] at done
    refine taken_beyond done fun inFront => ?_
    have sooner := stripeCode_earlier ordered inFront
    dsimp only at sooner
    omega
  have here : (stripeCode (executeWindowTaskStripe packedPlan ctaIdx))[(stripeCode front).length]? =
      some (.barrier target) := by
    rw [split, stripeCode_split, List.getElem?_append_right (le_refl _), Nat.sub_self]
    rfl
  have covered := passed_barrier consistent (Finset.mem_range.mpr below) (Finset.mem_range.mpr otherBelow) here past
    ((roundsAt otherBelow otherSplit).trans (roundsAt below split).symm)
  rw [otherSplit] at otherOrdered member ⊢
  have inFront := stripeCode_front otherOrdered member before
  rw [stripeCode_split]
  exact front_taken covered inFront

end Launched

end Ooverlap.Kernel
