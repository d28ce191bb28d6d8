import Ooverlap.Plan.Topology

/-! Builder actions over a bounded transfer plan, and what each of them emits. -/

namespace Ooverlap.Plan

/-- Plan under construction together with the next local phase of every rank. -/
structure BuildState where
  plan : TransferPlan := {}
  taskPhase : Int → Int := fun _ => 0

/-- A planner step: on failure it leaves only the plan it was building. -/
abbrev BuildM := StateT BuildState (Except TransferPlan)

def transferPlanAbortBuild : BuildM α :=
  fun _ => .error {}

def transferPlanPushFast (cap : Nat) (task : TransferTask) : BuildM Bool := fun state =>
  if state.plan.tasks.length ≥ cap then .ok (false, state)
  else .ok (true, { state with plan := { state.plan with tasks := state.plan.tasks ++ [task] } })

def pushTaskOrAbort (cap : Nat) (task : TransferTask) : BuildM Unit := do
  if ← transferPlanPushFast cap task then pure () else transferPlanAbortBuild

/-- Reads and advances the local phase of one rank, as `(*task_phase)++` does. -/
def nextTaskPhase (rank : Int) : BuildM Int := fun state =>
  .ok (state.taskPhase rank,
    { state with taskPhase := Function.update state.taskPhase rank (state.taskPhase rank + 1) })

theorem BuildM.bind_ok {step : BuildM α} {next : α → BuildM β}
    (ran : (step >>= next) state = .ok result) :
    ∃ value middle, step state = .ok (value, middle) ∧ next value middle = .ok result := by
  change (step state >>= fun outcome => next outcome.1 outcome.2) = .ok result at ran
  cases outcome : step state with
  | error plan =>
    rw [outcome] at ran
    cases ran
  | ok outcome' =>
    rw [outcome] at ran
    exact ⟨outcome'.1, outcome'.2, rfl, ran⟩

/-- Tasks appended by a planner step and the phases it leaves, both in terms of the phases it finds. -/
structure Emission where
  tasks : (Int → Int) → List TransferTask
  phases : (Int → Int) → Int → Int

namespace Emission

def nil : Emission where
  tasks _ := []
  phases phases := phases

def append (first second : Emission) : Emission where
  tasks phases := first.tasks phases ++ second.tasks (first.phases phases)
  phases phases := second.phases (first.phases phases)

/-- One task of `rank`, built from the phase that rank had reached. -/
def single (rank : Int) (task : Int → TransferTask) : Emission where
  tasks phases := [task (phases rank)]
  phases phases := Function.update phases rank (phases rank + 1)

def concat : List Emission → Emission
  | [] => nil
  | first :: rest => append first (concat rest)

def apply (emission : Emission) (state : BuildState) : BuildState where
  plan := { state.plan with tasks := state.plan.tasks ++ emission.tasks state.taskPhase }
  taskPhase := emission.phases state.taskPhase

def Fits (emission : Emission) (cap : Nat) (state : BuildState) : Prop :=
  state.plan.tasks.length + (emission.tasks state.taskPhase).length ≤ cap

@[simp] theorem apply_nil (state : BuildState) : nil.apply state = state := by
  simp [apply, nil]

theorem apply_append (first second : Emission) (state : BuildState) :
    (first.append second).apply state = second.apply (first.apply state) := by
  simp [apply, append, List.append_assoc]

theorem fits_append (first second : Emission) (cap : Nat) (state : BuildState) :
    (first.append second).Fits cap state ↔ second.Fits cap (first.apply state) := by
  simp [Fits, apply, append, Nat.add_assoc]

theorem Fits.left (fits : (append first second).Fits cap state) : first.Fits cap state := by
  simp only [Fits, append, List.length_append] at *
  omega

/-- Consecutive tasks of one rank, numbered on from the phase that rank had reached. -/
def sequence (rank : Int) (makers : List (Int → TransferTask)) : Emission where
  tasks phases := makers.mapIdx fun index make => make (phases rank + index)
  phases phases := Function.update phases rank (phases rank + makers.length)

theorem sequence_nil (rank : Int) : sequence rank [] = nil := by
  simp [sequence, nil]

theorem single_append_sequence (rank : Int) (make : Int → TransferTask)
    (makers : List (Int → TransferTask)) :
    (single rank make).append (sequence rank makers) = sequence rank (make :: makers) := by
  simp only [append, single, sequence, Emission.mk.injEq]
  constructor <;> funext phases
  · simp [List.mapIdx_cons, Int.add_comm, Int.add_left_comm]
  · simp only [Function.update_self, Function.update_idem, List.length_cons, Nat.cast_succ]
    rw [Int.add_assoc, Int.add_comm 1]

theorem sequence_singleton (rank : Int) (make : Int → TransferTask) :
    sequence rank [make] = single rank make := by
  rw [← single_append_sequence, sequence_nil]
  simp [append, nil]

theorem append_assoc (first second third : Emission) :
    (first.append second).append third = first.append (second.append third) := by
  simp [append, List.append_assoc]

theorem nil_append (emission : Emission) : nil.append emission = emission := rfl

theorem sequence_append (rank : Int) (first second : List (Int → TransferTask)) :
    (sequence rank first).append (sequence rank second) = sequence rank (first ++ second) := by
  induction first with
  | nil => rw [sequence_nil, nil_append, List.nil_append]
  | cons make rest ih =>
    rw [← single_append_sequence, append_assoc, ih, single_append_sequence, List.cons_append]

theorem concat_singles (rank : Int) (items : List α) (make : α → Int → TransferTask) :
    concat (items.map fun item => single rank (make item)) = sequence rank (items.map make) := by
  induction items with
  | nil => exact (sequence_nil rank).symm
  | cons item rest ih =>
    simp only [List.map_cons, concat]
    rw [ih, single_append_sequence]

/-- Blocks of distinct ranks do not disturb each other's phases. -/
theorem concat_sequences_tasks (ranks : List Int) (distinct : ranks.Nodup)
    (makers : Int → List (Int → TransferTask)) (phases : Int → Int) :
    (concat (ranks.map fun rank => sequence rank (makers rank))).tasks phases =
      ranks.flatMap fun rank => (makers rank).mapIdx fun index make => make (phases rank + index) := by
  induction ranks generalizing phases with
  | nil => rfl
  | cons rank rest ih =>
    obtain ⟨fresh, distinctRest⟩ := List.nodup_cons.mp distinct
    simp only [List.map_cons, concat, append, List.flatMap_cons, ih distinctRest]
    congr 1
    refine List.flatMap_congr fun other member => ?_
    have apart : other ≠ rank := fun same => fresh (same ▸ member)
    simp only [sequence, Function.update_of_ne apart]

end Emission

/-- A step succeeds exactly when its guard holds and its tasks fit, and then appends its emission;
otherwise it leaves the cleared plan. -/
structure Emits (cap : Nat) (step : BuildM Unit) (valid : Prop) (emission : Emission) : Prop where
  ok : ∀ state, valid → emission.Fits cap state → step state = .ok ((), emission.apply state)
  error : ∀ state : BuildState, state.plan.tasks.length ≤ cap →
    ¬(valid ∧ emission.Fits cap state) → step state = .error {}

namespace Emits

theorem pure (cap : Nat) : Emits cap (Pure.pure ()) True Emission.nil where
  ok state _ _ := by simp only [Emission.apply_nil]; rfl
  error state bounded failed := by
    exact absurd ⟨trivial, by simpa [Emission.Fits, Emission.nil] using bounded⟩ failed

theorem abort (cap : Nat) (emission : Emission) :
    Emits cap transferPlanAbortBuild False emission where
  ok _ impossible _ := impossible.elim
  error _ _ _ := rfl

theorem bind (first : Emits cap step valid emission) (second : Emits cap next validNext emissionNext) :
    Emits cap (step >>= fun _ => next) (valid ∧ validNext) (emission.append emissionNext) where
  ok state guard fits := by
    have run := first.ok state guard.1 fits.left
    have runNext := second.ok (emission.apply state) guard.2 ((Emission.fits_append ..).mp fits)
    change (step state >>= fun result => next result.2) = _
    rw [run, Emission.apply_append, ← runNext]
    rfl
  error state bounded failed := by
    change (step state >>= fun result => next result.2) = _
    by_cases succeeds : valid ∧ emission.Fits cap state
    · rw [first.ok state succeeds.1 succeeds.2]
      apply second.error
      · simpa [Emission.Fits, Emission.apply] using succeeds.2
      · rintro ⟨guard, fits⟩
        exact failed ⟨⟨succeeds.1, guard⟩, (Emission.fits_append ..).mpr fits⟩
    · rw [first.error state bounded succeeds]
      rfl

/-- Pushing a task that carries the executor's next phase emits exactly that task. -/
theorem push (cap : Nat) (rank : Int) (task : Int → TransferTask) :
    Emits cap (nextTaskPhase rank >>= fun phase => pushTaskOrAbort cap (task phase)) True
      (Emission.single rank task) where
  ok state _ fits := by
    have room : ¬state.plan.tasks.length ≥ cap := by
      simp only [Emission.Fits, Emission.single, List.length_singleton] at fits
      omega
    simp [nextTaskPhase, pushTaskOrAbort, transferPlanPushFast, Emission.single, Emission.apply,
      room, Bind.bind, StateT.bind, Except.bind, Pure.pure]
    rfl
  error state bounded failed := by
    have full : state.plan.tasks.length ≥ cap := by
      simp only [Emission.Fits, Emission.single, List.length_singleton, true_and] at failed
      omega
    simp [nextTaskPhase, pushTaskOrAbort, transferPlanPushFast, transferPlanAbortBuild, full,
      Bind.bind, StateT.bind, Except.bind]

theorem forM (cap : Nat) (items : List α) (step : α → BuildM Unit) (valid : α → Prop) (emission : α → Emission)
    (each : ∀ item ∈ items, Emits cap (step item) (valid item) (emission item)) :
    Emits cap (items.forM step) (∀ item ∈ items, valid item) (Emission.concat (items.map emission)) := by
  induction items with
  | nil => simpa [Emission.concat] using Emits.pure cap
  | cons item rest ih =>
    have here := each item (List.mem_cons_self ..)
    have later := ih fun other member => each other (List.mem_cons_of_mem _ member)
    simpa [Emission.concat] using here.bind later

theorem guarded (condition : Prop) [Decidable condition] (taken : Emits cap step valid emission) :
    Emits cap (if condition then transferPlanAbortBuild else step) (¬condition ∧ valid) emission := by
  by_cases holds : condition
  · simpa [holds] using Emits.abort cap emission
  · simpa [holds] using taken

theorem otherwise {condition : Prop} [Decidable condition] (fails : ¬condition)
    (taken : Emits cap step valid emission) :
    Emits cap (if condition then other else step) valid emission := by
  rwa [if_neg fails]

theorem congr (emits : Emits cap step valid emission) (same : valid ↔ valid')
    (sameEmission : emission = emission') : Emits cap step valid' emission' := by
  subst sameEmission
  rwa [propext same] at emits

/-- A step that succeeded had its guard, had room, and appended its emission. -/
theorem inversion (emits : Emits cap step valid emission) (bounded : state.plan.tasks.length ≤ cap)
    (ran : step state = .ok ((), state')) :
    valid ∧ emission.Fits cap state ∧ state' = emission.apply state := by
  by_cases succeeds : valid ∧ emission.Fits cap state
  · have expected := emits.ok state succeeds.1 succeeds.2
    rw [ran] at expected
    cases expected
    exact ⟨succeeds.1, succeeds.2, rfl⟩
  · rw [emits.error state bounded succeeds] at ran
    cases ran

end Emits

end Ooverlap.Plan
