import Ooverlap.Plan.Detail

/-! Rules for planner steps that only append tasks within the plan's capacity. -/

namespace Ooverlap.Plan

/-- A step that succeeds appends tasks of the described kind and stays within the capacity. -/
structure Appends (cap : Nat) (step : BuildM Unit) (spec : List TransferTask → Prop) : Prop where
  run : ∀ {state state'}, state.plan.tasks.length ≤ cap → step state = .ok ((), state') →
    state'.plan.tasks.length ≤ cap ∧
      ∃ added, state'.plan.tasks = state.plan.tasks ++ added ∧ spec added

namespace Appends

theorem pure (cap : Nat) : Appends cap (Pure.pure ()) fun added => added = [] where
  run bounded ran := by
    cases ran
    exact ⟨bounded, [], (List.append_nil _).symm, rfl⟩

theorem abort (cap : Nat) (spec : List TransferTask → Prop) : Appends cap transferPlanAbortBuild spec where
  run _ ran := by cases ran

theorem mono (appends : Appends cap step spec) (weaken : ∀ added, spec added → weaker added) :
    Appends cap step weaker where
  run bounded ran := by
    obtain ⟨within, added, same, holds⟩ := appends.run bounded ran
    exact ⟨within, added, same, weaken added holds⟩

theorem bind (first : Appends cap step spec) (second : Appends cap next specNext) :
    Appends cap (step >>= fun _ => next) fun added =>
      ∃ left right, added = left ++ right ∧ spec left ∧ specNext right where
  run bounded ran := by
    obtain ⟨_, middle, here, later⟩ := BuildM.bind_ok ran
    obtain ⟨within, left, same, holds⟩ := first.run bounded here
    obtain ⟨withinNext, right, sameNext, holdsNext⟩ := second.run within later
    exact ⟨withinNext, left ++ right, by rw [sameNext, same, List.append_assoc], left, right, rfl, holds, holdsNext⟩

theorem guarded (condition : Prop) [Decidable condition] (taken : ¬condition → Appends cap step spec) :
    Appends cap (if condition then transferPlanAbortBuild else step) spec := by
  by_cases holds : condition
  · rw [if_pos holds]
    exact abort cap spec
  · rw [if_neg holds]
    exact taken holds

/-- What is emitted exactly is appended. -/
theorem of_emits (emits : Emits cap step valid emission) :
    Appends cap step fun added => valid ∧ ∃ phases, added = emission.tasks phases where
  run bounded ran := by
    obtain ⟨holds, fits, rfl⟩ := emits.inversion bounded ran
    refine ⟨?_, emission.tasks _, rfl, holds, _, rfl⟩
    simpa [Emission.apply, Emission.Fits] using fits

/-- A loop appends one block for each of its distinct items. -/
theorem forM (items : List Int) (distinct : items.Nodup) (step : Int → BuildM Unit)
    (spec : Int → List TransferTask → Prop) (each : ∀ item ∈ items, Appends cap (step item) (spec item)) :
    Appends cap (items.forM step) fun added =>
      ∃ block : Int → List TransferTask, added = items.flatMap block ∧ ∀ item ∈ items, spec item (block item) := by
  induction items with
  | nil => exact (pure cap).mono fun added empty => ⟨fun _ => [], by simpa using empty, by simp⟩
  | cons item rest ih =>
    obtain ⟨fresh, distinctRest⟩ := List.nodup_cons.mp distinct
    have here := each item (List.mem_cons_self ..)
    have later := ih distinctRest fun other member => each other (List.mem_cons_of_mem _ member)
    refine (here.bind later).mono ?_
    rintro _ ⟨left, _, rfl, holds, block, rfl, holdsRest⟩
    refine ⟨Function.update block item left, ?_, ?_⟩
    · rw [List.flatMap_cons, Function.update_self]
      congr 1
      refine List.flatMap_congr fun other member => ?_
      have apart : other ≠ item := fun same => fresh (same ▸ member)
      rw [Function.update_of_ne apart]
    · intro other member
      rcases List.mem_cons.mp member with rfl | inRest
      · rw [Function.update_self]
        exact holds
      · have apart : other ≠ item := fun same => fresh (same ▸ inRest)
        rw [Function.update_of_ne apart]
        exact holdsRest other inRest

end Appends

/-- Marking terminal tasks and selecting one rank's tasks commute. -/
theorem markedTerminal_filter (ranks : List Int) (tasks : List TransferTask) (rank : Int) :
    (markedTerminal ranks tasks).filter (fun task => task.executorRank = rank) =
      markedTerminal ranks (tasks.filter fun task => task.executorRank = rank) := by
  induction tasks with
  | nil => rfl
  | cons task rest ih =>
    simp only [markedTerminal]
    by_cases own : task.executorRank = rank
    · have sameLater : (∀ later ∈ rest.filter fun task => task.executorRank = rank,
          later.executorRank ≠ task.executorRank) ↔ ∀ later ∈ rest, later.executorRank ≠ task.executorRank := by
        simp [own]
      rw [List.filter_cons_of_pos (by simpa using own), List.filter_cons_of_pos (by simpa using own), ih,
        markedTerminal]
      simp only [sameLater]
    · rw [List.filter_cons_of_neg (by simpa using own), List.filter_cons_of_neg (by simpa using own), ih]

/-- Up to terminal marks, marking changes nothing. -/
theorem markedTerminal_cleared (ranks : List Int) (tasks : List TransferTask) :
    (markedTerminal ranks tasks).map (fun task => task.setTerminal false) =
      tasks.map fun task => task.setTerminal false := by
  induction tasks with
  | nil => rfl
  | cons task rest ih => simp [markedTerminal, ih]

theorem markedTerminal_length (ranks : List Int) (tasks : List TransferTask) :
    (markedTerminal ranks tasks).length = tasks.length := by
  induction tasks with
  | nil => rfl
  | cons task rest ih => simp [markedTerminal, ih]

/-- A build that marks last leaves, rank by rank, the appended tasks up to their terminal marks. -/
theorem Appends.marked {step : BuildM Unit} (appends : Appends cap step spec) (worldSize : Int)
    (ran : (step >>= fun _ => markLastTaskPerRankTerminal worldSize) { plan := { worldSize := size } } =
      .ok ((), state)) :
    state.plan.tasks.length ≤ cap ∧ ∃ added, spec added ∧ ∀ rank,
      (rankTasks state.plan rank).map (fun task => task.setTerminal false) =
        (added.filter fun task => task.executorRank = rank).map fun task => task.setTerminal false := by
  obtain ⟨_, middle, emitted, marks⟩ := BuildM.bind_ok ran
  obtain ⟨within, added, same, holds⟩ := appends.run (Nat.zero_le _) emitted
  rw [markLastTaskPerRankTerminal_run] at marks
  cases marks
  rw [List.nil_append] at same
  refine ⟨?_, added, holds, fun rank => ?_⟩
  · simpa [markedTerminal_length] using within
  · simp only [rankTasks, markedTerminal_filter, markedTerminal_cleared, same, List.filter_map, List.map_map]
    rfl

end Ooverlap.Plan
