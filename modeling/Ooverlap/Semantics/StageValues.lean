import Ooverlap.Semantics.Column
import Ooverlap.Semantics.PlanStages

/-! One element of the tensor in all buffers, stage after stage. -/

namespace Ooverlap.Semantics

open Ooverlap.Plan Ooverlap.Plan.AllReduce Ooverlap.Interleaving

section Values

variable {M : Type} [AddCommMonoid M] {dtypeSize index : Nat} {shift : BufferId → Nat} {worldSize : Int}
variable {staged : Staged Int TransferTask} {values : BufferId → M}

/-- A rank's tasks of a stage that act on an element. -/
def actingTasks (dtypeSize : Nat) (shift : BufferId → Nat) (index : Nat) (staged : Staged Int TransferTask)
    (bound : Nat) (rank : Int) : List TransferTask :=
  (staged.stage bound rank).filter fun task => actsOn dtypeSize shift index task

/-- What the buffers hold of an element after the first stages. -/
def stageValues (dtypeSize : Nat) (shift : BufferId → Nat) (index : Nat) (worldSize : Int)
    (staged : Staged Int TransferTask) (values : BufferId → M) : Nat → BufferId → M
  | 0 => values
  | bound + 1 => runBuffers ((intRange worldSize).flatMap (actingTasks dtypeSize shift index staged bound))
      (stageValues dtypeSize shift index worldSize staged values bound)

/-- A stage of which no task acts on the element and moves data. -/
theorem stageValues_idle (idle : ∀ rank ∈ intRange worldSize, ∀ task ∈ staged.stage bound rank,
      actsOn dtypeSize shift index task → ¬movesData task) :
    stageValues dtypeSize shift index worldSize staged values (bound + 1) =
      stageValues dtypeSize shift index worldSize staged values bound := by
  refine runBuffers_quiet (fun task member => ?_) _
  obtain ⟨rank, inRange, acts⟩ := List.mem_flatMap.mp member
  obtain ⟨inStage, acting⟩ := List.mem_filter.mp acts
  exact idle rank inRange task inStage (of_decide_eq_true acting)

theorem stageValues_quiet (quiet : ∀ rank ∈ intRange worldSize, ∀ task ∈ staged.stage bound rank, ¬movesData task) :
    stageValues dtypeSize shift index worldSize staged values (bound + 1) =
      stageValues dtypeSize shift index worldSize staged values bound :=
  stageValues_idle fun rank inRange task member _ => quiet rank inRange task member

/-- Several idle stages in a row. -/
theorem stageValues_between (ordered : first ≤ last) (idle : ∀ bound, first ≤ bound → bound < last →
      ∀ rank ∈ intRange worldSize, ∀ task ∈ staged.stage bound rank, actsOn dtypeSize shift index task → ¬movesData task) :
    stageValues dtypeSize shift index worldSize staged values last =
      stageValues dtypeSize shift index worldSize staged values first := by
  induction last, ordered using Nat.le_induction with
  | base => rfl
  | succ last ordered ih =>
    rw [stageValues_idle (idle last ordered (Nat.lt_succ_self last))]
    exact ih fun bound lower upper => idle bound lower (Nat.lt_succ_of_lt upper)

/-- A stage in which one rank alone acts on the element. -/
theorem stageValues_single (inRange : actor ∈ intRange worldSize)
    (alone : ∀ rank ∈ intRange worldSize, rank ≠ actor → actingTasks dtypeSize shift index staged bound rank = []) :
    stageValues dtypeSize shift index worldSize staged values (bound + 1) =
      runBuffers (actingTasks dtypeSize shift index staged bound actor)
        (stageValues dtypeSize shift index worldSize staged values bound) := by
  have only : ∀ ranks : List Int, ranks.Nodup → actor ∈ ranks → (∀ rank ∈ ranks, rank ∈ intRange worldSize) →
      ranks.flatMap (actingTasks dtypeSize shift index staged bound) =
        actingTasks dtypeSize shift index staged bound actor := by
    intro ranks distinct member within
    induction ranks with
    | nil => cases member
    | cons rank rest ih =>
      obtain ⟨fresh, distinctRest⟩ := List.nodup_cons.mp distinct
      have inRest : ∀ other ∈ rest, other ∈ intRange worldSize := fun other later =>
        within other (List.mem_cons_of_mem _ later)
      rw [List.flatMap_cons]
      by_cases here : rank = actor
      · have none : rest.flatMap (actingTasks dtypeSize shift index staged bound) = [] :=
          List.flatMap_eq_nil_iff.mpr fun other later =>
            alone other (inRest other later) fun same => fresh (here ▸ same ▸ later)
        rw [none, List.append_nil, here]
      · rw [alone rank (within rank (List.mem_cons_self ..)) here, List.nil_append]
        exact ih distinctRest ((List.mem_cons.mp member).resolve_left fun same => here same.symm) inRest
  rw [stageValues, only _ (intRange_nodup worldSize) inRange fun _ member => member]

/-- A stage in which each rank writes one buffer, and reads none that another rank writes. -/
theorem stageValues_blocks (values : BufferId → M) (block : Int → List TransferTask)
    (acting : ∀ rank ∈ intRange worldSize, actingTasks dtypeSize shift index staged bound rank = block rank)
    (written : Int → BufferId)
    (apart : ∀ rank ∈ intRange worldSize, ∀ other ∈ intRange worldSize, rank ≠ other → written rank ≠ written other)
    (writes : ∀ rank ∈ intRange worldSize, ∀ task ∈ block rank, (destinationRefs task).map bufferOf ⊆ [written rank])
    (reads : ∀ rank ∈ intRange worldSize, ∀ task ∈ block rank, ∀ other ∈ intRange worldSize, other ≠ rank →
      block other ≠ [] → bufferOf task.src ≠ written other) :
    (∀ rank ∈ intRange worldSize,
      stageValues dtypeSize shift index worldSize staged values (bound + 1) (written rank) =
        runBuffers (block rank) (stageValues dtypeSize shift index worldSize staged values bound) (written rank)) ∧
    ∀ buffer, (∀ rank ∈ intRange worldSize, block rank ≠ [] → buffer ≠ written rank) →
      stageValues dtypeSize shift index worldSize staged values (bound + 1) buffer =
        stageValues dtypeSize shift index worldSize staged values bound buffer := by
  rw [stageValues, List.flatMap_congr acting]
  exact runBuffers_flatMap _ (intRange_nodup worldSize) block written apart writes reads _

/-- Barriers change no value. -/
theorem Barred.stageValues_eq {fuller : Staged Int TransferTask} (barred : Barred staged fuller) (through : bound ≤ staged.count) :
    stageValues dtypeSize shift index worldSize fuller values bound =
      stageValues dtypeSize shift index worldSize staged values bound := by
  induction bound with
  | zero => rfl
  | succ bound ih =>
    rw [stageValues, stageValues, ih (Nat.le_of_succ_le through)]
    have each : ∀ rank ∈ intRange worldSize, actingTasks dtypeSize shift index staged bound rank =
        (actingTasks dtypeSize shift index fuller bound rank).filter fun task => task.op ≠ .barrier := by
      intro rank _
      rw [actingTasks, actingTasks, ← barred.kept bound through rank, List.filter_filter, List.filter_filter]
      exact List.filter_congr fun task _ => Bool.and_comm ..
    rw [List.flatMap_congr each, ← List.filter_flatMap]
    refine (runBuffers_filter _ (fun task _ bars => ?_) _).symm
    have isBarrier : task.op = .barrier := by simpa using bars
    simp [movesData, isBarrier]

/-- Every finished run leaves in an element what the stages make of it. -/
theorem StagedPlan.column {plan : TransferPlan} {mem : BufferId → Nat → M} {state : State Int (Shared M)}
    (stagedPlan : StagedPlan dtypeSize worldSize plan staged) (positive : 0 < dtypeSize)
    (level : ∀ bound < staged.count, ∀ rank, ∀ task ∈ staged.stage bound rank, Level dtypeSize shift task)
    (reached : (planProgram dtypeSize plan).Reachable (entryState mem) state)
    (finished : (planProgram dtypeSize plan).Finished state) :
    columnOf shift index state.shared =
      stageValues dtypeSize shift index worldSize staged (columnOf shift index (entryState mem)) staged.count := by
  rw [stagedPlan.finished_shared positive reached finished, columnOf_run positive]
  · have flat : ∀ bound, runBuffers (((List.range bound).flatMap fun stage =>
          (intRange worldSize).flatMap (staged.stage stage)).filter fun task => actsOn dtypeSize shift index task)
          (columnOf shift index (entryState mem)) =
        stageValues dtypeSize shift index worldSize staged (columnOf shift index (entryState mem)) bound := by
      intro bound
      induction bound with
      | zero => rfl
      | succ bound ih =>
        rw [List.range_succ, List.flatMap_append, List.filter_append, runBuffers_append, ih, List.flatMap_singleton,
          List.filter_flatMap]
        rfl
    exact flat staged.count
  · intro task member
    obtain ⟨bound, inRange, inStage⟩ := List.mem_flatMap.mp member
    obtain ⟨rank, _, found⟩ := List.mem_flatMap.mp inStage
    exact level bound (List.mem_range.mp inRange) rank task found

end Values

end Ooverlap.Semantics
