import Mathlib.Logic.Function.Basic

/-! Guarded writes to a memory, one after another. -/

namespace Ooverlap.Writes

variable {ι Value : Type*} (enabled : ι → Prop) [DecidablePred enabled] (target : ι → Nat) (value : ι → Value)

/-- Every enabled writer of a list writes its value to its target. -/
def run (writers : List ι) (memory : Nat → Value) : Nat → Value :=
  writers.foldl (fun memory writer =>
    if enabled writer then Function.update memory (target writer) (value writer) else memory) memory

variable {enabled target value} {writers : List ι} {memory : Nat → Value}

theorem run_frame (untouched : ∀ writer ∈ writers, enabled writer → target writer ≠ place) :
    run enabled target value writers memory place = memory place := by
  induction writers generalizing memory with
  | nil => rfl
  | cons writer rest ih =>
    refine (ih fun other member => untouched other (List.mem_cons_of_mem _ member)).trans ?_
    simp only
    by_cases able : enabled writer
    · rw [if_pos able, Function.update_of_ne (untouched writer List.mem_cons_self able).symm]
    · rw [if_neg able]

/-- A place holds the value of its only writer. -/
theorem run_get (member : writer ∈ writers) (able : enabled writer)
    (only : ∀ other ∈ writers, enabled other → target other = target writer → other = writer) :
    run enabled target value writers memory (target writer) = value writer := by
  induction writers generalizing memory with
  | nil => exact absurd member List.not_mem_nil
  | cons first rest ih =>
    by_cases again : writer ∈ rest
    · exact ih again fun other listed => only other (List.mem_cons_of_mem _ listed)
    · obtain rfl := (List.mem_cons.mp member).resolve_right again
      have later : run enabled target value rest (Function.update memory (target writer) (value writer)) (target writer) =
          Function.update memory (target writer) (value writer) (target writer) := by
        refine run_frame fun other listed open_ same => again ?_
        exact only other (List.mem_cons_of_mem _ listed) open_ same ▸ listed
      rw [run, List.foldl_cons, if_pos able]
      exact later.trans (Function.update_self _ _ _)

end Ooverlap.Writes
