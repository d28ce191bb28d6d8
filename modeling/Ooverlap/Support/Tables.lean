import Mathlib.Logic.Function.Basic

/-! Tables with one cell replaced at a time. -/

namespace Ooverlap.Tables

variable {Row Column Value : Type*} [DecidableEq Row] [DecidableEq Column]

def store (table : Row → Column → Value) (row : Row) (column : Column) (value : Value) : Row → Column → Value :=
  Function.update table row (Function.update (table row) column value)

variable {table : Row → Column → Value} {row other : Row} {column place : Column} {value next : Value}

theorem store_apply : store table row column value other place =
    if other = row ∧ place = column then value else table other place := by
  unfold store
  by_cases sameRow : other = row
  · subst sameRow
    by_cases sameColumn : place = column
    · subst sameColumn
      simp
    · simp [sameColumn]
  · simp [sameRow]

@[simp] theorem store_self : store table row column value row column = value := by
  rw [store_apply, if_pos ⟨rfl, rfl⟩]

theorem store_of_ne (apart : other = row → place ≠ column) :
    store table row column value other place = table other place := by
  rw [store_apply, if_neg fun same => apart same.1 same.2]

@[simp] theorem store_store :
    store (store table row column value) row column next = store table row column next := by
  funext other place
  simp only [store_apply]
  split <;> rfl

theorem store_comm (apart : other = row → place ≠ column) :
    store (store table row column value) other place next = store (store table other place next) row column value := by
  funext line spot
  simp only [store_apply]
  split
  · rename_i here
    rw [if_neg fun same => apart (here.1.symm.trans same.1) (here.2.symm.trans same.2)]
  · rfl

end Ooverlap.Tables
