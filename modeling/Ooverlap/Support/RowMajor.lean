import Mathlib.Algebra.Order.Ring.Nat
import Mathlib.Tactic.Ring

/-! Positions of a row-major matrix. -/

namespace Ooverlap.RowMajor

/-- Position of an element in rows of the given width. -/
def flat (width row column : Nat) : Nat :=
  row * width + column

variable {width row column rows position : Nat}

theorem flat_div (inside : column < width) : flat width row column / width = row := by
  rw [flat, Nat.mul_comm, Nat.mul_add_div (Nat.zero_lt_of_lt inside), Nat.div_eq_of_lt inside, Nat.add_zero]

theorem flat_mod (inside : column < width) : flat width row column % width = column := by
  rw [flat, Nat.mul_comm, Nat.mul_add_mod, Nat.mod_eq_of_lt inside]

theorem flat_div_mod (width position : Nat) : flat width (position / width) (position % width) = position :=
  Nat.div_add_mod' position width

/-- The first position of a row cuts the positions into the rows before it and the rest. -/
theorem le_flat_iff (inside : column < width) : rows * width ≤ flat width row column ↔ rows ≤ row := by
  rw [← Nat.le_div_iff_mul_le (Nat.zero_lt_of_lt inside), flat_div inside]

theorem flat_lt (within : row < rows) (inside : column < width) : flat width row column < rows * width := by
  by_contra beyond
  exact absurd ((le_flat_iff inside).mp (not_lt.mp beyond)) (not_le.mpr within)

/-- The next position is the next column, or the first column of the next row. -/
theorem flat_succ_iff (here : column < width) (there : next < width) :
    flat width below next = flat width row column + 1 ↔
    (below = row ∧ next = column + 1) ∨ (below = row + 1 ∧ next = 0 ∧ column + 1 = width) := by
  constructor
  · intro same
    have first : 0 < width := Nat.zero_lt_of_lt here
    have below_eq : flat width below next / width = below := flat_div there
    have next_eq : flat width below next % width = next := flat_mod there
    rcases Nat.lt_or_eq_of_le (Nat.succ_le_of_lt here) with inside | last
    · have moved : flat width below next = flat width row (column + 1) := same
      rw [moved] at below_eq next_eq
      exact .inl ⟨below_eq.symm.trans (flat_div inside), next_eq.symm.trans (flat_mod inside)⟩
    · have moved : flat width below next = flat width (row + 1) 0 := by
        rw [same, flat, flat, Nat.add_mul, Nat.one_mul, Nat.add_zero, Nat.add_assoc]
        exact congrArg (row * width + ·) last
      rw [moved] at below_eq next_eq
      exact .inr ⟨below_eq.symm.trans (flat_div first), next_eq.symm.trans (flat_mod first), last⟩
  · rintro (⟨rfl, rfl⟩ | ⟨rfl, rfl, last⟩)
    · rfl
    · rw [flat, flat, Nat.add_mul, Nat.one_mul, Nat.add_zero, Nat.add_assoc]
      exact congrArg (row * width + ·) last.symm

/-- A matrix whose rows are matrices of one row each is a matrix of longer rows. -/
theorem flat_flat (width columns row column offset : Nat) :
    flat (columns * width) row (flat width column offset) = flat width (flat columns row column) offset := by
  unfold flat
  ring

end Ooverlap.RowMajor
