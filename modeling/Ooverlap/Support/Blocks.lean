import Mathlib.Algebra.BigOperators.Group.List.Basic
import Mathlib.Algebra.Order.BigOperators.Group.List
import Mathlib.Algebra.Ring.Nat
import Mathlib.Data.Fintype.Card
import Mathlib.Order.Interval.Finset.Nat
import Mathlib.Order.Monotone.Basic

/-! A line of positions cut into consecutive blocks of given lengths, some of which may be empty. -/

namespace Ooverlap.Blocks

/-- First position of a block; past the last block, the end of all of them. -/
def start (lengths : List Nat) (index : Nat) : Nat :=
  (lengths.take index).sum

/-- A position lies in a block. -/
def Inside (lengths : List Nat) (index position : Nat) : Prop :=
  start lengths index ≤ position ∧ position < start lengths (index + 1)

instance (lengths : List Nat) (index position : Nat) : Decidable (Inside lengths index position) :=
  inferInstanceAs (Decidable (_ ∧ _))

variable {lengths : List Nat}

@[simp] theorem start_zero : start lengths 0 = 0 := rfl

theorem start_succ (found : lengths[index]? = some length) :
    start lengths (index + 1) = start lengths index + length := by
  rw [start, List.take_add_one, found, List.sum_append]
  simp [start]

theorem start_past (past : lengths.length ≤ index) : start lengths index = lengths.sum := by
  rw [start, List.take_of_length_le past]

theorem start_monotone (lengths : List Nat) : Monotone (start lengths) := by
  refine monotone_nat_of_le_succ fun index => ?_
  cases found : lengths[index]? with
  | some length =>
    rw [start_succ found]
    exact Nat.le_add_right _ _
  | none =>
    have past := List.getElem?_eq_none_iff.mp found
    rw [start_past past, start_past (Nat.le_succ_of_le past)]

theorem start_le_sum (lengths : List Nat) (index : Nat) : start lengths index ≤ lengths.sum := by
  rcases Nat.le_total index lengths.length with within | past
  · rw [← start_past (le_refl lengths.length)]
    exact start_monotone lengths within
  · exact le_of_eq (start_past past)

namespace Inside

/-- A block with a position in it is one of the blocks. -/
theorem lt_length (inside : Inside lengths index position) : index < lengths.length := by
  by_contra past
  have here := start_past (not_lt.mp past)
  have next := start_past (Nat.le_succ_of_le (not_lt.mp past))
  have := inside.1
  have := inside.2
  rw [Nat.succ_eq_add_one] at next
  omega

theorem lt_sum (inside : Inside lengths index position) : position < lengths.sum :=
  lt_of_lt_of_le inside.2 (start_le_sum lengths _)

theorem unique (first : Inside lengths index position) (second : Inside lengths other position) : index = other := by
  have ordered : ∀ {earlier later}, Inside lengths earlier position → Inside lengths later position → ¬earlier < later := by
    intro earlier later here there before
    have := start_monotone lengths (Nat.succ_le_of_lt before)
    rw [Nat.succ_eq_add_one] at this
    have := here.2
    have := there.1
    omega
  exact le_antisymm (not_lt.mp (ordered second first)) (not_lt.mp (ordered first second))

end Inside

theorem exists_inside (within : position < lengths.sum) : ∃ index, Inside lengths index position := by
  have reached : ∃ index, position < start lengths index :=
    ⟨lengths.length, by rwa [start_past (le_refl lengths.length)]⟩
  classical
  have past := Nat.find_spec reached
  have before := fun index => Nat.find_min (m := index) reached
  generalize Nat.find reached = index at past before
  cases index with
  | zero => exact absurd past (Nat.not_lt_zero _)
  | succ index => exact ⟨index, not_lt.mp (before index (Nat.lt_succ_self _)), past⟩

/-- A block holds as many positions as its length says. -/
theorem card_inside (found : lengths[index]? = some length) :
    (Finset.univ.filter fun position : Fin lengths.sum => Inside lengths index position).card = length := by
  have bounded : start lengths (index + 1) ≤ lengths.sum := start_le_sum lengths _
  have image : (Finset.univ.filter fun position : Fin lengths.sum => Inside lengths index position).map
      Fin.valEmbedding = Finset.Ico (start lengths index) (start lengths (index + 1)) := by
    ext position
    simp only [Finset.mem_map, Finset.mem_filter, Finset.mem_univ, true_and, Fin.valEmbedding_apply, Finset.mem_Ico]
    constructor
    · rintro ⟨inner, inside, rfl⟩
      exact inside
    · intro inside
      exact ⟨⟨position, lt_of_lt_of_le inside.2 bounded⟩, inside, rfl⟩
  rw [← Finset.card_map Fin.valEmbedding, image, Nat.card_Ico, start_succ found, Nat.add_sub_cancel_left]

end Ooverlap.Blocks
