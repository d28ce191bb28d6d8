import Mathlib.Data.List.Basic
import Mathlib.Data.Nat.Periodic
import Mathlib.Tactic.Ring

/-! Where the classes of a key stand in a list sorted by it. -/

namespace Ooverlap.SortedClasses

variable {α : Type*} {key : α → Nat} {list : List α}

/-- Everything of a lower class stands before an element, and nothing of a higher class. -/
theorem count_lower_le (sorted : list.Pairwise fun first second => key first ≤ key second)
    (found : list[position]? = some item) : (list.countP fun other => key other < key item) ≤ position := by
  obtain ⟨within, rfl⟩ := List.getElem?_eq_some_iff.mp found
  have later : (list.drop position).countP (fun other => key other < key list[position]) = 0 := by
    refine List.countP_eq_zero.mpr fun other member => ?_
    rw [List.drop_eq_getElem_cons within] at member
    have ordered := sorted.drop (i := position)
    rw [List.drop_eq_getElem_cons within] at ordered
    rw [decide_eq_true_eq, not_lt]
    rcases List.mem_cons.mp member with rfl | rest
    · exact le_refl _
    · exact (List.pairwise_cons.mp ordered).1 other rest
  calc list.countP (fun other => key other < key list[position])
      = (list.take position).countP (fun other => key other < key list[position]) := by
        have split : (list.take position ++ list.drop position).countP (fun other => key other < key list[position]) =
            (list.take position).countP (fun other => key other < key list[position]) +
              (list.drop position).countP (fun other => key other < key list[position]) := List.countP_append
        rw [List.take_append_drop, later, Nat.add_zero] at split
        exact split
    _ ≤ (list.take position).length := List.countP_le_length
    _ ≤ position := List.length_take_le _ _

theorem lt_count_upto (sorted : list.Pairwise fun first second => key first ≤ key second)
    (found : list[position]? = some item) : position < list.countP fun other => key other ≤ key item := by
  obtain ⟨within, rfl⟩ := List.getElem?_eq_some_iff.mp found
  have before : (list.take (position + 1)).countP (fun other => key other ≤ key list[position]) = position + 1 := by
    have everyone : ∀ other ∈ list.take (position + 1), key other ≤ key list[position] := by
      intro other member
      obtain ⟨place, early, rfl⟩ := List.mem_take_iff_getElem.mp member
      rcases Nat.lt_or_eq_of_le (Nat.le_of_lt_succ (Nat.lt_of_lt_of_le early (Nat.min_le_left _ _))) with less | rfl
      · exact List.pairwise_iff_getElem.mp sorted place position _ within less
      · exact le_refl _
    rw [List.countP_eq_length.mpr fun other member => decide_eq_true (everyone other member), List.length_take]
    exact Nat.min_eq_left within
  calc position < (list.take (position + 1)).countP (fun other => key other ≤ key list[position]) := by omega
    _ ≤ list.countP (fun other => key other ≤ key list[position]) :=
        (List.take_sublist _ _).countP_le

/-- Among as many consecutive numbers as there are residues, each residue occurs once. -/
theorem count_residues_block (first : Nat) (bound : class_ ≤ modulus) :
    (List.range' first modulus).countP (fun number => number % modulus < class_) = class_ := by
  have periodic : Function.Periodic (fun number => number % modulus < class_) modulus := by
    intro number
    simp only [Nat.add_mod_right]
  have filtered := Nat.filter_Ico_card_eq_of_periodic first modulus _ periodic
  rw [Nat.count_eq_card_filter_range] at filtered
  have residues : (Finset.range modulus).filter (fun number => number % modulus < class_) = Finset.range class_ := by
    ext number
    simp only [Finset.mem_filter, Finset.mem_range]
    constructor
    · rintro ⟨within, less⟩
      rwa [Nat.mod_eq_of_lt within] at less
    · intro less
      have within := Nat.lt_of_lt_of_le less bound
      exact ⟨within, by rwa [Nat.mod_eq_of_lt within]⟩
  rw [residues, Finset.card_range] at filtered
  have interval : Finset.Ico first (first + modulus) = ⟨List.range' first modulus, List.nodup_range' _⟩ := by
    simp only [Nat.Ico_eq_range', Nat.add_sub_cancel_left]
  rw [interval] at filtered
  rw [List.countP_eq_length_filter]
  exact filtered

theorem count_residues (first count : Nat) (bound : class_ ≤ modulus) :
    (List.range' first (modulus * count)).countP (fun number => number % modulus < class_) = class_ * count := by
  induction count generalizing first with
  | zero => rfl
  | succ count ih =>
    rw [Nat.mul_succ, Nat.add_comm (modulus * count), ← List.range'_append_1, List.countP_append,
      count_residues_block first bound, ih]
    ring

/-- Sorted by residue, consecutive numbers fall into equal shares, one for each residue in order. -/
theorem residue_at {list : List Nat} (sorted : list.Pairwise fun first second => first % modulus ≤ second % modulus)
    (numbers : list.Perm (List.range' first (modulus * count))) (positive : 0 < modulus)
    (found : list[position]? = some number) : number % modulus = position / count := by
  have residue := Nat.mod_lt number positive
  have above := count_lower_le sorted found
  have below := lt_count_upto sorted found
  rw [numbers.countP_eq, count_residues first count (Nat.le_of_lt residue)] at above
  simp only [← Nat.lt_succ_iff] at below
  rw [numbers.countP_eq, count_residues first count residue] at below
  exact (Nat.div_eq_of_lt_le above below).symm

end Ooverlap.SortedClasses
