import Mathlib.Algebra.BigOperators.Group.List.Basic
import Mathlib.Algebra.BigOperators.Ring.List
import Mathlib.Algebra.Ring.Nat
import Mathlib.Data.Int.LeastGreatest
import Mathlib.Order.MinMax
import Mathlib.Order.Monotone.Basic

/-! Exactly-once covers of a half-open range by consecutive half-open pieces. -/

namespace Ooverlap.Split

section Covers

variable [LinearOrder α]

/-- Indicator that `point` lies in the half-open range `[lower, upper)`. -/
def covers (lower upper point : α) : Nat :=
  if lower ≤ point ∧ point < upper then 1 else 0

theorem covers_eq_one {lower upper point : α} (inside : lower ≤ point ∧ point < upper) :
    covers lower upper point = 1 := by
  simp [covers, inside]

theorem covers_eq_zero {lower upper point : α} (outside : ¬(lower ≤ point ∧ point < upper)) :
    covers lower upper point = 0 := by
  simp only [covers, if_neg outside]

theorem covers_pos_iff {lower upper point : α} :
    0 < covers lower upper point ↔ lower ≤ point ∧ point < upper := by
  unfold covers
  split <;> simp_all

@[simp] theorem covers_self (bound point : α) : covers bound bound point = 0 := by
  apply covers_eq_zero
  rintro ⟨lower, upper⟩
  exact absurd (lt_of_le_of_lt lower upper) (lt_irrefl _)

/-- Two consecutive ranges cover a point as often as the range they make up. -/
theorem covers_append {lower middle upper : α} (first : lower ≤ middle) (second : middle ≤ upper) (point : α) :
    covers lower middle point + covers middle upper point = covers lower upper point := by
  by_cases before : point < middle
  · have absent : ¬(middle ≤ point ∧ point < upper) := fun inside =>
      absurd before (not_lt.mpr inside.1)
    have reaches : point < upper := lt_of_lt_of_le before second
    simp [covers, before, reaches]
  · have after : middle ≤ point := not_lt.mp before
    have reaches : lower ≤ point := le_trans first after
    simp [covers, before, after, reaches]

/-- Consecutive pieces cut by monotone boundaries cover every point of the whole exactly once. -/
theorem covers_sum (boundary : Nat → α) (monotone : ∀ index, boundary index ≤ boundary (index + 1))
    (count : Nat) (point : α) :
    ((List.range count).map (fun index =>
      covers (boundary index) (boundary (index + 1)) point)).sum =
      covers (boundary 0) (boundary count) point := by
  induction count with
  | zero => simp
  | succ count ih =>
    have reached : boundary 0 ≤ boundary count := monotone_nat_of_le_succ monotone (Nat.zero_le count)
    rw [List.range_succ, List.map_append, List.sum_append, ih]
    simpa using covers_append reached (monotone count) point

/-- Intersecting two ranges covers a point iff both of them do. -/
theorem covers_inter (lower upper first last point : α) :
    covers (max lower first) (min upper last) point =
      covers lower upper point * covers first last point := by
  by_cases inner : lower ≤ point ∧ point < upper
  · rw [covers_eq_one inner, Nat.one_mul]
    simp only [covers, max_le_iff, lt_min_iff, inner, true_and]
  · rw [covers_eq_zero inner, Nat.zero_mul]
    apply covers_eq_zero
    rintro ⟨reaches, before⟩
    exact inner ⟨(max_le_iff.mp reaches).1, (lt_min_iff.mp before).1⟩

/-- Pieces clipped to a range cover its points as often as the unclipped pieces do. -/
theorem covers_clip_sum (lower upper : α) (pieces : List β) (first last : β → α) (point : α) :
    (pieces.map fun piece => covers (max lower (first piece)) (min upper (last piece)) point).sum =
      covers lower upper point * (pieces.map fun piece => covers (first piece) (last piece) point).sum := by
  simp only [covers_inter]
  exact List.sum_map_mul_left pieces _ _

/-- A point that a cover counts once lies in the piece of exactly one index. -/
theorem covers_unique {lower upper : Nat → α} {count : Nat} {point : α}
    (once : ((List.range count).map fun index => covers (lower index) (upper index) point).sum = 1) :
    ∃! index, index < count ∧ lower index ≤ point ∧ point < upper index := by
  induction count with
  | zero => simp at once
  | succ count ih =>
    rw [List.range_succ, List.map_append, List.sum_append] at once
    simp only [List.map_cons, List.map_nil, List.sum_cons, List.sum_nil, Nat.add_zero] at once
    have absent : ∀ {bound : Nat}, ((List.range bound).map fun index =>
        covers (lower index) (upper index) point).sum = 0 →
        ∀ index < bound, ¬(lower index ≤ point ∧ point < upper index) := by
      intro bound none index small inside
      have summand := List.sum_eq_zero_iff_forall_eq_nat.mp none _
        (List.mem_map_of_mem (List.mem_range.mpr small))
      rw [covers_eq_one inside] at summand
      cases summand
    by_cases last : lower count ≤ point ∧ point < upper count
    · rw [covers_eq_one last] at once
      refine ⟨count, ⟨Nat.lt_succ_self count, last⟩, ?_⟩
      intro other inside
      by_contra different
      have none : ((List.range count).map fun index => covers (lower index) (upper index) point).sum = 0 := by
        omega
      exact absent none other (by omega) inside.2
    · rw [covers_eq_zero last, Nat.add_zero] at once
      obtain ⟨index, ⟨small, inside⟩, only⟩ := ih once
      refine ⟨index, ⟨Nat.lt_succ_of_lt small, inside⟩, ?_⟩
      intro other ⟨bound, within⟩
      have notLast : other ≠ count := by
        rintro rfl
        exact last within
      exact only other ⟨by omega, within⟩

/-- Between two neighbouring boundaries a piece of indices covers a point as it covers the index. -/
theorem covers_boundary {boundary : Int → α}
    (monotone : ∀ first second, first ≤ second → boundary first ≤ boundary second) {index : Int} {point : α}
    (below : boundary index ≤ point) (above : point < boundary (index + 1)) (first last : Int) :
    covers (boundary first) (boundary last) point = covers first last index := by
  have reaches : boundary first ≤ point ↔ first ≤ index := by
    constructor
    · intro before
      by_contra later
      have next : boundary (index + 1) ≤ boundary first := monotone _ _ (by omega)
      exact absurd (lt_of_lt_of_le above next) (not_lt.mpr before)
    · intro before
      exact le_trans (monotone _ _ before) below
  have ends : point < boundary last ↔ index < last := by
    constructor
    · intro before
      by_contra later
      have earlier : boundary last ≤ boundary index := monotone _ _ (by omega)
      exact absurd (lt_of_lt_of_le before earlier) (not_lt.mpr below)
    · intro before
      exact lt_of_lt_of_le above (monotone _ _ (by omega))
  simp only [covers, reaches, ends]

/-- Pieces that cover the indices of a range cover the points between its boundaries as often. -/
theorem covers_boundary_sum {boundary : Int → α}
    (monotone : ∀ first second, first ≤ second → boundary first ≤ boundary second) (pieces : List β)
    (first last : β → Int) (lower upper : Int)
    (cover : ∀ index, (pieces.map fun piece => covers (first piece) (last piece) index).sum =
      covers lower upper index) (point : α) :
    (pieces.map fun piece => covers (boundary (first piece)) (boundary (last piece)) point).sum =
      covers (boundary lower) (boundary upper) point := by
  by_cases between : ∃ index, boundary index ≤ point ∧ point < boundary (index + 1)
  · obtain ⟨index, below, above⟩ := between
    simp only [covers_boundary monotone below above, cover]
  · have nowhere : ∀ first last : Int, covers (boundary first) (boundary last) point = 0 := by
      intro first last
      apply covers_eq_zero
      rintro ⟨reaches, before⟩
      have bounded : ∃ bound, ∀ index, boundary index ≤ point → index ≤ bound := by
        refine ⟨last, fun index below => ?_⟩
        by_contra later
        exact absurd (lt_of_le_of_lt (monotone _ _ (by omega)) (lt_of_le_of_lt below before)) (lt_irrefl _)
      obtain ⟨index, below, greatest⟩ := Int.exists_greatest_of_bdd bounded ⟨first, reaches⟩
      refine between ⟨index, below, ?_⟩
      by_contra reached
      have := greatest (index + 1) (not_lt.mp reached)
      omega
    simp only [nowhere]
    exact List.sum_eq_zero fun value member => by
      obtain ⟨piece, _, rfl⟩ := List.mem_map.mp member
      rfl

end Covers

section NearEqual

/-- Size of one of `parts` near-equal consecutive pieces of `total`: the remainder goes to the first. -/
def share (total parts index : Nat) : Nat :=
  total / parts + if index < total % parts then 1 else 0

/-- Start of a near-equal piece. -/
def offset (total parts index : Nat) : Nat :=
  index * (total / parts) + min index (total % parts)

@[simp] theorem offset_zero (total parts : Nat) : offset total parts 0 = 0 := by
  simp [offset]

theorem offset_succ (total parts index : Nat) :
    offset total parts (index + 1) = offset total parts index + share total parts index := by
  unfold offset share
  rw [Nat.succ_mul]
  split <;> omega

theorem offset_parts (positive : 0 < parts) (total : Nat) : offset total parts parts = total := by
  have small : total % parts < parts := Nat.mod_lt total positive
  unfold offset
  rw [Nat.min_eq_right (Nat.le_of_lt small)]
  exact Nat.div_add_mod total parts

theorem offset_mono (total parts : Nat) : Monotone (offset total parts) :=
  monotone_nat_of_le_succ fun index => by
    rw [offset_succ]
    exact Nat.le_add_right _ _

theorem offset_add_share_le (within : index < parts) (total : Nat) :
    offset total parts index + share total parts index ≤ total := by
  rw [← offset_succ]
  calc
    offset total parts (index + 1) ≤ offset total parts parts := offset_mono total parts within
    _ = total := offset_parts (Nat.lt_of_le_of_lt (Nat.zero_le index) within) total

theorem share_pos_of_parts_le (positive : 0 < parts) (enough : parts ≤ total) (index : Nat) :
    0 < share total parts index := by
  have base : 0 < total / parts := Nat.div_pos enough positive
  unfold share
  omega

/-- A later near-equal piece starts no earlier than an earlier one ends. -/
theorem offset_share_disjoint (order : first < second) (total parts : Nat) :
    offset total parts first + share total parts first ≤ offset total parts second := by
  rw [← offset_succ]
  exact offset_mono total parts order

/-- Every position of the whole lies in exactly one near-equal piece. -/
theorem exists_share (positive : 0 < parts) (bound : point < total) :
    ∃ index < parts, offset total parts index ≤ point ∧
      point < offset total parts index + share total parts index := by
  have reached : point < offset total parts parts := by
    rw [offset_parts positive]
    exact bound
  have search : ∀ count, point < offset total parts count →
      ∃ index < count, offset total parts index ≤ point ∧ point < offset total parts (index + 1) := by
    intro count
    induction count with
    | zero => intro empty; simp at empty
    | succ count ih =>
      intro below
      by_cases earlier : point < offset total parts count
      · obtain ⟨index, small, inside⟩ := ih earlier
        exact ⟨index, Nat.lt_succ_of_lt small, inside⟩
      · exact ⟨count, Nat.lt_succ_self count, Nat.not_lt.mp earlier, below⟩
  obtain ⟨index, small, lower, upper⟩ := search parts reached
  exact ⟨index, small, lower, by rwa [← offset_succ]⟩

end NearEqual

end Ooverlap.Split
