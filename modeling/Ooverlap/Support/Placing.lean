import Mathlib.Data.List.Range
import Mathlib.Data.List.Nodup
import Mathlib.Data.List.Perm.Basic

/-! Positions written at the elements of a list: the inverse of an order, slot by slot. -/

namespace Ooverlap.Placing

/-- Assignment to a list entry; negative indices count from the end, and others out of range raise. -/
def setItem {α : Type*} (slots : List α) (index : Int) (value : α) : Option (List α) :=
  if 0 ≤ index ∧ index < slots.length then some (slots.set index.toNat value)
  else if index < 0 ∧ 0 ≤ slots.length + index then some (slots.set (slots.length + index).toNat value)
  else none

theorem setItem_ofNat {α : Type*} {slots : List α} (inside : t < slots.length) (value : α) :
    setItem slots (t : Int) value = some (slots.set t value) := by
  rw [setItem, if_pos (by omega), Int.toNat_natCast]

/-- Every element of the order gets its position, counted from `start`. -/
def place (start : Nat) : List Nat → List Int → List Int
  | [], slots => slots
  | t :: rest, slots => place (start + 1) rest (slots.set t start)

variable {start : Nat} {order : List Nat} {slots : List Int} {t i : Nat}

@[simp] theorem place_length : (place start order slots).length = slots.length := by
  induction order generalizing start slots with
  | nil => rfl
  | cons t rest ih => rw [place, ih, List.length_set]

theorem place_append (start : Nat) (order tail : List Nat) (slots : List Int) :
    place start (order ++ tail) slots = place (start + order.length) tail (place start order slots) := by
  induction order generalizing start slots with
  | nil => rfl
  | cons t rest ih =>
    rw [List.cons_append, place, place, ih, List.length_cons]
    congr 1
    omega

theorem place_frame (untouched : t ∉ order) : (place start order slots)[t]? = slots[t]? := by
  induction order generalizing start slots with
  | nil => rfl
  | cons first rest ih =>
    rw [List.mem_cons, not_or] at untouched
    rw [place, ih untouched.2, List.getElem?_set_ne (Ne.symm untouched.1)]

theorem place_get (distinct : order.Nodup) (placed : order[i]? = some t) (inside : t < slots.length) :
    (place start order slots)[t]? = some ((start + i : Nat) : Int) := by
  induction order generalizing start i slots with
  | nil => cases placed
  | cons first rest ih =>
    obtain ⟨fresh, distinct⟩ := List.nodup_cons.mp distinct
    cases i with
    | zero =>
      obtain rfl := Option.some.inj placed
      rw [place, place_frame fresh, List.getElem?_set_self inside, Nat.add_zero]
    | succ i =>
      rw [place, ih distinct placed (by rwa [List.length_set])]
      congr 2
      omega

section Ranks

variable {n : Nat}

/-- Where each of `0 .. n - 1` stands in the order. -/
def ranks (n : Nat) (order : List Nat) : List Int := (List.range n).map fun (t : Nat) => (order.idxOf t : Int)

theorem place_ranks (all : order.Perm (List.range n)) (filler : Int) :
    place 0 order (List.replicate n filler) = ranks n order := by
  have distinct : order.Nodup := all.nodup_iff.mpr List.nodup_range
  apply List.ext_getElem?
  intro t
  by_cases inside : t < n
  · have member : t ∈ order := all.mem_iff.mpr (List.mem_range.mpr inside)
    have placed : order[order.idxOf t]? = some t := List.getElem?_idxOf member
    rw [place_get distinct placed (by rwa [List.length_replicate]), ranks, List.getElem?_map,
      List.getElem?_range inside, Option.map_some, Nat.zero_add]
  · rw [List.getElem?_eq_none, List.getElem?_eq_none]
    · rw [ranks, List.length_map, List.length_range]
      omega
    · rw [place_length, List.length_replicate]
      omega

/-- The ranks of an order are themselves `0 .. n - 1` in some order. -/
theorem ranks_perm (all : order.Perm (List.range n)) :
    (ranks n order).Perm ((List.range n).map Nat.cast) := by
  have distinct : order.Nodup := all.nodup_iff.mpr List.nodup_range
  have length : order.length = n := by rw [all.length_eq, List.length_range]
  have inOrder : (order.map fun (t : Nat) => (order.idxOf t : Int)) = (List.range n).map Nat.cast := by
    apply List.ext_getElem
    · rw [List.length_map, List.length_map, List.length_range, length]
    · intro i _ _
      rw [List.getElem_map, List.getElem_map, List.getElem_range, distinct.idxOf_getElem]
  exact inOrder ▸ all.symm.map _

theorem ranks_get (all : order.Perm (List.range n)) (placed : order[i]? = some t) :
    (ranks n order)[t]? = some (i : Int) := by
  have distinct : order.Nodup := all.nodup_iff.mpr List.nodup_range
  have inside : t < n := List.mem_range.mp (all.mem_iff.mp (List.mem_of_getElem? placed))
  rw [← place_ranks all 0, place_get distinct placed (by rwa [List.length_replicate]), Nat.zero_add]

end Ranks

end Ooverlap.Placing
