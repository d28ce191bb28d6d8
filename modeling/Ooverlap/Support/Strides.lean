import Mathlib.Data.List.Flatten
import Mathlib.Data.List.Nodup
import Mathlib.Data.List.Perm.Basic
import Mathlib.Data.List.Range
import Mathlib.Data.Nat.ModEq
import Mathlib.Logic.Function.Iterate
import Mathlib.Tactic.Ring

/-! Loops that advance by the size of a team: together its members visit a range once. -/

namespace Ooverlap.Strides

/-- The indices of `for (; base < stop; base += step)`; a loop that stands still is left out. -/
def strided (stop step base : Nat) : List Nat :=
  if base < stop ∧ 0 < step then base :: strided stop step (base + step) else []
termination_by stop - base

section One

variable {stop step base : Nat}

theorem strided_turn (positive : 0 < step) (below : base < stop) :
    strided stop step base = base :: strided stop step (base + step) := by
  rw [strided, if_pos ⟨below, positive⟩]

theorem mem_strided (positive : 0 < step) (x : Nat) :
    x ∈ strided stop step base ↔ base ≤ x ∧ x < stop ∧ x % step = base % step := by
  fun_induction strided stop step base with
  | case1 base turn ih =>
    rw [List.mem_cons, ih, Nat.add_mod_right]
    constructor
    · rintro (rfl | ⟨after, below, class'⟩)
      · exact ⟨le_rfl, turn.1, rfl⟩
      · exact ⟨by omega, below, class'⟩
    · rintro ⟨after, below, class'⟩
      by_cases first : x = base
      · exact Or.inl first
      · refine Or.inr ⟨?_, below, class'⟩
        have apart : base < x := by omega
        have distance := Nat.sub_mod_eq_zero_of_mod_eq class'
        have whole := Nat.le_of_dvd (by omega) (Nat.dvd_of_mod_eq_zero distance)
        omega
  | case2 base done =>
    constructor
    · exact fun member => absurd member List.not_mem_nil
    · rintro ⟨after, below, -⟩
      exact absurd ⟨Nat.lt_of_le_of_lt after below, positive⟩ done

theorem strided_nodup (positive : 0 < step) : (strided stop step base).Nodup := by
  fun_induction strided stop step base with
  | case1 base turn ih =>
    refine List.nodup_cons.mpr ⟨fun again => ?_, ih⟩
    have after := ((mem_strided positive base).mp again).1
    omega
  | case2 => exact List.nodup_nil

/-- A whole unrolled turn is as many turns of the plain loop. -/
theorem strided_unrolled (positive : 0 < step) (unroll : Nat) (whole : base + unroll * step < stop) :
    strided stop step base = (List.range (unroll + 1)).map (fun u => base + u * step) ++
      strided stop step (base + (unroll + 1) * step) := by
  induction unroll generalizing base with
  | zero =>
    rw [Nat.zero_mul, Nat.add_zero] at whole
    rw [strided_turn positive whole, Nat.zero_add, Nat.one_mul]
    simp
  | succ unroll ih =>
    rw [Nat.succ_mul] at whole
    have shifted : (fun u => base + step + u * step) = (fun u => base + u * step) ∘ Nat.succ := by
      funext u
      simp only [Function.comp_apply, Nat.succ_mul]
      omega
    rw [strided_turn positive (by omega), ih (by omega), List.range_succ_eq_map (n := unroll + 1), List.map_cons,
      List.map_map, ← shifted, Nat.zero_mul, Nat.add_zero, List.cons_append]
    congr 3
    ring

end One

section Team

variable {lanes : Nat}

/-- The residues modulo the size of a team share out its range. -/
theorem team_perm (positive : 0 < lanes) (first stop : Nat) :
    ((List.range lanes).flatMap fun lane => strided stop lanes (first + lane)).Perm
      (List.range' first (stop - first)) := by
  have distinct : ((List.range lanes).flatMap fun lane => strided stop lanes (first + lane)).Nodup := by
    refine List.nodup_flatMap.mpr ⟨fun _ _ => strided_nodup positive, ?_⟩
    apply (List.nodup_range (n := lanes)).pairwise_of_forall_ne
    intro lane within lane' within' apart x member member'
    obtain ⟨-, -, class'⟩ := (mem_strided positive x).mp member
    obtain ⟨-, -, same⟩ := (mem_strided positive x).mp member'
    have equal : Nat.ModEq lanes lane lane' := Nat.ModEq.add_left_cancel' first (class'.symm.trans same)
    exact apart (equal.eq_of_lt_of_lt (List.mem_range.mp within) (List.mem_range.mp within'))
  refine (List.perm_ext_iff_of_nodup distinct List.nodup_range').mpr fun x => ?_
  rw [List.mem_flatMap, List.mem_range'_1]
  simp only [mem_strided positive]
  constructor
  · rintro ⟨lane, -, after, below, -⟩
    omega
  · rintro ⟨after, below⟩
    refine ⟨(x - first) % lanes, List.mem_range.mpr (Nat.mod_lt _ positive), ?_, by omega, ?_⟩
    · have least := Nat.mod_le (x - first) lanes
      omega
    · calc x % lanes = (first + (x - first)) % lanes := by rw [Nat.add_sub_cancel' after]
        _ = (first + (x - first) % lanes) % lanes := (Nat.add_mod_mod ..).symm

/-- Blocks of one size, laid end to end. -/
theorem flatMap_blocks (size first count : Nat) :
    ((List.range' first count).flatMap fun i => List.range' (i * size) size) =
      List.range' (first * size) (count * size) := by
  induction count generalizing first with
  | zero => rw [Nat.zero_mul]; rfl
  | succ count ih =>
    rw [List.range'_succ, List.flatMap_cons, ih, Nat.succ_mul, Nat.succ_mul, Nat.add_comm (count * size) size]
    exact List.range'_append_1

end Team

section Touch

variable {α : Type*} [DecidableEq α] {Value : Type*} (change : α → Value → Value)

/-- Places changed one after another. -/
def touch (places : List α) (memory : α → Value) : α → Value :=
  places.foldl (fun memory place => Function.update memory place (change place (memory place))) memory

/-- What becomes of a place depends only on how often it is touched. -/
theorem touch_apply (places : List α) (memory : α → Value) (place : α) :
    touch change places memory place = (change place)^[places.count place] (memory place) := by
  induction places generalizing memory with
  | nil => rfl
  | cons first rest ih =>
    rw [touch, List.foldl_cons]
    refine (ih _).trans ?_
    by_cases here : first = place
    · subst here
      rw [Function.update_self, List.count_cons_self, Function.iterate_succ_apply]
    · rw [Function.update_of_ne (Ne.symm here), List.count_cons_of_ne here]

end Touch

end Ooverlap.Strides
