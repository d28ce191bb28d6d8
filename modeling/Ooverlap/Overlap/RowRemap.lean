import Mathlib.Data.List.Nodup
import Ooverlap.Support.Blocks
import Ooverlap.Support.RowMajor
import Ooverlap.Support.SortedClasses
import Ooverlap.Support.Writes

/-! The row remap of a segment: the array the tuner builds and the kernel that applies it. -/

namespace Ooverlap.Overlap

open Blocks RowMajor

section Array

/-- Row ids of one segment, sorted by residue with ties in order. -/
def sortedRowIds (worldSize first count : Nat) : List Nat :=
  (List.range' first count).mergeSort fun row other => row % worldSize ≤ other % worldSize

/-- The loop over the segments of `generate_row_remap_array`, from the current row on. -/
def reorderedRowIds (BM worldSize : Nat) : Nat → List Nat → List Nat
  | _, [] => []
  | currentRow, S :: rest =>
    sortedRowIds worldSize currentRow (S * BM) ++ reorderedRowIds BM worldSize (currentRow + S * BM) rest

/-- `remap[reordered_row_id] = arange(..)` over an array of unknown contents. -/
def generateRowRemapArray (BM worldSize : Nat) (sList : List Nat) (remap : Nat → Nat) : Nat → Nat :=
  Writes.run (fun _ => True) Prod.fst Prod.snd (reorderedRowIds BM worldSize 0 sList).zipIdx remap

variable {BM worldSize : Nat} {sList : List Nat}

theorem sortedRowIds_perm (worldSize first count : Nat) :
    (sortedRowIds worldSize first count).Perm (List.range' first count) :=
  List.mergeSort_perm _ _

theorem sortedRowIds_length (worldSize first count : Nat) : (sortedRowIds worldSize first count).length = count := by
  rw [(sortedRowIds_perm worldSize first count).length_eq, List.length_range']

theorem sortedRowIds_sorted (worldSize first count : Nat) :
    (sortedRowIds worldSize first count).Pairwise fun row other => row % worldSize ≤ other % worldSize := by
  have trans : ∀ row middle other : Nat, decide (row % worldSize ≤ middle % worldSize) = true →
      decide (middle % worldSize ≤ other % worldSize) = true → decide (row % worldSize ≤ other % worldSize) = true :=
    fun _ _ _ early late => decide_eq_true (Nat.le_trans (of_decide_eq_true early) (of_decide_eq_true late))
  have total : ∀ row other : Nat,
      (decide (row % worldSize ≤ other % worldSize) || decide (other % worldSize ≤ row % worldSize)) = true := by
    intro row other
    rw [Bool.or_eq_true, decide_eq_true_eq, decide_eq_true_eq]
    exact Nat.le_total _ _
  exact (List.pairwise_mergeSort trans total (List.range' first count)).imp of_decide_eq_true

theorem reorderedRowIds_perm (currentRow : Nat) :
    (reorderedRowIds BM worldSize currentRow sList).Perm (List.range' currentRow (sList.sum * BM)) := by
  induction sList generalizing currentRow with
  | nil => rw [List.sum_nil, Nat.zero_mul]; exact List.Perm.refl _
  | cons S rest ih =>
    rw [reorderedRowIds, List.sum_cons, Nat.add_mul, ← List.range'_append_1]
    exact (sortedRowIds_perm _ _ _).append (ih _)

theorem reorderedRowIds_segment (found : sList[seg]? = some S) (currentRow : Nat) (within : position < S * BM) :
    (reorderedRowIds BM worldSize currentRow sList)[start sList seg * BM + position]? =
      (sortedRowIds worldSize (currentRow + start sList seg * BM) (S * BM))[position]? := by
  induction sList generalizing seg currentRow with
  | nil => cases found
  | cons first rest ih =>
    cases seg with
    | zero =>
      obtain rfl := Option.some.inj found
      rw [start_zero, Nat.zero_mul, Nat.zero_add, Nat.add_zero, reorderedRowIds, List.getElem?_append_left]
      rwa [sortedRowIds_length]
    | succ seg =>
      have shifted : start (first :: rest) (seg + 1) * BM = first * BM + start rest seg * BM := by
        rw [start, List.take_succ_cons, List.sum_cons, start, Nat.add_mul]
      rw [reorderedRowIds, shifted, Nat.add_assoc, List.getElem?_append_right, sortedRowIds_length,
        Nat.add_sub_cancel_left, ih found, Nat.add_assoc]
      rw [sortedRowIds_length]
      exact Nat.le_add_right _ _

theorem generateRowRemapArray_get (remap : Nat → Nat)
    (found : (reorderedRowIds BM worldSize 0 sList)[position]? = some row) :
    generateRowRemapArray BM worldSize sList remap row = position := by
  have distinct : (reorderedRowIds BM worldSize 0 sList).Nodup :=
    (reorderedRowIds_perm 0).nodup_iff.mpr (List.nodup_range' _)
  have listed : (row, position) ∈ (reorderedRowIds BM worldSize 0 sList).zipIdx :=
    List.mem_zipIdx_iff_getElem?.mpr found
  refine Writes.run_get listed trivial ?_
  intro other member _ same
  have there := List.mem_zipIdx_iff_getElem?.mp member
  obtain ⟨within, here⟩ := List.getElem?_eq_some_iff.mp found
  obtain ⟨inside, value⟩ := List.getElem?_eq_some_iff.mp there
  exact Prod.ext same (distinct.getElem_inj_iff.mp (value.trans (same.trans here.symm)))

end Array

section Kernel

variable {Value : Type*}

/-- `scatter_row_remap_sm90_kernel` on a segment that starts at `base` in both buffers, one thread after another. -/
def scatterRowRemap (RE : Nat → Nat) (rowBegin rowCount rowWidth base : Nat) (src dst : Nat → Value) : Nat → Value :=
  Writes.run
    (fun idx => rowBegin ≤ RE (rowBegin + idx / rowWidth) ∧ RE (rowBegin + idx / rowWidth) - rowBegin < rowCount)
    (fun idx =>
      let srcLocalRow := idx / rowWidth
      let col := idx - srcLocalRow * rowWidth
      base + ((RE (rowBegin + srcLocalRow) - rowBegin) * rowWidth + col))
    (fun idx =>
      let srcLocalRow := idx / rowWidth
      let col := idx - srcLocalRow * rowWidth
      src (base + (srcLocalRow * rowWidth + col)))
    (List.range (rowCount * rowWidth)) dst

/-- A remap that takes the rows of a segment to positions of the segment, each position from the row listed for it. -/
structure Remaps (RE : Nat → Nat) (rowBegin rowCount : Nat) (row : Nat → Nat) : Prop where
  inside : ∀ position < rowCount, rowBegin ≤ row position ∧ row position - rowBegin < rowCount
  remap : ∀ position < rowCount, RE (row position) = rowBegin + position
  onto : ∀ srcLocalRow < rowCount, ∃ position < rowCount, row position = rowBegin + srcLocalRow

theorem scatterRowRemap_get {src dst : Nat → Value} (remaps : Remaps RE rowBegin rowCount row)
    (within : place < rowCount * rowWidth) :
    scatterRowRemap RE rowBegin rowCount rowWidth base src dst (base + place) =
      src (base + flat rowWidth (row (place / rowWidth) - rowBegin) (place % rowWidth)) := by
  have width : 0 < rowWidth := Nat.pos_of_mul_pos_left (Nat.zero_lt_of_lt within)
  have position : place / rowWidth < rowCount := (Nat.div_lt_iff_lt_mul width).mpr within
  have column := Nat.mod_lt place width
  obtain ⟨above, local_⟩ := remaps.inside _ position
  have offset : ∀ idx, idx - idx / rowWidth * rowWidth = idx % rowWidth := by
    intro idx
    rw [Nat.mul_comm, ← Nat.mod_eq_sub_mul_div]
  obtain ⟨idx, reader⟩ : ∃ idx, idx = flat rowWidth (row (place / rowWidth) - rowBegin) (place % rowWidth) := ⟨_, rfl⟩
  have source : idx / rowWidth = row (place / rowWidth) - rowBegin := by rw [reader, flat_div column]
  have col : idx % rowWidth = place % rowWidth := by rw [reader, flat_mod column]
  have target : RE (rowBegin + idx / rowWidth) = rowBegin + place / rowWidth := by
    rw [source, Nat.add_sub_cancel' above, remaps.remap _ position]
  have able : rowBegin ≤ RE (rowBegin + idx / rowWidth) ∧ RE (rowBegin + idx / rowWidth) - rowBegin < rowCount := by
    rw [target, Nat.add_sub_cancel_left]
    exact ⟨Nat.le_add_right _ _, position⟩
  have wrote : scatterRowRemap RE rowBegin rowCount rowWidth base src dst
      (base + ((RE (rowBegin + idx / rowWidth) - rowBegin) * rowWidth + (idx - idx / rowWidth * rowWidth))) =
        src (base + (idx / rowWidth * rowWidth + (idx - idx / rowWidth * rowWidth))) := by
    refine Writes.run_get (List.mem_range.mpr (reader ▸ flat_lt local_ column)) able ?_
    intro other listed _ same
    have otherRow : other / rowWidth < rowCount := (Nat.div_lt_iff_lt_mul width).mpr (List.mem_range.mp listed)
    obtain ⟨otherPosition, otherWithin, from_⟩ := remaps.onto _ otherRow
    have otherTarget : RE (rowBegin + other / rowWidth) = rowBegin + otherPosition := by
      rw [← from_, remaps.remap _ otherWithin]
    simp only [offset, target, otherTarget, Nat.add_sub_cancel_left, col] at same
    have equal : flat rowWidth otherPosition (other % rowWidth) = flat rowWidth (place / rowWidth) (place % rowWidth) :=
      Nat.add_left_cancel same
    have samePosition := congrArg (· / rowWidth) equal
    have sameColumn := congrArg (· % rowWidth) equal
    simp only [flat_div (Nat.mod_lt other width), flat_div column] at samePosition
    simp only [flat_mod (Nat.mod_lt other width), flat_mod column] at sameColumn
    have sameRow : other / rowWidth = row (place / rowWidth) - rowBegin := by
      rw [← samePosition, from_, Nat.add_sub_cancel_left]
    rw [reader, ← flat_div_mod rowWidth other, sameRow, sameColumn]
  have here : place / rowWidth * rowWidth + place % rowWidth = place := Nat.div_add_mod' _ _
  rw [offset, target, Nat.add_sub_cancel_left, col, source, here] at wrote
  exact wrote

end Kernel

end Ooverlap.Overlap
