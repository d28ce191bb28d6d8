import Ooverlap.Overlap.PackedOutput
import Ooverlap.Support.Word

/-! Reading the packed output back: the vector loads of the normalization kernel and the tuner's unpacking. -/

namespace Ooverlap.Overlap

open Blocks RowMajor Word

namespace GemmCall

variable (call : GemmCall)

section Kernel

def rmsThreadsForDim (dim : Nat) : Nat :=
  max ((dim + 15) / 16) 32

/-- The checks of `reorder_rmsnorm` on the output of the GEMM that the GEMM's own call does not make. -/
structure NormAccepts : Prop where
  vectors : 16 ∣ call.N
  expected_ra : (call.cSEG.sum : Int) = toInt32 (call.M / call.tile_m * (call.N / call.tile_n) : Nat)
  threads : rmsThreadsForDim call.N ≤ 1024

/-- An entry of the reorder array. -/
def entryOf (index : Int) : Option Nat :=
  if inside : 0 ≤ index ∧ index.toNat < call.cSEG.sum then some (call.RA ⟨index.toNat, inside.2⟩) else none

/-- Place of the first of the 16 elements that a thread of `reorder_rmsnorm_kernel` loads. -/
def loadPlace (bid tid : Nat) : Option Int :=
  let j := 16 * tid
  let oldIndex := toInt32 (bid / call.tile_m * (call.N / call.tile_n) + j / call.tile_n : Nat)
  (call.entryOf oldIndex).map fun newIndex =>
    let newRow := toInt32 (newIndex / call.rLDN * call.tile_m + bid % call.tile_m : Nat)
    let newCol := toInt32 (newIndex % call.rLDN * call.tile_n + j % call.tile_n : Nat)
    newRow * (call.rLDN * call.tile_n : Nat) + newCol

/-- A thread of the launch that does not return at once. -/
def Active (bid tid : Nat) : Prop :=
  bid < call.M ∧ tid < rmsThreadsForDim call.N ∧ 16 * tid < call.N

end Kernel

section Unpack

variable {Value : Type}

def packedRows : Nat :=
  (call.cSEG.sum + call.rLDN - 1) / call.rLDN * call.tile_m

def packedCols : Nat :=
  call.rLDN * call.tile_n

/-- The block of a tile, copied from its slice of the packed matrix. -/
def copyTile (D out : Nat → Nat → Value) (tr tc packed : Nat) : Nat → Nat → Value :=
  fun row column =>
    if (tr * call.tile_m ≤ row ∧ row < (tr + 1) * call.tile_m) ∧
        tc * call.tile_n ≤ column ∧ column < (tc + 1) * call.tile_n then
      D (packed / call.rLDN * call.tile_m + (row - tr * call.tile_m))
        (packed % call.rLDN * call.tile_n + (column - tc * call.tile_n))
    else out row column

/-- The loops of `unpack`; a slice that the packed matrix cuts short does not have the block's shape. -/
def unpackTiles (D : Nat → Nat → Value) : List (Nat × Nat) → (Nat → Nat → Value) → Option (Nat → Nat → Value)
  | [], out => some out
  | (tr, tc) :: rest, out => do
    let packed ← call.entryOf (tr * (call.N / call.tile_n) + tc : Nat)
    if (packed / call.rLDN + 1) * call.tile_m ≤ call.packedRows ∧
        (packed % call.rLDN + 1) * call.tile_n ≤ call.packedCols then
      unpackTiles D rest (call.copyTile D out tr tc packed)
    else none

def unpack (D out : Nat → Nat → Value) : Option (Nat → Nat → Value) :=
  call.unpackTiles D (List.range (call.M / call.tile_m) ×ˢ List.range (call.N / call.tile_n)) out

/-- The packed matrix, by rows, in the memory that the epilogue stored to. -/
def packedView (memory : Nat → Value) (row column : Nat) : Value :=
  memory (row * call.packedCols + column)

end Unpack

/-- Every thread loads 16 stored elements of its row from the input, and unpacking finds every stored element. -/
structure ReadsBack : Prop where
  loads : ∀ bid tid, call.Active bid tid → ∀ k < 16, ∃ element : call.Element, element.1.val = bid ∧
    element.2.val = 16 * tid + k ∧ ∃ place, call.loadPlace bid tid = some place ∧
      place + k = call.storeIndex element ∧ place + k < (call.M * call.N : Nat)
  unpacks : ∀ (Value : Type) (memory : Nat → Value) (out : Nat → Nat → Value), ∃ logical,
    call.unpack (call.packedView memory) out = some logical ∧
      ∀ element : call.Element, logical element.1 element.2 = memory (call.storeIndex element)

/-- Packed places of loads are `int`s, tiles that a load crosses are stored side by side, and packed rows are full. -/
structure LoadsFit : Prop where
  ints : ∀ element : call.Element, 16 ∣ element.2.val →
    call.RA (call.tileOf element) / call.rLDN * call.tile_m + element.1.val % call.tile_m < 2 ^ 31 ∧
      call.RA (call.tileOf element) % call.rLDN * call.tile_n + element.2.val % call.tile_n < 2 ^ 31
  follows : ∀ element next : call.Element, next.1 = element.1 → next.2.val = element.2.val + 1 →
    ¬16 ∣ next.2.val → call.tile_n ∣ next.2.val →
      (call.RA (call.tileOf next)).val = call.RA (call.tileOf element) + 1 ∧
        (call.tile_m = 1 ∨ ¬call.rLDN ∣ (call.RA (call.tileOf next)).val)
  whole : call.tile_m = 1 ∨ call.rLDN ∣ call.cSEG.sum

section Places

variable {call : GemmCall}

theorem entryOf_tile (tile : call.Tile) : call.entryOf tile.val = some (call.RA tile).val := by
  have inside : (0 : Int) ≤ tile.val ∧ (tile.val : Int).toNat < call.cSEG.sum := ⟨Int.natCast_nonneg _, tile.isLt⟩
  rw [entryOf, dif_pos inside]
  rfl

theorem NormAccepts.tile_int (accepts : call.NormAccepts) (element : call.Element) :
    toInt32 (call.tileOf element) = (call.tileOf element).val := by
  have tiles := accepts.expected_ra
  rw [← call.tile_num] at tiles
  exact toInt32_natCast_iff.mpr (Nat.lt_trans (call.tileOf element).isLt (toInt32_natCast_iff.mp tiles.symm))

/-- The place of a stored element, by its packed row and column. -/
theorem storeIndex_eq (element : call.Element) : call.storeIndex element =
    (call.RA (call.tileOf element) / call.rLDN * call.tile_m + element.1.val % call.tile_m) *
        (call.rLDN * call.tile_n) +
      (call.RA (call.tileOf element) % call.rLDN * call.tile_n + element.2.val % call.tile_n) := by
  rw [storeIndex, packedIndex_flat]
  rfl

/-- The head of a load is the stored place exactly when its packed row and column survive the casts. -/
theorem loadPlace_head (accepts : call.NormAccepts) (element : call.Element) (head : element.2.val = 16 * tid) :
    call.loadPlace element.1 tid = some (call.storeIndex element : Int) ↔
      call.RA (call.tileOf element) / call.rLDN * call.tile_m + element.1.val % call.tile_m < 2 ^ 31 ∧
        call.RA (call.tileOf element) % call.rLDN * call.tile_n + element.2.val % call.tile_n < 2 ^ 31 := by
  have old : call.entryOf
      (toInt32 (element.1 / call.tile_m * (call.N / call.tile_n) + element.2 / call.tile_n : Nat)) =
        some (call.RA (call.tileOf element)).val :=
    (congrArg call.entryOf (accepts.tile_int element)).trans (entryOf_tile _)
  rw [loadPlace, storeIndex_eq]
  simp only [← head, old, Option.map_some, Option.some.injEq]
  generalize call.RA (call.tileOf element) / call.rLDN * call.tile_m + element.1.val % call.tile_m = row
  generalize call.RA (call.tileOf element) % call.rLDN * call.tile_n + element.2.val % call.tile_n = column
  have width : (0 : Int) < (call.rLDN * call.tile_n : Nat) := by
    exact_mod_cast Nat.mul_pos call.rLDN_positive call.tile_n_positive
  have low := toInt32_natCast_le row
  have left := toInt32_natCast_le column
  rw [← toInt32_natCast_iff, ← toInt32_natCast_iff, Nat.cast_add, Nat.cast_mul row]
  generalize ((call.rLDN * call.tile_n : Nat) : Int) = packedCols at width
  constructor
  · intro same
    have scaled := Int.mul_le_mul_of_nonneg_right low (Int.le_of_lt width)
    have sameColumn : toInt32 column = column := by omega
    have sameRow : toInt32 row * packedCols = row * packedCols := by omega
    exact ⟨Int.eq_of_mul_eq_mul_right (Int.ne_of_gt width) sameRow, sameColumn⟩
  · rintro ⟨sameRow, sameColumn⟩
    rw [sameRow, sameColumn]

/-- A tile is stored right after another one when it is the next one, in the same packed row unless rows are single. -/
theorem follows_iff (first second : Nat) (within : row < call.tile_m) :
    call.packedIndex second row 0 = call.packedIndex first row (call.tile_n - 1) + 1 ↔
      second = first + 1 ∧ (call.tile_m = 1 ∨ ¬call.rLDN ∣ second) := by
  have wide := call.tile_n_positive
  have positive := call.rLDN_positive
  have side := Nat.mod_lt first positive
  have place : ∀ packed column, call.packedIndex packed row column =
      flat call.tile_n (flat call.rLDN (flat call.tile_m (packed / call.rLDN) row) (packed % call.rLDN)) column :=
    fun packed column => (packedIndex_flat packed row column).trans (flat_flat _ _ _ _ _)
  have next : call.packedIndex second row 0 = call.packedIndex first row (call.tile_n - 1) + 1 ↔
      flat call.rLDN (flat call.tile_m (second / call.rLDN) row) (second % call.rLDN) =
        flat call.rLDN (flat call.tile_m (first / call.rLDN) row) (first % call.rLDN) + 1 := by
    rw [place, place]
    generalize flat call.rLDN (flat call.tile_m (second / call.rLDN) row) (second % call.rLDN) = here
    generalize flat call.rLDN (flat call.tile_m (first / call.rLDN) row) (first % call.rLDN) = there
    have last : flat call.tile_n there (call.tile_n - 1) + 1 = (there + 1) * call.tile_n := by
      rw [flat, Nat.add_assoc, Nat.sub_add_cancel wide, Nat.add_mul, Nat.one_mul]
    rw [last, flat, Nat.add_zero]
    exact Nat.mul_left_inj (Nat.ne_of_gt wide)
  have order : second = first + 1 ↔
      (second / call.rLDN = first / call.rLDN ∧ second % call.rLDN = first % call.rLDN + 1) ∨
      (second / call.rLDN = first / call.rLDN + 1 ∧ second % call.rLDN = 0 ∧ first % call.rLDN + 1 = call.rLDN) := by
    rw [← flat_succ_iff side (Nat.mod_lt second positive), flat_div_mod, flat_div_mod]
  have sameRow : flat call.tile_m (second / call.rLDN) row = flat call.tile_m (first / call.rLDN) row ↔
      second / call.rLDN = first / call.rLDN := by
    refine ⟨fun same => ?_, fun same => congrArg (flat call.tile_m · row) same⟩
    exact (flat_div within).symm.trans ((congrArg (· / call.tile_m) same).trans (flat_div within))
  rw [next, order, flat_succ_iff side (Nat.mod_lt second positive), flat_succ_iff within within, sameRow,
    Nat.dvd_iff_mod_eq_zero]
  omega

/-- Two neighbours of a row are stored as neighbours unless a tile ends between them and is not followed by the next. -/
theorem storeIndex_succ (element next : call.Element) (row : next.1 = element.1)
    (column : next.2.val = element.2.val + 1) :
    call.storeIndex next = call.storeIndex element + 1 ↔
      (call.tile_n ∣ next.2.val → (call.RA (call.tileOf next)).val = call.RA (call.tileOf element) + 1 ∧
        (call.tile_m = 1 ∨ ¬call.rLDN ∣ (call.RA (call.tileOf next)).val)) := by
  have wide := call.tile_n_positive
  have inside := Nat.mod_lt element.1.val call.tile_m_positive
  rw [storeIndex, storeIndex, row]
  by_cases ends : call.tile_n ∣ next.2.val
  · have first : next.2.val % call.tile_n = 0 := Nat.mod_eq_zero_of_dvd ends
    have last : element.2.val % call.tile_n = call.tile_n - 1 := by
      obtain ⟨tiles, count⟩ := ends
      have before : element.2.val + 1 = call.tile_n * tiles := column.symm.trans count
      have some : 0 < tiles := Nat.pos_of_ne_zero fun none => by simp [none] at before
      have split : element.2.val = call.tile_n * (tiles - 1) + (call.tile_n - 1) := by
        have grows : call.tile_n * tiles = call.tile_n * (tiles - 1) + call.tile_n := by
          rw [← Nat.mul_succ, Nat.succ_eq_add_one, Nat.sub_add_cancel some]
        omega
      rw [split, Nat.mul_add_mod, Nat.mod_eq_of_lt (Nat.sub_lt wide Nat.zero_lt_one)]
    rw [first, last, follows_iff _ _ inside]
    simp only [ends, true_implies]
  · have same : next.2.val / call.tile_n = element.2.val / call.tile_n := by
      rw [column] at ends ⊢
      exact Nat.succ_div_of_not_dvd ends
    have moved : next.2.val % call.tile_n = element.2.val % call.tile_n + 1 := by
      have here := Nat.div_add_mod element.2.val call.tile_n
      have there := Nat.div_add_mod next.2.val call.tile_n
      rw [same] at there
      omega
    have tile : call.tileOf next = call.tileOf element := by
      refine Fin.ext ?_
      change call.logicalTile (next.1 / call.tile_m) (next.2 / call.tile_n) = call.logicalTile _ _
      rw [same, row]
    rw [tile, moved, packedIndex, packedIndex, packedPlace, packedPlace]
    simp only [ends, false_implies, iff_true]
    omega

/-- Every place is one of the input's exactly when its packed rows are full, or single rows. -/
theorem stored_within_iff : (∀ element : call.Element, call.storeIndex element < call.M * call.N) ↔
    call.tile_m = 1 ∨ call.rLDN ∣ call.cSEG.sum := by
  have elements : call.M * call.N = call.elemsPerTile * call.cSEG.sum := by
    obtain ⟨tileRows, rows⟩ := call.rows
    obtain ⟨tileCols, columns⟩ := call.columns
    rw [call.tile_num, elemsPerTile, rows, columns, Nat.mul_div_cancel_left _ call.tile_m_positive,
      Nat.mul_div_cancel_left _ call.tile_n_positive]
    ring
  constructor
  · intro within
    refine Classical.or_iff_not_imp_left.mpr fun several => ?_
    by_contra ragged
    obtain ⟨last, count⟩ : ∃ last, call.cSEG.sum = last + 1 :=
      Nat.exists_eq_succ_of_ne_zero fun none => ragged (none ▸ Nat.dvd_zero _)
    have row : call.tile_m - 1 < call.tile_m := Nat.sub_lt call.tile_m_positive Nat.zero_lt_one
    obtain ⟨element, tile, r, c⟩ :=
      exists_element (call.RA.symm ⟨last, count ▸ Nat.lt_succ_self last⟩) row call.tile_n_positive
    have stored := within element
    have past := stored_past several (count ▸ ragged : ¬call.rLDN ∣ last + 1)
    rw [storeIndex, tile, Equiv.apply_symm_apply, r, c, elements] at stored
    rw [← count] at past
    exact absurd past (not_le.mpr stored)
  · intro whole element
    have tile := (call.RA (call.tileOf element)).isLt
    have cut := cut_iff (call.RA (call.tileOf element)).val whole (Nat.mod_lt element.1.val call.tile_m_positive)
      (Nat.mod_lt element.2.val call.tile_n_positive)
    rw [elements, storeIndex, ← not_le, cut, not_le]
    exact tile

end Places

section Loads

variable {call : GemmCall}

/-- Every element of a row is loaded by the thread of its vector. -/
theorem active_of_element (element : call.Element) : call.Active element.1 (element.2 / 16) := by
  have column := element.2.isLt
  refine ⟨element.1.isLt, Nat.lt_of_lt_of_le ?_ (Nat.le_max_left _ _), by omega⟩
  omega

/-- The loads agree with the stores exactly when their heads do and neighbours within a vector are stored as such. -/
theorem loads_iff (accepts : call.NormAccepts) :
    (∀ bid tid, call.Active bid tid → ∀ k < 16, ∃ element : call.Element, element.1.val = bid ∧
      element.2.val = 16 * tid + k ∧ ∃ place, call.loadPlace bid tid = some place ∧
        place + k = call.storeIndex element) ↔
        (∀ element : call.Element, 16 ∣ element.2.val →
          call.loadPlace element.1 (element.2 / 16) = some (call.storeIndex element : Int)) ∧
        ∀ element next : call.Element, next.1 = element.1 → next.2.val = element.2.val + 1 → ¬16 ∣ next.2.val →
          call.storeIndex next = call.storeIndex element + 1 := by
  constructor
  · intro loads
    have loaded : ∀ element : call.Element, ∃ place, call.loadPlace element.1 (element.2 / 16) = some place ∧
        place + (element.2.val % 16 : Nat) = call.storeIndex element := by
      intro element
      obtain ⟨other, row, column, place, loads, stored⟩ :=
        loads _ _ (active_of_element element) (element.2 % 16) (Nat.mod_lt _ (by decide))
      have same : other = element := Prod.ext (Fin.ext row) (Fin.ext (column.trans (Nat.div_add_mod _ _)))
      exact ⟨place, loads, same ▸ stored⟩
    constructor
    · intro element head
      obtain ⟨place, loads, stored⟩ := loaded element
      rw [Nat.mod_eq_zero_of_dvd head, Nat.cast_zero, Int.add_zero] at stored
      rw [loads, stored]
    · intro element next row column inner
      obtain ⟨place, here, stored⟩ := loaded element
      obtain ⟨other, there, after⟩ := loaded next
      have vector : next.2.val / 16 = element.2.val / 16 := by omega
      rw [row, vector, here] at there
      obtain rfl := Option.some.inj there
      omega
  · rintro ⟨heads, neighbours⟩ bid tid ⟨above, _, left⟩ k within
    have room : 16 * tid + 16 ≤ call.N := by
      obtain ⟨vectors, whole⟩ := accepts.vectors
      omega
    let head : call.Element := ⟨⟨bid, above⟩, ⟨16 * tid, left⟩⟩
    have first : call.loadPlace bid tid = some (call.storeIndex head : Int) := by
      have loads := heads head (Nat.dvd_mul_right 16 tid)
      rwa [show head.2.val / 16 = tid from Nat.mul_div_cancel_left tid (by decide)] at loads
    have stored : ∀ k, (short : k < 16) →
        call.storeIndex ⟨⟨bid, above⟩, ⟨16 * tid + k, by omega⟩⟩ = call.storeIndex head + k := by
      intro k
      induction k with
      | zero => exact fun _ => rfl
      | succ k ih =>
        intro short
        have step := neighbours ⟨⟨bid, above⟩, ⟨16 * tid + k, by omega⟩⟩ ⟨⟨bid, above⟩, ⟨16 * tid + (k + 1), by omega⟩⟩
          rfl rfl (by simp only; omega)
        rw [step, ih (Nat.lt_of_succ_lt short), Nat.add_assoc]
    refine ⟨⟨⟨bid, above⟩, ⟨16 * tid + k, by omega⟩⟩, rfl, rfl, _, first, ?_⟩
    rw [stored k within, Nat.cast_add]

/-- What the loads need, by the packed tiles. -/
theorem loads_stored_iff (accepts : call.NormAccepts) :
    (∀ bid tid, call.Active bid tid → ∀ k < 16, ∃ element : call.Element, element.1.val = bid ∧
      element.2.val = 16 * tid + k ∧ ∃ place, call.loadPlace bid tid = some place ∧
        place + k = call.storeIndex element ∧ place + k < (call.M * call.N : Nat)) ↔ call.LoadsFit := by
  have places := loads_iff accepts
  constructor
  · intro loads
    obtain ⟨heads, neighbours⟩ := places.mp fun bid tid active k within =>
      have ⟨element, row, column, place, here, stored, _⟩ := loads bid tid active k within
      ⟨element, row, column, place, here, stored⟩
    constructor
    · intro element head
      exact (loadPlace_head accepts element (Nat.mul_div_cancel' head).symm).mp (heads element head)
    · intro element next row column inner
      exact (storeIndex_succ element next row column).mp (neighbours element next row column inner)
    · refine stored_within_iff.mp fun element => ?_
      obtain ⟨other, row, column, place, _, stored, within⟩ :=
        loads _ _ (active_of_element element) (element.2 % 16) (Nat.mod_lt _ (by decide))
      have same : other = element := Prod.ext (Fin.ext row) (Fin.ext (column.trans (Nat.div_add_mod _ _)))
      rw [stored, same] at within
      exact_mod_cast within
  · rintro ⟨ints, follows, whole⟩ bid tid active k within
    have heads : ∀ element : call.Element, 16 ∣ element.2.val →
        call.loadPlace element.1 (element.2 / 16) = some (call.storeIndex element : Int) := fun element head =>
      (loadPlace_head accepts element (Nat.mul_div_cancel' head).symm).mpr (ints element head)
    obtain ⟨element, row, column, place, here, stored⟩ := places.mpr ⟨heads, fun element next row column inner =>
      (storeIndex_succ element next row column).mpr (follows element next row column inner)⟩ bid tid active k within
    refine ⟨element, row, column, place, here, stored, ?_⟩
    rw [stored]
    exact_mod_cast stored_within_iff.mpr whole element

end Loads

section Unpacked

variable {call : GemmCall} {Value : Type} {memory : Nat → Value}

theorem in_block_iff (tile : 0 < size) :
    index * size ≤ position ∧ position < (index + 1) * size ↔ position / size = index := by
  rw [Nat.div_eq_iff tile, Nat.add_mul, Nat.one_mul]
  omega

/-- The block of a tile holds what the epilogue stored of it. -/
theorem copyTile_get (element : call.Element) (row : element.1.val / call.tile_m = tr)
    (column : element.2.val / call.tile_n = tc) :
    call.copyTile (call.packedView memory) out tr tc (call.RA (call.tileOf element)) element.1 element.2 =
      memory (call.storeIndex element) := by
  have rows := (in_block_iff call.tile_m_positive).mpr row
  have columns := (in_block_iff call.tile_n_positive).mpr column
  have down : element.1.val - tr * call.tile_m = element.1.val % call.tile_m := by
    rw [← row, Nat.mul_comm, Nat.mod_eq_sub_mul_div]
  have right : element.2.val - tc * call.tile_n = element.2.val % call.tile_n := by
    rw [← column, Nat.mul_comm, Nat.mod_eq_sub_mul_div]
  rw [copyTile, if_pos ⟨rows, columns⟩, down, right, storeIndex_eq]
  rfl

theorem copyTile_other (D out : Nat → Nat → Value) (elsewhere : (row / call.tile_m, column / call.tile_n) ≠ (tr, tc)) :
    call.copyTile D out tr tc packed row column = out row column := by
  refine if_neg fun inside => elsewhere ?_
  rw [in_block_iff call.tile_m_positive, in_block_iff call.tile_n_positive] at inside
  exact Prod.ext inside.1 inside.2

/-- No slice of a packed tile is cut short. -/
theorem slice_fits (tile : call.Tile) : (tile.val / call.rLDN + 1) * call.tile_m ≤ call.packedRows ∧
    (tile.val % call.rLDN + 1) * call.tile_n ≤ call.packedCols := by
  have positive := call.rLDN_positive
  refine ⟨Nat.mul_le_mul_right _ ?_, Nat.mul_le_mul_right _ (Nat.mod_lt _ positive)⟩
  rw [Nat.le_div_iff_mul_le positive, Nat.add_mul, Nat.one_mul]
  have rounded := Nat.div_mul_le_self tile.val call.rLDN
  have within := tile.isLt
  omega

/-- Unpacking keeps what is right already and makes every listed tile right. -/
theorem unpackTiles_stored (memory : Nat → Value) (tiles : List (Nat × Nat))
    (listed : ∀ tile ∈ tiles, tile.1 < call.M / call.tile_m ∧ tile.2 < call.N / call.tile_n) (out : Nat → Nat → Value) :
    ∃ logical, call.unpackTiles (call.packedView memory) tiles out = some logical ∧ ∀ element : call.Element,
      (element.1.val / call.tile_m, element.2.val / call.tile_n) ∈ tiles ∨
        out element.1 element.2 = memory (call.storeIndex element) →
      logical element.1 element.2 = memory (call.storeIndex element) := by
  induction tiles generalizing out with
  | nil => exact ⟨out, rfl, fun element right => right.resolve_left List.not_mem_nil⟩
  | cons tile rest ih =>
    obtain ⟨tr, tc⟩ := tile
    obtain ⟨above, left⟩ := listed _ List.mem_cons_self
    have inside : tr * (call.N / call.tile_n) + tc < call.cSEG.sum := by
      rw [call.tile_num]
      exact flat_lt above left
    have entry : call.entryOf (tr * (call.N / call.tile_n) + tc : Nat) = some (call.RA ⟨_, inside⟩).val :=
      entryOf_tile ⟨_, inside⟩
    obtain ⟨logical, copied, right⟩ := ih (fun other member => listed other (List.mem_cons_of_mem _ member))
      (call.copyTile (call.packedView memory) out tr tc (call.RA ⟨_, inside⟩))
    refine ⟨logical, ?_, fun element known => right element ?_⟩
    · rw [unpackTiles, entry, Option.bind_eq_bind, Option.bind_some, if_pos (slice_fits _)]
      exact copied
    · by_cases here : (element.1.val / call.tile_m, element.2.val / call.tile_n) = (tr, tc)
      · obtain ⟨row, column⟩ := Prod.mk.inj here
        have tile : call.tileOf element = ⟨_, inside⟩ := by
          refine Fin.ext ?_
          change call.logicalTile (element.1 / call.tile_m) (element.2 / call.tile_n) = _
          rw [row, column]
          rfl
        exact .inr (tile ▸ copyTile_get element row column)
      · rw [copyTile_other _ _ here]
        exact known.imp_left fun member => (List.mem_cons.mp member).resolve_left here

/-- Whatever the packed width, unpacking finds the logical matrix. -/
theorem unpack_stored (memory : Nat → Value) (out : Nat → Nat → Value) : ∃ logical,
    call.unpack (call.packedView memory) out = some logical ∧
      ∀ element : call.Element, logical element.1 element.2 = memory (call.storeIndex element) := by
  have listed : ∀ tile ∈ List.range (call.M / call.tile_m) ×ˢ List.range (call.N / call.tile_n),
      tile.1 < call.M / call.tile_m ∧ tile.2 < call.N / call.tile_n := fun tile member =>
    (List.mem_product.mp member).imp List.mem_range.mp List.mem_range.mp
  obtain ⟨logical, unpacked, right⟩ := unpackTiles_stored memory _ listed out
  refine ⟨logical, unpacked, fun element => right element (.inl (List.mem_product.mpr ⟨?_, ?_⟩))⟩
  · exact List.mem_range.mpr (Nat.div_lt_div_of_lt_of_dvd call.rows element.1.isLt)
  · exact List.mem_range.mpr (Nat.div_lt_div_of_lt_of_dvd call.columns element.2.isLt)

end Unpacked

section Agreement

/-- Two tiles of eight columns, stored one below the other. -/
def narrowTiles : GemmCall where
  cSEG := [2]
  RA := Equiv.refl _
  expected _ := 1
  positive _ := le_refl 1
  M := 16
  N := 16
  tile_m := 16
  tile_n := 8
  rLDN := 1
  tile_m_positive := by decide
  tile_n_positive := by decide
  rLDN_positive := by decide
  rLDN_int := by decide
  rows := by decide
  columns := by decide
  tile_num := by decide
  segments := by decide

theorem narrowTiles_misread : narrowTiles.NormAccepts ∧ ¬ narrowTiles.ReadsBack := by
  have accepts : narrowTiles.NormAccepts := ⟨by decide, by decide, by decide⟩
  refine ⟨accepts, fun readsBack => ?_⟩
  have fits := (loads_stored_iff accepts).mp readsBack.loads
  have beside := fits.follows ((0 : Fin 16), (7 : Fin 16)) ((0 : Fin 16), (8 : Fin 16)) rfl rfl (by decide) (by decide)
  exact absurd beside.2 (by decide)

/-- The kernel and the tool read the logical matrix back exactly when no load crosses tiles stored apart. -/
theorem reorderRmsnorm_readsBack_iff (call : GemmCall) (accepts : call.NormAccepts) :
    call.ReadsBack ↔ call.LoadsFit := by
  rw [← loads_stored_iff accepts]
  exact ⟨fun readsBack => readsBack.loads, fun loads => ⟨loads, fun _ => unpack_stored⟩⟩

/-- Two tiles as wide as a load, stored in reverse order. -/
def wideTiles : GemmCall where
  cSEG := [2]
  RA := Fin.revPerm
  expected _ := 1
  positive _ := le_refl 1
  M := 16
  N := 32
  tile_m := 16
  tile_n := 16
  rLDN := 1
  tile_m_positive := by decide
  tile_n_positive := by decide
  rLDN_positive := by decide
  rLDN_int := by decide
  rows := by decide
  columns := by decide
  tile_num := by decide
  segments := by decide

theorem reorderRmsnorm_readsBack_wideTiles : wideTiles.ReadsBack := by
  refine (reorderRmsnorm_readsBack_iff wideTiles ⟨by decide, by decide, by decide⟩).mpr ⟨?_, ?_, ?_⟩
  · intro element _
    have packed : (wideTiles.RA (wideTiles.tileOf element)).val < 2 := (wideTiles.RA (wideTiles.tileOf element)).isLt
    simp only [wideTiles] at packed ⊢
    omega
  · exact fun _ _ _ _ inside across => absurd across inside
  · exact .inr (one_dvd _)

end Agreement

end GemmCall

end Ooverlap.Overlap
