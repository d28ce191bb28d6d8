import Ooverlap.Overlap.Signal
import Ooverlap.Support.RowMajor

/-! Where the epilogue stores the tiles of the GEMM, against the ranges the host all-reduces. -/

namespace Ooverlap.Overlap

open Blocks RowMajor

/-- Flat place that the epilogue's `store` gives an element of a packed tile. -/
def packedPlace (packedTileCols tile_m tile_n packedTile row column : Nat) : Nat :=
  let packedCtaM := packedTile / packedTileCols
  let packedCtaN := packedTile - packedCtaM * packedTileCols
  (packedCtaM * tile_m + row) * (packedTileCols * tile_n) + (packedCtaN * tile_n + column)

/-- A call of `GemmAllReduceOverlap` that passes the checks of the host. The epilogue gets `rLDN` as an `int`, and no
`C` is as large as the check asks for a wider one. -/
structure GemmCall extends SignalPlan where
  M : Nat
  N : Nat
  tile_m : Nat
  tile_n : Nat
  rLDN : Nat
  tile_m_positive : 0 < tile_m
  tile_n_positive : 0 < tile_n
  rLDN_positive : 0 < rLDN
  rLDN_int : rLDN < 2 ^ 31
  rows : tile_m ∣ M
  columns : tile_n ∣ N
  tile_num : cSEG.sum = M / tile_m * (N / tile_n)
  segments : cSEG ≠ []

namespace GemmCall

variable (call : GemmCall)

def originalTileCols : Nat :=
  call.N / call.tile_n

def logicalTile (ctaM ctaN : Nat) : Nat :=
  ctaM * call.originalTileCols + ctaN

/-- A row and a column of the GEMM's output. -/
abbrev Element : Type := Fin call.M × Fin call.N

variable {call} in
theorem logicalTile_lt (element : call.Element) :
    call.logicalTile (element.1 / call.tile_m) (element.2 / call.tile_n) < call.cSEG.sum := by
  have row : element.1.val / call.tile_m < call.M / call.tile_m :=
    Nat.div_lt_div_of_lt_of_dvd call.rows element.1.isLt
  have column : element.2.val / call.tile_n < call.N / call.tile_n :=
    Nat.div_lt_div_of_lt_of_dvd call.columns element.2.isLt
  rw [call.tile_num]
  exact flat_lt row column

def tileOf (element : call.Element) : call.Tile :=
  ⟨call.logicalTile (element.1 / call.tile_m) (element.2 / call.tile_n), logicalTile_lt element⟩

def packedIndex (packedTile row column : Nat) : Nat :=
  packedPlace call.rLDN call.tile_m call.tile_n packedTile row column

/-- `store` of the reorder epilogue. -/
def storeIndex (element : call.Element) : Nat :=
  call.packedIndex (call.RA (call.tileOf element)) (element.1 % call.tile_m) (element.2 % call.tile_n)

def elemsPerTile : Nat :=
  call.tile_m * call.tile_n

/-- Flat ranges, as start and length, that the host's loop all-reduces after its waits. -/
def commRanges (elemsPerTile : Nat) : Nat → List Nat → List (Nat × Nat)
  | _, [] => []
  | accAddr, thisSeg :: rest =>
    (accAddr, elemsPerTile * thisSeg) :: commRanges elemsPerTile (accAddr + elemsPerTile * thisSeg) rest

/-- The range reduced for a segment contains a flat index. -/
def Reduced (seg index : Nat) : Prop :=
  ∃ range, (commRanges call.elemsPerTile 0 call.cSEG)[seg]? = some range ∧ range.1 ≤ index ∧ index < range.1 + range.2

/-- The ranges of the host and the tiles of the epilogue agree, and what follows for the stream's reductions. -/
structure PackedAgrees : Prop where
  ranges : ∀ seg < call.cSEG.length, ∀ index,
    call.Reduced seg index ↔ ∃ element, call.InSegment seg (call.tileOf element) ∧ call.storeIndex element = index
  once : ∀ element, ∃! seg, call.Reduced seg (call.storeIndex element)
  finished : ∀ epilogue (state : SignalState call.toSignalPlan), SignalReachable call.toSignalPlan epilogue state →
    ∀ seg < state.waiting, ∀ element, call.Reduced seg (call.storeIndex element) →
      state.delivered (call.tileOf element) = call.expected (call.tileOf element)

/-- Whole rows of packed tiles lie in every segment, unless a tile is a single row. -/
def Aligned : Prop :=
  call.tile_m = 1 ∨ ∀ seg ≤ call.cSEG.length, call.rLDN ∣ start call.cSEG seg

end GemmCall

section Ranges

variable {call : GemmCall}

theorem commRanges_get (elemsPerTile : Nat) (found : cSEG[seg]? = some thisSeg) (accAddr : Nat) :
    (GemmCall.commRanges elemsPerTile accAddr cSEG)[seg]? =
      some (accAddr + elemsPerTile * start cSEG seg, elemsPerTile * thisSeg) := by
  induction cSEG generalizing seg accAddr with
  | nil => cases found
  | cons first rest ih =>
    cases seg with
    | zero =>
      obtain rfl := Option.some.inj found
      rw [GemmCall.commRanges, start_zero, Nat.mul_zero, Nat.add_zero, List.getElem?_cons_zero]
    | succ seg =>
      have shifted : start (first :: rest) (seg + 1) = first + start rest seg := by
        rw [start, List.take_succ_cons, List.sum_cons, start]
      rw [GemmCall.commRanges, List.getElem?_cons_succ, ih found, shifted, Nat.mul_add, Nat.add_assoc]

/-- The range of a segment, by the first tiles of this and of the next one. -/
theorem reduced_iff (within : seg < call.cSEG.length) : call.Reduced seg index ↔
    call.elemsPerTile * start call.cSEG seg ≤ index ∧ index < call.elemsPerTile * start call.cSEG (seg + 1) := by
  have found : call.cSEG[seg]? = some call.cSEG[seg] := List.getElem?_eq_getElem within
  have range := commRanges_get call.elemsPerTile found 0
  rw [GemmCall.Reduced, range, start_succ found, Nat.mul_add, Nat.zero_add]
  constructor
  · rintro ⟨_, same, inside⟩
    obtain rfl := Option.some.inj same
    exact inside
  · exact fun inside => ⟨_, rfl, inside⟩

theorem GemmCall.Reduced.within (reduced : call.Reduced seg index) : seg < call.cSEG.length := by
  obtain ⟨range, found, _⟩ := reduced
  by_contra past
  have empty : ∀ cSEG accAddr, (GemmCall.commRanges call.elemsPerTile accAddr cSEG).length = cSEG.length := by
    intro cSEG
    induction cSEG with
    | nil => exact fun _ => rfl
    | cons first rest ih => exact fun accAddr => congrArg Nat.succ (ih _)
  have listed := (List.getElem?_eq_some_iff.mp found).1
  rw [empty] at listed
  exact past listed

end Ranges

section Agreement

variable {call : GemmCall}

/-- The packed position of a tile, as its row and column among packed tiles. -/
theorem packedIndex_flat (packedTile row column : Nat) : call.packedIndex packedTile row column =
    flat (call.rLDN * call.tile_n) (flat call.tile_m (packedTile / call.rLDN) row)
      (flat call.tile_n (packedTile % call.rLDN) column) := by
  have offset : packedTile - packedTile / call.rLDN * call.rLDN = packedTile % call.rLDN := by
    rw [Nat.mul_comm, ← Nat.mod_eq_sub_mul_div]
  rw [GemmCall.packedIndex, packedPlace, offset]
  rfl

/-- A cut between packed tiles that starts a row of them is a cut between the elements stored before and after. -/
theorem cut_iff (packedTile : Nat) (aligned : call.tile_m = 1 ∨ call.rLDN ∣ cut) (row : r < call.tile_m)
    (column : c < call.tile_n) :
    call.elemsPerTile * cut ≤ call.packedIndex packedTile r c ↔ cut ≤ packedTile := by
  have place := flat_div_mod call.rLDN packedTile
  have inside := Nat.mod_lt packedTile call.rLDN_positive
  have across : flat call.tile_n (packedTile % call.rLDN) c < call.rLDN * call.tile_n := flat_lt inside column
  rw [packedIndex_flat, GemmCall.elemsPerTile]
  rcases aligned with single | ⟨k, rfl⟩
  · have first : r = 0 := by omega
    have straight : flat call.tile_m (packedTile / call.rLDN) r = packedTile / call.rLDN := by
      rw [single, first, flat, Nat.mul_one, Nat.add_zero]
    rw [straight, single, Nat.one_mul, flat_flat, place, Nat.mul_comm, le_flat_iff column]
  · have tiles : call.tile_m * call.tile_n * (call.rLDN * k) = k * call.tile_m * (call.rLDN * call.tile_n) := by ring
    rw [tiles, le_flat_iff across, le_flat_iff row]
    conv_rhs => rw [← place, Nat.mul_comm call.rLDN k, le_flat_iff inside]

/-- The elements of a tile are as many as its rows and columns. -/
theorem exists_element (tile : call.Tile) (row : r < call.tile_m) (column : c < call.tile_n) :
    ∃ element, call.tileOf element = tile ∧ element.1.val % call.tile_m = r ∧ element.2.val % call.tile_n = c := by
  have below : tile.val < call.M / call.tile_m * (call.N / call.tile_n) := call.tile_num ▸ tile.isLt
  have some : 0 < call.N / call.tile_n := Nat.pos_of_mul_pos_left (Nat.zero_lt_of_lt below)
  have ctaM : tile.val / (call.N / call.tile_n) < call.M / call.tile_m :=
    (Nat.div_lt_iff_lt_mul some).mpr below
  have ctaN : tile.val % (call.N / call.tile_n) < call.N / call.tile_n := Nat.mod_lt _ some
  have m := flat_lt ctaM row
  have n := flat_lt ctaN column
  rw [Nat.div_mul_cancel call.rows] at m
  rw [Nat.div_mul_cancel call.columns] at n
  refine ⟨⟨⟨_, m⟩, ⟨_, n⟩⟩, ?_, flat_mod row, flat_mod column⟩
  refine Fin.ext ?_
  simp only [GemmCall.tileOf, flat_div row, flat_div column]
  exact flat_div_mod _ _

theorem GemmCall.Aligned.cut (aligned : call.Aligned) (within : seg ≤ call.cSEG.length) :
    call.tile_m = 1 ∨ call.rLDN ∣ start call.cSEG seg :=
  aligned.imp_right fun divides => divides seg within

/-- An element lies in the range of the segment that its tile is packed in, and in no other. -/
theorem GemmCall.Aligned.reduced_iff (aligned : call.Aligned) (within : seg < call.cSEG.length) (row : r < call.tile_m)
    (column : c < call.tile_n) : call.Reduced seg (call.packedIndex packedTile r c) ↔ Inside call.cSEG seg packedTile := by
  have first := cut_iff packedTile (aligned.cut (Nat.le_of_lt within)) row column
  have next := cut_iff packedTile (aligned.cut (Nat.succ_le_of_lt within)) row column
  rw [Overlap.reduced_iff within, Inside, first, ← not_le, ← not_le]
  exact and_congr_right fun _ => not_congr next

theorem GemmCall.Aligned.store_iff (aligned : call.Aligned) (within : seg < call.cSEG.length) (element : call.Element) :
    call.Reduced seg (call.storeIndex element) ↔ call.InSegment seg (call.tileOf element) :=
  aligned.reduced_iff within (Nat.mod_lt _ call.tile_m_positive) (Nat.mod_lt _ call.tile_n_positive)

theorem GemmCall.Aligned.agrees (aligned : call.Aligned) : call.PackedAgrees where
  ranges seg within position := by
    constructor
    · intro reduced
      have width : 0 < call.rLDN * call.tile_n := Nat.mul_pos call.rLDN_positive call.tile_n_positive
      have columns : position % (call.rLDN * call.tile_n) / call.tile_n < call.rLDN :=
        (Nat.div_lt_iff_lt_mul call.tile_n_positive).mpr (Nat.mod_lt _ width)
      let packedTile := flat call.rLDN (position / (call.rLDN * call.tile_n) / call.tile_m)
        (position % (call.rLDN * call.tile_n) / call.tile_n)
      have row := Nat.mod_lt (position / (call.rLDN * call.tile_n)) call.tile_m_positive
      have column := Nat.mod_lt (position % (call.rLDN * call.tile_n)) call.tile_n_positive
      have stored : call.packedIndex packedTile (position / (call.rLDN * call.tile_n) % call.tile_m)
          (position % (call.rLDN * call.tile_n) % call.tile_n) = position := by
        rw [packedIndex_flat, flat_div columns, flat_mod columns, flat_div_mod, flat_div_mod, flat_div_mod]
      have inside : Inside call.cSEG seg packedTile :=
        (aligned.reduced_iff within row column).mp (stored.symm ▸ reduced)
      obtain ⟨element, tile, r, c⟩ := exists_element (call.RA.symm ⟨packedTile, inside.lt_sum⟩) row column
      have packed : call.RA (call.tileOf element) = ⟨packedTile, inside.lt_sum⟩ := by
        rw [tile, Equiv.apply_symm_apply]
      refine ⟨element, ?_, ?_⟩
      · rw [SignalPlan.InSegment, packed]
        exact inside
      · rw [GemmCall.storeIndex, packed, r, c]
        exact stored
    · rintro ⟨element, inside, rfl⟩
      exact (aligned.store_iff within element).mpr inside
  once element := by
    obtain ⟨seg, inside⟩ := exists_inside (call.RA (call.tileOf element)).isLt
    refine ⟨seg, (aligned.store_iff inside.lt_length element).mpr inside, fun other reduced => ?_⟩
    exact ((aligned.store_iff reduced.within element).mp reduced).unique inside
  finished epilogue state reached seg waited element reduced := by
    have counting := counting_of_reachable reached
    have inside := (aligned.store_iff reduced.within element).mp reduced
    exact (counting.status _).inside ((counting.passed seg waited).2 _ inside)

/-- The last row of a tile that does not end a row of packed tiles is stored past the tile's own share. -/
theorem stored_past (several : call.tile_m ≠ 1) (inner : ¬ call.rLDN ∣ packedTile + 1) :
    call.elemsPerTile * (packedTile + 1) ≤ call.packedIndex packedTile (call.tile_m - 1) 0 := by
  have inside := Nat.mod_lt packedTile call.rLDN_positive
  have place := flat_div_mod call.rLDN packedTile
  have short : packedTile % call.rLDN + 1 < call.rLDN := by
    refine Nat.lt_of_le_of_ne inside fun full => inner ⟨packedTile / call.rLDN + 1, ?_⟩
    calc packedTile + 1 = packedTile / call.rLDN * call.rLDN + (packedTile % call.rLDN + 1) := by
          rw [← Nat.add_assoc]
          exact congrArg (· + 1) place.symm
      _ = call.rLDN * (packedTile / call.rLDN + 1) := by rw [full]; ring
  obtain ⟨rows, tall⟩ : ∃ rows, call.tile_m = rows + 2 :=
    ⟨call.tile_m - 2, by have positive := call.tile_m_positive; omega⟩
  obtain ⟨right, wide⟩ : ∃ right, call.rLDN = packedTile % call.rLDN + 2 + right :=
    ⟨call.rLDN - (packedTile % call.rLDN + 2), by omega⟩
  rw [packedIndex_flat, GemmCall.elemsPerTile]
  generalize packedTile / call.rLDN = q at place
  generalize packedTile % call.rLDN = m at place wide
  rw [← place, tall, wide]
  calc (rows + 2) * call.tile_n * (flat (m + 2 + right) q m + 1)
      ≤ (rows + 2) * call.tile_n * (flat (m + 2 + right) q m + 1) + call.tile_n * (rows + right * (rows + 1)) :=
        Nat.le_add_right _ _
    _ = flat ((m + 2 + right) * call.tile_n) (flat (rows + 2) q (rows + 2 - 1)) (flat call.tile_n m 0) := by
        rw [show rows + 2 - 1 = rows + 1 from rfl]
        unfold flat
        ring

theorem GemmCall.PackedAgrees.aligned (agrees : call.PackedAgrees) : call.Aligned := by
  refine Classical.or_iff_not_imp_left.mpr fun several seg => ?_
  induction seg with
  | zero => exact fun _ => Nat.dvd_zero _
  | succ seg ih =>
    intro within
    have before := ih (Nat.le_of_succ_le within)
    by_contra inner
    have grows : start call.cSEG seg < start call.cSEG (seg + 1) :=
      Nat.lt_of_le_of_ne (start_monotone call.cSEG (Nat.le_succ seg)) fun same => inner (same ▸ before)
    obtain ⟨packedTile, last⟩ : ∃ packedTile, start call.cSEG (seg + 1) = packedTile + 1 :=
      ⟨start call.cSEG (seg + 1) - 1, by omega⟩
    have inside : Inside call.cSEG seg packedTile := ⟨by omega, by omega⟩
    have row : call.tile_m - 1 < call.tile_m := Nat.sub_lt call.tile_m_positive Nat.zero_lt_one
    obtain ⟨element, tile, r, c⟩ := exists_element (call.RA.symm ⟨packedTile, inside.lt_sum⟩) row call.tile_n_positive
    have packed : call.RA (call.tileOf element) = ⟨packedTile, inside.lt_sum⟩ := by
      rw [tile, Equiv.apply_symm_apply]
    have segment : call.InSegment seg (call.tileOf element) := by
      rw [SignalPlan.InSegment, packed]
      exact inside
    have reduced := ((reduced_iff within).mp ((agrees.ranges seg within _).mpr ⟨element, segment, rfl⟩)).2
    rw [GemmCall.storeIndex, packed, r, c, last] at reduced
    exact absurd (stored_past several (last ▸ inner)) (not_le.mpr reduced)

/-- One packed tile in a row, which is what the tuner asks for, suits every choice of segments. -/
theorem GemmCall.aligned_of_single (single : call.rLDN = 1) : call.Aligned :=
  .inr fun _ _ => single ▸ one_dvd _

/-- Two tiles side by side, each a segment of its own. -/
def sideBySide : GemmCall where
  cSEG := [1, 1]
  RA := Equiv.refl _
  expected _ := 1
  positive _ := le_refl 1
  M := 128
  N := 256
  tile_m := 128
  tile_n := 128
  rLDN := 2
  tile_m_positive := by decide
  tile_n_positive := by decide
  rLDN_positive := by decide
  rLDN_int := by decide
  rows := by decide
  columns := by decide
  tile_num := by decide
  segments := by decide

theorem sideBySide_disagrees : ¬ sideBySide.PackedAgrees := by
  intro agrees
  rcases agrees.aligned with single | divides
  · exact absurd single (by decide)
  · exact absurd (divides 1 (by decide)) (by decide)

/-- The packed output and the segment ranges agree exactly when segments hold whole rows of packed tiles. -/
theorem gemmAllReduceOverlap_agrees_iff (call : GemmCall) : call.PackedAgrees ↔ call.Aligned :=
  ⟨GemmCall.PackedAgrees.aligned, GemmCall.Aligned.agrees⟩

end Agreement

end Ooverlap.Overlap
