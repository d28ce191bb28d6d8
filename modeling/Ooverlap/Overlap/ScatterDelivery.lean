import Mathlib.Algebra.BigOperators.Group.Finset.Basic
import Mathlib.Algebra.BigOperators.Group.Finset.Piecewise
import Ooverlap.Overlap.RowRemap

/-! The reduce-scatter of the remapped segments, and where every micro-row ends up. -/

namespace Ooverlap.Overlap

open Blocks RowMajor Finset

def kTileM : Nat := 128
def kTileN : Nat := 128

/-- A call of `GemmReduceScatterOverlap` with segments of the right sum, on a communicator of `my_size` ranks. -/
structure ScatterCall where
  M : Nat
  N : Nat
  cSEG : List Nat
  my_size : Nat
  rows : kTileM ∣ M
  columns : kTileN ∣ N
  tile_num : cSEG.sum = M / kTileM * (N / kTileN)
  segments : cSEG ≠ []
  positive : ∀ thisSeg ∈ cSEG, 0 < thisSeg
  ranks : 0 < my_size

/-- What the loop hands to the remap kernel and to NCCL for one segment. -/
structure SegmentCall where
  acc_addr : Nat
  comm_size : Nat
  row_begin : Nat
  row_count : Nat
  deriving DecidableEq, Repr

/-- An `int`, when there is one. -/
def int32 (value : Nat) : Option Nat :=
  if value < 2 ^ 31 then some value else none

def scatterTiles (M N : Nat) : Nat :=
  M / kTileM * (N / kTileN)

/-- The loop over the segments; `none` is a division by zero or a product or sum that is no `int`. -/
def segmentCalls (M N : Nat) : Nat → List Nat → Option (List SegmentCall)
  | _, [] => some []
  | accAddr, thisSeg :: rest =>
    if scatterTiles M N = 0 then none
    else do
      let elements ← int32 (M * N)
      let commSize ← int32 (elements / scatterTiles M N * thisSeg)
      let rowCount ← int32 (thisSeg * kTileM)
      let next ← int32 (accAddr + commSize)
      let later ← segmentCalls M N next rest
      return { acc_addr := accAddr
               comm_size := commSize
               row_begin := accAddr / kTileN
               row_count := rowCount } :: later

/-- Contents of the ranks' buffers: the GEMM's output, the remapped copy and the destination. -/
structure Buffers (Value : Type) where
  c : Nat → Nat → Value
  tmp : Nat → Nat → Value
  d : Nat → Nat → Value

namespace ScatterCall

variable (call : ScatterCall)

/-- Every rank gets the sum of its share of the send buffers. -/
def ncclReduceScatter [AddCommMonoid Value] (ranks : Nat) (send : Nat → Nat → Value) (sendAt count : Nat)
    (recv : Nat → Nat → Value) (recvAt : Nat) : Nat → Nat → Value :=
  fun rank place =>
    if recvAt ≤ place ∧ place < recvAt + count then
      ∑ sender ∈ range ranks, send sender (sendAt + rank * count + (place - recvAt))
    else recv rank place

variable {Value : Type} [AddCommMonoid Value]

def runSegment (RE : Nat → Nat) (buffers : Buffers Value) (segment : SegmentCall) : Buffers Value :=
  let tmp := fun rank => scatterRowRemap RE segment.row_begin segment.row_count kTileN segment.acc_addr
    (buffers.c rank) (buffers.tmp rank)
  { buffers with
    tmp := tmp
    d := ncclReduceScatter call.my_size tmp segment.acc_addr (segment.comm_size / call.my_size) buffers.d
      (segment.acc_addr / call.my_size) }

/-- The call after its GEMM, with the row remap array built for the same segments and ranks. -/
def gemmReduceScatterOverlap (RE : Nat → Nat) (buffers : Buffers Value) : Option (Buffers Value) :=
  if call.my_size = 1 then
    some { buffers with d := fun rank place => if place < call.M * call.N then buffers.c rank place else buffers.d rank place }
  else (segmentCalls call.M call.N 0 call.cSEG).map fun segments => segments.foldl (call.runSegment RE) buffers

/-- Whatever the buffers hold, a rank ends up with the sum over all ranks of an element at a place of its destination. -/
def SummedAt (element rank place : Nat) : Prop :=
  ∀ (Value : Type) [AddCommMonoid Value] (remap : Nat → Nat) (buffers : Buffers Value), ∃ after,
    call.gemmReduceScatterOverlap (generateRowRemapArray kTileM call.my_size call.cSEG remap) buffers = some after ∧
      after.d rank place = ∑ sender ∈ range call.my_size, buffers.c sender element

def microRow (element : Nat) : Nat :=
  element / kTileN

/-- Every element of every micro-row reaches one place of one rank; the divisions drop nothing; ranges follow each other. -/
structure Delivered : Prop where
  once : ∀ element < call.M * call.N, ∃ place < call.M * call.N / call.my_size,
    call.SummedAt element (microRow element % call.my_size) place ∧
      ∀ rank < call.my_size, ∀ other, call.SummedAt element rank other →
        rank = microRow element % call.my_size ∧ other = place
  kept : call.my_size ≠ 1 → ∀ segments, segmentCalls call.M call.N 0 call.cSEG = some segments → ∀ segment ∈ segments,
    call.my_size * (segment.comm_size / call.my_size) = segment.comm_size
  contiguous : ∀ segments, segmentCalls call.M call.N 0 call.cSEG = some segments → ∀ seg first next,
    segments[seg]? = some first → segments[seg + 1]? = some next →
      next.acc_addr / call.my_size = first.acc_addr / call.my_size + first.comm_size / call.my_size

/-- Every segment's micro-rows divide evenly among the ranks, and the output's size fits an `int`. -/
def Divides : Prop :=
  call.my_size = 1 ∨ (call.M * call.N < 2 ^ 31 ∧ ∀ thisSeg ∈ call.cSEG, call.my_size ∣ thisSeg * kTileM)

end ScatterCall

section Segments

variable {call : ScatterCall}

/-- Elements of a tile. -/
abbrev tileElements : Nat := kTileM * kTileN

/-- The sizes of a call whose tiles fill its output. -/
theorem elements_eq (rows : kTileM ∣ M) (columns : kTileN ∣ N) : M * N = tileElements * scatterTiles M N := by
  obtain ⟨tileRows, rfl⟩ := rows
  obtain ⟨tileColumns, rfl⟩ := columns
  rw [scatterTiles, Nat.mul_div_cancel_left _ (by decide), Nat.mul_div_cancel_left _ (by decide)]
  ring

theorem ScatterCall.elements (call : ScatterCall) : call.M * call.N = tileElements * call.cSEG.sum := by
  rw [elements_eq call.rows call.columns, call.tile_num]
  rfl

theorem ScatterCall.tiles_positive (call : ScatterCall) : 0 < call.cSEG.sum := by
  cases listed : call.cSEG with
  | nil => exact absurd listed call.segments
  | cons first rest =>
    have positive := call.positive first (listed ▸ List.mem_cons_self)
    rw [List.sum_cons]
    exact Nat.add_pos_left positive _

/-- The segment calls, given that the product of the sizes is an `int`. -/
def segmentCallOf (accTiles thisSeg : Nat) : SegmentCall where
  acc_addr := tileElements * accTiles
  comm_size := tileElements * thisSeg
  row_begin := accTiles * kTileM
  row_count := thisSeg * kTileM

def segmentCallsOf : Nat → List Nat → List SegmentCall
  | _, [] => []
  | accTiles, thisSeg :: rest => segmentCallOf accTiles thisSeg :: segmentCallsOf (accTiles + thisSeg) rest

theorem int32_eq_some : int32 value = some result ↔ value < 2 ^ 31 ∧ value = result := by
  unfold int32
  split
  next fits =>
    rw [Option.some.injEq]
    exact (and_iff_right fits).symm
  next beyond =>
    constructor
    · intro impossible
      cases impossible
    · exact fun both => absurd both.1 beyond

/-- One round of the loop, by what its arithmetic needs. -/
theorem segmentCalls_cons (rows : kTileM ∣ M) (columns : kTileN ∣ N) (accTiles thisSeg : Nat) (rest : List Nat) :
    segmentCalls M N (tileElements * accTiles) (thisSeg :: rest) = some calls ↔
      scatterTiles M N ≠ 0 ∧ M * N < 2 ^ 31 ∧ tileElements * (accTiles + thisSeg) < 2 ^ 31 ∧ ∃ later,
        segmentCalls M N (tileElements * (accTiles + thisSeg)) rest = some later ∧
          calls = segmentCallOf accTiles thisSeg :: later := by
  rw [segmentCalls]
  split
  next none => simp [none]
  next some =>
    have share : M * N / scatterTiles M N = tileElements := by
      rw [elements_eq rows columns, Nat.mul_div_cancel _ (Nat.pos_of_ne_zero some)]
    have rowBegin : tileElements * accTiles / kTileN = accTiles * kTileM := by
      rw [Nat.mul_assoc, Nat.mul_left_comm, Nat.mul_div_cancel_left _ (by decide), Nat.mul_comm]
    simp only [Option.bind_eq_bind, Option.bind_eq_some_iff, int32_eq_some, Option.pure_def, Option.some.injEq]
    constructor
    · rintro ⟨_, ⟨product, rfl⟩, _, ⟨_, rfl⟩, _, ⟨_, rfl⟩, _, ⟨next, rfl⟩, later, listed, rfl⟩
      rw [share, ← Nat.mul_add] at listed next
      refine ⟨some, product, next, later, listed, ?_⟩
      rw [share, rowBegin]
      rfl
    · rintro ⟨_, product, next, later, listed, rfl⟩
      have size : tileElements * thisSeg < 2 ^ 31 :=
        Nat.lt_of_le_of_lt (Nat.mul_le_mul_left _ (Nat.le_add_left _ _)) next
      have height : thisSeg * kTileM < 2 ^ 31 := by
        have wider : thisSeg * kTileM ≤ tileElements * thisSeg := by
          rw [Nat.mul_comm]
          exact Nat.mul_le_mul_right _ (by decide)
        exact Nat.lt_of_le_of_lt wider size
      rw [Nat.mul_add] at next listed
      refine ⟨_, ⟨product, rfl⟩, _, ⟨share.symm ▸ size, rfl⟩, _, ⟨height, rfl⟩, _, ⟨share.symm ▸ next, rfl⟩,
        later, ?_, ?_⟩
      · rw [share]
        exact listed
      · rw [share, rowBegin]
        rfl

/-- The loop runs to its end exactly when its sizes are `int`s, with the calls of every segment. -/
theorem segmentCalls_iff (rows : kTileM ∣ M) (columns : kTileN ∣ N) (accTiles : Nat) (tiles : List Nat)
    (nonempty : tiles ≠ []) : segmentCalls M N (tileElements * accTiles) tiles = some calls ↔
      scatterTiles M N ≠ 0 ∧ M * N < 2 ^ 31 ∧ tileElements * (accTiles + tiles.sum) < 2 ^ 31 ∧
        calls = segmentCallsOf accTiles tiles := by
  induction tiles generalizing accTiles calls with
  | nil => exact absurd rfl nonempty
  | cons thisSeg rest ih =>
    rw [segmentCalls_cons rows columns, List.sum_cons, ← Nat.add_assoc, segmentCallsOf]
    cases rest with
    | nil =>
      simp only [segmentCalls, Option.some.injEq, List.sum_nil, Nat.add_zero, segmentCallsOf]
      refine and_congr_right fun _ => and_congr_right fun _ => and_congr_right fun _ => ?_
      constructor
      · rintro ⟨_, rfl, same⟩
        exact same
      · exact fun same => ⟨_, rfl, same⟩
    | cons second rest =>
      constructor
      · rintro ⟨some, product, _, later, listed, rfl⟩
        obtain ⟨_, _, within, rfl⟩ := (ih _ (List.cons_ne_nil _ _)).mp listed
        exact ⟨some, product, within, rfl⟩
      · rintro ⟨some, product, within, rfl⟩
        have shorter : tileElements * (accTiles + thisSeg) < 2 ^ 31 :=
          Nat.lt_of_le_of_lt (Nat.mul_le_mul_left _ (Nat.le_add_right _ _)) within
        exact ⟨some, product, shorter, _, (ih _ (List.cons_ne_nil _ _)).mpr ⟨some, product, within, rfl⟩, rfl⟩

theorem ScatterCall.segmentCalls_iff : segmentCalls call.M call.N 0 call.cSEG = some calls ↔
    call.M * call.N < 2 ^ 31 ∧ calls = segmentCallsOf 0 call.cSEG := by
  have tiles : scatterTiles call.M call.N ≠ 0 := by
    rw [scatterTiles, ← call.tile_num]
    exact Nat.ne_of_gt call.tiles_positive
  have loop : segmentCalls call.M call.N (tileElements * 0) call.cSEG = some calls ↔ _ :=
    Overlap.segmentCalls_iff call.rows call.columns 0 call.cSEG call.segments
  rw [Nat.mul_zero, Nat.zero_add, ← call.elements, and_iff_right tiles, ← and_assoc, and_self] at loop
  exact loop

theorem segmentCalls_get (found : cSEG[seg]? = some thisSeg) (accTiles : Nat) :
    (segmentCallsOf accTiles cSEG)[seg]? = some (segmentCallOf (accTiles + start cSEG seg) thisSeg) := by
  induction cSEG generalizing seg accTiles with
  | nil => cases found
  | cons first rest ih =>
    cases seg with
    | zero =>
      obtain rfl := Option.some.inj found
      rfl
    | succ seg =>
      have shifted : start (first :: rest) (seg + 1) = first + start rest seg := by
        rw [start, List.take_succ_cons, List.sum_cons, start]
      rw [segmentCallsOf, List.getElem?_cons_succ, ih found, shifted, Nat.add_assoc]

theorem segmentCalls_length (accTiles : Nat) (cSEG : List Nat) : (segmentCallsOf accTiles cSEG).length = cSEG.length := by
  induction cSEG generalizing accTiles with
  | nil => rfl
  | cons first rest ih => exact congrArg Nat.succ (ih _)

end Segments

section Rows

variable {call : ScatterCall}

/-- The row that the remap puts at a position. -/
def ScatterCall.rowAt (call : ScatterCall) (position : Nat) : Nat :=
  (reorderedRowIds kTileM call.my_size 0 call.cSEG).getD position 0

theorem reordered_perm (call : ScatterCall) :
    (reorderedRowIds kTileM call.my_size 0 call.cSEG).Perm (List.range' 0 (call.cSEG.sum * kTileM)) :=
  reorderedRowIds_perm 0

theorem reordered_length (call : ScatterCall) :
    (reorderedRowIds kTileM call.my_size 0 call.cSEG).length = call.cSEG.sum * kTileM := by
  rw [(reordered_perm call).length_eq, List.length_range']

theorem rowAt_get (within : position < call.cSEG.sum * kTileM) :
    (reorderedRowIds kTileM call.my_size 0 call.cSEG)[position]? = some (call.rowAt position) := by
  rw [ScatterCall.rowAt, List.getD_eq_getElem?_getD, List.getElem?_eq_getElem (by rwa [reordered_length]),
    Option.getD_some]

theorem rowAt_lt (within : position < call.cSEG.sum * kTileM) : call.rowAt position < call.cSEG.sum * kTileM := by
  have listed := (reordered_perm call).mem_iff.mp (List.mem_of_getElem? (rowAt_get within))
  simpa using (List.mem_range'_1.mp listed).2

theorem rowAt_injective (first : position < call.cSEG.sum * kTileM) (second : other < call.cSEG.sum * kTileM)
    (same : call.rowAt position = call.rowAt other) : position = other := by
  have distinct : (reorderedRowIds kTileM call.my_size 0 call.cSEG).Nodup :=
    (reordered_perm call).nodup_iff.mpr (List.nodup_range' _)
  obtain ⟨_, here⟩ := List.getElem?_eq_some_iff.mp (rowAt_get first)
  obtain ⟨_, there⟩ := List.getElem?_eq_some_iff.mp (rowAt_get second)
  exact distinct.getElem_inj_iff.mp (here.trans (same.trans there.symm))

theorem exists_position (within : row < call.cSEG.sum * kTileM) :
    ∃ position < call.cSEG.sum * kTileM, call.rowAt position = row := by
  have listed := (reordered_perm call).mem_iff.mpr (List.mem_range'_1.mpr ⟨Nat.zero_le _, by simpa using within⟩)
  obtain ⟨position, found⟩ := List.mem_iff_getElem?.mp listed
  have inside := (List.getElem?_eq_some_iff.mp found).1
  rw [reordered_length] at inside
  exact ⟨position, inside, Option.some.inj ((rowAt_get inside).symm.trans found)⟩

theorem segment_position (found : call.cSEG[seg]? = some thisSeg) (within : position < thisSeg * width) :
    start call.cSEG seg * width + position < call.cSEG.sum * width := by
  have last := start_le_sum call.cSEG (seg + 1)
  rw [start_succ found] at last
  have scaled := Nat.mul_le_mul_right width last
  rw [Nat.add_mul] at scaled
  exact Nat.lt_of_lt_of_le (Nat.add_lt_add_left within _) scaled

/-- Rows of a segment, at the positions of the segment. -/
theorem rowAt_segment (found : call.cSEG[seg]? = some thisSeg) (within : position < thisSeg * kTileM) :
    (sortedRowIds call.my_size (start call.cSEG seg * kTileM) (thisSeg * kTileM))[position]? =
      some (call.rowAt (start call.cSEG seg * kTileM + position)) := by
  have segment : (reorderedRowIds kTileM call.my_size 0 call.cSEG)[start call.cSEG seg * kTileM + position]? =
      (sortedRowIds call.my_size (0 + start call.cSEG seg * kTileM) (thisSeg * kTileM))[position]? :=
    reorderedRowIds_segment found 0 within
  rw [Nat.zero_add] at segment
  rw [← segment, rowAt_get (segment_position found within)]

theorem remaps (found : call.cSEG[seg]? = some thisSeg) (remap : Nat → Nat) :
    Remaps (generateRowRemapArray kTileM call.my_size call.cSEG remap) (start call.cSEG seg * kTileM) (thisSeg * kTileM)
      fun position => call.rowAt (start call.cSEG seg * kTileM + position) where
  inside position within := by
    have listed := (sortedRowIds_perm _ _ _).mem_iff.mp (List.mem_of_getElem? (rowAt_segment found within))
    obtain ⟨above, below⟩ := List.mem_range'_1.mp listed
    exact ⟨above, by omega⟩
  remap position within := generateRowRemapArray_get remap (rowAt_get (segment_position found within))
  onto srcLocalRow within := by
    have listed := (sortedRowIds_perm call.my_size (start call.cSEG seg * kTileM) (thisSeg * kTileM)).mem_iff.mpr
      (List.mem_range'_1.mpr ⟨Nat.le_add_right _ srcLocalRow, Nat.add_lt_add_left within _⟩)
    obtain ⟨position, place⟩ := List.mem_iff_getElem?.mp listed
    have inside := (List.getElem?_eq_some_iff.mp place).1
    rw [sortedRowIds_length] at inside
    exact ⟨position, inside, Option.some.inj ((rowAt_segment found inside).symm.trans place)⟩

end Rows

section Sources

variable {call : ScatterCall}

/-- The element of the GEMM's output that the remap copies to a place of the temporary buffer. -/
def ScatterCall.source (call : ScatterCall) (place : Nat) : Nat :=
  flat kTileN (call.rowAt (place / kTileN)) (place % kTileN)

theorem row_of_place (within : place < call.M * call.N) : place / kTileN < call.cSEG.sum * kTileM := by
  rw [call.elements] at within
  refine (Nat.div_lt_iff_lt_mul (by decide)).mpr (Nat.lt_of_lt_of_eq within ?_)
  ring

theorem column_lt (place : Nat) : place % kTileN < kTileN :=
  Nat.mod_lt _ (by decide)

theorem source_injective (first : place < call.M * call.N) (second : other < call.M * call.N)
    (same : call.source place = call.source other) : place = other := by
  have rows := congrArg (· / kTileN) same
  have columns := congrArg (· % kTileN) same
  simp only [ScatterCall.source, flat_div (column_lt _)] at rows
  simp only [ScatterCall.source, flat_mod (column_lt _)] at columns
  have row := rowAt_injective (row_of_place first) (row_of_place second) rows
  rw [← flat_div_mod kTileN place, row, columns, flat_div_mod]

theorem exists_source (within : element < call.M * call.N) :
    ∃ place < call.M * call.N, call.source place = element := by
  obtain ⟨position, inside, row⟩ := exists_position (row_of_place within)
  refine ⟨flat kTileN position (element % kTileN), ?_, ?_⟩
  · have bounded := flat_lt inside (column_lt element)
    rw [call.elements]
    refine Nat.lt_of_lt_of_eq bounded ?_
    ring
  · rw [ScatterCall.source, flat_div (column_lt element), flat_mod (column_lt element), row, flat_div_mod]

/-- The remap of a segment fills the segment's part of the temporary buffer. -/
theorem scatter_segment {Value : Type} (found : call.cSEG[seg]? = some thisSeg) (remap : Nat → Nat)
    (src dst : Nat → Value) (within : offset < tileElements * thisSeg) :
    scatterRowRemap (generateRowRemapArray kTileM call.my_size call.cSEG remap) (start call.cSEG seg * kTileM)
        (thisSeg * kTileM) kTileN (tileElements * start call.cSEG seg) src dst (tileElements * start call.cSEG seg + offset) =
      src (call.source (tileElements * start call.cSEG seg + offset)) := by
  have size : thisSeg * kTileM * kTileN = tileElements * thisSeg := by ring
  have base : tileElements * start call.cSEG seg = kTileN * (start call.cSEG seg * kTileM) := by ring
  have position : offset / kTileN < thisSeg * kTileM := by
    refine (Nat.div_lt_iff_lt_mul (by decide)).mpr ?_
    rwa [size]
  have above := ((remaps found remap).inside _ position).1
  rw [scatterRowRemap_get (remaps found remap) (size ▸ within), ScatterCall.source, base,
    Nat.mul_add_div (by decide), Nat.mul_add_mod]
  congr 1
  have shift : kTileN * (start call.cSEG seg * kTileM) = start call.cSEG seg * kTileM * kTileN := Nat.mul_comm _ _
  rw [shift, flat, flat, ← Nat.add_assoc, ← Nat.add_mul, Nat.add_sub_cancel' above]

end Sources

section Runs

variable {call : ScatterCall} {Value : Type} [AddCommMonoid Value] {buffers after : Buffers Value}

/-- Elements of a segment that every rank receives. -/
def ScatterCall.share (call : ScatterCall) (thisSeg : Nat) : Nat :=
  tileElements * thisSeg / call.my_size

/-- Where a segment's share goes in the destination. -/
def ScatterCall.destination (call : ScatterCall) (seg : Nat) : Nat :=
  tileElements * start call.cSEG seg / call.my_size

/-- Truncation leaves gaps between the destination ranges, and no overlaps. -/
theorem destination_le (found : call.cSEG[seg]? = some thisSeg) (later : seg < other) :
    call.destination seg + call.share thisSeg ≤ call.destination other := by
  have ordered : start call.cSEG (seg + 1) ≤ start call.cSEG other := start_monotone call.cSEG later
  calc call.destination seg + call.share thisSeg
      ≤ (tileElements * start call.cSEG seg + tileElements * thisSeg) / call.my_size := Nat.div_add_div_le_add_div
    _ = tileElements * start call.cSEG (seg + 1) / call.my_size := by rw [start_succ found, Nat.mul_add]
    _ ≤ call.destination other := Nat.div_le_div_right (Nat.mul_le_mul_left _ ordered)

/-- What the destination holds once a number of segments has been reduced. -/
structure ReducedUpTo (call : ScatterCall) (buffers : Buffers Value) (count : Nat) (after : Buffers Value) : Prop where
  outputs : after.c = buffers.c
  reduced : ∀ seg < count, ∀ thisSeg, call.cSEG[seg]? = some thisSeg → ∀ rank < call.my_size,
    ∀ offset < call.share thisSeg, after.d rank (call.destination seg + offset) = ∑ sender ∈ range call.my_size,
      buffers.c sender (call.source (tileElements * start call.cSEG seg + (rank * call.share thisSeg + offset)))
  untouched : ∀ rank place, (∀ seg < count, ∀ thisSeg, call.cSEG[seg]? = some thisSeg →
    ∀ offset < call.share thisSeg, place ≠ call.destination seg + offset) → after.d rank place = buffers.d rank place

theorem share_within (thisSeg : Nat) (inside : rank < call.my_size) (below : offset < call.share thisSeg) :
    rank * call.share thisSeg + offset < tileElements * thisSeg :=
  Nat.lt_of_lt_of_le (flat_lt inside below) (Nat.mul_div_le _ _)

theorem ReducedUpTo.next (reduced : ReducedUpTo call buffers count after) (found : call.cSEG[count]? = some thisSeg)
    (remap : Nat → Nat) :
    ReducedUpTo call buffers (count + 1)
      (call.runSegment (generateRowRemapArray kTileM call.my_size call.cSEG remap) after
        (segmentCallOf (start call.cSEG count) thisSeg)) where
  outputs := reduced.outputs
  reduced seg before segTiles listed rank inside offset below := by
    rcases Nat.lt_succ_iff_lt_or_eq.mp before with earlier | rfl
    · have apart := destination_le listed earlier
      have outside : ¬ (call.destination count ≤ call.destination seg + offset ∧
          call.destination seg + offset < call.destination count + call.share thisSeg) := by omega
      refine Eq.trans ?_ (reduced.reduced seg earlier segTiles listed rank inside offset below)
      exact if_neg outside
    · obtain rfl := Option.some.inj (found.symm.trans listed)
      have here : call.destination seg ≤ call.destination seg + offset ∧
          call.destination seg + offset < call.destination seg + call.share thisSeg := by omega
      refine (if_pos here).trans (Finset.sum_congr rfl fun sender _ => ?_)
      have place : tileElements * start call.cSEG seg + rank * call.share thisSeg +
          (call.destination seg + offset - call.destination seg) =
            tileElements * start call.cSEG seg + (rank * call.share thisSeg + offset) := by omega
      rw [← reduced.outputs, ← scatter_segment found remap (after.c sender) (after.tmp sender)
        (share_within thisSeg inside below), ← place]
      rfl
  untouched rank place away := by
    have outside : ¬ (call.destination count ≤ place ∧ place < call.destination count + call.share thisSeg) := by
      rintro ⟨above, below⟩
      exact away count (Nat.lt_succ_self _) thisSeg found (place - call.destination count) (by omega) (by omega)
    refine Eq.trans ?_ (reduced.untouched rank place fun seg before => away seg (Nat.lt_succ_of_lt before))
    exact if_neg outside

theorem reducedUpTo_take (call : ScatterCall) (remap : Nat → Nat) (buffers : Buffers Value) (count : Nat)
    (within : count ≤ call.cSEG.length) :
    ReducedUpTo call buffers count (((segmentCallsOf 0 call.cSEG).take count).foldl
      (call.runSegment (generateRowRemapArray kTileM call.my_size call.cSEG remap)) buffers) := by
  induction count with
  | zero =>
    exact ⟨rfl, fun _ before => absurd before (Nat.not_lt_zero _), fun _ _ _ => rfl⟩
  | succ count ih =>
    have found : call.cSEG[count]? = some call.cSEG[count] := List.getElem?_eq_getElem within
    have next := segmentCalls_get found 0
    rw [Nat.zero_add] at next
    rw [List.take_add_one, next, List.foldl_append]
    exact (ih (Nat.le_of_succ_le within)).next found remap

theorem gemmReduceScatterOverlap_reduced (several : call.my_size ≠ 1) (fits : call.M * call.N < 2 ^ 31)
    (remap : Nat → Nat) (buffers : Buffers Value) : ∃ after,
      call.gemmReduceScatterOverlap (generateRowRemapArray kTileM call.my_size call.cSEG remap) buffers = some after ∧
        ReducedUpTo call buffers call.cSEG.length after := by
  have calls : segmentCalls call.M call.N 0 call.cSEG = some (segmentCallsOf 0 call.cSEG) :=
    ScatterCall.segmentCalls_iff.mpr ⟨fits, rfl⟩
  have all := reducedUpTo_take call remap buffers call.cSEG.length (Nat.le_refl _)
  rw [← segmentCalls_length 0 call.cSEG, List.take_length, segmentCalls_length] at all
  refine ⟨_, ?_, all⟩
  rw [ScatterCall.gemmReduceScatterOverlap, if_neg several, calls]
  rfl

end Runs

section Placement

variable {call : ScatterCall}

/-- A rank's place receives the element that the remap put at the matching place of the segment. -/
def Received (call : ScatterCall) (element rank place : Nat) : Prop :=
  ∃ seg thisSeg, call.cSEG[seg]? = some thisSeg ∧ ∃ offset < call.share thisSeg,
    place = call.destination seg + offset ∧
      call.source (tileElements * start call.cSEG seg + (rank * call.share thisSeg + offset)) = element

/-- One output element of one rank is 1, everything else is 0. -/
def unitBuffers (element : Nat) : Buffers Nat where
  c sender other := if sender = 0 ∧ other = element then 1 else 0
  tmp _ _ := 0
  d _ _ := 0

theorem unitBuffers_sum (call : ScatterCall) (element other : Nat) :
    ∑ sender ∈ range call.my_size, (unitBuffers element).c sender other = if other = element then 1 else 0 := by
  have first : 0 ∈ range call.my_size := Finset.mem_range.mpr call.ranks
  rw [Finset.sum_eq_single_of_mem 0 first]
  · simp only [unitBuffers, true_and]
  · intro sender _ later
    exact if_neg fun both => later both.1

theorem summedAt_iff (several : call.my_size ≠ 1) (fits : call.M * call.N < 2 ^ 31) (inside : rank < call.my_size) :
    call.SummedAt element rank place ↔ Received call element rank place := by
  constructor
  · intro summed
    obtain ⟨after, ran, reduced⟩ := gemmReduceScatterOverlap_reduced several fits (fun _ => 0) (unitBuffers element)
    obtain ⟨other, again, sum⟩ := summed Nat (fun _ => 0) (unitBuffers element)
    obtain rfl := Option.some.inj (ran.symm.trans again)
    rw [unitBuffers_sum, if_pos rfl] at sum
    by_contra missed
    by_cases covered : ∃ seg thisSeg, call.cSEG[seg]? = some thisSeg ∧ ∃ offset < call.share thisSeg,
        place = call.destination seg + offset
    · obtain ⟨seg, thisSeg, found, offset, below, here⟩ := covered
      have within := (List.getElem?_eq_some_iff.mp found).1
      rw [here, reduced.reduced seg within thisSeg found rank inside offset below, unitBuffers_sum,
        if_neg fun same => missed ⟨seg, thisSeg, found, offset, below, here, same⟩] at sum
      exact Nat.zero_ne_one sum
    · rw [reduced.untouched rank place fun seg _ thisSeg found offset below here =>
        covered ⟨seg, thisSeg, found, offset, below, here⟩] at sum
      exact Nat.zero_ne_one sum
  · rintro ⟨seg, thisSeg, found, offset, below, rfl, rfl⟩ Value _ remap buffers
    obtain ⟨after, ran, reduced⟩ := gemmReduceScatterOverlap_reduced several fits remap buffers
    have within := (List.getElem?_eq_some_iff.mp found).1
    exact ⟨after, ran, reduced.reduced seg within thisSeg found rank inside offset below⟩

/-- Every place of the temporary buffer lies in one segment. -/
theorem exists_segment (within : place < call.M * call.N) : ∃ seg thisSeg, call.cSEG[seg]? = some thisSeg ∧
    ∃ offset < tileElements * thisSeg, place = tileElements * start call.cSEG seg + offset := by
  rw [call.elements] at within
  have tile : place / tileElements < call.cSEG.sum := (Nat.div_lt_iff_lt_mul (by decide)).mpr (Nat.mul_comm _ _ ▸ within)
  obtain ⟨seg, inside⟩ := exists_inside tile
  have listed := inside.lt_length
  have found : call.cSEG[seg]? = some call.cSEG[seg] := List.getElem?_eq_getElem listed
  have last := inside.2
  rw [start_succ found, Nat.div_lt_iff_lt_mul (by decide), Nat.mul_comm, Nat.mul_add] at last
  have first := (Nat.le_div_iff_mul_le (by decide)).mp inside.1
  rw [Nat.mul_comm] at first
  exact ⟨seg, call.cSEG[seg], found, place - tileElements * start call.cSEG seg, by omega, by omega⟩

theorem segment_place (found : call.cSEG[seg]? = some thisSeg) (below : offset < tileElements * thisSeg) :
    tileElements * start call.cSEG seg + offset < call.M * call.N := by
  rw [call.elements, Nat.mul_comm tileElements, Nat.mul_comm tileElements]
  exact segment_position found (Nat.mul_comm _ _ ▸ below)

/-- A place of the temporary buffer names its segment and its offset there. -/
theorem segment_unique (found : call.cSEG[seg]? = some thisSeg) (below : offset < tileElements * thisSeg)
    (listed : call.cSEG[other]? = some otherSeg) (under : otherOffset < tileElements * otherSeg)
    (same : tileElements * start call.cSEG seg + offset = tileElements * start call.cSEG other + otherOffset) :
    seg = other ∧ offset = otherOffset := by
  have inside : ∀ {seg thisSeg offset : Nat}, call.cSEG[seg]? = some thisSeg → offset < tileElements * thisSeg →
      Inside call.cSEG seg ((tileElements * start call.cSEG seg + offset) / tileElements) := by
    intro seg thisSeg offset found below
    have tile : offset / tileElements < thisSeg := (Nat.div_lt_iff_lt_mul (by decide)).mpr (Nat.mul_comm _ _ ▸ below)
    rw [Nat.mul_add_div (by decide), Inside, start_succ found]
    exact ⟨Nat.le_add_right _ _, Nat.add_lt_add_left tile _⟩
  have here := inside found below
  rw [same] at here
  obtain rfl := here.unique (inside listed under)
  exact ⟨rfl, Nat.add_left_cancel same⟩

/-- The rank that receives a place of a segment, if any does, is the one whose share the place lies in. -/
theorem received_iff (found : call.cSEG[seg]? = some thisSeg) (below : offset < tileElements * thisSeg)
    (inside : rank < call.my_size) :
    Received call (call.source (tileElements * start call.cSEG seg + offset)) rank place ↔
      0 < call.share thisSeg ∧ rank = offset / call.share thisSeg ∧
        place = call.destination seg + offset % call.share thisSeg := by
  constructor
  · rintro ⟨other, otherSeg, listed, received, under, rfl, same⟩
    have within := share_within otherSeg inside under
    have equal := source_injective (segment_place listed within) (segment_place found below) same
    obtain ⟨rfl, rfl⟩ := segment_unique listed within found below equal
    obtain rfl := Option.some.inj (listed.symm.trans found)
    refine ⟨Nat.zero_lt_of_lt under, (flat_div under).symm, ?_⟩
    exact congrArg _ (flat_mod under).symm
  · rintro ⟨some, rfl, rfl⟩
    refine ⟨seg, thisSeg, found, _, Nat.mod_lt _ some, rfl, ?_⟩
    exact congrArg (fun offset => call.source (tileElements * start call.cSEG seg + offset)) (flat_div_mod _ _)

theorem microRow_source (place : Nat) : ScatterCall.microRow (call.source place) = call.rowAt (place / kTileN) := by
  rw [ScatterCall.microRow, ScatterCall.source, flat_div (column_lt place)]

theorem rowOfOffset (seg offset : Nat) : (tileElements * start call.cSEG seg + offset) / kTileN =
    start call.cSEG seg * kTileM + offset / kTileN := by
  have base : tileElements * start call.cSEG seg = kTileN * (start call.cSEG seg * kTileM) := by ring
  rw [base, Nat.mul_add_div (by decide)]

end Placement

section Delivery

variable {call : ScatterCall}

/-- Dividing evenly, a share is whole micro-rows and the shares are the whole segment. -/
theorem share_eq (divides : call.my_size ∣ thisSeg * kTileM) :
    ∃ count, thisSeg * kTileM = call.my_size * count ∧ call.share thisSeg = kTileN * count ∧
      call.my_size * call.share thisSeg = tileElements * thisSeg := by
  obtain ⟨count, even⟩ := divides
  have size : tileElements * thisSeg = call.my_size * (kTileN * count) := by
    calc tileElements * thisSeg = kTileN * (thisSeg * kTileM) := by ring
      _ = call.my_size * (kTileN * count) := by rw [even]; ring
  have share : call.share thisSeg = kTileN * count := by
    rw [ScatterCall.share, size, Nat.mul_div_cancel_left _ call.ranks]
  exact ⟨count, even, share, by rw [share, size]⟩

/-- Sorted by residue, a row stands in the share of its own rank. -/
theorem residue_share (found : call.cSEG[seg]? = some thisSeg) (divides : call.my_size ∣ thisSeg * kTileM)
    (below : offset < tileElements * thisSeg) :
    call.rowAt (start call.cSEG seg * kTileM + offset / kTileN) % call.my_size = offset / call.share thisSeg := by
  obtain ⟨count, even, share, _⟩ := share_eq divides
  have position : offset / kTileN < thisSeg * kTileM := by
    refine (Nat.div_lt_iff_lt_mul (by decide)).mpr (Nat.lt_of_lt_of_eq below ?_)
    ring
  have perm := sortedRowIds_perm call.my_size (start call.cSEG seg * kTileM) (thisSeg * kTileM)
  have sorted := sortedRowIds_sorted call.my_size (start call.cSEG seg * kTileM) (thisSeg * kTileM)
  have row := rowAt_segment found position
  rw [even] at perm sorted row
  rw [SortedClasses.residue_at sorted perm call.ranks row, Nat.div_div_eq_div_mul, share]

theorem segmentCall_listed {segment : SegmentCall} (member : (segmentCallsOf 0 call.cSEG)[seg]? = some segment) :
    ∃ thisSeg, call.cSEG[seg]? = some thisSeg ∧ segment = segmentCallOf (start call.cSEG seg) thisSeg := by
  have within := (List.getElem?_eq_some_iff.mp member).1
  rw [segmentCalls_length] at within
  have found : call.cSEG[seg]? = some call.cSEG[seg] := List.getElem?_eq_getElem within
  have listed := segmentCalls_get found 0
  rw [Nat.zero_add] at listed
  exact ⟨_, found, Option.some.inj (member.symm.trans listed)⟩

theorem divides_segment (divides : call.Divides) (member : thisSeg ∈ call.cSEG) : call.my_size ∣ thisSeg * kTileM := by
  rcases divides with alone | ⟨_, even⟩
  · exact alone ▸ one_dvd _
  · exact even thisSeg member

theorem divides_kept {segment : SegmentCall} (divides : call.Divides)
    (listed : segmentCalls call.M call.N 0 call.cSEG = some calls) (member : segment ∈ calls) :
    call.my_size * (segment.comm_size / call.my_size) = segment.comm_size := by
  obtain ⟨_, rfl⟩ := ScatterCall.segmentCalls_iff.mp listed
  obtain ⟨seg, place⟩ := List.mem_iff_getElem?.mp member
  obtain ⟨thisSeg, found, rfl⟩ := segmentCall_listed place
  obtain ⟨_, _, _, whole⟩ := share_eq (divides_segment divides (List.mem_of_getElem? found))
  exact whole

theorem divides_contiguous (divides : call.Divides) (listed : segmentCalls call.M call.N 0 call.cSEG = some calls)
    (here : calls[seg]? = some first) (there : calls[seg + 1]? = some next) :
    next.acc_addr / call.my_size = first.acc_addr / call.my_size + first.comm_size / call.my_size := by
  obtain ⟨_, rfl⟩ := ScatterCall.segmentCalls_iff.mp listed
  obtain ⟨thisSeg, found, rfl⟩ := segmentCall_listed here
  obtain ⟨_, _, rfl⟩ := segmentCall_listed there
  obtain ⟨_, _, _, whole⟩ := share_eq (divides_segment divides (List.mem_of_getElem? found))
  have even : call.my_size ∣ tileElements * thisSeg := ⟨_, whole.symm⟩
  simp only [segmentCallOf, start_succ found, Nat.mul_add]
  exact Nat.add_div_of_dvd_left even

/-- Dividing evenly, every element is delivered once, to the rank of its micro-row's residue. -/
theorem divides_once (several : call.my_size ≠ 1) (fits : call.M * call.N < 2 ^ 31)
    (even : ∀ thisSeg ∈ call.cSEG, call.my_size ∣ thisSeg * kTileM) (within : element < call.M * call.N) :
    ∃ place < call.M * call.N / call.my_size,
      call.SummedAt element (ScatterCall.microRow element % call.my_size) place ∧
        ∀ rank < call.my_size, ∀ other, call.SummedAt element rank other →
          rank = ScatterCall.microRow element % call.my_size ∧ other = place := by
  obtain ⟨source, inside, rfl⟩ := exists_source within
  obtain ⟨seg, thisSeg, found, offset, below, rfl⟩ := exists_segment inside
  have divides := even thisSeg (List.mem_of_getElem? found)
  obtain ⟨_, _, _, whole⟩ := share_eq divides
  have share : 0 < call.share thisSeg := by
    refine Nat.pos_of_ne_zero fun none => ?_
    rw [none, Nat.mul_zero] at whole
    omega
  have home : ScatterCall.microRow (call.source (tileElements * start call.cSEG seg + offset)) % call.my_size =
      offset / call.share thisSeg := by
    rw [microRow_source, rowOfOffset, residue_share found divides below]
  have last := destination_le found (List.getElem?_eq_some_iff.mp found).1
  rw [ScatterCall.destination, ScatterCall.destination, start_past (Nat.le_refl _), ← call.elements] at last
  refine ⟨call.destination seg + offset % call.share thisSeg, ?_, ?_, ?_⟩
  · exact Nat.lt_of_lt_of_le (Nat.add_lt_add_left (Nat.mod_lt _ share) _) last
  · have rank := Nat.mod_lt (ScatterCall.microRow (call.source (tileElements * start call.cSEG seg + offset))) call.ranks
    exact (summedAt_iff several fits rank).mpr ((received_iff found below rank).mpr ⟨share, home, rfl⟩)
  · intro rank inRange other summed
    obtain ⟨_, same, place⟩ := (received_iff found below inRange).mp ((summedAt_iff several fits inRange).mp summed)
    exact ⟨same.trans home.symm, place⟩

/-- A single rank keeps its output where it is. -/
theorem single_once (alone : call.my_size = 1) (within : element < call.M * call.N) :
    ∃ place < call.M * call.N / call.my_size,
      call.SummedAt element (ScatterCall.microRow element % call.my_size) place ∧
        ∀ rank < call.my_size, ∀ other, call.SummedAt element rank other →
          rank = ScatterCall.microRow element % call.my_size ∧ other = place := by
  have zero : ScatterCall.microRow element % call.my_size = 0 := by rw [alone, Nat.mod_one]
  refine ⟨element, by rwa [alone, Nat.div_one], ?_, ?_⟩
  · intro Value _ remap buffers
    refine ⟨_, if_pos alone, ?_⟩
    rw [zero, alone, Finset.sum_range_one]
    exact if_pos within
  · intro rank inRange other summed
    obtain ⟨after, ran, sum⟩ := summed Nat (fun _ => 0) (unitBuffers element)
    rw [ScatterCall.gemmReduceScatterOverlap, if_pos alone] at ran
    obtain rfl := Option.some.inj ran
    rw [unitBuffers_sum, if_pos rfl] at sum
    refine ⟨by omega, ?_⟩
    by_contra apart
    refine Nat.zero_ne_one (Eq.trans ?_ sum)
    simp only [unitBuffers, if_neg (show ¬(rank = 0 ∧ other = element) from fun both => apart both.2), ite_self]

theorem delivered_of_divides (divides : call.Divides) : call.Delivered where
  once element within := by
    by_cases alone : call.my_size = 1
    · exact single_once alone within
    · obtain ⟨fits, even⟩ := divides.resolve_left alone
      exact divides_once alone fits even within
  kept _ _ listed _ member := divides_kept divides listed member
  contiguous _ listed _ _ _ here there := divides_contiguous divides listed here there

/-- Delivery to the rank of the residue fixes the share that every place of a segment lies in. -/
theorem ScatterCall.Delivered.located (delivered : call.Delivered) (several : call.my_size ≠ 1)
    (fits : call.M * call.N < 2 ^ 31) (found : call.cSEG[seg]? = some thisSeg) (below : offset < tileElements * thisSeg) :
    0 < call.share thisSeg ∧
      call.rowAt (start call.cSEG seg * kTileM + offset / kTileN) % call.my_size = offset / call.share thisSeg := by
  have place := segment_place found below
  have source : call.source (tileElements * start call.cSEG seg + offset) < call.M * call.N := by
    have size : call.M * call.N = call.cSEG.sum * kTileM * kTileN := by
      rw [call.elements]
      ring
    rw [size]
    exact flat_lt (rowAt_lt (row_of_place place)) (column_lt _)
  obtain ⟨_, _, summed, _⟩ := delivered.once _ source
  have rank := Nat.mod_lt (ScatterCall.microRow (call.source (tileElements * start call.cSEG seg + offset))) call.ranks
  obtain ⟨share, same, _⟩ := (received_iff found below rank).mp ((summedAt_iff several fits rank).mp summed)
  rw [microRow_source, rowOfOffset] at same
  exact ⟨share, same⟩

theorem ScatterCall.Delivered.fits (delivered : call.Delivered) (several : call.my_size ≠ 1) :
    call.M * call.N < 2 ^ 31 := by
  have some : 0 < call.M * call.N := by
    rw [call.elements]
    exact Nat.mul_pos (by decide) call.tiles_positive
  obtain ⟨_, _, summed, _⟩ := delivered.once 0 some
  obtain ⟨after, ran, _⟩ := summed Nat (fun _ => 0) (unitBuffers 0)
  rw [ScatterCall.gemmReduceScatterOverlap, if_neg several, Option.map_eq_some_iff] at ran
  obtain ⟨segments, listed, _⟩ := ran
  exact (ScatterCall.segmentCalls_iff.mp listed).1

/-- A share that cut a micro-row in two would send it to two ranks. -/
theorem ScatterCall.Delivered.wholeRows (delivered : call.Delivered) (several : call.my_size ≠ 1)
    (fits : call.M * call.N < 2 ^ 31) {seg : Nat} (found : call.cSEG[seg]? = some thisSeg) :
    kTileN ∣ call.share thisSeg := by
  have positive := call.positive thisSeg (List.mem_of_getElem? found)
  have many : 1 < call.my_size := Nat.lt_of_le_of_ne call.ranks several.symm
  have size : tileElements * thisSeg = 128 * (128 * thisSeg) := Nat.mul_assoc _ _ _
  have less : call.share thisSeg < tileElements * thisSeg := Nat.div_lt_self (by omega) many
  by_contra cut
  have partial_ : call.share thisSeg % 128 ≠ 0 := fun whole => cut (Nat.dvd_of_mod_eq_zero whole)
  have first : 128 * (call.share thisSeg / 128) < tileElements * thisSeg := by omega
  have last : 128 * (call.share thisSeg / 128) + 127 < tileElements * thisSeg := by omega
  obtain ⟨share, early⟩ := delivered.located several fits found first
  obtain ⟨_, late⟩ := delivered.located several fits found last
  have sameRow : (128 * (call.share thisSeg / 128) + 127) / kTileN = 128 * (call.share thisSeg / 128) / kTileN := by
    unfold kTileN
    omega
  rw [sameRow, early, Nat.div_eq_of_lt (by omega)] at late
  have reached := (Nat.div_eq_zero_iff_lt share).mp late.symm
  omega

theorem ScatterCall.Delivered.divides (delivered : call.Delivered) : call.Divides := by
  refine Classical.or_iff_not_imp_left.mpr fun several => ⟨delivered.fits several, fun thisSeg member => ?_⟩
  have fits := delivered.fits several
  obtain ⟨seg, found⟩ := List.mem_iff_getElem?.mp member
  have positive := call.positive thisSeg member
  obtain ⟨count, rows⟩ := delivered.wholeRows several fits found
  have last : tileElements * thisSeg - 1 < tileElements * thisSeg :=
    Nat.sub_lt (Nat.mul_pos (by decide) positive) Nat.zero_lt_one
  obtain ⟨share, residue⟩ := delivered.located several fits found last
  have rank := Nat.mod_lt (call.rowAt (start call.cSEG seg * kTileM + (tileElements * thisSeg - 1) / kTileN)) call.ranks
  rw [residue, Nat.div_lt_iff_lt_mul share] at rank
  have most : call.my_size * call.share thisSeg ≤ tileElements * thisSeg := Nat.mul_div_le _ _
  have whole : kTileN * (thisSeg * kTileM) = kTileN * (call.my_size * count) := by
    calc kTileN * (thisSeg * kTileM) = tileElements * thisSeg := by ring
      _ = call.my_size * call.share thisSeg := by omega
      _ = kTileN * (call.my_size * count) := by rw [rows]; ring
  exact ⟨count, Nat.eq_of_mul_eq_mul_left (by decide) whole⟩

/-- One segment of one tile for three ranks. -/
def oneTileForThree : ScatterCall where
  M := 128
  N := 128
  cSEG := [1]
  my_size := 3
  rows := by decide
  columns := by decide
  tile_num := by decide
  segments := by decide
  positive := by decide
  ranks := by decide

theorem oneTileForThree_undelivered : ¬ oneTileForThree.Delivered := by
  intro delivered
  rcases delivered.divides with alone | ⟨_, even⟩
  · exact absurd alone (by decide)
  · exact absurd (even 1 (by decide)) (by decide)

/-- Micro-rows reach the rank of their residue exactly when every segment's rows divide evenly among the ranks. -/
theorem gemmReduceScatterOverlap_delivered_iff (call : ScatterCall) : call.Delivered ↔ call.Divides :=
  ⟨ScatterCall.Delivered.divides, delivered_of_divides⟩

end Delivery

end Ooverlap.Overlap
