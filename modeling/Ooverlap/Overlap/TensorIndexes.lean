import Ooverlap.Overlap.PackedOutput
import Ooverlap.Overlap.ScatterDelivery
import Ooverlap.Support.Word

/-! The places of the caller's tensors that the two overlap entry points form, and the checks they make first. -/

namespace Ooverlap.Overlap

open Blocks RowMajor Word

/-- The tensors whose places the device forms; past the end of `RA` there is no tile to form the others from. -/
inductive Tensor where
  | MM
  | RA
  | cSEG
  | C
  | RE
  | D
  deriving DecidableEq, Repr

/-- Consecutive places of a tensor. -/
structure Span where
  tensor : Tensor
  first : Nat
  count : Nat
  deriving DecidableEq, Repr

def Span.one (tensor : Tensor) (index : Nat) : Span where
  tensor := tensor
  first := index
  count := 1

def Span.Within (span : Span) (numel : Nat) : Prop :=
  ∀ offset < span.count, span.first + offset < numel

theorem Span.within_iff (span : Span) : span.Within numel ↔ span.count = 0 ∨ span.first + span.count ≤ numel := by
  constructor
  · intro within
    rcases Nat.eq_zero_or_pos span.count with empty | positive
    · exact .inl empty
    · have last := within (span.count - 1) (Nat.sub_lt positive Nat.zero_lt_one)
      exact .inr (by omega)
  · intro fits offset below
    omega

@[simp] theorem Span.one_within (tensor : Tensor) : (Span.one tensor index).Within numel ↔ index < numel := by
  rw [Span.within_iff, Span.one]
  simp

/-- A call of either entry point: sizes as nonnegative `int`s, `rLDN` as an `int64_t`, contents of the integer tensors, elements of the others.
The tile shape and the epilogue are the algorithm's, `cSEG` is the same on both sides, and the grid is the one that
CUTLASS runs, which covers the matrix and may be rounded up beyond it. -/
structure OverlapCall where
  M : Nat
  N : Nat
  K : Nat
  depth : Nat
  rLDN : Nat
  tile_m : Nat
  tile_n : Nat
  epilogue : Epilogue
  gridRows : Nat
  gridCols : Nat
  RA : List Nat
  RE : List Int
  cSEG : List Nat
  mm : Nat
  c : Nat
  d : Nat
  if_monitor : Bool
  my_size : Nat
  connected : Bool
  oo_initialized : Bool
  tile_m_positive : 0 < tile_m
  tile_n_positive : 0 < tile_n
  grid_rows : M ≤ gridRows * tile_m
  grid_columns : N ≤ gridCols * tile_n
  ranks : 0 < my_size

inductive EntryPoint where
  | gemmAllReduceOverlap
  | gemmReduceScatterOverlap
  deriving DecidableEq, Repr

namespace OverlapCall

variable (call : OverlapCall)

def numel : Tensor → Nat
  | .MM => call.mm
  | .RA => call.RA.length
  | .cSEG => call.cSEG.length
  | .C => call.c
  | .RE => call.RE.length
  | .D => call.d

section Checks

/-- Tiles of the shape that the entry point counts with: the algorithm's, or the fixed one. -/
def tileCount : EntryPoint → Nat
  | .gemmAllReduceOverlap => call.M / call.tile_m * (call.N / call.tile_n)
  | .gemmReduceScatterOverlap => scatterTiles call.M call.N

def tile_num (entry : EntryPoint) : Int :=
  toInt32 (call.tileCount entry)

def seg_size : Int :=
  toInt32 call.cSEG.length

def seg_sum : Int :=
  call.cSEG.foldl (fun (seg_sum : Int) (entry : Nat) => toInt32 (seg_sum + entry)) 0

def packed_rows : Int :=
  (toInt64 (toInt64 (call.tile_num .gemmAllReduceOverlap + call.rLDN) - 1)).tdiv call.rLDN

def required_c : Int :=
  toInt64 (toInt64 (toInt64 (call.packed_rows * call.tile_m) * call.rLDN) * call.tile_n)

/-- Rows of packed tiles, and the elements that they take up, in unbounded arithmetic. -/
def packedRows : Nat :=
  (call.tileCount .gemmAllReduceOverlap + call.rLDN - 1) / call.rLDN

def packedElements : Nat :=
  call.packedRows * call.tile_m * call.rLDN * call.tile_n

/-- What both entry points check, in words of the host's types. -/
structure Checked (entry : EntryPoint) : Prop where
  rLDN_positive : 0 < call.rLDN
  depth_agrees : call.depth = call.K
  tiles : call.RA.length = call.tile_num entry
  segments_counted : call.cSEG.length = call.seg_size
  segments_positive : 0 < call.seg_size
  monitored : call.seg_size + call.tile_num entry ≤ call.mm

/-- The checks of `GemmAllReduceOverlap` and of `GemmReduceScatterOverlap`. -/
def Accepted : EntryPoint → Prop
  | .gemmAllReduceOverlap => call.Checked .gemmAllReduceOverlap ∧ (call.tile_m ∣ call.M ∧ call.tile_n ∣ call.N) ∧
      call.seg_sum = call.tile_num .gemmAllReduceOverlap ∧ call.required_c ≤ call.c
  | .gemmReduceScatterOverlap => call.Checked .gemmReduceScatterOverlap ∧ kTileM ∣ call.M ∧ kTileN ∣ call.N

end Checks

section Epilogue

def originalTileCols : Nat :=
  call.N / call.tile_n

def tileRows : Nat :=
  (call.M + call.tile_m - 1) / call.tile_m

def tileCols : Nat :=
  (call.N + call.tile_n - 1) / call.tile_n

/-- `static_cast<int>(rLDN)`. -/
def kReorderedColumn : Int :=
  toInt32 call.rLDN

def packedTileCols : Nat :=
  if call.kReorderedColumn ≤ 0 then call.originalTileCols else call.kReorderedColumn.toNat

def packedIndex (packedTile row column : Nat) : Nat :=
  packedPlace call.packedTileCols call.tile_m call.tile_n packedTile row column

/-- Entries of the segment array that an epilogue reads for a tile. -/
def entriesRead (packedTile : Nat) : Nat :=
  match call.epilogue with
  | .wrapper => (storeTailSegment call.cSEG packedTile).elim (call.cSEG.length + 1) (· + 1)
  | .patched => call.cSEG.length

/-- The tile count that the monitor's places are counted from. -/
def monitorTiles : Nat :=
  match call.epilogue with
  | .wrapper => call.tileRows * call.tileCols
  | .patched => call.cSEG.sum

/-- The monitor's counter, and the tile's place in its order. -/
def monitorSpans (packedTile : Nat) : List Span :=
  [.one .MM (call.cSEG.length + call.monitorTiles), .one .MM (call.cSEG.length + call.monitorTiles + 1 + packedTile)]

/-- Arrivals, the search for the segment, its counter, and the monitor. -/
def signalSpans (packedTile : Nat) : List Span :=
  [.one .MM (call.cSEG.length + packedTile), { tensor := .cSEG, first := 0, count := call.entriesRead packedTile }] ++
    (call.epilogue.segment call.cSEG packedTile).toList.map (Span.one .MM) ++
    if call.if_monitor then call.monitorSpans packedTile else []

def storeSpans (packedTile : Nat) : List Span :=
  (List.range call.tile_m).map fun row =>
    { tensor := .C, first := call.packedIndex packedTile row 0, count := call.tile_n }

/-- Logical tiles of the grid. -/
def logicalTiles : List Nat :=
  (List.range call.gridRows).flatMap fun ctaM =>
    (List.range call.gridCols).map fun ctaN => ctaM * call.originalTileCols + ctaN

def tileSpans (logicalTile : Nat) : List Span :=
  .one .RA logicalTile ::
    match call.RA[logicalTile]? with
    | some packedTile => call.signalSpans packedTile ++ call.storeSpans packedTile
    | none => []

def gemmSpans : List Span :=
  call.logicalTiles.flatMap call.tileSpans

end Epilogue

section Words

/-- Rows and columns of the packed output as `initialize` of the GEMM computes them; the epilogue forms nothing larger. -/
def packedShape : Option (Nat × Nat) := do
  let paddedRows ← int32 (call.M + call.tile_m)
  let paddedCols ← int32 (call.N + call.tile_n)
  let original_tile_cols := (paddedCols - 1) / call.tile_n
  let original_tile_num ← int32 ((paddedRows - 1) / call.tile_m * original_tile_cols)
  let packed_tile_cols := if 0 < call.kReorderedColumn then call.kReorderedColumn.toNat else original_tile_cols
  if packed_tile_cols = 0 then none
  else do
    let paddedTiles ← int32 (original_tile_num + packed_tile_cols)
    let out_rows ← int32 ((paddedTiles - 1) / packed_tile_cols * call.tile_m)
    let out_cols ← int32 (packed_tile_cols * call.tile_n)
    return (out_rows, out_cols)

/-- Largest sum of segments that an epilogue forms to find the segment of a tile. -/
def searchSum (packedTile : Nat) : Nat :=
  match call.epilogue with
  | .wrapper => (storeTailSegment call.cSEG packedTile).elim call.cSEG.sum fun seg => start call.cSEG (seg + 1)
  | .patched => call.cSEG.sum

/-- Packed tiles that the grid stores. -/
def packedTiles : List Nat :=
  call.logicalTiles.filterMap fun logicalTile => call.RA[logicalTile]?

/-- The sums and products of the checks stay in their words; `required_c` is the last and largest of its products. -/
def ChecksDefined : EntryPoint → Prop
  | .gemmAllReduceOverlap => call.cSEG.sum < 2 ^ 31 ∧ call.tileCount .gemmAllReduceOverlap + call.rLDN < 2 ^ 63 ∧
      call.packedElements < 2 ^ 63
  | .gemmReduceScatterOverlap => True

/-- No signed sum or product of the checks and of the GEMM leaves its word, and nothing is divided by zero:
`cutlass_gemm_signal_sm90` divides by the width, `store` by the columns. -/
structure Defined (entry : EntryPoint) : Prop where
  checks : call.ChecksDefined entry
  width : call.kReorderedColumn ≠ 0
  shape : call.packedShape ≠ none
  columns : ∀ packedTile ∈ call.packedTiles, 0 < call.packedTileCols
  searched : ∀ packedTile ∈ call.packedTiles, call.searchSum packedTile < 2 ^ 31

end Words

section Segments

/-- The counters that the communication stream waits for. -/
def waitSpans : List Span :=
  (List.range call.cSEG.length).map (Span.one .MM)

def reduceSpans : List Span :=
  (GemmCall.commRanges (call.tile_m * call.tile_n) 0 call.cSEG).map fun range =>
    { tensor := .C, first := range.1, count := range.2 }

/-- A row of `scatter_row_remap_sm90_kernel`, which reads no element when the row is sent outside the segment. -/
def rowSpans (segment : SegmentCall) (srcLocalRow : Nat) : List Span :=
  .one .RE (segment.row_begin + srcLocalRow) ::
    match call.RE[segment.row_begin + srcLocalRow]? with
    | some dstGlobalRow =>
      if 0 ≤ dstGlobalRow - segment.row_begin ∧ dstGlobalRow - segment.row_begin < segment.row_count then
        [{ tensor := .C, first := segment.acc_addr + srcLocalRow * kTileN, count := kTileN }]
      else []
    | none => []

/-- The remap of a segment and the share of it that this rank receives. -/
def segmentSpans (segment : SegmentCall) : List Span :=
  (List.range segment.row_count).flatMap (call.rowSpans segment) ++
    [{ tensor := .D, first := segment.acc_addr / call.my_size, count := segment.comm_size / call.my_size }]

def copySpans : List Span :=
  [{ tensor := .C, first := 0, count := call.d }, { tensor := .D, first := 0, count := call.d }]

/-- No communicator of several ranks. -/
def Alone : Prop :=
  call.my_size = 1 ∨ call.connected = false

instance : Decidable call.Alone :=
  inferInstanceAs (Decidable (_ ∨ _))

end Segments

/-- Every place that a call forms; `none` where the host's arithmetic is undefined. -/
def spans : EntryPoint → Option (List Span)
  | .gemmAllReduceOverlap => some <| call.gemmSpans ++
      if call.Alone ∧ call.oo_initialized = false then [] else call.waitSpans ++ call.reduceSpans
  | .gemmReduceScatterOverlap =>
      if call.Alone then some (call.gemmSpans ++ call.copySpans)
      else (segmentCalls call.M call.N 0 call.cSEG).map fun segments =>
        call.gemmSpans ++ (call.waitSpans ++ segments.flatMap call.segmentSpans)

def InBounds (listed : List Span) : Prop :=
  ∀ span ∈ listed, span.Within (call.numel span.tensor)

/-- Every place that a call forms is defined and lies in its tensor. -/
def Safe (entry : EntryPoint) : Prop :=
  call.Defined entry ∧ ∃ listed, call.spans entry = some listed ∧ call.InBounds listed

@[simp] theorem inBounds_append : call.InBounds (first ++ second) ↔ call.InBounds first ∧ call.InBounds second := by
  unfold InBounds
  exact List.forall_mem_append

@[simp] theorem inBounds_cons :
    call.InBounds (span :: rest) ↔ span.Within (call.numel span.tensor) ∧ call.InBounds rest := by
  unfold InBounds
  exact List.forall_mem_cons

@[simp] theorem inBounds_nil : call.InBounds [] := by
  intro span member
  cases member

theorem inBounds_flatMap {items : List α} :
    call.InBounds (items.flatMap spansOf) ↔ ∀ item ∈ items, call.InBounds (spansOf item) := by
  constructor
  · intro within item member span listed
    exact within span (List.mem_flatMap.mpr ⟨item, member, listed⟩)
  · intro within span listed
    obtain ⟨item, member, inside⟩ := List.mem_flatMap.mp listed
    exact within item member span inside

end OverlapCall

end Ooverlap.Overlap
