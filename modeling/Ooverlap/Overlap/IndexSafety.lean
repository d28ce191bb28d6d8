import Ooverlap.Overlap.TensorIndexes

/-! When every place that the overlap entry points form lies in its tensor. -/

namespace Ooverlap.Overlap

open Blocks RowMajor Word

namespace OverlapCall

/-- The grid's tiles are listed in `RA`, and every packed tile has room in the segments, in the monitor and in `C`. -/
structure EpilogueFits (call : OverlapCall) : Prop where
  entries : ∀ logicalTile ∈ call.logicalTiles, logicalTile < call.RA.length
  segments : call.epilogue = .wrapper → ∀ packedTile ∈ call.packedTiles, packedTile < call.cSEG.sum
  monitor : call.if_monitor = true → ∀ packedTile ∈ call.packedTiles,
    call.cSEG.length + call.monitorTiles + 1 + packedTile < call.mm
  output : ∀ packedTile ∈ call.packedTiles, call.packedIndex packedTile (call.tile_m - 1) (call.tile_n - 1) < call.c

/-- `RE` keeps a micro-row inside its segment. -/
def Keeps (call : OverlapCall) (seg row : Nat) : Prop :=
  kTileM * start call.cSEG seg ≤ row ∧ row < kTileM * start call.cSEG (seg + 1) ∧
    ∃ dst : Int, call.RE[row]? = some dst ∧ (kTileM * start call.cSEG seg : Nat) ≤ dst ∧ dst < (kTileM * start call.cSEG (seg + 1) : Nat)

def shareOf (call : OverlapCall) (thisSeg : Nat) : Nat :=
  tileElements * thisSeg / call.my_size

/-- The loop's sizes are `int`s, `RE` covers the segments, `C` the rows that `RE` keeps, and `D` the shares. -/
structure SegmentsFit (call : OverlapCall) : Prop where
  tiles : call.tileCount .gemmReduceScatterOverlap ≠ 0
  product : call.M * call.N < 2 ^ 31
  elements : tileElements * call.cSEG.sum < 2 ^ 31
  rows : kTileM * call.cSEG.sum ≤ call.RE.length
  kept : ∀ seg row, call.Keeps seg row → kTileN * (row + 1) ≤ call.c
  shares : ∀ seg thisSeg, call.cSEG[seg]? = some thisSeg → call.shareOf thisSeg ≠ 0 →
    tileElements * start call.cSEG seg / call.my_size + call.shareOf thisSeg ≤ call.d

/-- Every CTA of the grid stores a tile, and `MM` has room for the monitor. -/
structure MonitorFits (call : OverlapCall) : Prop where
  grid : ∀ logicalTile ∈ call.logicalTiles, logicalTile < call.tileCount .gemmAllReduceOverlap
  room : call.if_monitor = true → call.tileCount .gemmAllReduceOverlap ≠ 0 →
    call.cSEG.length + 2 * call.tileCount .gemmAllReduceOverlap + 1 ≤ call.mm

/-- What an accepted call must satisfy besides the checks: above all, room in `MM` for the monitor. -/
def Fits (call : OverlapCall) (entry : EntryPoint) : Prop :=
  call.Defined entry ∧ match entry with
    | .gemmAllReduceOverlap => call.MonitorFits
    | .gemmReduceScatterOverlap => call.EpilogueFits ∧ if call.Alone then call.d ≤ call.c else call.SegmentsFit

section Checks

/-- What the checks compare, in unbounded arithmetic. -/
structure Counted (call : OverlapCall) (entry : EntryPoint) : Prop where
  rLDN_positive : 0 < call.rLDN
  tiles_int : call.tileCount entry < 2 ^ 31
  tiles : call.RA.length = call.tileCount entry
  segments : call.cSEG ≠ []
  monitored : call.cSEG.length + call.tileCount entry ≤ call.mm

/-- What the all-reduce checks besides. -/
structure Covered (call : OverlapCall) : Prop extends counted : call.Counted .gemmAllReduceOverlap where
  rows : call.tile_m ∣ call.M
  columns : call.tile_n ∣ call.N
  sum : call.cSEG.sum = call.tileCount .gemmAllReduceOverlap
  packed : call.packedElements ≤ call.c

variable {call : OverlapCall}

/-- A tile count that is no `int` passes no check, for there are as many entries in `RA` as tiles. -/
theorem Checked.counted (checked : call.Checked entry) (permutation : call.RA.Perm (List.range (call.tileCount entry))) :
    call.Counted entry := by
  have listed : call.RA.length = call.tileCount entry := by
    rw [permutation.length_eq, List.length_range]
  have counts : toInt32 (call.tileCount entry) = call.tileCount entry := by
    have compared := checked.tiles
    rw [listed, tile_num] at compared
    exact compared.symm
  have size := checked.segments_counted
  have monitored := checked.monitored
  rw [tile_num, counts, ← size] at monitored
  constructor
  · exact checked.rLDN_positive
  · exact toInt32_natCast_iff.mp counts
  · exact listed
  · rintro none
    have positive := checked.segments_positive
    rw [← size, none] at positive
    exact absurd positive (Int.lt_irrefl 0)
  · exact_mod_cast monitored

theorem seg_sum_eq (sum : call.cSEG.sum < 2 ^ 31) : call.seg_sum = call.cSEG.sum := by
  have running := toInt32_foldl_add call.cSEG 0
  rw [Int.zero_add, toInt32_natCast sum] at running
  exact running

theorem packed_rows_eq (counted : call.Counted .gemmAllReduceOverlap)
    (rounding : call.tileCount .gemmAllReduceOverlap + call.rLDN < 2 ^ 63) : call.packed_rows = call.packedRows := by
  have positive := counted.rLDN_positive
  have tiles : call.tile_num .gemmAllReduceOverlap = call.tileCount .gemmAllReduceOverlap :=
    toInt32_natCast counted.tiles_int
  have above : (call.tileCount .gemmAllReduceOverlap + call.rLDN : Int) =
      (call.tileCount .gemmAllReduceOverlap + call.rLDN : Nat) := (Nat.cast_add _ _).symm
  have below : ((call.tileCount .gemmAllReduceOverlap + call.rLDN : Nat) : Int) - 1 =
      (call.tileCount .gemmAllReduceOverlap + call.rLDN - 1 : Nat) := by omega
  rw [packed_rows, tiles, above, toInt64_natCast rounding, below, toInt64_natCast (by omega), packedRows]
  exact (Int.ofNat_tdiv _ _).symm

theorem required_c_eq (counted : call.Counted .gemmAllReduceOverlap)
    (rounding : call.tileCount .gemmAllReduceOverlap + call.rLDN < 2 ^ 63) (fits : call.packedElements < 2 ^ 63) :
    call.required_c = call.packedElements := by
  have last : call.packedRows * call.tile_m * call.rLDN < 2 ^ 63 :=
    Nat.lt_of_le_of_lt (Nat.le_mul_of_pos_right _ call.tile_n_positive) fits
  have first : call.packedRows * call.tile_m < 2 ^ 63 :=
    Nat.lt_of_le_of_lt (Nat.le_mul_of_pos_right _ counted.rLDN_positive) last
  rw [required_c, packed_rows_eq counted rounding, ← Nat.cast_mul, toInt64_natCast first, ← Nat.cast_mul,
    toInt64_natCast last, ← Nat.cast_mul]
  exact toInt64_natCast fits

/-- Checks whose arithmetic stays in its words say what they mean. -/
theorem Accepted.covered (accepted : call.Accepted .gemmAllReduceOverlap)
    (permutation : call.RA.Perm (List.range (call.tileCount .gemmAllReduceOverlap)))
    (checks : call.ChecksDefined .gemmAllReduceOverlap) : call.Covered := by
  obtain ⟨checked, ⟨rows, columns⟩, sum, packed⟩ := accepted
  obtain ⟨summed, rounding, product⟩ := checks
  have counted := Checked.counted checked permutation
  rw [seg_sum_eq summed, tile_num, toInt32_natCast counted.tiles_int] at sum
  rw [required_c_eq counted rounding product] at packed
  exact { counted with rows, columns, sum := Int.ofNat.inj sum, packed := Int.ofNat_le.mp packed }

end Checks

section Epilogue

variable {call : OverlapCall}

theorem entriesRead_le_iff : call.entriesRead packedTile ≤ call.cSEG.length ↔
    (call.epilogue = .wrapper → packedTile < call.cSEG.sum) := by
  unfold entriesRead
  cases which : call.epilogue with
  | patched => simp
  | wrapper =>
    rcases Nat.lt_or_ge packedTile call.cSEG.sum with within | past
    · obtain ⟨index, inside⟩ := exists_inside within
      simp only [storeTailSegment_eq inside, Option.elim_some, true_implies, within, iff_true]
      exact inside.lt_length
    · simp only [storeTailSegment_none past, Option.elim_none, true_implies]
      omega

theorem signalSpans_inBounds (segments : call.cSEG ≠ []) (room : call.cSEG.length + packedTile < call.mm) :
    call.InBounds (call.signalSpans packedTile) ↔ (call.epilogue = .wrapper → packedTile < call.cSEG.sum) ∧
      (call.if_monitor = true → call.cSEG.length + call.monitorTiles + 1 + packedTile < call.mm) := by
  have counter : call.InBounds ((call.epilogue.segment call.cSEG packedTile).toList.map (Span.one .MM)) := by
    intro span member
    obtain ⟨seg, found, rfl⟩ := List.mem_map.mp member
    have within := call.epilogue.segment_lt segments (Option.mem_toList.mp found)
    exact (Span.one_within .MM).mpr (Nat.lt_trans within (Nat.lt_of_le_of_lt (Nat.le_add_right _ _) room))
  have search : Span.Within { tensor := .cSEG, first := 0, count := call.entriesRead packedTile } call.cSEG.length ↔
      call.entriesRead packedTile ≤ call.cSEG.length := by
    rw [Span.within_iff, Nat.zero_add]
    exact or_iff_right_of_imp fun none => Nat.le_trans (Nat.le_of_eq none) (Nat.zero_le _)
  have monitor : call.InBounds (if call.if_monitor then call.monitorSpans packedTile else []) ↔
      (call.if_monitor = true → call.cSEG.length + call.monitorTiles + 1 + packedTile < call.mm) := by
    split
    next on =>
      rw [monitorSpans, inBounds_cons, inBounds_cons, Span.one_within, Span.one_within]
      simp only [on, true_implies, inBounds_nil, and_true, Span.one, numel]
      omega
    next off => simp [off]
  rw [signalSpans, inBounds_append, inBounds_append, inBounds_cons, inBounds_cons, Span.one_within, monitor]
  simp only [Span.one, numel, room, search, counter, inBounds_nil, entriesRead_le_iff, true_and, and_true]

theorem packedIndex_add (packedTile row column : Nat) :
    call.packedIndex packedTile row column = call.packedIndex packedTile row 0 + column := by
  rw [packedIndex, packedIndex, packedPlace, packedPlace, Nat.add_zero, Nat.add_assoc]

theorem storeSpans_inBounds : call.InBounds (call.storeSpans packedTile) ↔
    call.packedIndex packedTile (call.tile_m - 1) (call.tile_n - 1) < call.c := by
  have wide := call.tile_n_positive
  have last : call.packedIndex packedTile (call.tile_m - 1) (call.tile_n - 1) =
      call.packedIndex packedTile (call.tile_m - 1) 0 + (call.tile_n - 1) := packedIndex_add _ _ _
  constructor
  · intro within
    have below : call.tile_m - 1 < call.tile_m := Nat.sub_lt call.tile_m_positive Nat.zero_lt_one
    have row := within _ (List.mem_map.mpr ⟨call.tile_m - 1, List.mem_range.mpr below, rfl⟩)
    have stored := row (call.tile_n - 1) (Nat.sub_lt wide Nat.zero_lt_one)
    rwa [last]
  · intro fits span member
    obtain ⟨row, listed, rfl⟩ := List.mem_map.mp member
    have below : row ≤ call.tile_m - 1 := Nat.le_sub_one_of_lt (List.mem_range.mp listed)
    have earlier : call.packedIndex packedTile row 0 ≤ call.packedIndex packedTile (call.tile_m - 1) 0 :=
      Nat.add_le_add_right (Nat.mul_le_mul_right _ (Nat.add_le_add_left below _)) _
    intro offset inside
    simp only [numel] at inside ⊢
    omega

theorem mem_packedTiles : packedTile ∈ call.packedTiles ↔
    ∃ logicalTile ∈ call.logicalTiles, call.RA[logicalTile]? = some packedTile :=
  List.mem_filterMap

theorem tileSpans_inBounds (listed : call.RA[logicalTile]? = some packedTile) :
    call.InBounds (call.tileSpans logicalTile) ↔ call.InBounds (call.signalSpans packedTile) ∧ call.InBounds (call.storeSpans packedTile) := by
  have within := (List.getElem?_eq_some_iff.mp listed).1
  rw [tileSpans, inBounds_cons, Span.one_within, listed, inBounds_append]
  exact and_iff_right within

/-- The positions of the permutation are tiles, so the arrival counters that both entry points check for suffice. -/
theorem arrival_room (counted : call.Counted entry) (permutation : call.RA.Perm (List.range (call.tileCount entry)))
    {logicalTile : Nat} (listed : call.RA[logicalTile]? = some packedTile) :
    call.cSEG.length + packedTile < call.mm := by
  have tile := List.mem_range.mp (permutation.mem_iff.mp (List.mem_of_getElem? listed))
  exact Nat.lt_of_lt_of_le (Nat.add_lt_add_left tile _) counted.monitored

theorem gemmSpans_inBounds (counted : call.Counted entry)
    (permutation : call.RA.Perm (List.range (call.tileCount entry))) :
    call.InBounds call.gemmSpans ↔ call.EpilogueFits := by
  rw [gemmSpans, inBounds_flatMap]
  constructor
  · intro within
    have entries : ∀ logicalTile ∈ call.logicalTiles, logicalTile < call.RA.length := fun logicalTile member =>
      (Span.one_within .RA).mp (within logicalTile member (.one .RA logicalTile) List.mem_cons_self)
    have tile : ∀ packedTile ∈ call.packedTiles,
        call.InBounds (call.signalSpans packedTile) ∧ call.InBounds (call.storeSpans packedTile) ∧
          call.cSEG.length + packedTile < call.mm := by
      intro packedTile member
      obtain ⟨logicalTile, grid, listed⟩ := mem_packedTiles.mp member
      have both := (tileSpans_inBounds listed).mp (within logicalTile grid)
      exact ⟨both.1, both.2, arrival_room counted permutation listed⟩
    constructor
    · exact entries
    · intro wrapper packedTile member
      obtain ⟨signal, _, room⟩ := tile packedTile member
      exact ((signalSpans_inBounds counted.segments room).mp signal).1 wrapper
    · intro on packedTile member
      obtain ⟨signal, _, room⟩ := tile packedTile member
      exact ((signalSpans_inBounds counted.segments room).mp signal).2 on
    · intro packedTile member
      exact storeSpans_inBounds.mp (tile packedTile member).2.1
  · intro fits logicalTile member
    obtain ⟨packedTile, listed⟩ : ∃ packedTile, call.RA[logicalTile]? = some packedTile :=
      ⟨_, List.getElem?_eq_getElem (fits.entries logicalTile member)⟩
    have packed := mem_packedTiles.mpr ⟨logicalTile, member, listed⟩
    refine (tileSpans_inBounds listed).mpr ⟨?_, ?_⟩
    · refine (signalSpans_inBounds counted.segments (arrival_room counted permutation listed)).mpr ⟨?_, ?_⟩
      · exact fun wrapper => fits.segments wrapper _ packed
      · exact fun on => fits.monitor on _ packed
    · exact storeSpans_inBounds.mpr (fits.output _ packed)

end Epilogue

section AllReduce

variable {call : OverlapCall}

theorem ceil_of_dvd (positive : 0 < tile) (divides : tile ∣ size) : (size + tile - 1) / tile = size / tile := by
  obtain ⟨tiles, rfl⟩ := divides
  rw [Nat.mul_div_cancel_left _ positive, Nat.add_sub_assoc positive, Nat.mul_add_div positive,
    Nat.div_eq_of_lt (Nat.sub_lt positive Nat.zero_lt_one), Nat.add_zero]

/-- The grid covers every tile, whatever CTAs it may have beyond them. -/
theorem mem_logicalTiles (within : logicalTile < call.tileCount .gemmAllReduceOverlap) :
    logicalTile ∈ call.logicalTiles := by
  have wide : 0 < call.N / call.tile_n := Nat.pos_of_mul_pos_left (Nat.zero_lt_of_lt within)
  have row : logicalTile / (call.N / call.tile_n) < call.gridRows := by
    refine Nat.lt_of_lt_of_le ((Nat.div_lt_iff_lt_mul wide).mpr within) ?_
    exact Nat.div_le_of_le_mul (Nat.mul_comm _ _ ▸ call.grid_rows)
  have column : logicalTile % (call.N / call.tile_n) < call.gridCols := by
    refine Nat.lt_of_lt_of_le (Nat.mod_lt _ wide) ?_
    exact Nat.div_le_of_le_mul (Nat.mul_comm _ _ ▸ call.grid_columns)
  refine List.mem_flatMap.mpr ⟨_, List.mem_range.mpr row, List.mem_map.mpr ⟨_, List.mem_range.mpr column, ?_⟩⟩
  exact flat_div_mod _ _

/-- The permutation takes the tiles of the grid onto the tiles. -/
theorem mem_packedTiles_iff (covered : call.Covered)
    (permutation : call.RA.Perm (List.range (call.tileCount .gemmAllReduceOverlap))) :
    packedTile ∈ call.packedTiles ↔ packedTile < call.tileCount .gemmAllReduceOverlap := by
  rw [mem_packedTiles, ← List.mem_range, ← permutation.mem_iff, List.mem_iff_getElem?]
  constructor
  · rintro ⟨logicalTile, _, listed⟩
    exact ⟨logicalTile, listed⟩
  · rintro ⟨logicalTile, listed⟩
    have within := (List.getElem?_eq_some_iff.mp listed).1
    exact ⟨logicalTile, mem_logicalTiles (covered.tiles ▸ within), listed⟩

theorem monitorTiles_eq (covered : call.Covered) :
    call.monitorTiles = call.tileCount .gemmAllReduceOverlap := by
  unfold monitorTiles
  cases call.epilogue with
  | patched => exact covered.sum
  | wrapper =>
    simp only [tileRows, tileCols, ceil_of_dvd call.tile_m_positive covered.rows,
      ceil_of_dvd call.tile_n_positive covered.columns]
    rfl

/-- A packed width that is no `int` is so large that one row of it holds more tiles than there are. -/
theorem packed_le (few : tiles < 2 ^ 31) (some : 0 < tiles) (positive : 0 < call.rLDN)
    (whole : tiles = call.tileCount .gemmAllReduceOverlap) :
    (tiles + call.packedTileCols - 1) / call.packedTileCols * call.packedTileCols ≤
      (tiles + call.rLDN - 1) / call.rLDN * call.rLDN := by
  have cast : call.kReorderedColumn = (call.rLDN : Int).bmod (2 ^ 32) := rfl
  rcases Nat.lt_or_ge call.rLDN (2 ^ 31) with narrow | wide
  · have same : call.kReorderedColumn = call.rLDN := by
      rw [cast, Int.bmod_def]
      omega
    have columns : call.packedTileCols = call.rLDN := by
      rw [packedTileCols, same, if_neg (by omega), Int.toNat_natCast]
    rw [columns]
  · have single : (tiles + call.rLDN - 1) / call.rLDN = 1 := by
      rw [Nat.div_eq_of_lt_le] <;> omega
    rw [single, Nat.one_mul, packedTileCols]
    split
    · have full : call.originalTileCols ∣ tiles := whole ▸ Nat.dvd_mul_left _ _
      have columns : 0 < call.originalTileCols := Nat.pos_of_dvd_of_pos full some
      rw [ceil_of_dvd columns full, Nat.div_mul_cancel full]
      omega
    next above =>
      have wraps : 2 ^ 32 + call.kReorderedColumn ≤ call.rLDN := by
        rw [cast, Int.bmod_def] at above ⊢
        omega
      have rounded := Nat.div_mul_le_self (tiles + call.kReorderedColumn.toNat - 1) call.kReorderedColumn.toNat
      omega

/-- The last element of a packed tile, by the packed rows that the tiles fill. -/
theorem packedIndex_lt (tile : packedTile < tiles) (width : 0 < call.packedTileCols) :
    call.packedIndex packedTile (call.tile_m - 1) (call.tile_n - 1) <
      (tiles + call.packedTileCols - 1) / call.packedTileCols * call.packedTileCols * (call.tile_m * call.tile_n) := by
  have offset :
      packedTile - packedTile / call.packedTileCols * call.packedTileCols = packedTile % call.packedTileCols := by
    rw [Nat.mul_comm, ← Nat.mod_eq_sub_mul_div]
  have place : call.packedIndex packedTile (call.tile_m - 1) (call.tile_n - 1) =
      flat (call.packedTileCols * call.tile_n) (flat call.tile_m (packedTile / call.packedTileCols) (call.tile_m - 1))
        (flat call.tile_n (packedTile % call.packedTileCols) (call.tile_n - 1)) := by
    rw [packedIndex, packedPlace, offset]
    rfl
  have row : packedTile / call.packedTileCols < (tiles + call.packedTileCols - 1) / call.packedTileCols := by
    rw [Nat.lt_iff_add_one_le, Nat.le_div_iff_mul_le width, Nat.add_mul, Nat.one_mul]
    have rounded := Nat.div_mul_le_self packedTile call.packedTileCols
    omega
  have rows := flat_lt row (Nat.sub_lt call.tile_m_positive Nat.zero_lt_one)
  have columns := flat_lt (Nat.mod_lt packedTile width) (Nat.sub_lt call.tile_n_positive Nat.zero_lt_one)
  have stored := flat_lt rows columns
  rw [place]
  calc _ < _ := stored
    _ = _ := by ring

theorem output_fits (covered : call.Covered)
    (tile : packedTile < call.tileCount .gemmAllReduceOverlap) :
    call.packedIndex packedTile (call.tile_m - 1) (call.tile_n - 1) < call.c := by
  have fits := covered.packed
  have some := Nat.zero_lt_of_lt tile
  have width : 0 < call.packedTileCols := by
    have columns : 0 < call.originalTileCols := Nat.pos_of_mul_pos_left some
    unfold packedTileCols
    split <;> omega
  have rounded := packed_le covered.tiles_int some covered.rLDN_positive rfl
  calc call.packedIndex packedTile (call.tile_m - 1) (call.tile_n - 1) < _ := packedIndex_lt tile width
    _ ≤ _ := Nat.mul_le_mul_right _ rounded
    _ = call.packedElements := by rw [packedElements, packedRows]; ring
    _ ≤ call.c := fits

/-- An accepted call has room for everything but the monitor and CTAs beyond the tiles. -/
theorem epilogueFits_iff (covered : call.Covered)
    (permutation : call.RA.Perm (List.range (call.tileCount .gemmAllReduceOverlap))) :
    call.EpilogueFits ↔ call.MonitorFits := by
  have packed : ∀ {packedTile}, packedTile ∈ call.packedTiles ↔ packedTile < call.tileCount .gemmAllReduceOverlap :=
    mem_packedTiles_iff covered permutation
  have monitored := monitorTiles_eq covered
  constructor
  · intro fits
    refine ⟨fun logicalTile member => covered.tiles ▸ fits.entries logicalTile member, fun on some => ?_⟩
    have last := fits.monitor on _ (packed.mpr (Nat.sub_lt (Nat.pos_of_ne_zero some) Nat.zero_lt_one))
    rw [monitored] at last
    omega
  · rintro ⟨entries, room⟩
    constructor
    · exact fun logicalTile member => covered.tiles ▸ entries logicalTile member
    · exact fun _ packedTile member => covered.sum ▸ packed.mp member
    · intro on packedTile member
      have within := packed.mp member
      have enough := room on (Nat.ne_zero_of_lt within)
      rw [monitored]
      omega
    · exact fun packedTile member => output_fits covered (packed.mp member)

theorem commRanges_within (elemsPerTile : Nat) (member : range ∈ GemmCall.commRanges elemsPerTile accAddr tiles) :
    range.1 + range.2 ≤ accAddr + elemsPerTile * tiles.sum := by
  induction tiles generalizing accAddr with
  | nil => cases member
  | cons thisSeg rest ih =>
    rw [List.sum_cons, Nat.mul_add, ← Nat.add_assoc]
    rcases List.mem_cons.mp member with rfl | later
    · exact Nat.le_add_right _ _
    · exact ih later

theorem waitSpans_inBounds (counted : call.Counted entry) : call.InBounds call.waitSpans := by
  intro span member
  obtain ⟨seg, listed, rfl⟩ := List.mem_map.mp member
  have counters := Nat.le_trans (Nat.le_add_right _ _) counted.monitored
  exact (Span.one_within .MM).mpr (Nat.lt_of_lt_of_le (List.mem_range.mp listed) counters)

theorem reduceSpans_inBounds (covered : call.Covered) : call.InBounds call.reduceSpans := by
  intro span member
  obtain ⟨range, listed, rfl⟩ := List.mem_map.mp member
  have within := commRanges_within _ listed
  have tiles : call.tileCount .gemmAllReduceOverlap ≤ call.packedRows * call.rLDN := by
    have rounded := Nat.lt_div_mul_add (a := call.tileCount .gemmAllReduceOverlap + call.rLDN - 1) covered.rLDN_positive
    have positive := covered.rLDN_positive
    rw [packedRows]
    omega
  have enough : call.tile_m * call.tile_n * call.cSEG.sum ≤ call.c := by
    calc call.tile_m * call.tile_n * call.cSEG.sum
        ≤ call.tile_m * call.tile_n * (call.packedRows * call.rLDN) := Nat.mul_le_mul_left _ (covered.sum ▸ tiles)
      _ = call.packedElements := by rw [packedElements]; ring
      _ ≤ call.c := covered.packed
  refine (Span.within_iff _).mpr (.inr ?_)
  exact Nat.le_trans within (Nat.zero_add _ ▸ enough)

theorem allReduce_safe_iff (accepted : call.Accepted .gemmAllReduceOverlap)
    (permutation : call.RA.Perm (List.range (call.tileCount .gemmAllReduceOverlap))) :
    call.Safe .gemmAllReduceOverlap ↔ call.Fits .gemmAllReduceOverlap := by
  refine and_congr_right fun defined => ?_
  have covered := accepted.covered permutation defined.checks
  have gemm := gemmSpans_inBounds covered.counted permutation
  have loop : call.InBounds
      (if call.Alone ∧ call.oo_initialized = false then [] else call.waitSpans ++ call.reduceSpans) := by
    split
    · exact inBounds_nil call
    · exact (inBounds_append call).mpr ⟨waitSpans_inBounds covered.counted, reduceSpans_inBounds covered⟩
  change _ ↔ call.MonitorFits
  rw [← epilogueFits_iff covered permutation, ← gemm]
  constructor
  · rintro ⟨_, listed, within⟩
    obtain rfl := Option.some.inj listed
    exact ((inBounds_append call).mp within).1
  · exact fun within => ⟨_, rfl, (inBounds_append call).mpr ⟨within, loop⟩⟩

end AllReduce

section ReduceScatter

variable {call : OverlapCall}

theorem mem_segmentCallsOf (tiles : List Nat) : called ∈ segmentCallsOf 0 tiles ↔
    ∃ seg thisSeg, tiles[seg]? = some thisSeg ∧ segmentCallOf (start tiles seg) thisSeg = called := by
  rw [List.mem_iff_getElem?]
  constructor
  · rintro ⟨seg, listed⟩
    have within := (List.getElem?_eq_some_iff.mp listed).1
    rw [segmentCalls_length] at within
    have found : tiles[seg]? = some tiles[seg] := List.getElem?_eq_getElem within
    rw [segmentCalls_get found, Nat.zero_add] at listed
    exact ⟨seg, _, found, Option.some.inj listed⟩
  · rintro ⟨seg, thisSeg, found, rfl⟩
    refine ⟨seg, ?_⟩
    rw [segmentCalls_get found, Nat.zero_add]

theorem rowSpans_inBounds (accTiles thisSeg srcLocalRow : Nat) :
    call.InBounds (call.rowSpans (segmentCallOf accTiles thisSeg) srcLocalRow) ↔
      accTiles * kTileM + srcLocalRow < call.RE.length ∧
        ∀ dst : Int, call.RE[accTiles * kTileM + srcLocalRow]? = some dst → (accTiles * kTileM : Nat) ≤ dst →
          dst < (accTiles * kTileM + thisSeg * kTileM : Nat) →
            kTileN * (accTiles * kTileM + srcLocalRow + 1) ≤ call.c := by
  have element : tileElements * accTiles + srcLocalRow * kTileN + kTileN =
      kTileN * (accTiles * kTileM + srcLocalRow + 1) := by
    unfold tileElements
    ring
  have begins : (segmentCallOf accTiles thisSeg).row_begin = accTiles * kTileM := rfl
  rw [rowSpans, inBounds_cons, Span.one_within, begins]
  refine and_congr_right fun _ => ?_
  cases entry : call.RE[accTiles * kTileM + srcLocalRow]? with
  | none => simp
  | some dst =>
    have inside : 0 ≤ dst - (accTiles * kTileM : Nat) ∧ dst - (accTiles * kTileM : Nat) < (thisSeg * kTileM : Nat) ↔
        (accTiles * kTileM : Nat) ≤ dst ∧ dst < (accTiles * kTileM + thisSeg * kTileM : Nat) := by
      omega
    simp only [segmentCallOf, inside, Option.some.injEq, forall_eq']
    split
    next kept =>
      have some : kTileN ≠ 0 := by decide
      rw [inBounds_cons, Span.within_iff, or_iff_right some, element, and_iff_left (inBounds_nil call)]
      exact ⟨fun fits _ _ => fits, fun fits => fits kept.1 kept.2⟩
    next dropped => exact iff_of_true (inBounds_nil call) fun above below => absurd ⟨above, below⟩ dropped

theorem segmentSpans_inBounds (accTiles thisSeg : Nat) :
    call.InBounds (call.segmentSpans (segmentCallOf accTiles thisSeg)) ↔
      (∀ row < thisSeg * kTileM, call.InBounds (call.rowSpans (segmentCallOf accTiles thisSeg) row)) ∧
        (call.shareOf thisSeg ≠ 0 → tileElements * accTiles / call.my_size + call.shareOf thisSeg ≤ call.d) := by
  rw [segmentSpans, inBounds_append, inBounds_flatMap, inBounds_cons, Span.within_iff, ← Classical.or_iff_not_imp_left]
  simp only [List.mem_range, inBounds_nil, and_true]
  rfl

theorem segment_found (filled : start call.cSEG seg ≠ start call.cSEG (seg + 1)) :
    ∃ thisSeg, call.cSEG[seg]? = some thisSeg := by
  cases found : call.cSEG[seg]? with
  | some thisSeg => exact ⟨thisSeg, rfl⟩
  | none =>
    have past := List.getElem?_eq_none_iff.mp found
    refine absurd ?_ filled
    rw [start_past past, start_past (Nat.le_succ_of_le past)]

theorem rows_end (found : call.cSEG[seg]? = some thisSeg) :
    kTileM * start call.cSEG (seg + 1) = start call.cSEG seg * kTileM + thisSeg * kTileM := by
  rw [start_succ found, Nat.mul_comm, Nat.add_mul]

/-- A row of a segment, counted from the first row of all. -/
theorem exists_row (found : call.cSEG[seg]? = some thisSeg) :
    (kTileM * start call.cSEG seg ≤ row ∧ row < kTileM * start call.cSEG (seg + 1)) ↔
      ∃ local_ < thisSeg * kTileM, start call.cSEG seg * kTileM + local_ = row := by
  rw [rows_end found, Nat.mul_comm kTileM]
  constructor
  · rintro ⟨above, below⟩
    exact ⟨row - start call.cSEG seg * kTileM, by omega, by omega⟩
  · rintro ⟨local_, within, rfl⟩
    omega

theorem segments_inBounds (accepted : call.Accepted .gemmReduceScatterOverlap) (segments : call.cSEG ≠ []) :
    (∃ segments, segmentCalls call.M call.N 0 call.cSEG = some segments ∧ call.InBounds (segments.flatMap call.segmentSpans)) ↔
      call.SegmentsFit := by
  have loop : ∀ {segments}, segmentCalls call.M call.N 0 call.cSEG = some segments ↔ _ :=
    segmentCalls_iff accepted.2.1 accepted.2.2 0 call.cSEG segments
  rw [Nat.zero_add] at loop
  constructor
  · rintro ⟨_, listed, within⟩
    obtain ⟨tiles, product, elements, rfl⟩ := loop.mp listed
    have segment : ∀ seg thisSeg, call.cSEG[seg]? = some thisSeg → _ := fun seg thisSeg found =>
      (segmentSpans_inBounds (start call.cSEG seg) thisSeg).mp
        ((inBounds_flatMap call).mp within _ ((mem_segmentCallsOf _).mpr ⟨seg, thisSeg, found, rfl⟩))
    constructor
    · exact tiles
    · exact product
    · exact elements
    · rcases Nat.eq_zero_or_pos call.cSEG.sum with none | filled
      · rw [none]
        exact Nat.zero_le _
      · obtain ⟨seg, inside⟩ := exists_inside (Nat.sub_lt filled Nat.zero_lt_one)
        obtain ⟨thisSeg, found⟩ := segment_found (Nat.ne_of_lt (Nat.lt_of_le_of_lt inside.1 inside.2))
        have ends : start call.cSEG (seg + 1) = call.cSEG.sum :=
          Nat.le_antisymm (start_le_sum _ _) (Nat.le_of_pred_lt inside.2)
        have first : kTileM * start call.cSEG seg ≤ kTileM * (call.cSEG.sum - 1) := Nat.mul_le_mul_left _ inside.1
        have last : kTileM * call.cSEG.sum - 1 < kTileM * start call.cSEG (seg + 1) := by
          rw [ends]
          exact Nat.sub_lt (Nat.mul_pos (by decide) filled) Nat.zero_lt_one
        obtain ⟨row, short, place⟩ := (exists_row found).mp ⟨by unfold kTileM at first ⊢; omega, last⟩
        have read := ((rowSpans_inBounds _ _ _).mp ((segment seg thisSeg found).1 row short)).1
        omega
    · rintro seg row ⟨above, below, dst, entry, keptAbove, keptBelow⟩
      obtain ⟨thisSeg, found⟩ := segment_found fun same : start call.cSEG seg = start call.cSEG (seg + 1) =>
        absurd (Nat.lt_of_le_of_lt above below) (same ▸ Nat.lt_irrefl _)
      obtain ⟨srcLocalRow, short, rfl⟩ := (exists_row found).mp ⟨above, below⟩
      rw [rows_end found] at keptBelow
      rw [Nat.mul_comm] at keptAbove
      have fits := ((rowSpans_inBounds _ _ _).mp ((segment seg thisSeg found).1 srcLocalRow short)).2
      exact fits dst entry keptAbove keptBelow
    · exact fun seg thisSeg found => (segment seg thisSeg found).2
  · rintro ⟨tiles, product, elements, rows, kept, shares⟩
    refine ⟨_, loop.mpr ⟨tiles, product, elements, rfl⟩, (inBounds_flatMap call).mpr fun segment member => ?_⟩
    obtain ⟨seg, thisSeg, found, rfl⟩ := (mem_segmentCallsOf _).mp member
    refine (segmentSpans_inBounds _ _).mpr ⟨fun row short => ?_, shares seg thisSeg found⟩
    obtain ⟨above, below⟩ := (exists_row found).mpr ⟨row, short, rfl⟩
    refine (rowSpans_inBounds _ _ _).mpr ⟨?_, fun dst entry keptAbove keptBelow => ?_⟩
    · have all : kTileM * start call.cSEG (seg + 1) ≤ call.RE.length :=
        Nat.le_trans (Nat.mul_le_mul_left _ (start_le_sum _ _)) rows
      exact Nat.lt_of_lt_of_le below all
    · rw [← rows_end found] at keptBelow
      rw [Nat.mul_comm] at keptAbove
      exact kept seg _ ⟨above, below, dst, entry, keptAbove, keptBelow⟩

theorem copySpans_inBounds : call.InBounds call.copySpans ↔ call.d ≤ call.c := by
  rw [copySpans, inBounds_cons, inBounds_cons, Span.within_iff, Span.within_iff, Nat.zero_add,
    and_iff_left (inBounds_nil call)]
  simp only [numel, le_refl, or_true, and_true]
  exact or_iff_right_of_imp fun none => Nat.le_trans (Nat.le_of_eq none) (Nat.zero_le _)

theorem reduceScatter_safe_iff (accepted : call.Accepted .gemmReduceScatterOverlap)
    (permutation : call.RA.Perm (List.range (call.tileCount .gemmReduceScatterOverlap))) :
    call.Safe .gemmReduceScatterOverlap ↔ call.Fits .gemmReduceScatterOverlap := by
  refine and_congr_right fun _ => ?_
  have counted := accepted.1.counted permutation
  have gemm := gemmSpans_inBounds counted permutation
  have waits := waitSpans_inBounds counted
  change _ ↔ call.EpilogueFits ∧ if call.Alone then call.d ≤ call.c else call.SegmentsFit
  rw [← gemm]
  by_cases alone : call.Alone
  · have spans : call.spans .gemmReduceScatterOverlap = some (call.gemmSpans ++ call.copySpans) := if_pos alone
    rw [spans, if_pos alone, ← copySpans_inBounds, ← inBounds_append]
    exact ⟨fun ⟨_, listed, within⟩ => Option.some.inj listed ▸ within, fun within => ⟨_, rfl, within⟩⟩
  · have spans : call.spans .gemmReduceScatterOverlap = (segmentCalls call.M call.N 0 call.cSEG).map fun segments =>
        call.gemmSpans ++ (call.waitSpans ++ segments.flatMap call.segmentSpans) := if_neg alone
    rw [spans, if_neg alone, ← segments_inBounds accepted counted.segments]
    constructor
    · rintro ⟨_, listed, within⟩
      obtain ⟨segments, called, rfl⟩ := Option.map_eq_some_iff.mp listed
      obtain ⟨first, rest⟩ := (inBounds_append call).mp within
      exact ⟨first, segments, called, ((inBounds_append call).mp rest).2⟩
    · rintro ⟨first, segments, called, within⟩
      refine ⟨_, Option.map_eq_some_iff.mpr ⟨segments, called, rfl⟩, ?_⟩
      exact (inBounds_append call).mpr ⟨first, (inBounds_append call).mpr ⟨waits, within⟩⟩

end ReduceScatter

theorem kTileM_positive : 0 < kTileM := by decide

/-- One tile with the monitor on, and an `MM` of a given size. -/
def monitoredTile (mm : Nat) : OverlapCall where
  M := 128
  N := 128
  K := 64
  depth := 64
  rLDN := 1
  tile_m := 128
  tile_n := 128
  epilogue := .wrapper
  gridRows := 1
  gridCols := 1
  RA := [0]
  RE := []
  cSEG := [1]
  mm := mm
  c := 16384
  d := 0
  if_monitor := true
  my_size := 2
  connected := true
  oo_initialized := false
  tile_m_positive := kTileM_positive
  tile_n_positive := kTileM_positive
  grid_rows := by decide
  grid_columns := by decide
  ranks := Nat.two_pos

/-- Both sizes pass the checks. -/
theorem monitoredTile_accepted {counters : Nat} (size : counters = 2 ∨ counters = 4) :
    (monitoredTile counters).Accepted .gemmAllReduceOverlap := by
  rcases size with rfl | rfl <;>
    exact ⟨⟨by decide, by decide, by decide, by decide, by decide, by decide⟩, by decide, by decide, by decide⟩

/-- A sum of segments that wraps around to the tile count, and a width whose `required_c` wraps, pass the checks. -/
example : { monitoredTile 4 with cSEG := [2 ^ 31 - 1, 2 ^ 31 - 1, 3] }.seg_sum = 1 ∧
    { monitoredTile 4 with rLDN := 2 ^ 50 + 1 }.required_c = 16384 := by
  decide

theorem monitoredTile_defined : (monitoredTile 4).Defined .gemmAllReduceOverlap := by
  refine ⟨⟨?_, ?_, ?_⟩, ?_, ?_, ?_, ?_⟩
  · decide
  · decide
  · decide
  · decide
  · decide
  · decide
  · decide

theorem monitoredTile_unsafe : ∃ call : OverlapCall, call.Accepted .gemmAllReduceOverlap ∧
    call.RA.Perm (List.range (call.tileCount .gemmAllReduceOverlap)) ∧ ¬ call.Safe .gemmAllReduceOverlap := by
  have accepted : (monitoredTile 2).Accepted .gemmAllReduceOverlap := monitoredTile_accepted (.inl rfl)
  have permutation : (monitoredTile 2).RA.Perm (List.range ((monitoredTile 2).tileCount .gemmAllReduceOverlap)) := by
    decide
  refine ⟨monitoredTile 2, accepted, permutation, fun safe => ?_⟩
  have fits : (monitoredTile 2).MonitorFits := ((allReduce_safe_iff accepted permutation).mp safe).2
  exact absurd (fits.room rfl (by decide)) (by decide)

/-- Every place that an accepted call forms lies in its tensor exactly when what the checks leave out holds. -/
theorem overlap_safe_iff (call : OverlapCall) (entry : EntryPoint) (accepted : call.Accepted entry)
    (permutation : call.RA.Perm (List.range (call.tileCount entry))) : call.Safe entry ↔ call.Fits entry := by
  cases entry with
  | gemmAllReduceOverlap => exact allReduce_safe_iff accepted permutation
  | gemmReduceScatterOverlap => exact reduceScatter_safe_iff accepted permutation

theorem overlap_safe_iff_monitoredTile : (monitoredTile 4).Safe .gemmAllReduceOverlap :=
  (overlap_safe_iff (monitoredTile 4) .gemmAllReduceOverlap (monitoredTile_accepted (.inr rfl)) (by decide)).mpr
    ⟨monitoredTile_defined, by decide, by decide⟩

end OverlapCall

end Ooverlap.Overlap
