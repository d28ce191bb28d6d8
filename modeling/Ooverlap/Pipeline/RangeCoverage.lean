import Ooverlap.Pipeline.RingSafety

/-! The bytes that the bulk stores of a window range write. -/

namespace Ooverlap.Pipeline

open Lowering (Pointer)
open Plan Thread Word

/-- How often stores write the byte at an address. -/
def timesWritten (stores : List BulkStore) (address : Nat) : Nat :=
  (stores.map fun store => Split.covers store.dst (store.dst + store.bytes) address).sum

theorem timesWritten_append (first second : List BulkStore) (address : Nat) :
    timesWritten (first ++ second) address = timesWritten first address + timesWritten second address := by
  rw [timesWritten, List.map_append, List.sum_append]
  rfl

/-- The whole 16-byte vectors of a transfer; no bulk store reaches the bytes after them. -/
def vectorBytes (totalBytes : Nat) : Nat :=
  totalBytes / 16 * 16

/-- Where a chunk's share of the whole vectors begins. -/
def chunkBoundary (chunkBytes : Nat) (dst : Pointer) (totalBytes : Nat) (chunk : Int) : Nat :=
  dst + min (chunkOffsetBytes chunkBytes chunk) (vectorBytes totalBytes)

section Boundaries

variable {chunkBytes totalBytes : Nat}

theorem chunkOffsetBytes_succ (nonneg : 0 ≤ chunk) :
    chunkOffsetBytes chunkBytes (chunk + 1) = chunkOffsetBytes chunkBytes chunk + chunkBytes := by
  have next : (chunk + 1).toNat = chunk.toNat + 1 := by omega
  rw [chunkOffsetBytes, chunkOffsetBytes, next, Nat.succ_mul]

theorem chunkBoundary_mono (dst : Pointer) (first second : Int) (before : first ≤ second) :
    chunkBoundary chunkBytes dst totalBytes first ≤ chunkBoundary chunkBytes dst totalBytes second := by
  have offsets : chunkOffsetBytes chunkBytes first ≤ chunkOffsetBytes chunkBytes second :=
    Nat.mul_le_mul_right _ (by omega)
  unfold chunkBoundary
  omega

theorem chunkOffsetBytes_aligned (aligned : chunkBytes % 16 = 0) (chunk : Int) :
    chunkOffsetBytes chunkBytes chunk % 16 = 0 := by
  rw [chunkOffsetBytes, Nat.mul_mod, aligned, Nat.mul_zero, Nat.zero_mod]

/-- The bulk part of a chunk reaches from its boundary to the next. -/
theorem chunkBoundary_bulk (aligned : chunkBytes % 16 = 0) (nonneg : 0 ≤ chunk)
    (inside : chunkOffsetBytes chunkBytes chunk < totalBytes) (dst : Pointer) :
    chunkBoundary chunkBytes dst totalBytes chunk = dst + chunkOffsetBytes chunkBytes chunk ∧
      chunkBoundary chunkBytes dst totalBytes (chunk + 1) =
        dst + chunkOffsetBytes chunkBytes chunk +
          chunkSizeBytesAbs chunkBytes chunk totalBytes / 16 * 16 := by
  have offset := chunkOffsetBytes_aligned aligned chunk
  unfold chunkBoundary chunkSizeBytesAbs vectorBytes
  rw [chunkOffsetBytes_succ nonneg, if_neg (by omega)]
  omega

end Boundaries

section Chunks

variable {chunkBytes totalBytes : Nat} (depths : Depths) (span : ChunkSpan chunkBytes totalBytes)
  (op : BulkOp) (srcBase dstBase : Pointer)

/-- The loop over the chunks of a span. -/
def ChunkSpan.loop : ChunkLoop :=
  chunkRangeLoop chunkBytes op srcBase dstBase totalBytes span.beginChunk span.endChunk

theorem stores_timesWritten (positive : 0 < chunkBytes) (aligned : chunkBytes % 16 = 0) (iter : Nat)
    (below : span.beginChunk + iter < span.endChunk) (address : Nat) :
    timesWritten ((span.loop op srcBase dstBase).stores depths iter) address =
      Split.covers (chunkBoundary chunkBytes dstBase totalBytes (span.beginChunk + iter))
        (chunkBoundary chunkBytes dstBase totalBytes (span.beginChunk + iter + 1)) address := by
  have nonneg : 0 ≤ span.beginChunk + iter := Int.add_nonneg span.nonneg (Int.natCast_nonneg iter)
  have inside := span.offset_lt positive iter below
  obtain ⟨starts, ends⟩ := chunkBoundary_bulk aligned nonneg inside dstBase
  have bulk : (span.loop op srcBase dstBase).bulk iter =
      chunkSizeBytesAbs chunkBytes (span.beginChunk + iter) totalBytes / 16 * 16 := rfl
  rw [starts, ends, ← bulk, ChunkLoop.stores]
  split
  · rename_i none
    rw [none, Nat.add_zero, Split.covers_self]
    rfl
  · exact Nat.add_zero _

/-- The stores of the first iterations write the vectors up to the next chunk's boundary, each byte once. -/
theorem storesBefore_timesWritten (positive : 0 < chunkBytes) (aligned : chunkBytes % 16 = 0) (count : Nat)
    (within : span.beginChunk + count ≤ span.endChunk) (address : Nat) :
    timesWritten ((span.loop op srcBase dstBase).storesBefore depths count) address =
      Split.covers (chunkBoundary chunkBytes dstBase totalBytes span.beginChunk)
        (chunkBoundary chunkBytes dstBase totalBytes (span.beginChunk + count)) address := by
  induction count with
  | zero =>
    rw [Int.natCast_zero, Int.add_zero, Split.covers_self]
    rfl
  | succ count ih =>
    rw [ChunkLoop.storesBefore, List.range_succ, List.flatMap_append, timesWritten_append]
    have before := ih (by omega)
    rw [ChunkLoop.storesBefore] at before
    rw [before, List.flatMap_singleton,
      stores_timesWritten depths span op srcBase dstBase positive aligned count (by omega)]
    rw [Split.covers_append (chunkBoundary_mono _ _ _ (by omega)) (chunkBoundary_mono _ _ _ (by omega)),
      Int.natCast_succ, Int.add_assoc]

end Chunks

section Windows

variable {chunkBytes totalBytes : Nat}

/-- Where a window's share of the whole vectors begins. -/
def windowBoundary (chunkBytes : Nat) (dst : Pointer) (totalBytes : Nat) (windowChunks window : Int) : Nat :=
  chunkBoundary chunkBytes dst totalBytes (windowBeginChunk window windowChunks)

theorem windowBeginChunk_mono (windowChunks first second : Int) (before : first ≤ second) :
    windowBeginChunk first windowChunks ≤ windowBeginChunk second windowChunks := by
  by_cases early : first < 0 ∨ windowChunks ≤ 0
  · rw [windowBeginChunk, if_pos early]
    exact windowBeginChunk_nonneg second windowChunks
  · rw [windowBeginChunk, windowBeginChunk, if_neg early, if_neg (by omega)]
    exact Int.mul_le_mul_of_nonneg_right before (by omega)

theorem windowBoundary_mono (dst : Pointer) (windowChunks first second : Int) (before : first ≤ second) :
    windowBoundary chunkBytes dst totalBytes windowChunks first ≤
      windowBoundary chunkBytes dst totalBytes windowChunks second :=
  chunkBoundary_mono dst _ _ (windowBeginChunk_mono windowChunks first second before)

/-- The chunk count did not wrap and reaches the end of the transfer. -/
structure Counts (chunkBytes totalBytes : Nat) : Prop where
  nonneg : 0 ≤ chunkCountForBytes chunkBytes totalBytes
  few : chunkCountForBytes chunkBytes totalBytes ≤ 2 ^ 28
  reaches : totalBytes ≤ chunkOffsetBytes chunkBytes (chunkCountForBytes chunkBytes totalBytes)

theorem counts_of_lt (large : 16 ≤ chunkBytes) (narrow : chunkBytes < 2 ^ 31) (fits : totalBytes < 2 ^ 32) :
    Counts chunkBytes totalBytes := by
  rcases Nat.eq_zero_or_pos totalBytes with rfl | some
  · exact ⟨Int.le_refl 0, Int.zero_le_ofNat _, Nat.zero_le _⟩
  · have positive : 0 < chunkBytes := by omega
    have reaches : totalBytes ≤ chunkBytes * (totalBytes ⌈/⌉ chunkBytes) := le_smul_ceilDiv positive
    have few : totalBytes ⌈/⌉ chunkBytes ≤ 2 ^ 28 := by
      rw [ceilDiv_le_iff_le_mul positive]
      calc
        totalBytes ≤ 16 * 2 ^ 28 := by omega
        _ ≤ chunkBytes * 2 ^ 28 := Nat.mul_le_mul_right _ large
    have count : chunkCountForBytes chunkBytes totalBytes = (totalBytes ⌈/⌉ chunkBytes : Nat) := by
      rw [chunkCountForBytes, ceilDivInt64ToInt_eq some positive (by omega),
        toInt32_of_inInt32 ⟨by omega, by omega⟩]
    refine ⟨count ▸ Int.natCast_nonneg _, count ▸ by omega, ?_⟩
    rw [chunkOffsetBytes, count, Int.toNat_natCast, Nat.mul_comm]
    exact reaches

/-- Chunks past the end of the transfer have no share left. -/
theorem chunkBoundary_clamped (counts : Counts chunkBytes totalBytes) (dst : Pointer) (chunk : Int) :
    chunkBoundary chunkBytes dst totalBytes (min chunk (chunkCountForBytes chunkBytes totalBytes)) =
      chunkBoundary chunkBytes dst totalBytes chunk := by
  rcases Int.le_total chunk (chunkCountForBytes chunkBytes totalBytes) with inside | past
  · rw [Int.min_eq_left inside]
  · have reached : chunkOffsetBytes chunkBytes (chunkCountForBytes chunkBytes totalBytes) ≤
        chunkOffsetBytes chunkBytes chunk := Nat.mul_le_mul_right _ (by omega)
    have complete := counts.reaches
    rw [Int.min_eq_right past]
    unfold chunkBoundary vectorBytes
    omega

/-- What code that has returned leaves: the stores of a loop, all written. -/
structure Stored (op : BulkOp) (first last : Nat) (state : BulkState) : Prop where
  ops : ∀ store ∈ state.stores, store.op = op
  written : ∀ place, place < state.stores.length → place ∈ state.written
  bytes : ∀ address, timesWritten state.stores address = Split.covers first last address

/-- Started on an idle CTA, the code can return, and whenever it does it has stored the bytes of a range
once each and no other byte. -/
structure StoresRange (code : List BulkInstr) (op : BulkOp) (first last : Nat) : Prop where
  returns : ∀ barriers smem raised, ∃ final, Runs bulkMachine code (idleState barriers smem raised) [] final
  stored : ∀ barriers smem raised final, Runs bulkMachine code (idleState barriers smem raised) [] final →
    Stored op first last final

theorem storesRange_nil (op : BulkOp) (empty : last ≤ first) : StoresRange [] op first last where
  returns _ _ _ := ⟨_, .refl⟩
  stored barriers smem raised final run := by
    have pipelined : (chunkRangeLoop 0 op 0 0 0 0 0).Pipelined kernelDepths [] := ChunkLoop.nil_pipelined rfl
    have transferred := (pipelined barriers smem raised [] final run).2 rfl
    have none : final.stores = [] := transferred.stores
    have nowhere : ∀ address, Split.covers first last address = 0 :=
      fun address => Split.covers_eq_zero fun inside => absurd (lt_of_le_of_lt inside.1 inside.2) (by omega)
    refine ⟨?_, transferred.written, ?_⟩
    · rw [none]
      exact nofun
    · intro address
      rw [none, nowhere]
      rfl

theorem stores_op (loop : ChunkLoop) (depths : Depths) (member : store ∈ loop.storesBefore depths count) :
    store.op = loop.op := by
  obtain ⟨iter, _, inStores⟩ := List.mem_flatMap.mp member
  unfold ChunkLoop.stores at inStores
  split at inStores
  · cases inStores
  · obtain ⟨dst, _, rfl⟩ := List.mem_map.mp inStores
    rfl

/-- A chunk range stores the whole vectors of its chunks. -/
theorem runChunkRange_stores (depths : Depths) (positive : 0 < chunkBytes) (aligned : chunkBytes % 16 = 0)
    (span : ChunkSpan chunkBytes totalBytes) (some : span.beginChunk < span.endChunk) (op : BulkOp)
    (srcBase dstBase : Pointer) :
    StoresRange (runChunkRange depths chunkBytes op srcBase dstBase totalBytes span.beginChunk span.endChunk) op
      (chunkBoundary chunkBytes dstBase totalBytes span.beginChunk)
      (chunkBoundary chunkBytes dstBase totalBytes span.endChunk) := by
  have filled := span.filled positive (span.loop op srcBase dstBase) rfl fun _ => rfl
  have started : ¬(span.beginChunk ≥ span.endChunk ∨ totalBytes = 0) := by
    rintro (early | none)
    · omega
    · exact absurd (span.empty none) (by omega)
  have code : runChunkRange depths chunkBytes op srcBase dstBase totalBytes span.beginChunk span.endChunk =
      (span.loop op srcBase dstBase).code depths := if_neg started
  have last : span.beginChunk + (span.loop op srcBase dstBase).chunks = span.endChunk := by
    change span.beginChunk + ((span.endChunk - span.beginChunk).toNat : Int) = _
    omega
  rw [code]
  refine ⟨ChunkLoop.code_returns filled, fun barriers smem raised final run => ?_⟩
  have transferred := (ChunkLoop.code_pipelined filled barriers smem raised [] final run).2 rfl
  have whole := storesBefore_timesWritten depths span op srcBase dstBase positive aligned
    (span.loop op srcBase dstBase).chunks (le_of_eq last)
  rw [last, ← transferred.stores] at whole
  refine ⟨fun store member => ?_, transferred.written, whole⟩
  rw [transferred.stores] at member
  exact stores_op _ depths member

theorem chunkRangeForWindowRange_eq (ordered : beginWindow < endWindow) (windows : 0 < windowChunks)
    (some : 0 < totalChunks) :
    chunkRangeForWindowRange beginWindow endWindow totalChunks windowChunks =
      { beginChunk := min (windowBeginChunk beginWindow windowChunks) totalChunks
        endChunk := min (windowBeginChunk endWindow windowChunks) totalChunks } := by
  have before : windowBeginChunk beginWindow windowChunks ≤ windowBeginChunk endWindow windowChunks :=
    windowBeginChunk_mono windowChunks _ _ (Int.le_of_lt ordered)
  unfold chunkRangeForWindowRange
  rw [if_neg (by omega)]
  dsimp only
  rw [if_neg (by omega)]

/-- The chunks of a window range have the windows' share. -/
theorem windowRange_boundaries (counts : Counts chunkBytes totalBytes) (dst : Pointer)
    (ordered : beginWindow < endWindow) (windows : 0 < windowChunks)
    (some : 0 < chunkCountForBytes chunkBytes totalBytes) :
    let chunks := chunkRangeForWindowRange beginWindow endWindow (chunkCountForBytes chunkBytes totalBytes)
      windowChunks
    chunkBoundary chunkBytes dst totalBytes chunks.beginChunk =
        windowBoundary chunkBytes dst totalBytes windowChunks beginWindow ∧
      chunkBoundary chunkBytes dst totalBytes chunks.endChunk =
        windowBoundary chunkBytes dst totalBytes windowChunks endWindow := by
  rw [chunkRangeForWindowRange_eq ordered windows some]
  exact ⟨chunkBoundary_clamped counts dst _, chunkBoundary_clamped counts dst _⟩

theorem chunkBoundary_empty (dst : Pointer) (chunk : Int) : chunkBoundary chunkBytes dst 0 chunk = dst := by
  unfold chunkBoundary vectorBytes
  omega

/-- A window range stores the whole vectors of its windows. -/
theorem runWindowRange_stores (depths : Depths) (positive : 0 < chunkBytes) (aligned : chunkBytes % 16 = 0)
    (counts : Counts chunkBytes totalBytes) (op : BulkOp) (srcBase dstBase : Pointer)
    (windows : 0 < windowChunks) (beginWindow endWindow : Int) :
    StoresRange (runWindowRange depths chunkBytes op srcBase dstBase totalBytes beginWindow endWindow windowChunks)
      op (windowBoundary chunkBytes dstBase totalBytes windowChunks beginWindow)
      (windowBoundary chunkBytes dstBase totalBytes windowChunks endWindow) := by
  by_cases some : (chunkRangeForWindowRange beginWindow endWindow (chunkCountForBytes chunkBytes totalBytes)
      windowChunks).beginChunk < (chunkRangeForWindowRange beginWindow endWindow
        (chunkCountForBytes chunkBytes totalBytes) windowChunks).endChunk
  · have proper : ¬(beginWindow ≥ endWindow ∨ chunkCountForBytes chunkBytes totalBytes ≤ 0 ∨ windowChunks ≤ 0) := by
      intro none
      rw [chunkRangeForWindowRange, if_pos none] at some
      exact absurd some (Int.lt_irrefl _)
    have stored := runChunkRange_stores depths positive aligned
      (windowSpan chunkBytes totalBytes beginWindow endWindow windowChunks some) some op srcBase dstBase
    obtain ⟨first, last⟩ := windowRange_boundaries counts dstBase (by omega : beginWindow < endWindow) windows
      (by omega)
    rw [← first, ← last]
    exact stored
  · have none : runWindowRange depths chunkBytes op srcBase dstBase totalBytes beginWindow endWindow windowChunks =
        [] := if_pos (Or.inl (Int.not_lt.mp some))
    rw [none]
    apply storesRange_nil
    by_cases ordered : beginWindow < endWindow
    · rcases lt_or_ge 0 (chunkCountForBytes chunkBytes totalBytes) with many | few
      · obtain ⟨first, last⟩ := windowRange_boundaries counts dstBase ordered windows many
        rw [← first, ← last]
        exact chunkBoundary_mono dstBase _ _ (Int.not_lt.mp some)
      · have empty : totalBytes = 0 := by
          have reaches := counts.reaches
          have start : chunkOffsetBytes chunkBytes (chunkCountForBytes chunkBytes totalBytes) = 0 := by
            rw [chunkOffsetBytes, Int.toNat_of_nonpos few, Nat.zero_mul]
          omega
        subst empty
        rw [windowBoundary, windowBoundary, chunkBoundary_empty, chunkBoundary_empty]
    · exact windowBoundary_mono dstBase windowChunks _ _ (Int.not_lt.mp ordered)

end Windows

end Ooverlap.Pipeline
