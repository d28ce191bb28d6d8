import Ooverlap.Pipeline.RingSafety

/-! When the flags of signalled windows wait for the writes of their chunks. -/

namespace Ooverlap.Pipeline

open Lowering (Pointer)
open Thread

/-- A window range with its chunk counts and flags. -/
structure SignalList where
  beginWindow : Int
  endWindow : Int
  totalChunks : Int
  windowChunks : Int
  flags : Pointer
  base : Int

namespace SignalList

variable (list : SignalList)

def windows : Nat := (list.endWindow - list.beginWindow).toNat

def chunks : ChunkRange :=
  chunkRangeForWindowRange list.beginWindow list.endWindow list.totalChunks list.windowChunks

def endChunk (index : Nat) : Int :=
  windowEndChunkClamped (list.beginWindow + index) list.totalChunks list.windowChunks

def flag (index : Nat) : Option Nat :=
  windowFlag list.flags list.base (list.beginWindow + index)

/-- The flags of the first windows, in order. -/
def announced (count : Nat) : List Nat :=
  (List.range count).flatMap fun index => (list.flag index).toList

/-- The cursor once `count` windows have been published. -/
def cursorAt (count : Nat) : WindowSignalCursor where
  endWindow := list.endWindow
  nextWindow := list.beginWindow + count
  nextWindowEndChunk := windowEndChunkClamped (min (list.beginWindow + count) (list.endWindow - 1))
    list.totalChunks list.windowChunks
  totalChunks := list.totalChunks
  windowChunks := list.windowChunks
  readyWindowBase := list.base
  windowReadyFlags := list.flags

variable {list} {depths : Depths}

theorem announced_succ (count : Nat) :
    list.announced (count + 1) = list.announced count ++ (list.flag count).toList := by
  simp [announced, List.range_succ]

theorem announced_le (short : count ≤ total) : list.announced count <+: list.announced total := by
  obtain ⟨more, rfl⟩ := Nat.exists_eq_add_of_le short
  unfold announced
  rw [List.range_add, List.flatMap_append]
  exact List.prefix_append _ _

theorem mem_announced : number ∈ list.announced count ↔ ∃ index, index < count ∧ list.flag index = some number := by
  simp [announced]

theorem flag_inj (first : list.flag index = some number) (second : list.flag other = some number) :
    index = other := by
  have same := windowFlag_inj first second
  omega

theorem announced_nodup (count : Nat) : (list.announced count).Nodup := by
  induction count with
  | zero => exact List.nodup_nil
  | succ count ih =>
    rw [announced_succ]
    apply ih.append
    · cases list.flag count <;> simp
    · intro number old new
      obtain ⟨index, below, found⟩ := mem_announced.mp old
      have same := flag_inj found (Option.mem_toList.mp new)
      omega

theorem cursorAt_endChunk (more : count < list.windows) :
    (list.cursorAt count).nextWindowEndChunk = list.endChunk count := by
  unfold windows at more
  simp only [cursorAt, endChunk]
  rw [Int.min_eq_left (by omega)]

/-- One call publishes the next window if its last chunk is safe. -/
theorem advance_cursorAt (safe : Int) (count : Nat) :
    advanceWindowSignalCursor safe (list.cursorAt count) =
      if list.flags = 0 ∨ list.windows ≤ count ∨ safe < list.endChunk count then ([], list.cursorAt count)
      else ((list.flag count).toList.map .publish, list.cursorAt (count + 1)) := by
  have finished : (list.cursorAt count).nextWindow ≥ (list.cursorAt count).endWindow ↔ list.windows ≤ count := by
    simp only [cursorAt, windows]
    omega
  unfold advanceWindowSignalCursor
  simp only [finished]
  by_cases null : list.flags = 0
  · simp [null, cursorAt]
  · rcases Nat.lt_or_ge count list.windows with more | done
    · rw [cursorAt_endChunk more]
      by_cases early : safe < list.endChunk count
      · simp [early, null, cursorAt]
      · have shift : list.beginWindow + (count + 1 : Nat) = list.beginWindow + count + 1 := by omega
        have next : (list.cursorAt (count + 1)).nextWindowEndChunk =
            if list.beginWindow + count + 1 < list.endWindow then
              windowEndChunkClamped (list.beginWindow + count + 1) list.totalChunks list.windowChunks
            else list.endChunk count := by
          unfold windows at more
          simp only [cursorAt, shift]
          by_cases within : list.beginWindow + count + 1 < list.endWindow
          · rw [if_pos within, Int.min_eq_left (by omega)]
          · rw [if_neg within, Int.min_eq_right (by omega), endChunk]
            congr 1
            omega
        have advanced : list.cursorAt (count + 1) =
            { list.cursorAt count with
              nextWindow := list.beginWindow + count + 1
              nextWindowEndChunk := (list.cursorAt (count + 1)).nextWindowEndChunk } := by
          simp only [cursorAt, shift]
        have free : ¬ (list.flags = 0 ∨ list.windows ≤ count ∨ safe < list.endChunk count) :=
          not_or.mpr ⟨null, not_or.mpr ⟨Nat.not_le.mpr more, early⟩⟩
        rw [if_neg free, advanced, next, if_neg (show ¬ (list.cursorAt count).windowReadyFlags = 0 from null),
          if_neg (Nat.not_le.mpr more), if_neg early]
        rfl
    · simp [done, null, cursorAt]

/-- What a nonempty chunk range says about its windows. -/
structure Proper (list : SignalList) : Prop where
  windows : list.beginWindow < list.endWindow
  windowChunks : 0 < list.windowChunks
  chunks : list.chunks.beginChunk < list.chunks.endChunk
  beginChunk : list.chunks.beginChunk = windowBeginChunk list.beginWindow list.windowChunks
  endChunk : list.chunks.endChunk = min (windowBeginChunk list.endWindow list.windowChunks) list.totalChunks

theorem proper (some : list.chunks.beginChunk < list.chunks.endChunk) : Proper list := by
  have here := some
  unfold chunks chunkRangeForWindowRange at here
  split at here
  · exact absurd here (Int.lt_irrefl _)
  · rename_i apart
    have shape : list.chunks = chunkRangeForWindowRange list.beginWindow list.endWindow list.totalChunks
      list.windowChunks := rfl
    unfold chunkRangeForWindowRange at shape
    rw [if_neg apart] at shape
    dsimp only at here shape
    split at here
    · exact absurd here (Int.lt_irrefl _)
    · rename_i ordered
      rw [if_neg ordered] at shape
      refine ⟨by omega, by omega, some, ?_, by rw [shape]⟩
      rw [shape]
      dsimp only
      omega

theorem endChunk_neg (index : Nat) (earlier : list.beginWindow + index < 0) : list.endChunk index ≤ 0 := by
  unfold endChunk windowEndChunkClamped windowEndChunkRaw
  rw [if_pos (.inl earlier)]
  exact Int.min_le_left _ _

namespace Proper

variable (proper : Proper list)

include proper

theorem beginChunk_nonneg : 0 ≤ list.chunks.beginChunk := by
  rw [proper.beginChunk]
  exact windowBeginChunk_nonneg _ _

theorem endChunk_le : list.chunks.endChunk ≤ list.totalChunks := by
  rw [proper.endChunk]
  exact Int.min_le_right _ _

theorem endChunkRaw_eq (index : Nat) (later : 0 ≤ list.beginWindow + index) :
    list.endChunk index = min ((list.beginWindow + index + 1) * list.windowChunks) list.totalChunks := by
  have := proper.windowChunks
  unfold SignalList.endChunk windowEndChunkClamped windowEndChunkRaw
  rw [if_neg (by omega)]

/-- Windows with chunks end one after the other, up to the end of the transfer. -/
theorem endChunk_lt (before : index < later) (positive : 0 < list.endChunk index)
    (below : list.endChunk index < list.totalChunks) : list.endChunk index < list.endChunk later := by
  have size := proper.windowChunks
  have start : 0 ≤ list.beginWindow + index := by
    by_contra earlier
    have := endChunk_neg index (show list.beginWindow + index < 0 by omega)
    omega
  have further : (list.beginWindow + index + 1) * list.windowChunks + list.windowChunks ≤
      (list.beginWindow + later + 1) * list.windowChunks := by
    have next : (list.beginWindow + index + 1) * list.windowChunks + list.windowChunks =
        (list.beginWindow + index + 1 + 1) * list.windowChunks := by
      rw [Int.add_mul (list.beginWindow + index + 1) 1, Int.one_mul]
    rw [next]
    exact Int.mul_le_mul_of_nonneg_right (by omega) (by omega)
  rw [proper.endChunkRaw_eq index start] at below ⊢
  rw [proper.endChunkRaw_eq later (by omega)]
  omega

theorem endChunk_mono (before : index ≤ later) : list.endChunk index ≤ list.endChunk later := by
  have size := proper.windowChunks
  have := proper.beginChunk_nonneg
  have := proper.endChunk_le
  have := proper.chunks
  rcases Int.lt_or_le (list.beginWindow + later) 0 with earlier | start
  · have zero : list.endChunk later = min 0 list.totalChunks := by
      unfold SignalList.endChunk windowEndChunkClamped windowEndChunkRaw
      rw [if_pos (.inl earlier)]
    have := endChunk_neg index (show list.beginWindow + index < 0 by omega)
    omega
  · have nonneg : 0 ≤ (list.beginWindow + later + 1) * list.windowChunks :=
      Int.mul_nonneg (by omega) (by omega)
    rcases Int.lt_or_le (list.beginWindow + index) 0 with first | here
    · have := endChunk_neg index first
      rw [proper.endChunkRaw_eq later start]
      omega
    · have further : (list.beginWindow + index + 1) * list.windowChunks ≤
          (list.beginWindow + later + 1) * list.windowChunks :=
        Int.mul_le_mul_of_nonneg_right (by omega) (by omega)
      rw [proper.endChunkRaw_eq later start, proper.endChunkRaw_eq index here]
      omega

end Proper

/-- How many windows the first calls publish: the window of an index is out once there were more calls
than windows before it, and its last chunk is `loadFillDepth + fillDepth` behind the loads. -/
structure Advanced (list : SignalList) (depths : Depths) (calls count : Nat) : Prop where
  within : count ≤ list.windows
  null : list.flags = 0 → count = 0
  exact : list.flags ≠ 0 → ∀ index, index < count ↔
    index < list.windows ∧ index < calls ∧
      list.endChunk index - list.chunks.beginChunk + depths.loadFillDepth + depths.fillDepth ≤
        calls + depths.stageDepth

theorem advanced_zero : Advanced list depths 0 0 where
  within := Nat.zero_le _
  null _ := rfl
  exact _ index := by simp

/-- What the call after `calls` others passes as safe. -/
def safeChunk (list : SignalList) (depths : Depths) (calls : Nat) : Int :=
  list.chunks.beginChunk + (calls + depths.stageDepth - depths.loadFillDepth - depths.fillDepth + 1)

section Call

variable {calls count : Nat} (advanced : Advanced list depths calls count) (proper : Proper list)
  (more : list.chunks.beginChunk + (calls + depths.stageDepth) < list.chunks.endChunk)

include advanced proper

theorem Advanced.stays
    (held : list.flags = 0 ∨ list.windows ≤ count ∨ list.safeChunk depths calls < list.endChunk count) :
    Advanced list depths (calls + 1) count where
  within := advanced.within
  null := advanced.null
  exact := by
    intro present index
    rw [advanced.exact present index]
    have here := advanced.exact present index
    have next := advanced.exact present count
    unfold safeChunk at held
    constructor
    · rintro ⟨inside, early, behind⟩
      exact ⟨inside, by omega, by omega⟩
    · rintro ⟨inside, early, behind⟩
      rcases held with null | all | safe
      · exact absurd null present
      · exact here.mp (by omega)
      · by_contra out
        have past : count ≤ index := by
          by_contra below
          exact out (here.mp (by omega))
        have := proper.endChunk_mono past
        omega

include more

theorem Advanced.publishes
    (free : ¬ (list.flags = 0 ∨ list.windows ≤ count ∨ list.safeChunk depths calls < list.endChunk count)) :
    Advanced list depths (calls + 1) (count + 1) where
  within := by omega
  null null := absurd (.inl null) free
  exact := by
    obtain ⟨present, rest⟩ := not_or.mp free
    obtain ⟨inside, safe⟩ := not_or.mp rest
    intro _ index
    have here := advanced.exact present index
    have next := advanced.exact present count
    have within := depths.within
    have low := proper.beginChunk_nonneg
    have top := proper.endChunk_le
    unfold safeChunk at safe
    have few : count ≤ calls := by
      by_contra many
      have := (advanced.exact present calls).mp (by omega)
      omega
    constructor
    · intro below
      rcases Nat.lt_succ_iff_lt_or_eq.mp below with old | rfl
      · obtain ⟨listed, early, behind⟩ := here.mp old
        exact ⟨listed, by omega, by omega⟩
      · exact ⟨by omega, by omega, by omega⟩
    · rintro ⟨listed, early, behind⟩
      by_contra out
      have after : count < index := by omega
      have fill := depths.fill_pos
      -- The window of `count` was not due one call earlier, so its last chunk is exactly the safe one.
      have due : list.endChunk count - list.chunks.beginChunk + depths.loadFillDepth + depths.fillDepth =
          calls + depths.stageDepth + 1 := by
        have notYet : ¬ (count < list.windows ∧ count < calls ∧
            list.endChunk count - list.chunks.beginChunk + depths.loadFillDepth + depths.fillDepth ≤
              calls + depths.stageDepth) := fun listed => Nat.lt_irrefl _ (next.mpr listed)
        omega
      have := proper.endChunk_lt after (by omega) (by omega)
      omega

end Call

theorem cursorAt_inj (same : list.cursorAt first = list.cursorAt second) : first = second := by
  have next := congrArg WindowSignalCursor.nextWindow same
  simp only [cursorAt] at next
  omega

/-- A window that the loop publishes before its last wait. -/
def Early (list : SignalList) (depths : Depths) (index : Nat) : Prop :=
  index + depths.stageDepth < list.chunks.endChunk - list.chunks.beginChunk ∧
    list.endChunk index - list.chunks.beginChunk + depths.loadFillDepth + depths.fillDepth ≤
      list.chunks.endChunk - list.chunks.beginChunk

/-- What the cursor and the published flags are once `count` chunks are loaded. -/
def Published (list : SignalList) (depths : Depths) (loop : ChunkLoop) (count : Nat)
    (cursor : WindowSignalCursor) (published observed : List Nat) : Prop :=
  observed = [] ∧ count ≤ loop.chunks ∧ ∃ out, cursor = list.cursorAt out ∧
    Advanced list depths (count - depths.stageDepth) out ∧ published = list.announced out

/-- The flags come in order, and only those of early windows before everything is transferred. -/
def InOrder (list : SignalList) (depths : Depths) (loop : ChunkLoop) (state : BulkState) : Prop :=
  ∃ out, out ≤ list.windows ∧ state.published = list.announced out ∧
    ∀ index, index < out → list.Early depths index ∨ loop.Transferred depths state

section Hooks

variable {loop : ChunkLoop} (sized : loop.chunks = (list.chunks.endChunk - list.chunks.beginChunk).toNat)

include sized

theorem Advanced.early (advanced : Advanced list depths (count - depths.stageDepth) out)
    (short : count ≤ loop.chunks) (index : Nat) (below : index < out) : list.Early depths index := by
  by_cases null : list.flags = 0
  · have := advanced.null null
    omega
  · obtain ⟨_, few, behind⟩ := (advanced.exact null index).mp below
    unfold Early
    omega

theorem published_guards (count : Nat) (cursor : WindowSignalCursor) :
    ChunkLoop.Guards (InOrder list depths loop) count (Published list depths loop count cursor) := by
  rintro state _ ⟨_, short, out, _, advanced, published⟩
  exact ⟨out, advanced.within, published, fun index below => .inl (advanced.early sized short index below)⟩

/-- A call of the cursor, from one number of loaded chunks to the next. -/
theorem advance_triple (proper : Proper list) (progress : ChunkLoop.Progress) (iter : Nat)
    (here : progress.loaded = iter + depths.loadFillDepth) (more : progress.loaded < loop.chunks)
    (reused : depths.stageDepth ≤ progress.loaded) (writes : Bool) :
    ChunkLoop.LoopHolds loop depths (InOrder list depths loop) writes
      (fun cursor => ChunkLoop.Held loop depths progress none []
        (Published list depths loop progress.loaded cursor))
      (advanceWindowSignalCursor (list.chunks.beginChunk + (iter - depths.fillDepth + 1)))
      (fun cursor => ChunkLoop.Held loop depths progress none []
        (Published list depths loop (progress.loaded + 1) cursor)) := by
  intro cursor
  have safe : list.chunks.beginChunk + (iter - depths.fillDepth + 1) =
      list.safeChunk depths (progress.loaded - depths.stageDepth) := by
    unfold safeChunk
    omega
  have calls : progress.loaded + 1 - depths.stageDepth = progress.loaded - depths.stageDepth + 1 := by omega
  have before : ChunkLoop.Guards (InOrder list depths loop) progress.loaded
      (Published list depths loop progress.loaded cursor) := published_guards sized _ _
  rw [safe]
  by_cases known : ∃ out, cursor = list.cursorAt out ∧
      Advanced list depths (progress.loaded - depths.stageDepth) out
  · obtain ⟨out, rfl, advanced⟩ := known
    rw [advance_cursorAt]
    split
    · rename_i held
      have stays := advanced.stays proper held
      apply (Triple.nil (ChunkLoop.Held.steady before)).weaken (fun _ held => held)
      rintro state ⟨ring, none, _, other, same, _, published⟩
      obtain rfl := cursorAt_inj same
      exact ⟨ring, none, more, out, rfl, calls ▸ stays, published⟩
    · rename_i free
      have publishes := advanced.publishes proper (by omega) free
      cases found : list.flag out with
      | none =>
        apply (Triple.nil (ChunkLoop.Held.steady before)).weaken (fun _ held => held)
        rintro state ⟨ring, none, _, other, same, _, published⟩
        obtain rfl := cursorAt_inj same
        refine ⟨ring, none, more, out + 1, rfl, calls ▸ publishes, ?_⟩
        rw [published, announced_succ, found, Option.toList_none, List.append_nil]
      | some number =>
        apply ChunkLoop.publish_triple before
        · exact (published_guards sized _ _).mono (Nat.le_succ _)
        · rintro published observed ⟨none, _, other, same, _, listed⟩
          obtain rfl := cursorAt_inj same
          refine ⟨none, more, out + 1, rfl, calls ▸ publishes, ?_⟩
          rw [listed, announced_succ, found, Option.toList_some]
  · apply Triple.vacuous
    rintro state ⟨_, _, _, out, same, advanced, _⟩
    exact known ⟨out, same, advanced⟩

theorem signalHooks_rules (proper : Proper list) (writes : Bool) :
    ChunkLoop.HookRules loop depths (InOrder list depths loop) writes
      (signalHooks depths list.chunks.beginChunk) (Published list depths loop) (Published list depths loop) where
  guards := published_guards sized
  readyGuards := published_guards sized
  beforeLoad progress _ := Emit.Holds.skip fun cursor => ChunkLoop.Held.steady (published_guards sized _ cursor)
  afterReuseWait progress iter here more reused := advance_triple sized proper progress iter here more reused writes
  noReuse := by
    rintro count cursor published observed more first ⟨none, _, out, same, advanced, listed⟩
    refine ⟨none, more, out, same, ?_, listed⟩
    have calls : count + 1 - depths.stageDepth = count - depths.stageDepth := by omega
    rwa [calls]

end Hooks

section Remaining

variable {loop : ChunkLoop}

/-- Everything is transferred, and the first windows are published. -/
abbrev Out (list : SignalList) (depths : Depths) (loop : ChunkLoop) (out : Nat) : BulkState → Prop :=
  ChunkLoop.Complete loop depths fun published _ => published = list.announced out

theorem out_steady (within : out ≤ list.windows) :
    Steady bulkMachine (ChunkLoop.Watched loop depths (InOrder list depths loop)) (Out list depths loop out) :=
  ChunkLoop.Complete.steady fun _ complete =>
    ⟨out, within, complete.1.2, fun _ _ => .inr complete.transferred⟩

theorem publish_out (out : Nat) (more : out < list.windows) :
    ChunkLoop.LoopTriple loop depths (InOrder list depths loop) true (Out list depths loop out)
      ((list.flag out).toList.map .publish) (Out list depths loop (out + 1)) := by
  have before : Steady bulkMachine (ChunkLoop.Watched loop depths (InOrder list depths loop))
      (Out list depths loop out) := out_steady (Nat.le_of_lt more)
  cases found : list.flag out with
  | none =>
    apply (Triple.nil before).weaken (fun _ complete => complete)
    rintro state ⟨⟨ring, published⟩, written⟩
    refine ⟨⟨ring, ?_⟩, written⟩
    rw [published, announced_succ, found, Option.toList_none, List.append_nil]
  | some number =>
    apply Triple.single before (out_steady more)
    · rintro state _ ⟨⟨ring, published⟩, written⟩ ⟨⟩
      refine ⟨⟨{ ring with }, ?_⟩, written⟩
      rw [published, announced_succ, found, Option.toList_some]
    · intro state _ calm
      exact performs rfl ⟨calm.landed, calm.read, calm.written⟩

theorem publishAll_out (out rest : Nat) (within : out + rest ≤ list.windows) :
    ChunkLoop.LoopTriple loop depths (InOrder list depths loop) true (Out list depths loop out)
      ((List.range rest).flatMap fun index => (list.flag (out + index)).toList.map .publish)
      (Out list depths loop (out + rest)) := by
  induction rest with
  | zero => exact Triple.nil (out_steady within)
  | succ rest ih =>
    rw [List.range_succ, List.flatMap_append, List.flatMap_singleton]
    exact (ih (by omega)).append (publish_out (out + rest) (by omega))

theorem publishRemaining_eq (out : Nat) :
    publishRemainingWindows (list.cursorAt out) =
      (List.range (list.windows - out)).flatMap fun index => (list.flag (out + index)).toList.map .publish := by
  have count : (list.endWindow - (list.beginWindow + out)).toNat = list.windows - out := by
    unfold windows
    omega
  unfold publishRemainingWindows
  simp only [cursorAt, count, publishWindow, flag, Int.natCast_add, Int.add_assoc]

theorem remaining_triple (cursor : WindowSignalCursor) :
    ChunkLoop.LoopTriple loop depths (InOrder list depths loop) true
      (ChunkLoop.Complete loop depths (Published list depths loop loop.chunks cursor))
      (publishRemainingWindows cursor) (Out list depths loop list.windows) := by
  by_cases known : ∃ out, cursor = list.cursorAt out ∧ out ≤ list.windows
  · obtain ⟨out, rfl, within⟩ := known
    rw [publishRemaining_eq]
    have all : ChunkLoop.LoopTriple loop depths (InOrder list depths loop) true (Out list depths loop out) _
        (Out list depths loop (out + (list.windows - out))) :=
      publishAll_out out (list.windows - out) (Nat.le_of_eq (Nat.add_sub_cancel' within))
    rw [Nat.add_sub_cancel' within] at all
    apply all.weaken _ fun _ complete => complete
    rintro state ⟨⟨ring, _, _, other, same, _, published⟩, written⟩
    obtain rfl := cursorAt_inj same
    exact ⟨⟨ring, published⟩, written⟩
  · apply Triple.vacuous
    rintro state ⟨⟨_, _, _, out, same, advanced, _⟩, _⟩
    exact known ⟨out, same, advanced.within⟩

theorem makeCursor_eq (proper : Proper list) :
    makeWindowSignalCursor list.beginWindow list.endWindow list.totalChunks list.windowChunks list.flags list.base =
      list.cursorAt 0 := by
  have := proper.windows
  unfold makeWindowSignalCursor cursorAt
  rw [Int.min_eq_left (by omega)]
  simp

/-- The code of the signalled loop where there are chunks. -/
def signalCode (list : SignalList) (depths : Depths) (loop : ChunkLoop) : List BulkInstr :=
  let finished := loop.body depths (signalHooks depths list.chunks.beginChunk) (list.cursorAt 0)
  finished.1 ++ waitComplete ++ publishRemainingWindows finished.2

theorem start_held (list : SignalList) (depths : Depths) (loop : ChunkLoop) (barriers : Nat → Mbarrier)
    (smem : Nat → Option Tile) (raised : Finset Nat) :
    loop.WarmHeld depths (Published list depths loop) 0 (list.cursorAt 0) (idleState barriers smem raised) := by
  refine ⟨ChunkLoop.ring_idle loop depths barriers smem raised, rfl, Nat.zero_le _, 0, rfl, ?_, rfl⟩
  rw [Nat.zero_sub]
  exact advanced_zero

variable (sized : loop.chunks = (list.chunks.endChunk - list.chunks.beginChunk).toNat)

include sized

theorem signalBody_triple (proper : Proper list) (filled : loop.Filled) (writes : Bool) :
    ChunkLoop.LoopTriple loop depths (InOrder list depths loop) writes
      (loop.WarmHeld depths (Published list depths loop) 0 (list.cursorAt 0))
      (loop.body depths (signalHooks depths list.chunks.beginChunk) (list.cursorAt 0)).1
      (loop.Held depths (loop.iterProgress depths loop.chunks) none [] (Published list depths loop loop.chunks
        (loop.body depths (signalHooks depths list.chunks.beginChunk) (list.cursorAt 0)).2)) := by
  have rules : ChunkLoop.HookRules loop depths (InOrder list depths loop) writes
      (signalHooks depths list.chunks.beginChunk) (Published list depths loop) (Published list depths loop) :=
    signalHooks_rules sized proper writes
  exact (ChunkLoop.body_holds rules filled (list.cursorAt 0)).weaken (fun _ held => held)
    fun state held => (ChunkLoop.iterHeld_chunks loop depths _ state).mp held

theorem signalCode_triple (proper : Proper list) (filled : loop.Filled) :
    ChunkLoop.LoopTriple loop depths (InOrder list depths loop) true
      (loop.WarmHeld depths (Published list depths loop) 0 (list.cursorAt 0)) (signalCode list depths loop)
      (Out list depths loop list.windows) := by
  apply Triple.append _ (remaining_triple _)
  apply (signalBody_triple sized proper filled true).append
  exact ChunkLoop.waitComplete_triple (published_guards sized _ _)

end Remaining

/-- A published flag means written chunks, and flags are published at most once and in order. -/
structure Signalled (list : SignalList) (depths : Depths) (loop : ChunkLoop) (state : BulkState) : Prop where
  delivered : ∀ index number, list.flag index = some number → number ∈ state.published →
    ∀ iter, iter < loop.chunks →
      (list.chunks.beginChunk + iter) / list.windowChunks = list.beginWindow + index →
      ∀ store ∈ loop.stores depths iter, ∃ place, state.stores[place]? = some store ∧ place ∈ state.written
  once : state.published.Nodup
  ordered : state.published <+: list.announced list.windows

/-- Every execution keeps flags behind writes, and publishes all of them before it returns. -/
def SignalsHold (list : SignalList) (depths : Depths) (loop : ChunkLoop) (code : List BulkInstr) : Prop :=
  ∀ barriers smem raised rest state, Runs bulkMachine code (idleState barriers smem raised) rest state →
    list.Signalled depths loop state ∧ (rest = [] → state.published = list.announced list.windows)

/-- A list with flags has chunks, and none of its flagged windows with chunks comes out early. -/
def Late (list : SignalList) (depths : Depths) : Prop :=
  ∀ index, index < list.windows → ∀ number, list.flag index = some number →
    list.chunks.beginChunk < list.chunks.endChunk ∧
      (0 ≤ list.beginWindow + index → ¬ list.Early depths index)

section Outcome

variable {loop : ChunkLoop}

theorem InOrder.signalled (ordered : list.InOrder depths loop state) (proper : Proper list)
    (late : ∀ index, index < list.windows → ∀ number, list.flag index = some number →
      0 ≤ list.beginWindow + index → ¬ list.Early depths index) : list.Signalled depths loop state := by
  obtain ⟨out, within, published, known⟩ := ordered
  refine ⟨?_, published ▸ announced_nodup out, published ▸ announced_le within⟩
  intro index number found member iter inside window store stored
  rw [published] at member
  obtain ⟨other, below, same⟩ := mem_announced.mp member
  obtain rfl := flag_inj found same
  rcases known index below with early | transferred
  · have := proper.beginChunk_nonneg
    have nonneg : 0 ≤ (list.chunks.beginChunk + iter) / list.windowChunks :=
      Int.ediv_nonneg (by omega) (Int.le_of_lt proper.windowChunks)
    exact absurd early (late index (by omega) number found (by omega))
  · have listed : store ∈ state.stores := by
      rw [transferred.stores]
      exact List.mem_flatMap.mpr ⟨iter, List.mem_range.mpr inside, stored⟩
    obtain ⟨place, short, rfl⟩ := List.getElem_of_mem listed
    exact ⟨place, List.getElem?_eq_getElem short, transferred.written place short⟩

/-- A window that the loop publishes early has whole chunks in the middle of the loop. -/
theorem early_chunk (proper : Proper list) (early : list.Early depths index)
    (later : 0 ≤ list.beginWindow + index) :
    ∃ iter : Nat, list.chunks.beginChunk + (iter + 1 : Nat) < list.chunks.endChunk ∧
      (list.chunks.beginChunk + iter) / list.windowChunks = list.beginWindow + index := by
  have size := proper.windowChunks
  have fill := depths.fill_pos
  have top := proper.endChunk_le
  obtain ⟨_, behind⟩ := early
  have next : (list.beginWindow + index + 1) * list.windowChunks =
      (list.beginWindow + index) * list.windowChunks + list.windowChunks := by
    rw [Int.add_mul, Int.one_mul]
  have start : list.chunks.beginChunk ≤ (list.beginWindow + index) * list.windowChunks := by
    have low := Int.mul_nonneg later (Int.le_of_lt size)
    rw [proper.beginChunk]
    unfold windowBeginChunk
    split
    · exact low
    · exact Int.mul_le_mul_of_nonneg_right (by omega) (Int.le_of_lt size)
  rw [proper.endChunkRaw_eq index later, next] at behind
  refine ⟨((list.beginWindow + index) * list.windowChunks - list.chunks.beginChunk).toNat, by omega, ?_⟩
  have whole : list.chunks.beginChunk +
      (((list.beginWindow + index) * list.windowChunks - list.chunks.beginChunk).toNat : Nat) =
        (list.beginWindow + index) * list.windowChunks := by omega
  rw [whole, Int.mul_ediv_cancel _ (Int.ne_of_gt size)]

variable (sized : loop.chunks = (list.chunks.endChunk - list.chunks.beginChunk).toNat)

include sized

/-- The hardware may hold every write back until the last wait, with the early flags already out. -/
theorem early_run (proper : Proper list) (filled : loop.Filled) (early : list.Early depths index)
    (inside : index < list.windows) (found : list.flag index = some number) :
    ∃ rest state, Runs bulkMachine (signalCode list depths loop)
        (idleState (fun _ => .init 1) (fun _ => none) ∅) rest state ∧
      number ∈ state.published ∧ state.written = ∅ := by
  have start := start_held list depths loop (fun _ => .init 1) (fun _ => none) ∅
  have quiet : Calm false (idleState (fun _ => .init 1) (fun _ => none) ∅) := ⟨nofun, nofun, rfl⟩
  obtain ⟨final, run, calm⟩ := (signalBody_triple sized proper filled false).finishes _ start quiet
  obtain ⟨_, _, _, out, _, advanced, published⟩ :=
    ((signalBody_triple sized proper filled false).always _ start _ _ run).2 rfl
  have present : list.flags ≠ 0 := by
    intro null
    simp [flag, windowFlag, null] at found
  obtain ⟨more, behind⟩ := early
  have below : index < out := (advanced.exact present index).mpr ⟨inside, by omega, by omega⟩
  have extended := run.extend (waitComplete ++ publishRemainingWindows
    (loop.body depths (signalHooks depths list.chunks.beginChunk) (list.cursorAt 0)).2)
  rw [← List.append_assoc] at extended
  exact ⟨_, final, extended, published ▸ mem_announced.mpr ⟨index, below, found⟩, calm.written⟩

end Outcome

end SignalList

section WindowRange

variable (depths : Depths) {chunkBytes : Nat} (op : BulkOp) (srcBase dstBase : Pointer) (totalBytes : Nat)
  (beginWindow endWindow windowChunks : Int) (flags : Pointer) (base : Int)

/-- The windows a call of the signalled loop is given. -/
def signalList (chunkBytes totalBytes : Nat) (beginWindow endWindow windowChunks : Int) (flags : Pointer)
    (base : Int) : SignalList where
  beginWindow := beginWindow
  endWindow := endWindow
  totalChunks := chunkCountForBytes chunkBytes totalBytes
  windowChunks := windowChunks
  flags := flags
  base := base

/-- The chunk loop of such a call. -/
def signalLoop (chunkBytes : Nat) (op : BulkOp) (srcBase dstBase : Pointer) (totalBytes : Nat)
    (list : SignalList) : ChunkLoop :=
  chunkRangeLoop chunkBytes op srcBase dstBase totalBytes list.chunks.beginChunk list.chunks.endChunk

theorem runWindowRangeSignal_eq (list : SignalList)
    (here : list = signalList chunkBytes totalBytes beginWindow endWindow windowChunks flags base) :
    runWindowRangeSignal depths chunkBytes op srcBase dstBase totalBytes beginWindow endWindow windowChunks flags
        base =
      if list.chunks.beginChunk ≥ list.chunks.endChunk then []
      else list.signalCode depths (signalLoop chunkBytes op srcBase dstBase totalBytes list) := by
  by_cases empty : list.chunks.beginChunk ≥ list.chunks.endChunk
  · rw [if_pos empty]
    subst here
    exact if_pos empty
  · rw [if_neg empty]
    unfold SignalList.signalCode
    rw [← SignalList.makeCursor_eq (SignalList.proper (Int.not_le.mp empty))]
    subst here
    exact if_neg empty

theorem signalLoop_bulk (list : SignalList) (span : ChunkSpan chunkBytes totalBytes)
    (starts : span.beginChunk = list.chunks.beginChunk) (ends : span.endChunk = list.chunks.endChunk)
    (positive : 0 < chunkBytes) (aligned : chunkBytes % 16 = 0) (iter : Nat)
    (below : list.chunks.beginChunk + (iter + 1 : Nat) < list.chunks.endChunk) :
    (signalLoop chunkBytes op srcBase dstBase totalBytes list).bulk iter ≠ 0 := by
  have size := span.size_eq positive iter (by omega)
  rw [starts] at size
  have bulk : (signalLoop chunkBytes op srcBase dstBase totalBytes list).bulk iter =
      chunkSizeBytesAbs chunkBytes (list.chunks.beginChunk + iter) totalBytes / 16 * 16 := rfl
  rw [bulk, size]
  omega

/-- Where the signals hold, flagged lists have chunks and none of their windows comes out early. -/
theorem late_of_signalsHold (positive : 0 < chunkBytes) (aligned : chunkBytes % 16 = 0)
    (holds : (signalList chunkBytes totalBytes beginWindow endWindow windowChunks flags base).SignalsHold depths
      (signalLoop chunkBytes op srcBase dstBase totalBytes
        (signalList chunkBytes totalBytes beginWindow endWindow windowChunks flags base))
      (runWindowRangeSignal depths chunkBytes op srcBase dstBase totalBytes beginWindow endWindow windowChunks
        flags base)) :
    (signalList chunkBytes totalBytes beginWindow endWindow windowChunks flags base).Late depths := by
  intro index inside number found
  let list := signalList chunkBytes totalBytes beginWindow endWindow windowChunks flags base
  rw [runWindowRangeSignal_eq depths op srcBase dstBase totalBytes beginWindow endWindow windowChunks flags base
    list rfl] at holds
  have some : list.chunks.beginChunk < list.chunks.endChunk := by
    by_contra empty
    rw [if_pos (Int.not_lt.mp empty)] at holds
    have none := (holds (fun _ => .init 1) (fun _ => none) ∅ [] _ .refl).2 rfl
    have listed := SignalList.mem_announced.mpr ⟨index, inside, found⟩
    rw [← none] at listed
    cases listed
  refine ⟨some, fun later early => ?_⟩
  rw [if_neg (Int.not_le.mpr some)] at holds
  let span := windowSpan chunkBytes totalBytes beginWindow endWindow windowChunks some
  have proper := SignalList.proper some
  obtain ⟨rest, state, run, published, held⟩ := SignalList.early_run rfl proper
    (span.filled positive (signalLoop chunkBytes op srcBase dstBase totalBytes list) rfl fun _ => rfl)
    early inside found
  obtain ⟨iter, below, window⟩ := SignalList.early_chunk proper early later
  have bulk := signalLoop_bulk op srcBase dstBase totalBytes list span rfl rfl positive aligned iter below
  have chunks : iter < (signalLoop chunkBytes op srcBase dstBase totalBytes list).chunks := by
    simp only [signalLoop, chunkRangeLoop]
    omega
  have delivered := (holds _ _ _ rest state run).1.delivered index number found published iter chunks window
  unfold ChunkLoop.stores at delivered
  rw [if_neg bulk] at delivered
  obtain ⟨place, _, written⟩ := delivered _ (List.mem_map_of_mem (List.mem_singleton_self _))
  rw [held] at written
  cases written

/-- The signalled loop publishes each flag once, in order and behind the writes of its window, exactly when
the list has chunks if it has flags, and no flagged window comes out before the last wait. -/
theorem runWindowRangeSignal_iff (positive : 0 < chunkBytes) (aligned : chunkBytes % 16 = 0) :
    (signalList chunkBytes totalBytes beginWindow endWindow windowChunks flags base).SignalsHold depths
        (signalLoop chunkBytes op srcBase dstBase totalBytes
          (signalList chunkBytes totalBytes beginWindow endWindow windowChunks flags base))
        (runWindowRangeSignal depths chunkBytes op srcBase dstBase totalBytes beginWindow endWindow windowChunks
          flags base) ↔
      (signalList chunkBytes totalBytes beginWindow endWindow windowChunks flags base).Late depths := by
  constructor
  · intro holds
    exact late_of_signalsHold depths op srcBase dstBase totalBytes beginWindow endWindow windowChunks flags base
      positive aligned holds
  · intro late barriers smem raised rest state run
    let list := signalList chunkBytes totalBytes beginWindow endWindow windowChunks flags base
    rw [runWindowRangeSignal_eq depths op srcBase dstBase totalBytes beginWindow endWindow windowChunks flags base
      list rfl] at run
    by_cases some : list.chunks.beginChunk < list.chunks.endChunk
    · rw [if_neg (Int.not_le.mpr some)] at run
      let span := windowSpan chunkBytes totalBytes beginWindow endWindow windowChunks some
      have proper := SignalList.proper some
      have filled : (signalLoop chunkBytes op srcBase dstBase totalBytes list).Filled :=
        span.filled positive _ rfl fun _ => rfl
      obtain ⟨⟨_, ordered⟩, ends⟩ := (SignalList.signalCode_triple rfl proper filled).always _
        (SignalList.start_held list depths _ barriers smem raised) rest state run
      exact ⟨ordered.signalled proper fun index inside number found => (late index inside number found).2,
        fun empty => (ends empty).1.2⟩
    · rw [if_pos (Int.not_lt.mp some)] at run
      have silent : list.announced list.windows = [] := by
        apply List.eq_nil_iff_forall_not_mem.mpr
        intro number listed
        obtain ⟨index, inside, found⟩ := SignalList.mem_announced.mp listed
        exact some (late index inside number found).1
      have steady : Steady bulkMachine (fun _ => True) (fun state : BulkState => state.published = []) :=
        ⟨fun _ _ => trivial, fun _ _ none moved => (ChunkLoop.engine_flags moved).1.trans none⟩
      obtain ⟨-, none⟩ := steady.runs_nil rfl run
      refine ⟨⟨?_, ?_, ?_⟩, fun _ => none.trans silent.symm⟩
      · intro index number _ member
        rw [none] at member
        cases member
      · rw [none]
        exact List.nodup_nil
      · rw [none]
        exact List.nil_prefix

/-- Nine chunks a window: the first of two windows stays behind the last wait, so the flags keep their promise. -/
theorem runWindowRangeSignal_late :
    (signalList 8192 147456 0 2 9 4096 0).SignalsHold kernelDepths
      (signalLoop 8192 .reduce 8192 524288 147456 (signalList 8192 147456 0 2 9 4096 0))
      (runWindowRangeSignal kernelDepths 8192 .reduce 8192 524288 147456 0 2 9 4096 0) := by
  refine (runWindowRangeSignal_iff kernelDepths .reduce 8192 524288 147456 0 2 9 4096 0 (by decide) (by decide)).mpr ?_
  intro index inside number _
  have few : index < 2 := inside
  obtain rfl | rfl : index = 0 ∨ index = 1 := by omega
  · exact ⟨by decide, fun _ early => absurd early.2 (by decide)⟩
  · exact ⟨by decide, fun _ early => absurd early.2 (by decide)⟩

/-- Seventeen windows of one chunk each: the first flag is out while no write has completed. -/
theorem runWindowRangeSignal_early :
    ¬ (signalList 8192 139264 0 17 1 4096 0).SignalsHold kernelDepths
      (signalLoop 8192 .reduce 8192 524288 139264 (signalList 8192 139264 0 17 1 4096 0))
      (runWindowRangeSignal kernelDepths 8192 .reduce 8192 524288 139264 0 17 1 4096 0) := by
  intro holds
  have late := late_of_signalsHold kernelDepths .reduce 8192 524288 139264 0 17 1 4096 0 (by decide)
    (by decide) holds 0 (by decide) 0 (by decide)
  exact late.2 (by decide) ⟨by decide, by decide⟩

end WindowRange

end Ooverlap.Pipeline
