import Ooverlap.Support.Interleaving
import Ooverlap.Support.RingSlots

/-! Signals deferred to the reuse of their store-pipeline stage. -/

namespace Ooverlap.Overlap.SignalRing

open Relation Interleaving

/-- Addresses are numbers, with 0 for the null pointer. -/
structure OoverlapCoopSignal where
  MM : Nat := 0
  cseg : Nat := 0
  num_segments : Int := 0
  tile : Int := -1
  expected : Int := 1
  deriving DecidableEq

def OoverlapCoopSignal.enabled (signal : OoverlapCoopSignal) : Bool :=
  signal.MM ≠ 0 && signal.cseg ≠ 0 && decide (0 < signal.num_segments) && decide (0 ≤ signal.tile) &&
    decide (0 < signal.expected)

structure StorePipeline where
  Stages : Nat
  nonempty : 1 ≤ Stages

/-- What the issuing lane does for its stores and in `store_tail`. -/
inductive StoreAction where
  | producerCommit
  | remember (signal : OoverlapCoopSignal)
  | advance
  | producerAcquire
  | completeReused
  | producerTail
  | completeStage (stage : Nat)

def storeSubtile (signal : OoverlapCoopSignal) : List StoreAction :=
  [.producerCommit, .remember signal, .advance, .producerAcquire, .completeReused]

/-- One tile, with its signal and the number of subtile stores it issues. -/
structure StoredTile where
  signal : OoverlapCoopSignal
  stores : Nat

def storeTile (tile : StoredTile) : List StoreAction :=
  (List.replicate tile.stores (storeSubtile tile.signal)).flatten

def storeTail (pipeline : StorePipeline) : List StoreAction :=
  .producerTail :: (List.range pipeline.Stages).map .completeStage

def storeProgram (pipeline : StorePipeline) (tiles : List StoredTile) : List StoreAction :=
  tiles.flatMap storeTile ++ storeTail pipeline

/-- A valid pending entry; the number of the store it was remembered for is ghost data. -/
abbrev Pending : Type := OoverlapCoopSignal × Nat

/-- `retired` counts the stores the hardware has finished, in commit order; `delivered` logs the arrivals. -/
structure RingState where
  todo : List StoreAction
  index : Nat := 0
  committed : Nat := 0
  retired : Nat := 0
  pending : Nat → Option Pending := fun _ => none
  delivered : List Pending := []

namespace RingState

def ooverlapSignalDone (state : RingState) (entry : Pending) : RingState :=
  if entry.1.enabled then { state with delivered := state.delivered ++ [entry] } else state

def ooverlapCompleteStage (state : RingState) (stage : Nat) : RingState :=
  match state.pending stage with
  | none => state
  | some entry =>
    let done := state.ooverlapSignalDone entry
    { done with pending := Function.update done.pending stage none }

/-- Arrivals that a tile's counter has received. -/
def arrivals (state : RingState) (tile : Int) : Nat :=
  state.delivered.countP fun entry => entry.1.tile = tile

end RingState

def StorePipeline.next (pipeline : StorePipeline) (index : Nat) : Nat :=
  if index + 1 = pipeline.Stages then 0 else index + 1

/-- When the store pipeline lets a call return. -/
def StorePipeline.returns (pipeline : StorePipeline) (state : RingState) : StoreAction → Prop
  | .producerAcquire => state.committed ≤ state.retired + (pipeline.Stages - 1)
  | .producerTail => state.committed ≤ state.retired
  | _ => True

def StorePipeline.perform (pipeline : StorePipeline) (state : RingState) : StoreAction → RingState
  | .producerCommit => { state with committed := state.committed + 1 }
  | .remember signal =>
    if signal.enabled then
      { state with pending := Function.update state.pending state.index (some (signal, state.committed - 1)) }
    else state
  | .advance => { state with index := pipeline.next state.index }
  | .producerAcquire => state
  | .completeReused => state.ooverlapCompleteStage state.index
  | .producerTail => state
  | .completeStage stage => state.ooverlapCompleteStage stage

inductive RingStep (pipeline : StorePipeline) : RingState → RingState → Prop where
  | retire {state : RingState} (unretired : state.retired < state.committed) :
      RingStep pipeline state { state with retired := state.retired + 1 }
  | perform {state : RingState} (action : StoreAction) (rest : List StoreAction)
      (next : state.todo = action :: rest) (allowed : pipeline.returns state action) :
      RingStep pipeline state (pipeline.perform { state with todo := rest } action)

/-- The signal of every store, in the order the stores are issued. -/
def storeSignals (tiles : List StoredTile) : List OoverlapCoopSignal :=
  tiles.flatMap fun tile => List.replicate tile.stores tile.signal

/-- The lane has this store's signal to deliver. -/
def Issued (signals : List OoverlapCoopSignal) (entry : Pending) : Prop :=
  signals[entry.2]? = some entry.1 ∧ entry.1.enabled = true

section Ring

variable {pipeline : StorePipeline} {signals : List OoverlapCoopSignal} {state after : RingState}

/-- Remembered stores below `count` are pending in their stage until `completed` holds of them, and delivered once then. -/
structure Ring (pipeline : StorePipeline) (signals : List OoverlapCoopSignal) (count : Nat) (completed : Nat → Prop)
    (state : RingState) : Prop where
  held : ∀ stage < pipeline.Stages, ∀ entry, state.pending stage = some entry ↔
    (Issued signals entry ∧ entry.2 < count ∧ ¬ completed entry.2 ∧ entry.2 % pipeline.Stages = stage)
  once : ∀ entry, Issued signals entry → entry.2 < count → completed entry.2 → state.delivered.count entry = 1
  known : ∀ entry ∈ state.delivered, Issued signals entry ∧ entry.2 < count ∧ completed entry.2
  apart : ∀ first second, first < count → second < count → ¬ completed first → ¬ completed second →
    first % pipeline.Stages = second % pipeline.Stages → first = second

theorem StorePipeline.next_mod (pipeline : StorePipeline) (store : Nat) :
    pipeline.next (store % pipeline.Stages) = (store + 1) % pipeline.Stages := by
  have within : store % pipeline.Stages < pipeline.Stages := Nat.mod_lt _ pipeline.nonempty
  rw [StorePipeline.next, Nat.add_mod store 1]
  by_cases last : store % pipeline.Stages + 1 = pipeline.Stages
  · rw [if_pos last]
    rcases Nat.lt_or_ge 1 pipeline.Stages with many | single
    · rw [Nat.mod_eq_of_lt many, last, Nat.mod_self]
    · have one : pipeline.Stages = 1 := Nat.le_antisymm single pipeline.nonempty
      rw [one, Nat.mod_one]
  · have many : 1 % pipeline.Stages = 1 := Nat.mod_eq_of_lt (by omega)
    have inside : store % pipeline.Stages + 1 < pipeline.Stages := by omega
    rw [if_neg last, many, Nat.mod_eq_of_lt inside]

/-- Below the count only the completed stores matter. -/
theorem Ring.congr (ring : Ring pipeline signals count completed state)
    (same : ∀ store < count, (completed store ↔ finished store)) : Ring pipeline signals count finished state where
  held stage within entry := by
    rw [ring.held stage within entry]
    constructor
    · rintro ⟨issued, below, open_, home⟩
      exact ⟨issued, below, fun done => open_ ((same _ below).mpr done), home⟩
    · rintro ⟨issued, below, open_, home⟩
      exact ⟨issued, below, fun done => open_ ((same _ below).mp done), home⟩
  once entry issued below done := ring.once entry issued below ((same _ below).mpr done)
  known entry member := by
    obtain ⟨issued, below, done⟩ := ring.known entry member
    exact ⟨issued, below, (same _ below).mp done⟩
  apart first second firstBelow secondBelow firstOpen secondOpen :=
    ring.apart first second firstBelow secondBelow (fun done => firstOpen ((same _ firstBelow).mp done))
      (fun done => secondOpen ((same _ secondBelow).mp done))

theorem Ring.start (todo : List StoreAction) (completed : Nat → Prop) :
    Ring pipeline signals 0 completed { todo := todo } where
  held _ _ _ := ⟨fun absent => (Option.some_ne_none _ absent.symm).elim, fun below => absurd below.2.1 (Nat.not_lt_zero _)⟩
  once _ _ below _ := absurd below (Nat.not_lt_zero _)
  known _ member := (List.not_mem_nil member).elim
  apart _ _ below _ _ _ _ := absurd below (Nat.not_lt_zero _)

/-- The entries and the log are all a ring speaks about. -/
theorem Ring.frame (ring : Ring pipeline signals count completed state) (pending : after.pending = state.pending)
    (delivered : after.delivered = state.delivered) : Ring pipeline signals count completed after where
  held := by simpa only [pending] using ring.held
  once := by simpa only [delivered] using ring.once
  known := by simpa only [delivered] using ring.known
  apart := ring.apart

theorem Ring.moved (ring : Ring pipeline signals count completed state) (rest : List StoreAction) :
    Ring pipeline signals count completed { state with todo := rest } :=
  ring.frame rfl rfl

/-- The slot of the next store is free once every store that shared it is completed. -/
theorem Ring.free (ring : Ring pipeline signals count completed state)
    (clear : ∀ store < count, ¬ completed store → store % pipeline.Stages ≠ count % pipeline.Stages) :
    state.pending (count % pipeline.Stages) = none := by
  apply Option.eq_none_iff_forall_ne_some.mpr
  intro entry present
  obtain ⟨_, below, open_, home⟩ := (ring.held _ (Nat.mod_lt _ pipeline.nonempty) entry).mp present
  exact clear _ below open_ home

/-- The next store joins the window, remembered when its signal is enabled. -/
theorem Ring.remember (ring : Ring pipeline signals count completed state) (found : signals[count]? = some signal)
    (committed : state.committed = count + 1) (here : state.index = count % pipeline.Stages)
    (open_ : ¬ completed count)
    (clear : ∀ store < count, ¬ completed store → store % pipeline.Stages ≠ count % pipeline.Stages) :
    Ring pipeline signals (count + 1) completed (pipeline.perform state (.remember signal)) := by
  have free := ring.free clear
  have apart : ∀ first second, first < count + 1 → second < count + 1 → ¬ completed first → ¬ completed second →
      first % pipeline.Stages = second % pipeline.Stages → first = second := by
    intro first second firstBelow secondBelow firstOpen secondOpen same
    rcases Nat.lt_succ_iff_lt_or_eq.mp firstBelow with firstOld | rfl
    · rcases Nat.lt_succ_iff_lt_or_eq.mp secondBelow with secondOld | rfl
      · exact ring.apart first second firstOld secondOld firstOpen secondOpen same
      · exact absurd same (clear first firstOld firstOpen)
    · rcases Nat.lt_succ_iff_lt_or_eq.mp secondBelow with secondOld | rfl
      · exact absurd same.symm (clear second secondOld secondOpen)
      · rfl
  have delivered : (pipeline.perform state (.remember signal)).delivered = state.delivered := by
    simp only [StorePipeline.perform]
    split <;> rfl
  refine ⟨fun stage within entry => ?_, fun entry issued below done => ?_, fun entry member => ?_, apart⟩
  · by_cases able : signal.enabled = true
    · have now : (pipeline.perform state (.remember signal)).pending =
          Function.update state.pending (count % pipeline.Stages) (some (signal, count)) := by
        simp only [StorePipeline.perform, if_pos able, committed, here, Nat.add_sub_cancel]
      rw [now]
      by_cases mine : stage = count % pipeline.Stages
      · subst mine
        rw [Function.update_self]
        constructor
        · intro same
          obtain rfl := Option.some.inj same
          exact ⟨⟨found, able⟩, Nat.lt_succ_self _, open_, rfl⟩
        · rintro ⟨issued, below, waiting, home⟩
          have last := apart _ _ below (Nat.lt_succ_self count) waiting open_ home
          obtain ⟨sig, store⟩ := entry
          subst last
          have same := Option.some.inj (found.symm.trans issued.1)
          rw [same]
      · rw [Function.update_of_ne mine, ring.held stage within entry]
        constructor
        · rintro ⟨issued, below, waiting, home⟩
          exact ⟨issued, Nat.lt_succ_of_lt below, waiting, home⟩
        · rintro ⟨issued, below, waiting, home⟩
          have older : entry.2 ≠ count := fun same => mine (home.symm.trans (by rw [same]))
          exact ⟨issued, by omega, waiting, home⟩
    · have now : (pipeline.perform state (.remember signal)).pending = state.pending := by
        simp only [StorePipeline.perform, if_neg able]
      rw [now, ring.held stage within entry]
      constructor
      · rintro ⟨issued, below, waiting, home⟩
        exact ⟨issued, Nat.lt_succ_of_lt below, waiting, home⟩
      · rintro ⟨issued, below, waiting, home⟩
        have older : entry.2 ≠ count := by
          intro same
          have equal : signals[count]? = some entry.1 := same ▸ issued.1
          have sig := Option.some.inj (found.symm.trans equal)
          exact able (sig ▸ issued.2)
        exact ⟨issued, by omega, waiting, home⟩
  · rw [delivered]
    have older : entry.2 ≠ count := fun same => open_ (same ▸ done)
    exact ring.once entry issued (by omega) done
  · rw [delivered] at member
    obtain ⟨issued, below, done⟩ := ring.known entry member
    exact ⟨issued, Nat.lt_succ_of_lt below, done⟩

/-- Completing a stage delivers the store that waits there, and no other. -/
theorem Ring.complete (ring : Ring pipeline signals count completed state) (within : stage < pipeline.Stages) :
    Ring pipeline signals count (fun store => completed store ∨ store % pipeline.Stages = stage)
      (state.ooverlapCompleteStage stage) := by
  have apart : ∀ first second, first < count → second < count →
      ¬ (completed first ∨ first % pipeline.Stages = stage) → ¬ (completed second ∨ second % pipeline.Stages = stage) →
      first % pipeline.Stages = second % pipeline.Stages → first = second :=
    fun first second firstBelow secondBelow firstOpen secondOpen same =>
      ring.apart first second firstBelow secondBelow (fun done => firstOpen (.inl done))
        (fun done => secondOpen (.inl done)) same
  cases present : state.pending stage with
  | none =>
    have now : state.ooverlapCompleteStage stage = state := by
      rw [RingState.ooverlapCompleteStage, present]
    have vacant : ∀ entry, Issued signals entry → entry.2 < count → entry.2 % pipeline.Stages = stage →
        completed entry.2 := by
      intro entry issued below home
      by_contra waiting
      have held := (ring.held stage within entry).mpr ⟨issued, below, waiting, home⟩
      rw [present] at held
      exact Option.some_ne_none _ held.symm
    rw [now]
    refine ⟨fun other inside entry => ?_, fun entry issued below done => ?_, fun entry member => ?_, apart⟩
    · rw [ring.held other inside entry]
      constructor
      · rintro ⟨issued, below, waiting, home⟩
        exact ⟨issued, below, fun done => waiting (done.elim id (vacant entry issued below)), home⟩
      · rintro ⟨issued, below, waiting, home⟩
        exact ⟨issued, below, fun done => waiting (.inl done), home⟩
    · exact ring.once entry issued below (done.elim id (vacant entry issued below))
    · obtain ⟨issued, below, done⟩ := ring.known entry member
      exact ⟨issued, below, .inl done⟩
  | some waiter =>
    obtain ⟨issued, below, waiting, home⟩ := (ring.held stage within waiter).mp present
    have log : (state.ooverlapCompleteStage stage).delivered = state.delivered ++ [waiter] := by
      simp only [RingState.ooverlapCompleteStage, present, RingState.ooverlapSignalDone, if_pos issued.2]
    have now : (state.ooverlapCompleteStage stage).pending = Function.update state.pending stage none := by
      simp only [RingState.ooverlapCompleteStage, present, RingState.ooverlapSignalDone, if_pos issued.2]
    have only : ∀ entry, Issued signals entry → entry.2 < count → ¬ completed entry.2 →
        entry.2 % pipeline.Stages = stage → entry = waiter := by
      intro entry other lower open_ same
      have held := (ring.held stage within entry).mpr ⟨other, lower, open_, same⟩
      exact Option.some.inj (held.symm.trans present)
    refine ⟨fun other inside entry => ?_, fun entry known lower done => ?_, fun entry member => ?_, apart⟩
    · rw [now]
      by_cases mine : other = stage
      · subst mine
        rw [Function.update_self]
        exact ⟨fun absent => (Option.some_ne_none _ absent.symm).elim, fun held => (held.2.2.1 (.inr held.2.2.2)).elim⟩
      · rw [Function.update_of_ne mine, ring.held other inside entry]
        constructor
        · rintro ⟨known, lower, open_, same⟩
          exact ⟨known, lower, fun done => done.elim open_ fun equal => mine (same.symm.trans equal), same⟩
        · rintro ⟨known, lower, open_, same⟩
          exact ⟨known, lower, fun done => open_ (.inl done), same⟩
    · rw [log, List.count_append]
      by_cases fresh : entry = waiter
      · subst fresh
        have absent : entry ∉ state.delivered := fun member => waiting (ring.known entry member).2.2
        rw [List.count_eq_zero_of_not_mem absent, List.count_singleton_self]
      · have old : completed entry.2 := by
          by_contra open_
          exact fresh (only entry known lower open_ (done.resolve_left open_))
        rw [ring.once entry known lower old, List.count_singleton, if_neg]
        exact fun same => fresh (beq_iff_eq.mp same).symm
    · rw [log] at member
      rcases List.mem_append.mp member with old | new
      · obtain ⟨known, lower, done⟩ := ring.known entry old
        exact ⟨known, lower, .inl done⟩
      · obtain rfl := List.mem_singleton.mp new
        exact ⟨issued, below, .inr home⟩

/-- The actions left once a number of stores is through. -/
def actionsFrom (pipeline : StorePipeline) (signals : List OoverlapCoopSignal) (store : Nat) : List StoreAction :=
  (signals.drop store).flatMap storeSubtile ++ storeTail pipeline

def drainsFrom (pipeline : StorePipeline) (stage : Nat) : List StoreAction :=
  (List.range' stage (pipeline.Stages - stage)).map .completeStage

/-- Stores completed when `store` of them are through: all but the last `Stages - 1`. -/
def Reused (pipeline : StorePipeline) (store earlier : Nat) : Prop :=
  earlier + pipeline.Stages ≤ store

theorem actionsFrom_store (found : signals[store]? = some signal) :
    actionsFrom pipeline signals store = storeSubtile signal ++ actionsFrom pipeline signals (store + 1) := by
  obtain ⟨within, rfl⟩ := List.getElem?_eq_some_iff.mp found
  rw [actionsFrom, List.drop_eq_getElem_cons within, List.flatMap_cons, List.append_assoc, actionsFrom]

theorem actionsFrom_end : actionsFrom pipeline signals signals.length = .producerTail :: drainsFrom pipeline 0 := by
  rw [actionsFrom, List.drop_length, List.flatMap_nil, List.nil_append, storeTail, List.range_eq_range', drainsFrom,
    Nat.sub_zero]

theorem drainsFrom_stage (within : stage < pipeline.Stages) :
    drainsFrom pipeline stage = .completeStage stage :: drainsFrom pipeline (stage + 1) := by
  obtain ⟨rest, count⟩ : ∃ rest, pipeline.Stages - stage = rest + 1 := ⟨pipeline.Stages - stage - 1, by omega⟩
  have fewer : pipeline.Stages - (stage + 1) = rest := by omega
  rw [drainsFrom, count, List.range'_succ, List.map_cons, drainsFrom, fewer]

theorem drainsFrom_end (beyond : pipeline.Stages ≤ stage) : drainsFrom pipeline stage = [] := by
  rw [drainsFrom, Nat.sub_eq_zero_of_le beyond, List.range'_zero, List.map_nil]

/-- Where the issuing lane stands in the loop through its stores, or in the drain of the stages. -/
inductive Phase (pipeline : StorePipeline) (signals : List OoverlapCoopSignal) (state : RingState) : Prop where
  | ready (store : Nat) (within : store ≤ signals.length) (todo : state.todo = actionsFrom pipeline signals store)
      (committed : state.committed = store) (index : state.index = store % pipeline.Stages)
      (near : store ≤ state.retired + (pipeline.Stages - 1)) (ring : Ring pipeline signals store (Reused pipeline store) state)
  | remembering (store : Nat) (signal : OoverlapCoopSignal) (found : signals[store]? = some signal)
      (todo : state.todo = .remember signal :: .advance :: .producerAcquire :: .completeReused ::
        actionsFrom pipeline signals (store + 1))
      (committed : state.committed = store + 1) (index : state.index = store % pipeline.Stages)
      (near : store ≤ state.retired + (pipeline.Stages - 1)) (ring : Ring pipeline signals store (Reused pipeline store) state)
  | advancing (store : Nat) (within : store < signals.length)
      (todo : state.todo = .advance :: .producerAcquire :: .completeReused :: actionsFrom pipeline signals (store + 1))
      (committed : state.committed = store + 1) (index : state.index = store % pipeline.Stages)
      (near : store ≤ state.retired + (pipeline.Stages - 1))
      (ring : Ring pipeline signals (store + 1) (Reused pipeline store) state)
  | acquiring (store : Nat) (within : store < signals.length)
      (todo : state.todo = .producerAcquire :: .completeReused :: actionsFrom pipeline signals (store + 1))
      (committed : state.committed = store + 1) (index : state.index = (store + 1) % pipeline.Stages)
      (near : store ≤ state.retired + (pipeline.Stages - 1))
      (ring : Ring pipeline signals (store + 1) (Reused pipeline store) state)
  | completing (store : Nat) (within : store < signals.length)
      (todo : state.todo = .completeReused :: actionsFrom pipeline signals (store + 1))
      (committed : state.committed = store + 1) (index : state.index = (store + 1) % pipeline.Stages)
      (near : store + 1 ≤ state.retired + (pipeline.Stages - 1))
      (ring : Ring pipeline signals (store + 1) (Reused pipeline store) state)
  | draining (stage : Nat) (within : stage ≤ pipeline.Stages) (todo : state.todo = drainsFrom pipeline stage)
      (committed : state.committed = signals.length) (near : signals.length ≤ state.retired)
      (ring : Ring pipeline signals signals.length
        (fun store => Reused pipeline signals.length store ∨ store % pipeline.Stages < stage) state)

/-- Stores not yet reused lie in a window that shares no stage with the next store. -/
theorem reused_clear (store earlier : Nat) (below : earlier < store) (waiting : ¬ Reused pipeline store earlier) :
    earlier % pipeline.Stages ≠ store % pipeline.Stages := by
  unfold Reused at waiting
  exact (RingSlots.slot_ne below (by omega)).symm

/-- Completing the stage of the next store reuses exactly the store `Stages` before it. -/
theorem reused_next (store earlier : Nat) (below : earlier < store) :
    (Reused pipeline (store - 1) earlier ∨ earlier % pipeline.Stages = store % pipeline.Stages) ↔
      Reused pipeline store earlier := by
  constructor
  · rintro (older | home)
    · unfold Reused at older ⊢
      omega
    · by_contra waiting
      exact reused_clear store earlier below waiting home
  · intro reused
    unfold Reused at reused ⊢
    by_cases exact : earlier + pipeline.Stages = store
    · right
      rw [← exact, Nat.add_mod_right]
    · left
      omega

theorem Phase.start (pipeline : StorePipeline) (tiles : List StoredTile) :
    Phase pipeline (storeSignals tiles) { todo := storeProgram pipeline tiles } := by
  refine .ready 0 (Nat.zero_le _) ?_ rfl (Nat.zero_mod _).symm (Nat.zero_le _) (Ring.start _ _)
  have same : ∀ tile, storeTile tile = (List.replicate tile.stores tile.signal).flatMap storeSubtile := by
    intro tile
    rw [storeTile, List.flatMap, List.map_replicate]
  have program : storeProgram pipeline tiles =
      tiles.flatMap (fun tile => (List.replicate tile.stores tile.signal).flatMap storeSubtile) ++ storeTail pipeline := by
    simp only [storeProgram, funext same]
  rw [actionsFrom, List.drop_zero, storeSignals, List.flatMap_assoc]
  exact program

theorem Phase.retire (phase : Phase pipeline signals state) :
    Phase pipeline signals { state with retired := state.retired + 1 } := by
  cases phase with
  | ready store within todo committed index near ring =>
    exact .ready store within todo committed index (by simp only; omega) (ring.frame rfl rfl)
  | remembering store signal found todo committed index near ring =>
    exact .remembering store signal found todo committed index (by simp only; omega) (ring.frame rfl rfl)
  | advancing store within todo committed index near ring =>
    exact .advancing store within todo committed index (by simp only; omega) (ring.frame rfl rfl)
  | acquiring store within todo committed index near ring =>
    exact .acquiring store within todo committed index (by simp only; omega) (ring.frame rfl rfl)
  | completing store within todo committed index near ring =>
    exact .completing store within todo committed index (by simp only; omega) (ring.frame rfl rfl)
  | draining stage within todo committed near ring =>
    exact .draining stage within todo committed (by simp only; omega) (ring.frame rfl rfl)

/-- Remembering and completing touch nothing but the entries and the log. -/
theorem remember_frame (pipeline : StorePipeline) (state : RingState) (signal : OoverlapCoopSignal) :
    ∃ pending, pipeline.perform state (.remember signal) = { state with pending := pending } := by
  by_cases able : signal.enabled = true
  · refine ⟨Function.update state.pending state.index (some (signal, state.committed - 1)), ?_⟩
    simp only [StorePipeline.perform, if_pos able]
  · refine ⟨state.pending, ?_⟩
    simp only [StorePipeline.perform, if_neg able]

theorem complete_frame (state : RingState) (stage : Nat) :
    ∃ pending delivered, state.ooverlapCompleteStage stage =
      { state with pending := pending, delivered := delivered } := by
  unfold RingState.ooverlapCompleteStage RingState.ooverlapSignalDone
  cases state.pending stage with
  | none => exact ⟨state.pending, state.delivered, rfl⟩
  | some entry =>
    by_cases able : entry.1.enabled = true
    · refine ⟨Function.update state.pending stage none, state.delivered ++ [entry], ?_⟩
      simp only [if_pos able]
    · refine ⟨Function.update state.pending stage none, state.delivered, ?_⟩
      simp only [if_neg able]

theorem Phase.perform (phase : Phase pipeline signals state) (next : state.todo = action :: rest)
    (allowed : pipeline.returns state action) :
    Phase pipeline signals (pipeline.perform { state with todo := rest } action) := by
  cases phase with
  | ready store within todo committed index near ring =>
    rw [todo] at next
    rcases Nat.lt_or_eq_of_le within with more | rfl
    · have found : signals[store]? = some signals[store] := List.getElem?_eq_getElem more
      rw [actionsFrom_store found] at next
      obtain ⟨rfl, rfl⟩ := List.cons.inj next
      exact .remembering store signals[store] found rfl (by simp only [StorePipeline.perform, committed]) index near
        (ring.frame rfl rfl)
    · rw [actionsFrom_end] at next
      obtain ⟨rfl, rfl⟩ := List.cons.inj next
      have all : state.committed ≤ state.retired := allowed
      have drained : Ring pipeline signals signals.length
          (fun store => Reused pipeline signals.length store ∨ store % pipeline.Stages < 0) state :=
        ring.congr fun store _ => ⟨.inl, fun done => done.resolve_right (Nat.not_lt_zero _)⟩
      exact .draining 0 (Nat.zero_le _) rfl committed (committed ▸ all) (drained.frame rfl rfl)
  | remembering store signal found todo committed index near ring =>
    obtain ⟨rfl, left⟩ := List.cons.inj (next.symm.trans todo)
    obtain ⟨more, _⟩ := List.getElem?_eq_some_iff.mp found
    have fresh : ¬ Reused pipeline store store := by
      have stages := pipeline.nonempty
      unfold Reused
      omega
    have joined := (ring.moved rest).remember found committed index fresh (reused_clear store)
    obtain ⟨pending, same⟩ := remember_frame pipeline { state with todo := rest } signal
    rw [same] at joined ⊢
    exact .advancing store more left committed index near joined
  | advancing store within todo committed index near ring =>
    obtain ⟨rfl, left⟩ := List.cons.inj (next.symm.trans todo)
    refine .acquiring store within left committed ?_ near (ring.frame rfl rfl)
    simp only [StorePipeline.perform, index, pipeline.next_mod]
  | acquiring store within todo committed index near ring =>
    obtain ⟨rfl, left⟩ := List.cons.inj (next.symm.trans todo)
    have room : state.committed ≤ state.retired + (pipeline.Stages - 1) := allowed
    exact .completing store within left committed index (committed ▸ room) (ring.frame rfl rfl)
  | completing store within todo committed index near ring =>
    obtain ⟨rfl, left⟩ := List.cons.inj (next.symm.trans todo)
    have done := (ring.moved rest).complete (Nat.mod_lt (store + 1) pipeline.nonempty)
    have through := done.congr (reused_next (store + 1))
    rw [← index] at through
    obtain ⟨pending, delivered, same⟩ := complete_frame { state with todo := rest } state.index
    have acted : pipeline.perform { state with todo := rest } .completeReused =
        { state with todo := rest, pending := pending, delivered := delivered } := same
    rw [same] at through
    rw [acted]
    exact .ready (store + 1) within left committed index near through
  | draining stage within todo committed near ring =>
    rcases Nat.lt_or_eq_of_le within with more | rfl
    · rw [todo, drainsFrom_stage more] at next
      obtain ⟨rfl, left⟩ := List.cons.inj next.symm
      have done := (ring.moved rest).complete more
      have through : Ring pipeline signals signals.length
          (fun store => Reused pipeline signals.length store ∨ store % pipeline.Stages < stage + 1)
          (RingState.ooverlapCompleteStage { state with todo := rest } stage) :=
        done.congr fun store _ => by rw [or_assoc, Nat.lt_succ_iff_lt_or_eq]
      obtain ⟨pending, delivered, same⟩ := complete_frame { state with todo := rest } stage
      have acted : pipeline.perform { state with todo := rest } (.completeStage stage) =
          { state with todo := rest, pending := pending, delivered := delivered } := same
      rw [same] at through
      rw [acted]
      exact .draining (stage + 1) more left committed near through
    · rw [todo, drainsFrom_end (Nat.le_refl _)] at next
      exact (List.cons_ne_nil _ _ next.symm).elim

end Ring

section Run

variable {pipeline : StorePipeline} {tiles : List StoredTile} {state after : RingState}

abbrev RingReachable (pipeline : StorePipeline) (tiles : List StoredTile) (state : RingState) : Prop :=
  ReflTransGen (RingStep pipeline) { todo := storeProgram pipeline tiles } state

/-- The stores of the tiles that a counter belongs to, when their signal is enabled. -/
def expectedArrivals (tiles : List StoredTile) (tile : Int) : Nat :=
  (tiles.map fun stored => if stored.signal.enabled && stored.signal.tile = tile then stored.stores else 0).sum

theorem reachable_phase (reached : RingReachable pipeline tiles state) :
    Phase pipeline (storeSignals tiles) state := by
  refine invariant (fun state => Phase pipeline (storeSignals tiles) state) (Phase.start pipeline tiles) ?_ reached
  intro _ _ phase taken
  cases taken with
  | retire _ => exact phase.retire
  | perform action rest next allowed => exact phase.perform next allowed

theorem Phase.known (phase : Phase pipeline signals state) :
    ∀ entry ∈ state.delivered, Issued signals entry ∧ entry.2 < state.retired ∧ state.delivered.count entry = 1 := by
  have stages := pipeline.nonempty
  intro entry member
  cases phase with
  | ready store _ _ _ _ near ring | remembering store _ _ _ _ _ near ring =>
    obtain ⟨issued, below, done⟩ := ring.known entry member
    refine ⟨issued, ?_, ring.once entry issued below done⟩
    unfold Reused at done
    omega
  | advancing store _ _ _ _ near ring | acquiring store _ _ _ _ near ring | completing store _ _ _ _ near ring =>
    obtain ⟨issued, below, done⟩ := ring.known entry member
    refine ⟨issued, ?_, ring.once entry issued below done⟩
    unfold Reused at done
    omega
  | draining stage _ _ _ near ring =>
    obtain ⟨issued, below, done⟩ := ring.known entry member
    exact ⟨issued, Nat.lt_of_lt_of_le below near, ring.once entry issued below done⟩

theorem Phase.vacant (phase : Phase pipeline signals state) (next : state.todo = .remember signal :: rest) :
    state.pending state.index = none := by
  cases phase with
  | ready store within todo _ _ _ _ =>
    rw [next] at todo
    rcases Nat.lt_or_eq_of_le within with more | rfl
    · rw [actionsFrom_store (List.getElem?_eq_getElem more)] at todo
      cases todo
    · rw [actionsFrom_end] at todo
      cases todo
  | remembering store _ _ _ _ index _ ring =>
    rw [index]
    exact ring.free (reused_clear store)
  | advancing _ _ todo _ _ _ _ | acquiring _ _ todo _ _ _ _ | completing _ _ todo _ _ _ _ =>
    cases next.symm.trans todo
  | draining stage within todo _ _ _ =>
    rw [next] at todo
    rcases Nat.lt_or_eq_of_le within with more | rfl
    · rw [drainsFrom_stage more] at todo
      cases todo
    · rw [drainsFrom_end (Nat.le_refl _)] at todo
      cases todo

theorem Phase.drained (phase : Phase pipeline signals state) (ended : state.todo = []) :
    Ring pipeline signals signals.length (fun _ => True) state := by
  cases phase with
  | ready store within todo _ _ _ _ =>
    rw [ended] at todo
    rcases Nat.lt_or_eq_of_le within with more | rfl
    · rw [actionsFrom_store (List.getElem?_eq_getElem more)] at todo
      cases todo
    · rw [actionsFrom_end] at todo
      cases todo
  | remembering _ _ _ todo _ _ _ _ | advancing _ _ todo _ _ _ _ | acquiring _ _ todo _ _ _ _
  | completing _ _ todo _ _ _ _ => cases ended.symm.trans todo
  | draining stage within todo _ _ ring =>
    rw [ended] at todo
    rcases Nat.lt_or_eq_of_le within with more | rfl
    · rw [drainsFrom_stage more] at todo
      cases todo
    · exact ring.congr fun store _ => ⟨fun _ => trivial, fun _ => .inr (Nat.mod_lt _ pipeline.nonempty)⟩

theorem Ring.perm (ring : Ring pipeline signals signals.length (fun _ => True) state) :
    state.delivered.Perm (signals.zipIdx.filter fun entry => entry.1.enabled) := by
  have distinct : (signals.zipIdx.filter fun entry => entry.1.enabled).Nodup := by
    refine List.Nodup.filter _ (List.Nodup.of_map Prod.snd ?_)
    rw [List.zipIdx_map_snd]
    exact List.nodup_range' _
  refine List.perm_iff_count.mpr fun entry => ?_
  by_cases issued : Issued signals entry
  · have listed : entry ∈ signals.zipIdx.filter fun entry => entry.1.enabled :=
      List.mem_filter.mpr ⟨List.mem_zipIdx_iff_getElem?.mpr issued.1, issued.2⟩
    obtain ⟨below, _⟩ := List.getElem?_eq_some_iff.mp issued.1
    rw [ring.once entry issued below trivial, List.count_eq_one_of_mem distinct listed]
  · have absent : entry ∉ state.delivered := fun member => issued (ring.known entry member).1
    have unlisted : entry ∉ signals.zipIdx.filter fun entry => entry.1.enabled := by
      intro member
      obtain ⟨found, able⟩ := List.mem_filter.mp member
      exact issued ⟨List.mem_zipIdx_iff_getElem?.mp found, able⟩
    rw [List.count_eq_zero_of_not_mem absent, List.count_eq_zero_of_not_mem unlisted]

theorem countP_storeSignals (tiles : List StoredTile) (counts : OoverlapCoopSignal → Bool) :
    (storeSignals tiles).countP counts = (tiles.map fun stored => if counts stored.signal then stored.stores else 0).sum := by
  induction tiles with
  | nil => rfl
  | cons stored rest ih =>
    have head := List.countP_replicate (p := counts) (a := stored.signal) (n := stored.stores)
    rw [storeSignals, List.flatMap_cons, List.countP_append, head, List.map_cons, List.sum_cons]
    exact congrArg _ ih

theorem Ring.arrivals (ring : Ring pipeline (storeSignals tiles) (storeSignals tiles).length (fun _ => True) state)
    (tile : Int) : state.arrivals tile = expectedArrivals tiles tile := by
  have signals : (storeSignals tiles).zipIdx.map Prod.fst = storeSignals tiles := List.zipIdx_map_fst _ _
  have counted := countP_storeSignals tiles fun signal => signal.enabled && signal.tile = tile
  rw [RingState.arrivals, ring.perm.countP_eq, List.countP_filter, expectedArrivals, ← counted]
  conv_rhs => rw [← signals, List.countP_map]
  refine List.countP_congr fun entry _ => ?_
  simp only [Function.comp, Bool.and_comm]

theorem RingStep.bounded (within : state.retired ≤ state.committed) (taken : RingStep pipeline state after) :
    after.retired ≤ after.committed ∧
      2 * after.todo.length + (after.committed - after.retired) <
        2 * state.todo.length + (state.committed - state.retired) := by
  cases taken with
  | retire unretired =>
    simp only
    omega
  | perform action rest next allowed =>
    have shorter : state.todo.length = rest.length + 1 := by rw [next, List.length_cons]
    cases action with
    | producerCommit =>
      simp only [StorePipeline.perform]
      omega
    | remember signal =>
      obtain ⟨pending, same⟩ := remember_frame pipeline { state with todo := rest } signal
      rw [same]
      simp only
      omega
    | completeReused =>
      obtain ⟨pending, delivered, same⟩ := complete_frame { state with todo := rest } state.index
      simp only [StorePipeline.perform, same]
      omega
    | completeStage stage =>
      obtain ⟨pending, delivered, same⟩ := complete_frame { state with todo := rest } stage
      simp only [StorePipeline.perform, same]
      omega
    | advance | producerAcquire | producerTail =>
      simp only [StorePipeline.perform]
      omega

theorem ring_progress (pipeline : StorePipeline) (state : RingState) :
    state.todo = [] ∨ ∃ after, RingStep pipeline state after := by
  cases next : state.todo with
  | nil => exact .inl rfl
  | cons action rest =>
    right
    by_cases allowed : pipeline.returns state action
    · exact ⟨_, .perform action rest next allowed⟩
    · refine ⟨_, .retire ?_⟩
      cases action with
      | producerAcquire =>
        simp only [StorePipeline.returns] at allowed
        omega
      | producerTail =>
        simp only [StorePipeline.returns] at allowed
        omega
      | producerCommit | remember | advance | completeReused | completeStage => exact absurd trivial allowed

theorem ring_completes (pipeline : StorePipeline) (tiles : List StoredTile) :
    Completes (RingStep pipeline) { todo := storeProgram pipeline tiles } fun state => state.todo = [] :=
  completes_of_progress (fun state => state.retired ≤ state.committed) (Nat.le_refl _)
    (fun _ _ within taken => (RingStep.bounded within taken).1) _
    (fun state => 2 * state.todo.length + (state.committed - state.retired))
    (fun _ _ within taken => (RingStep.bounded within taken).2) fun state _ => ring_progress pipeline state

/-- What the deferred signals owe to their stores, in a state of the run. -/
structure Deferred (pipeline : StorePipeline) (tiles : List StoredTile) (state : RingState) : Prop where
  issuer : ∀ entry ∈ state.delivered, Issued (storeSignals tiles) entry
  retired : ∀ entry ∈ state.delivered, entry.2 < state.retired
  once : ∀ entry ∈ state.delivered, state.delivered.count entry = 1
  unspoilt : ∀ signal rest, state.todo = .remember signal :: rest → state.pending state.index = none
  emptied : state.todo = [] → ∀ stage < pipeline.Stages, state.pending stage = none
  complete : state.todo = [] → ∀ entry, Issued (storeSignals tiles) entry → state.delivered.count entry = 1
  counted : state.todo = [] → ∀ tile, state.arrivals tile = expectedArrivals tiles tile

/-- In every interleaving of the tiles' stores with their retirement, each deferred signal goes out exactly once and not
before its stores have retired, and the loop runs to its end. -/
theorem deferredSignals_delivered (pipeline : StorePipeline) (tiles : List StoredTile) :
    (∀ state, RingReachable pipeline tiles state → Deferred pipeline tiles state) ∧
      Completes (RingStep pipeline) { todo := storeProgram pipeline tiles } fun state => state.todo = [] := by
  refine ⟨fun state reached => ?_, ring_completes pipeline tiles⟩
  have phase := reachable_phase reached
  refine ⟨fun entry member => (phase.known entry member).1, fun entry member => (phase.known entry member).2.1,
    fun entry member => (phase.known entry member).2.2, fun signal rest next => phase.vacant next, ?_, ?_, ?_⟩
  · intro ended stage within
    apply Option.eq_none_iff_forall_ne_some.mpr
    intro entry present
    exact (((phase.drained ended).held stage within entry).mp present).2.2.1 trivial
  · intro ended entry issued
    obtain ⟨below, _⟩ := List.getElem?_eq_some_iff.mp issued.1
    exact (phase.drained ended).once entry issued below trivial
  · intro ended tile
    exact (phase.drained ended).arrivals tile

def signalOf (tile : Int) : OoverlapCoopSignal where
  MM := 4096
  cseg := 8192
  num_segments := 1
  tile := tile

def twoStages : StorePipeline := ⟨2, by decide⟩

/-- A tile of two stores and one of a single store, which takes the stage of the first again. -/
def twoTiles : List StoredTile := [⟨signalOf 0, 2⟩, ⟨signalOf 1, 1⟩]

theorem deferredSignals_delivered_two : ∃ state, RingReachable twoStages twoTiles state ∧ state.todo = [] ∧
    state.arrivals 0 = 2 ∧ state.arrivals 1 = 1 ∧ ∀ stage < 2, state.pending stage = none := by
  obtain ⟨owed, completes⟩ := deferredSignals_delivered twoStages twoTiles
  obtain ⟨state, reached, ended⟩ := completes _ .refl
  have counted := (owed state reached).counted ended
  exact ⟨state, reached, ended, (counted 0).trans (by decide), (counted 1).trans (by decide),
    (owed state reached).emptied ended⟩

end Run

end Ooverlap.Overlap.SignalRing
