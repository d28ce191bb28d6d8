import Ooverlap.Plan.Listing
import Ooverlap.Semantics.Footprint
import Ooverlap.Support.Stages

/-! Plans whose tasks come in stages: signals that order every conflict make all runs agree. -/

namespace Ooverlap.Semantics

open Ooverlap.Plan Ooverlap.Plan.AllReduce Ooverlap.Interleaving

section Unmarked

variable {M : Type} [AddCommMonoid M] (dtypeSize : Nat) (plan : TransferPlan)

/-- The program of a plan, its tasks without phases and terminal marks. -/
def unmarkedProgram : Program Int TransferTask (Shared M) where
  code rank := (rankTasks plan rank).map TransferTask.unmarked
  enabled := taskEnabled
  effect := taskEffect dtypeSize

/-- Phases and terminal marks change no run. -/
theorem unmarkedProgram_step :
    (unmarkedProgram (M := M) dtypeSize plan).Step = (planProgram dtypeSize plan).Step := by
  funext before after
  refine propext ⟨?_, ?_⟩
  · rintro ⟨rank, task, next, allowed⟩
    have found : ((rankTasks plan rank)[before.pc rank]?).map TransferTask.unmarked = some task := by
      rw [← List.getElem?_map]
      exact next
    obtain ⟨original, here, rfl⟩ := Option.map_eq_some_iff.mp found
    exact .perform rank original here allowed
  · rintro ⟨rank, task, next, allowed⟩
    have found : ((unmarkedProgram (M := M) dtypeSize plan).code rank)[before.pc rank]? = some task.unmarked := by
      change ((rankTasks plan rank).map TransferTask.unmarked)[before.pc rank]? = some task.unmarked
      change (rankTasks plan rank)[before.pc rank]? = some task at next
      rw [List.getElem?_map, next]
      rfl
    exact .perform rank task.unmarked found allowed

theorem unmarkedProgram_reachable (shared : Shared M) (state : State Int (Shared M)) :
    (unmarkedProgram dtypeSize plan).Reachable shared state ↔ (planProgram dtypeSize plan).Reachable shared state := by
  unfold Program.Reachable
  rw [unmarkedProgram_step]

theorem unmarkedProgram_finished (state : State Int (Shared M)) :
    (unmarkedProgram dtypeSize plan).Finished state ↔ (planProgram dtypeSize plan).Finished state := by
  refine forall_congr' fun rank => ?_
  change _ = ((rankTasks plan rank).map TransferTask.unmarked).length ↔ _
  rw [List.length_map]
  rfl

end Unmarked

section Signals

variable {M : Type} [AddCommMonoid M] {dtypeSize : Nat} {plan : TransferPlan}

/-- A phase seen on a channel was published there by its owner. -/
theorem published_origin {mem : BufferId → Nat → M} {state : State Int (Shared M)}
    (ownSignals : ∀ rank, ∀ task ∈ rankTasks plan rank, task.op = .readyPublish → task.readyRank = rank)
    (reached : (planProgram dtypeSize plan).Reachable (entryState mem) state)
    (real : 0 ≤ phase) (seen : phase ≤ state.shared.published owner channel) :
    ∃ position < state.pc owner, ∃ task, (rankTasks plan owner)[position]? = some task ∧
      task.op = .readyPublish ∧ task.readyChannel = channel ∧ phase ≤ task.readyPhase := by
  refine invariant
    (fun state : State Int (Shared M) => ∀ owner channel phase, 0 ≤ phase →
      phase ≤ state.shared.published owner channel →
      ∃ position < state.pc owner, ∃ task, (rankTasks plan owner)[position]? = some task ∧
        task.op = .readyPublish ∧ task.readyChannel = channel ∧ phase ≤ task.readyPhase)
    ?_ ?_ reached owner channel phase real seen
  · intro owner channel phase real seen
    change phase ≤ -1 at seen
    omega
  · rintro before _ origin ⟨actor, action, next, allowed⟩ owner channel phase real seen
    have grown : before.pc owner ≤ Function.update before.pc actor (before.pc actor + 1) owner := by
      by_cases same : owner = actor
      · subst same
        simp
      · simp [Function.update_of_ne same]
    by_cases earlier : phase ≤ before.shared.published owner channel
    · obtain ⟨position, performed, task, found, facts⟩ := origin owner channel phase real earlier
      exact ⟨position, lt_of_lt_of_le performed grown, task, found, facts⟩
    · change phase ≤ (taskEffect dtypeSize action before.shared).published owner channel at seen
      rw [taskEffect_published] at seen
      split at seen
      · rename_i publishes
        have isOwner := ownSignals actor action (List.mem_of_getElem? next) publishes
        rw [isOwner] at seen
        by_cases sameOwner : owner = actor
        · subst sameOwner
          by_cases sameChannel : channel = action.readyChannel
          · subst sameChannel
            simp only [publishPhase, Function.update_self] at seen
            refine ⟨before.pc owner, by simp, action, next, publishes, rfl, ?_⟩
            exact (le_max_iff.mp seen).resolve_left earlier
          · simp only [publishPhase, Function.update_self, Function.update_of_ne sameChannel] at seen
            exact absurd seen earlier
        · simp only [publishPhase, Function.update_of_ne sameOwner] at seen
          exact absurd seen earlier
      · exact absurd seen earlier

end Signals

/-- Before stage `later` the rank `second` waits for a phase that `first` publishes only after
stage `earlier`. -/
def Signalled (staged : Staged Int TransferTask) (earlier : Nat) (first : Int) (later : Nat) (second : Int) : Prop :=
  ∃ waiting < later, ∃ wait ∈ staged.stage waiting second, wait.op = .readyWait ∧ wait.readyRank = first ∧
    0 ≤ wait.readyPhase ∧ ∀ index ≤ earlier, ∀ task ∈ staged.stage index first, task.op = .readyPublish →
      task.readyChannel = wait.readyChannel → task.readyPhase < wait.readyPhase

/-- Whoever is about to read a watched byte finds it written, and nobody will write it again. -/
def ReadsSettled (dtypeSize : Nat) (plan : TransferPlan) (watched : Int → BufferId → Nat → Prop) : Prop :=
  ∀ (M : Type) [AddCommMonoid M] (mem : BufferId → Nat → M) (state : State Int (Shared M)),
    (planProgram dtypeSize plan).Reachable (entryState mem) state →
    ∀ reader task, (rankTasks plan reader)[state.pc reader]? = some task → ∀ buffer byte, readsByte task buffer byte →
      watched reader buffer byte →
      (∃ writer position other, position < state.pc writer ∧ (rankTasks plan writer)[position]? = some other ∧
        writesByte other buffer byte) ∧
      ∀ writer position other, (rankTasks plan writer)[position]? = some other → writesByte other buffer byte →
        position < state.pc writer

/-- Tasks in stages: every wait has its publish in an earlier stage, and a signal separates any two
stages of different ranks that conflict. -/
structure StageOrder (dtypeSize : Nat) (worldSize : Int) (staged : Staged Int TransferTask) : Prop where
  listed : ∀ rank ∉ intRange worldSize, ∀ index, staged.stage index rank = []
  aligned : ∀ index < staged.count, ∀ rank, ∀ task ∈ staged.stage index rank, Aligned dtypeSize task
  ownSignals : ∀ index < staged.count, ∀ rank, ∀ task ∈ staged.stage index rank,
    task.op = .readyPublish → task.readyRank = rank
  answered : ∀ index < staged.count, ∀ rank, ∀ wait ∈ staged.stage index rank, wait.op = .readyWait →
    ∃ earlier < index, ∃ publish ∈ staged.stage earlier wait.readyRank, publish.op = .readyPublish ∧
      publish.readyRank = wait.readyRank ∧ publish.readyChannel = wait.readyChannel ∧
      wait.readyPhase ≤ publish.readyPhase
  ordered : ∀ earlier later first second, first ≠ second → earlier ≤ later → later < staged.count →
    (∀ task ∈ staged.stage earlier first, ∀ other ∈ staged.stage later second, NoConflict task other) ∨
      earlier < later ∧ Signalled staged earlier first later second

/-- A plan whose tasks are those of ordered stages. -/
structure StagedPlan (dtypeSize : Nat) (worldSize : Int) (plan : TransferPlan) (staged : Staged Int TransferTask) :
    Prop extends StageOrder dtypeSize worldSize staged where
  code : ∀ rank, (rankTasks plan rank).map TransferTask.unmarked = staged.code rank

namespace StagedPlan

open Staged

variable {dtypeSize : Nat} {worldSize : Int} {plan : TransferPlan} {staged : Staged Int TransferTask}
variable {M : Type} [AddCommMonoid M] {mem : BufferId → Nat → M} {state : State Int (Shared M)}

/-- The task of a plan at a position of its stages. -/
theorem task_at (stagedPlan : StagedPlan dtypeSize worldSize plan staged) (earlier : index < staged.count)
    (found : (staged.stage index rank)[place]? = some task) :
    ∃ original, (rankTasks plan rank)[staged.offset rank index + place]? = some original ∧
      original.unmarked = task := by
  have here : ((rankTasks plan rank).map TransferTask.unmarked)[staged.offset rank index + place]? = some task := by
    rw [stagedPlan.code, Staged.code, code_at staged.count earlier (List.getElem?_eq_some_iff.mp found).1, found]
  rw [List.getElem?_map] at here
  exact Option.map_eq_some_iff.mp here

/-- A task of a plan stands in some stage. -/
theorem stage_of (stagedPlan : StagedPlan dtypeSize worldSize plan staged)
    (found : (rankTasks plan rank)[position]? = some task) :
    ∃ index < staged.count, ∃ place, (staged.stage index rank)[place]? = some task.unmarked ∧
      position = staged.offset rank index + place := by
  have here : (staged.code rank)[position]? = some task.unmarked := by
    rw [← stagedPlan.code, List.getElem?_map, found]
    rfl
  obtain ⟨within, _⟩ := List.getElem?_eq_some_iff.mp here
  obtain ⟨index, earlier, place, inside, same⟩ := exists_stage staged.count within
  rw [same, Staged.code, code_at staged.count earlier inside] at here
  exact ⟨index, earlier, place, here, same⟩

theorem publishes_own (stagedPlan : StagedPlan dtypeSize worldSize plan staged) (rank : Int) :
    ∀ task ∈ rankTasks plan rank, task.op = .readyPublish → task.readyRank = rank := by
  intro task member publish
  obtain ⟨position, bound, found⟩ := List.getElem_of_mem member
  obtain ⟨index, earlier, place, inStage, _⟩ := stagedPlan.stage_of (List.getElem?_eq_some_iff.mpr ⟨bound, found⟩)
  exact stagedPlan.ownSignals index earlier rank task.unmarked (List.mem_of_getElem? inStage) publish

/-- A signal of an earlier stage has been seen by whoever passed that stage. -/
theorem seen (stagedPlan : StagedPlan dtypeSize worldSize plan staged)
    (reached : (planProgram dtypeSize plan).Reachable (entryState mem) state) (inRange : index < staged.count)
    (member : task ∈ staged.stage index rank) (through : staged.offset rank (index + 1) ≤ state.pc rank)
    (signals : task.op = .readyPublish ∨ task.op = .readyWait) :
    task.readyPhase ≤ state.shared.published task.readyRank task.readyChannel := by
  obtain ⟨place, bound, found⟩ := List.getElem_of_mem member
  obtain ⟨original, here, rfl⟩ := stagedPlan.task_at inRange (List.getElem?_eq_some_iff.mpr ⟨bound, found⟩)
  rw [offset_succ] at through
  have performed : staged.offset rank index + place < state.pc rank := by omega
  have visible : SignalSeen original state.shared := performed_signal reached performed here
  exact visible signals

theorem awaits (stagedPlan : StagedPlan dtypeSize worldSize plan staged) (mem : BufferId → Nat → M)
    (inRange : later < staged.count) (signalled : Signalled staged earlier first later second) :
    (unmarkedProgram dtypeSize plan).Awaits (entryState mem) staged earlier first later second := by
  intro state reachedUnmarked arrived
  have reached := (unmarkedProgram_reachable dtypeSize plan _ state).mp reachedUnmarked
  obtain ⟨waiting, before, wait, member, op, owner, real, late⟩ := signalled
  have through := le_trans (staged.offset_mono second (Nat.succ_le_of_lt before)) arrived
  have visible := stagedPlan.seen reached (lt_trans before inRange) member through (Or.inr op)
  rw [owner] at visible
  obtain ⟨position, performed, task, found, publish, channel, phase⟩ :=
    published_origin stagedPlan.publishes_own reached real visible
  obtain ⟨index, _, place, inStage, same⟩ := stagedPlan.stage_of found
  by_contra behind
  have atMost : index ≤ earlier := by
    by_contra after
    have grown := staged.offset_mono first (Nat.succ_le_of_lt (not_le.mp after))
    rw [Nat.succ_eq_add_one] at grown
    omega
  exact absurd (late index atMost _ (List.mem_of_getElem? inStage) publish channel) (not_lt.mpr phase)

theorem synchronized (stagedPlan : StagedPlan dtypeSize worldSize plan staged) (mem : BufferId → Nat → M) :
    (unmarkedProgram dtypeSize plan).Synchronized (entryState mem) staged (intRange worldSize) NoConflict where
  distinct := intRange_nodup worldSize
  code := stagedPlan.code
  listed := stagedPlan.listed
  ordered earlier later first second apart before inRange :=
    (stagedPlan.ordered earlier later first second apart before inRange).imp id fun both =>
      ⟨both.1, stagedPlan.awaits mem inRange both.2⟩
  unblocked state reachedUnmarked index inRange arrived rank _ task member := by
    have reached := (unmarkedProgram_reachable dtypeSize plan _ state).mp reachedUnmarked
    change taskEnabled task state.shared
    unfold taskEnabled
    split
    · rename_i waits
      obtain ⟨earlier, before, publish, isPublish, op, owner, channel, phase⟩ :=
        stagedPlan.answered index inRange rank task member waits
      have through := le_trans (staged.offset_mono task.readyRank (Nat.succ_le_of_lt before)) (arrived task.readyRank)
      have visible := stagedPlan.seen reached (lt_trans before inRange) isPublish through (Or.inl op)
      rw [owner, channel] at visible
      exact le_trans phase visible
    · trivial

theorem completes (stagedPlan : StagedPlan dtypeSize worldSize plan staged) (mem : BufferId → Nat → M) :
    Completes (planProgram dtypeSize plan).Step (Program.start (entryState mem)) (planProgram dtypeSize plan).Finished := by
  have unmarked := (stagedPlan.synchronized mem).completes
  rw [unmarkedProgram_step] at unmarked
  intro state reached
  obtain ⟨final, run, finished⟩ := unmarked state reached
  exact ⟨final, run, (unmarkedProgram_finished dtypeSize plan final).mp finished⟩

theorem raceFree (stagedPlan : StagedPlan dtypeSize worldSize plan staged) : RaceFree dtypeSize plan := by
  intro M _ mem state reached first second apart task other next nextOther
  have reachedUnmarked := (unmarkedProgram_reachable dtypeSize plan _ state).mpr reached
  have unmarked : ∀ {rank : Int} {task : TransferTask}, (rankTasks plan rank)[state.pc rank]? = some task →
      ((unmarkedProgram (M := M) dtypeSize plan).code rank)[state.pc rank]? = some task.unmarked := by
    intro rank task next
    change ((rankTasks plan rank).map TransferTask.unmarked)[state.pc rank]? = some task.unmarked
    rw [List.getElem?_map, next]
    rfl
  have free : NoConflict task.unmarked other.unmarked :=
    (stagedPlan.synchronized mem).next_independent (fun _ _ => NoConflict.symm) reachedUnmarked apart
      (unmarked next) (unmarked nextOther)
  exact free

/-- If the stages write what is watched before they read it, no run reads it too early or writes it too late. -/
theorem readsSettled (stagedPlan : StagedPlan dtypeSize worldSize plan staged) {watched : Int → BufferId → Nat → Prop}
    (filled : ∀ later < staged.count, ∀ reader, ∀ task ∈ staged.stage later reader, ∀ buffer byte,
      readsByte task buffer byte → watched reader buffer byte →
      ∃ earlier < staged.count, ∃ writer, ∃ other ∈ staged.stage earlier writer, writesByte other buffer byte)
    (before : ∀ earlier < staged.count, ∀ later < staged.count, ∀ writer reader,
      ∀ other ∈ staged.stage earlier writer, ∀ task ∈ staged.stage later reader, ∀ buffer byte,
      writesByte other buffer byte → readsByte task buffer byte → watched reader buffer byte → earlier < later) :
    ReadsSettled dtypeSize plan watched := by
  intro M _ mem state reached reader task next buffer byte reads isWatched
  obtain ⟨later, laterInRange, place, inStage, position⟩ := stagedPlan.stage_of next
  have member := List.mem_of_getElem? inStage
  have arrived : staged.offset reader later ≤ state.pc reader := by omega
  -- Everything in an earlier stage that writes the byte is behind the writer's program counter.
  have passed : ∀ earlier < staged.count, ∀ writer, ∀ other ∈ staged.stage earlier writer,
      writesByte other buffer byte → staged.offset writer (earlier + 1) ≤ state.pc writer := by
    intro earlier earlierInRange writer other otherMember writes
    have precedes := before earlier earlierInRange later laterInRange writer reader other otherMember task.unmarked
      member buffer byte writes reads isWatched
    by_cases same : writer = reader
    · rw [same]
      exact le_trans (staged.offset_mono reader (Nat.succ_le_of_lt precedes)) arrived
    · rcases stagedPlan.ordered earlier later writer reader same (le_of_lt precedes) laterInRange with free | signalled
      · exact absurd ⟨writes, Or.inl reads⟩ (free other otherMember task.unmarked member buffer byte).1
      · exact stagedPlan.awaits mem laterInRange signalled.2 state
          ((unmarkedProgram_reachable dtypeSize plan _ state).mpr reached) arrived
  constructor
  · obtain ⟨earlier, earlierInRange, writer, other, otherMember, writes⟩ :=
      filled later laterInRange reader task.unmarked member buffer byte reads isWatched
    obtain ⟨place, bound, found⟩ := List.getElem_of_mem otherMember
    obtain ⟨original, here, rfl⟩ := stagedPlan.task_at earlierInRange (List.getElem?_eq_some_iff.mpr ⟨bound, found⟩)
    have through := passed earlier earlierInRange writer original.unmarked otherMember writes
    rw [offset_succ] at through
    exact ⟨writer, _, original, by omega, here, writes⟩
  · intro writer position other here writes
    obtain ⟨earlier, earlierInRange, place, otherStage, same⟩ := stagedPlan.stage_of here
    have through := passed earlier earlierInRange writer other.unmarked (List.mem_of_getElem? otherStage) writes
    have inside := (List.getElem?_eq_some_iff.mp otherStage).1
    rw [offset_succ] at through
    omega

/-- Every finished run leaves what the stages leave one after the other. -/
theorem finished_shared (stagedPlan : StagedPlan dtypeSize worldSize plan staged) (positive : 0 < dtypeSize)
    (reached : (planProgram dtypeSize plan).Reachable (entryState mem) state)
    (finished : (planProgram dtypeSize plan).Finished state) :
    state.shared = (staged.sequential (intRange worldSize)).foldl
      (fun seen task => taskEffect dtypeSize task seen) (entryState mem) := by
  have reachedUnmarked := (unmarkedProgram_reachable dtypeSize plan _ state).mpr reached
  refine (stagedPlan.synchronized mem).finished_shared ?_ reachedUnmarked
    ((unmarkedProgram_finished dtypeSize plan state).mpr finished)
  have isAligned : ∀ rank, ∀ task ∈ (unmarkedProgram (M := M) dtypeSize plan).code rank, Aligned dtypeSize task := by
    intro rank task member
    change task ∈ (rankTasks plan rank).map TransferTask.unmarked at member
    rw [stagedPlan.code] at member
    obtain ⟨index, inRange, inStage⟩ := List.mem_flatMap.mp member
    exact stagedPlan.aligned index (List.mem_range.mp inRange) rank task inStage
  intro first second task member other memberOther free shared
  exact taskEffect_comm positive (isAligned first task member) (isAligned second other memberOther) free shared

end StagedPlan

section Barriers

variable {dtypeSize : Nat} {worldSize : Int} {staged fuller : Staged Int TransferTask}

/-- The same stages with barriers put in. -/
structure Barred (staged fuller : Staged Int TransferTask) : Prop where
  count : fuller.count = staged.count
  kept : ∀ index < staged.count, ∀ rank,
    (fuller.stage index rank).filter (fun task => task.op ≠ .barrier) = staged.stage index rank
  beyond : ∀ index ≥ staged.count, ∀ rank, fuller.stage index rank = []

theorem Barred.mem (barred : Barred staged fuller) (working : task.op ≠ .barrier) :
    task ∈ fuller.stage index rank → task ∈ staged.stage index rank := by
  intro member
  by_cases inRange : index < staged.count
  · rw [← barred.kept index inRange rank]
    exact List.mem_filter.mpr ⟨member, by simpa using working⟩
  · rw [barred.beyond index (not_lt.mp inRange)] at member
    cases member

theorem Barred.mem_fuller (barred : Barred staged fuller)
    (inRange : index < staged.count) (member : task ∈ staged.stage index rank) : task ∈ fuller.stage index rank := by
  rw [← barred.kept index inRange rank] at member
  exact List.mem_of_mem_filter member

/-- Barriers order nothing between ranks and disturb nothing either. -/
theorem Barred.order (barred : Barred staged fuller)
    (order : StageOrder dtypeSize worldSize staged)
    (listed : ∀ rank ∉ intRange worldSize, ∀ index, fuller.stage index rank = []) :
    StageOrder dtypeSize worldSize fuller where
  listed := listed
  aligned index bound rank task member := by
    rw [barred.count] at bound
    by_cases bars : task.op = .barrier
    · have quiet : ¬movesData task := by simp [movesData, bars]
      exact ⟨fun moves => absurd moves quiet, fun moves => absurd moves quiet⟩
    · exact order.aligned index bound rank task (barred.mem bars member)
  ownSignals index bound rank task member publishes := by
    rw [barred.count] at bound
    exact order.ownSignals index bound rank task (barred.mem (by simp [publishes]) member) publishes
  answered index bound rank wait member waits := by
    rw [barred.count] at bound
    obtain ⟨earlier, before, publish, isPublish, facts⟩ :=
      order.answered index bound rank wait (barred.mem (by simp [waits]) member) waits
    exact ⟨earlier, before, publish, barred.mem_fuller (lt_trans before bound) isPublish, facts⟩
  ordered earlier later first second apart before bound := by
    rw [barred.count] at bound
    rcases order.ordered earlier later first second apart before bound with free | ⟨precedes, signalled⟩
    · refine Or.inl fun task member other memberOther => ?_
      by_cases bars : task.op = .barrier
      · exact quiet_noConflict (by simp [movesData, bars]) other
      by_cases barsOther : other.op = .barrier
      · exact (quiet_noConflict (by simp [movesData, barsOther]) task).symm
      · exact free task (barred.mem bars member) other (barred.mem barsOther memberOther)
    · obtain ⟨waiting, early, wait, member, op, owner, real, late⟩ := signalled
      refine Or.inr ⟨precedes, waiting, early, wait, barred.mem_fuller (lt_trans early bound) member, op, owner, real, ?_⟩
      intro index atMost task taskMember publishes
      exact late index atMost task (barred.mem (by simp [publishes]) taskMember) publishes

/-- A plan that puts barriers into ordered stages comes in ordered stages. -/
theorem exists_barred {plan : TransferPlan} (order : StageOrder dtypeSize worldSize staged) (positive : 0 < staged.count)
    (code : ∀ rank, ((rankTasks plan rank).map TransferTask.unmarked).filter (fun task => task.op ≠ .barrier) =
      staged.code rank)
    (outside : ∀ rank ∉ intRange worldSize, rankTasks plan rank = []) :
    ∃ fuller, Barred staged fuller ∧ StagedPlan dtypeSize worldSize plan fuller := by
  obtain ⟨fuller, count, whole, kept, beyond⟩ := staged.exists_fuller (fun task => task.op ≠ .barrier)
    (fun rank => (rankTasks plan rank).map TransferTask.unmarked) positive code
  have barred : Barred staged fuller := ⟨count, kept, beyond⟩
  refine ⟨fuller, barred, barred.order order ?_, fun rank => (whole rank).symm⟩
  intro rank absent index
  by_cases inRange : index < staged.count
  · have none : fuller.code rank = [] := by
      rw [whole, outside rank absent]
      rfl
    exact List.flatMap_eq_nil_iff.mp none index (List.mem_range.mpr (count ▸ inRange))
  · exact beyond index (not_lt.mp inRange) rank

end Barriers

end Ooverlap.Semantics
