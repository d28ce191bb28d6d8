import Ooverlap.Plan.AllReduceDirect
import Ooverlap.Semantics.Transfer

/-! The direct in-place all-reduce plan, run in any interleaving of the ranks. -/

namespace Ooverlap.Semantics

open Ooverlap.Plan Ooverlap.Plan.AllReduce Ooverlap.Interleaving

section Signals

variable {M : Type} [AddCommMonoid M] {dtypeSize : Nat} {plan : TransferPlan}

theorem publishPhase_le (rank channel phase : Int) (published : Int → Int → Int) (other otherChannel : Int) :
    published other otherChannel ≤ publishPhase rank channel phase published other otherChannel := by
  unfold publishPhase
  by_cases sameRank : other = rank
  · subst sameRank
    rw [Function.update_self]
    by_cases sameChannel : otherChannel = channel
    · subst sameChannel
      simp
    · simp [Function.update_of_ne sameChannel]
  · simp [Function.update_of_ne sameRank]

theorem taskEffect_published_le (dtypeSize : Nat) (task : TransferTask) (shared : Shared M) (rank channel : Int) :
    shared.published rank channel ≤ (taskEffect dtypeSize task shared).published rank channel := by
  unfold taskEffect
  split
  all_goals first
    | exact le_refl _
    | exact publishPhase_le ..

/-- The signal a task leaves behind or has waited for. -/
def SignalSeen (task : TransferTask) (shared : Shared M) : Prop :=
  task.op = .readyPublish ∨ task.op = .readyWait →
    task.readyPhase ≤ shared.published task.readyRank task.readyChannel

/-- Every publish a rank has performed is visible, and every wait it has passed was satisfied. -/
theorem performed_signal {shared : Shared M} {state : State Int (Shared M)}
    (reached : (planProgram dtypeSize plan).Reachable shared state)
    (performed : position < state.pc rank) (found : (rankTasks plan rank)[position]? = some task) :
    SignalSeen task state.shared := by
  refine invariant
    (fun state : State Int (Shared M) => ∀ rank position task, position < state.pc rank →
      (rankTasks plan rank)[position]? = some task → SignalSeen task state.shared)
    (fun _ _ _ early => absurd early (Nat.not_lt_zero _)) ?_ reached rank position task performed found
  rintro before _ seen ⟨actor, action, next, allowed⟩ rank position task performed found signal
  have grows := taskEffect_published_le dtypeSize action before.shared task.readyRank
    task.readyChannel
  by_cases earlier : position < before.pc rank
  · exact le_trans (seen rank position task earlier found signal) grows
  · have here : rank = actor ∧ position = before.pc actor := by
      by_cases same : rank = actor
      · subst same
        simp only [Function.update_self] at performed
        exact ⟨rfl, by omega⟩
      · simp only [Function.update_of_ne same] at performed
        omega
    obtain ⟨rfl, rfl⟩ := here
    have same : action = task := Option.some.inj (next.symm.trans found)
    subst same
    rcases signal with publish | wait
    · change _ ≤ (taskEffect dtypeSize action before.shared).published _ _
      simp [taskEffect, publish, publishPhase]
    · have waited : action.readyPhase ≤ before.shared.published action.readyRank action.readyChannel := by
        simpa [planProgram, taskEnabled, wait] using allowed
      exact le_trans waited grows

/-- A rank that publishes nothing stays unpublished. -/
theorem never_published {mem : BufferId → Nat → M} {state : State Int (Shared M)}
    (silent : ∀ task ∈ plan.tasks, task.op = .readyPublish → task.readyRank ≠ owner)
    (reached : (planProgram dtypeSize plan).Reachable (entryState mem) state) :
    state.shared.published owner channel = -1 := by
  refine Program.stable_along
    (fun shared : Shared M => shared.published owner channel = -1) ?_ reached rfl
  intro rank task member shared unpublished
  have inPlan := (List.mem_filter.mp member).1
  change (taskEffect dtypeSize task shared).published owner channel = -1
  unfold taskEffect
  split
  case h_5 publish =>
    have other := silent task inPlan publish
    simp only [publishPhase, Function.update_of_ne (Ne.symm other), unpublished]
  all_goals exact unpublished

end Signals

section Columns

variable {M : Type}

/-- What one element index holds in every rank's buffer. -/
def column (index : Nat) (shared : Shared M) (rank : Int) : M :=
  shared.mem (rankBuffer rank) index

def Reaches (task : TransferTask) (rank : Int) : Prop :=
  rankBuffer rank ∈ (destinationRefs task).map bufferOf

instance (task : TransferTask) (rank : Int) : Decidable (Reaches task rank) :=
  inferInstanceAs (Decidable (_ ∈ _))

def movesData (task : TransferTask) : Prop :=
  task.op = .copy ∨ task.op = .copyFanout ∨ task.op = .reduce ∨ task.op = .reduceFanout

instance (task : TransferTask) : Decidable (movesData task) :=
  inferInstanceAs (Decidable (_ ∨ _ ∨ _ ∨ _))

/-- A task whose data all lies in the slice of `bytes` bytes at `start` of the rank buffers. -/
structure SliceTask (start bytes : Nat) (task : TransferTask) : Prop where
  length : movesData task → task.bytes = bytes
  source : movesData task → ∃ rank, task.src = rankBufferRef rank start
  destinations : movesData task → ∀ dst ∈ destinationRefs task, ∃ rank, dst = rankBufferRef rank start

def InSlice (dtypeSize start bytes index : Nat) : Prop :=
  start ≤ index * dtypeSize ∧ index * dtypeSize < start + bytes

variable {dtypeSize start bytes index : Nat}

theorem transferElements_inside (positive : 0 < dtypeSize) (inside : InSlice dtypeSize start bytes index)
    (slice : SliceTask start bytes task) (moves : movesData task) (combine : M → M → M)
    (mem : BufferId → Nat → M) (rank : Int) :
    transferElements dtypeSize combine task mem (rankBuffer rank) index =
      if Reaches task rank then
        combine (mem (rankBuffer rank) index) (mem (rankBuffer task.src.ownerRank) index)
      else mem (rankBuffer rank) index := by
  have same : ∀ dst ∈ destinationRefs task,
      covered dtypeSize dst task.bytes (rankBuffer rank) index =
        decide (bufferOf dst = rankBuffer rank) := by
    intro dst member
    obtain ⟨owner, rfl⟩ := slice.destinations moves dst member
    rw [slice.length moves]
    simp only [covered, rankBufferRef]
    simp only [inside.1, inside.2, decide_true, Bool.and_true]
    rfl
  unfold transferElements
  cases hit : (destinationRefs task).find? (fun dst => covered dtypeSize dst task.bytes (rankBuffer rank) index) with
  | none =>
    have missed : ¬Reaches task rank := by
      intro reached
      obtain ⟨dst, member, target⟩ := List.mem_map.mp reached
      have absent := List.find?_eq_none.mp hit dst member
      rw [same dst member] at absent
      exact absent (by simpa using target)
    rw [if_neg missed]
  | some dst =>
    have member := List.mem_of_find?_eq_some hit
    have target : bufferOf dst = rankBuffer rank := by
      have selected := List.find?_some hit
      rw [same dst member] at selected
      simpa using selected
    have reached : Reaches task rank := List.mem_map.mpr ⟨dst, member, target⟩
    obtain ⟨owner, dstEq⟩ := slice.destinations moves dst member
    obtain ⟨peer, srcEq⟩ := slice.source moves
    have aligned : sourceElement dtypeSize task.src dst index = index := by
      rw [srcEq, dstEq]
      simp only [sourceElement, rankBufferRef]
      rw [Nat.add_sub_cancel' inside.1, Nat.mul_div_cancel _ positive]
    rw [if_pos reached]
    simp only [aligned]
    rw [srcEq]
    rfl

theorem transferElements_outside (outside : ¬InSlice dtypeSize start bytes index)
    (slice : SliceTask start bytes task) (moves : movesData task) (combine : M → M → M)
    (mem : BufferId → Nat → M) (rank : Int) :
    transferElements dtypeSize combine task mem (rankBuffer rank) index = mem (rankBuffer rank) index := by
  have missed : (destinationRefs task).find?
      (fun dst => covered dtypeSize dst task.bytes (rankBuffer rank) index) = none := by
    apply List.find?_eq_none.mpr
    intro dst member hit
    obtain ⟨owner, rfl⟩ := slice.destinations moves dst member
    simp only [covered, rankBufferRef, slice.length moves, Bool.and_eq_true] at hit
    exact outside ⟨of_decide_eq_true hit.1.2, of_decide_eq_true hit.2⟩
  unfold transferElements
  rw [missed]

variable [AddCommMonoid M]

/-- Effect of a task on a column that lies inside its byte range. -/
def columnEffect (task : TransferTask) (values : Int → M) : Int → M := fun rank =>
  match task.op with
  | .copy | .copyFanout => if Reaches task rank then values task.src.ownerRank else values rank
  | .reduce | .reduceFanout =>
    if Reaches task rank then values rank + values task.src.ownerRank else values rank
  | _ => values rank

/-- Inside the slice of its executor a task acts on the column alone. -/
theorem column_inside (positive : 0 < dtypeSize) (inside : InSlice dtypeSize start bytes index)
    (slice : SliceTask start bytes task) (shared : Shared M) :
    column index (taskEffect dtypeSize task shared) = columnEffect task (column index shared) := by
  funext rank
  unfold column taskEffect columnEffect
  have acts := fun moves combine =>
    transferElements_inside positive inside slice moves combine shared.mem rank
  split
  case h_1 op => simpa only [op] using acts (Or.inl op) _
  case h_2 op => simpa only [op] using acts (Or.inr (Or.inl op)) _
  case h_3 op => simpa only [op] using acts (Or.inr (Or.inr (Or.inl op))) _
  case h_4 op => simpa only [op] using acts (Or.inr (Or.inr (Or.inr op))) _
  all_goals
    rename_i op
    simp only [op]

/-- Outside its slice a task leaves every column alone. -/
theorem column_outside (outside : ¬InSlice dtypeSize start bytes index)
    (slice : SliceTask start bytes task) (shared : Shared M) :
    column index (taskEffect dtypeSize task shared) = column index shared := by
  funext rank
  unfold column taskEffect
  have acts := fun moves combine =>
    transferElements_outside outside slice moves combine shared.mem rank
  split
  case h_1 op => exact acts (Or.inl op) fun _ new => new
  case h_2 op => exact acts (Or.inr (Or.inl op)) fun _ new => new
  case h_3 op => exact acts (Or.inr (Or.inr (Or.inl op))) _
  case h_4 op => exact acts (Or.inr (Or.inr (Or.inr op))) _
  all_goals rfl

end Columns

section Folds

variable {M : Type} [AddCommMonoid M]

/-- A column after a list of tasks run in isolation. -/
def runColumn (tasks : List TransferTask) (values : Int → M) : Int → M :=
  tasks.foldl (fun seen task => columnEffect task seen) values

theorem runColumn_append (left right : List TransferTask) (values : Int → M) :
    runColumn (left ++ right) values = runColumn right (runColumn left values) :=
  List.foldl_append

theorem runColumn_erased (tasks : List TransferTask) (values : Int → M) :
    runColumn (tasks.map fun task => task.setPhase 0) values = runColumn tasks values := by
  simp only [runColumn, List.foldl_map]
  rfl

theorem runColumn_quiet (quiet : ∀ task ∈ tasks, ¬movesData task) (values : Int → M) :
    runColumn tasks values = values := by
  induction tasks with
  | nil => rfl
  | cons task rest ih =>
    have still : columnEffect task values = values := by
      funext rank
      have noMove := quiet task (List.mem_cons_self ..)
      simp only [movesData, not_or] at noMove
      cases op : task.op <;> simp_all [columnEffect]
    change runColumn rest (columnEffect task values) = values
    rw [still]
    exact ih fun other member => quiet other (List.mem_cons_of_mem _ member)

theorem rankBuffer_inj : rankBuffer left = rankBuffer right ↔ left = right := by
  simp [rankBuffer, bufferOf, rankBufferRef]

variable {input : TransferPlanBuildInput} {transports : TransportMatrix} {rank : Int}

theorem columnEffect_reduce (peer phase : Int) (values : Int → M) :
    columnEffect (reduceMaker input transports rank peer phase) values =
      Function.update values rank (values rank + values peer) := by
  funext other
  have target : Reaches (reduceMaker input transports rank peer phase) other ↔ other = rank := by
    change rankBuffer other ∈ [rankBuffer rank] ↔ other = rank
    rw [List.mem_singleton, rankBuffer_inj]
  change (if Reaches (reduceMaker input transports rank peer phase) other
    then values other + values peer else values other) = _
  by_cases same : other = rank
  · subst same
    rw [if_pos (target.mpr rfl), Function.update_self]
  · rw [if_neg (mt target.mp same), Function.update_of_ne same]

/-- The reductions of a rank add every peer's value to its own. -/
theorem runColumn_reduces (peers : List Int) (absent : rank ∉ peers) (values : Int → M) :
    runColumn (peers.map fun peer => reduceMaker input transports rank peer 0) values =
      Function.update values rank (values rank + (peers.map values).sum) := by
  induction peers generalizing values with
  | nil => simp [runColumn]
  | cons peer rest ih =>
    obtain ⟨apart, absentRest⟩ := not_or.mp (mt List.mem_cons.mpr absent)
    have unchanged : rest.map (Function.update values rank (values rank + values peer)) = rest.map values :=
      List.map_congr_left fun other member =>
        Function.update_of_ne (fun same : other = rank => absentRest (same ▸ member)) _ _
    change runColumn _ (columnEffect (reduceMaker input transports rank peer 0) values) = _
    rw [columnEffect_reduce, ih absentRest, unchanged]
    simp [add_assoc]

theorem columnEffect_copy (copy : SliceCopy input rank task) (values : Int → M) :
    columnEffect task values = fun other => if Reaches task other then values rank else values other := by
  funext other
  rcases copy.op with op | op <;> simp [columnEffect, op, copy.source, rankBufferRef]

/-- The copies of a rank hand its value to every rank they reach. -/
theorem runColumn_copies (copies : List TransferTask) (spec : ∀ task ∈ copies, SliceCopy input rank task)
    (away : rankBuffer rank ∉ (copies.flatMap destinationRefs).map bufferOf) (values : Int → M) :
    runColumn copies values = fun other =>
      if rankBuffer other ∈ (copies.flatMap destinationRefs).map bufferOf then values rank
      else values other := by
  induction copies generalizing values with
  | nil => simp [runColumn]
  | cons task rest ih =>
    rw [List.flatMap_cons, List.map_append, List.mem_append, not_or] at away
    change runColumn rest (columnEffect task values) = _
    rw [columnEffect_copy (spec task (List.mem_cons_self ..)),
      ih (fun other member => spec other (List.mem_cons_of_mem _ member)) away.2]
    have ownUnreached : ¬Reaches task rank := away.1
    funext other
    rw [if_neg ownUnreached, List.flatMap_cons, List.map_append]
    by_cases later : rankBuffer other ∈ (rest.flatMap destinationRefs).map bufferOf
    · rw [if_pos later, if_pos (List.mem_append_right _ later)]
    · rw [if_neg later]
      by_cases here : Reaches task other
      · rw [if_pos here, if_pos (List.mem_append_left _ here)]
      · rw [if_neg here, if_neg]
        rintro either
        rcases List.mem_append.mp either with reached | afterwards
        · exact here reached
        · exact later afterwards

/-- Contributions of all ranks: one rank's own and its peers'. -/
theorem sum_intRange_eq (inRange : rank ∈ intRange size) (values : Int → M) :
    ((intRange size).map values).sum = values rank + ((peersOf rank size).map values).sum := by
  have split : peersOf rank size = (intRange size).erase rank := by
    rw [(intRange_nodup size).erase_eq_filter, peersOf]
    exact List.filter_congr fun other _ => by simp [bne, beq_eq_decide]
  rw [split]
  exact (List.sum_map_erase values inRange).symm

/-- Run alone, the block of an active rank leaves the sum in every rank's column entry. -/
theorem runColumn_block (inPlace : input.outOfPlace = false) (active : ¬SliceSkipped input rank)
    (inRange : rank ∈ intRange input.worldSize) (hasPeers : peersOf rank input.worldSize ≠ [])
    (values : Int → M) (other : Int) (otherInRange : other ∈ intRange input.worldSize) :
    runColumn (directRankBlock input transports rank) values other =
      ((intRange input.worldSize).map values).sum := by
  obtain ⟨first, rest, copies, block⟩ :=
    directRankBlock_active transports inPlace active inRange hasPeers
  have erased : (directRankBlock input transports rank).map (fun task => task.setPhase 0) =
      (gatherEmission input transports rank ++ barrierFor first :: first :: rest).map
        fun task => task.setPhase 0 := by
    rw [block]
    exact map_numberFrom _ (fun _ _ => rfl) 0 _
  have gathered : runColumn (gatherEmission input transports rank) values =
      Function.update values rank ((intRange input.worldSize).map values).sum := by
    have ready : ∀ task ∈ (rendezvousMakers input.topo rank input.worldSize).map (fun make => make 0),
        ¬movesData task := by
      intro task member
      obtain ⟨make, maker, rfl⟩ := List.mem_map.mp member
      unfold rendezvousMakers at maker
      split at maker
      · cases maker
      · simp only [List.mem_append, List.mem_map] at maker
        rcases maker with ⟨_, _, rfl⟩ | ⟨_, _, rfl⟩ <;>
          simp [movesData, makeReadyPublishTransferTask, makeReadyWaitTransferTask]
    rw [← runColumn_erased, gatherEmission_erased input transports rank inPlace, runColumn_append,
      runColumn_quiet ready, runColumn_reduces _ (by simp), ← sum_intRange_eq inRange]
  have destinations : ((first :: rest).flatMap destinationRefs).map bufferOf =
      (peersOf rank input.worldSize).map rankBuffer := by
    rw [← copies, finishedCopies_destinations, List.map_map]
    rfl
  have spec := finishedCopies_spec input transports rank
  rw [copies] at spec
  have away : rankBuffer rank ∉ ((first :: rest).flatMap destinationRefs).map bufferOf := by
    rw [destinations]
    simp [rankBuffer_inj]
  have barrier : runColumn [barrierFor first] (runColumn (gatherEmission input transports rank) values) =
      runColumn (gatherEmission input transports rank) values :=
    runColumn_quiet (by simp [movesData, barrierFor]) _
  rw [← runColumn_erased, erased, runColumn_erased, runColumn_append,
    ← List.singleton_append, runColumn_append, barrier, runColumn_copies _ spec away, gathered,
    destinations]
  by_cases same : other = rank
  · subst same
    simp
  · have isPeer : rankBuffer other ∈ (peersOf rank input.worldSize).map rankBuffer :=
      List.mem_map_of_mem (mem_peersOf.mpr ⟨mem_intRange.mp otherInRange, same⟩)
    simp only [if_pos isPeer, Function.update_self]

end Folds

end Ooverlap.Semantics
