import Mathlib.Logic.Function.Basic
import Ooverlap.Distribution.RequestKey
import Ooverlap.Support.GenerationBarrier

/-! The plan slot that the processes of a group share, and the collectives that go through it in lockstep. -/

namespace Ooverlap.Distribution

open Plan Lowering GenerationBarrier
open Api (OoStatus OoGroup)

/-- A multi-process group: every process has its own view of the group, of the same size. -/
structure IpcGroup where
  worldSize : Nat
  positive : 0 < worldSize
  member : Nat → OoGroup
  sized : ∀ rank, (member rank).numDevices = worldSize

/-- What all ranks do in the same order: plan requests, and other uses of the group's barrier. -/
inductive MatchedCall where
  | plan (request : PlanRequest)
  | sync

/-- Slot of one collective. Its magic, version and world size are fixed before anybody uses it. -/
structure IpcSharedPlanArena where
  status : OoStatus := .success
  collective : Collective := .allReduce
  maxTransferTasks : Nat := 0
  plan : TransferPlan := {}

def ipcSharedPlanArenaMatches (arena : IpcSharedPlanArena) (collective : Collective) : Bool :=
  arena.collective == collective && arena.maxTransferTasks == maxTransferTasks collective &&
    arena.status == .success

/-- Where a process stands in a call; `second` tells the publish barrier from the one before the rebuild. -/
inductive Phase where
  | idle
  | arriving (second : Bool)
  | waiting (second : Bool) (generation : Nat)
  | clearing
  | building
  | stamping (status : OoStatus)
  | wiping (status : OoStatus)
  | reading
  deriving DecidableEq

structure RankProcess where
  call : Nat := 0
  phase : Phase := .idle
  cacheValid : Collective → Bool := fun _ => false
  cachedKey : Collective → TransferPlanRequestKey := fun _ => {}
  results : List OoStatus := []

structure IpcState where
  gate : Gate := {}
  arenas : Collective → IpcSharedPlanArena := fun _ => {}
  ranks : Nat → RankProcess := fun _ => {}

namespace PlanRequest

/-- The getter's own argument check. -/
def rejected (group : OoGroup) (request : PlanRequest) : Prop :=
  (request.launch group).dtypeSize = 0 ∨ planFor request.config ≠ request.collective

instance (group : OoGroup) (request : PlanRequest) : Decidable (request.rejected group) :=
  inferInstanceAs (Decidable (_ ∨ _))

end PlanRequest

section Calls

variable (group : IpcGroup) (rank : Nat)

namespace RankProcess

def finish (process : RankProcess) (status : OoStatus) : RankProcess :=
  { process with call := process.call + 1, phase := .idle, results := process.results ++ [status] }

/-- Up to the first barrier: the argument checks and the match test. -/
def enter (process : RankProcess) (arenas : Collective → IpcSharedPlanArena) (call : MatchedCall) : RankProcess :=
  match call with
  | .sync => { process with phase := .arriving false }
  | .plan request =>
    if request.rejected (group.member rank) then process.finish .invalidArgument
    else if process.cacheValid request.collective ∧
        sameRequestKey (process.cachedKey request.collective) (request.key (group.member rank)) ∧
        ipcSharedPlanArenaMatches (arenas request.collective) request.collective then process.finish .success
    else { process with phase := .arriving false }

/-- What follows a barrier of the call. -/
def passBarrier (process : RankProcess) (call : MatchedCall) (second : Bool) : RankProcess :=
  match call, second with
  | .sync, _ => { process with call := process.call + 1, phase := .idle }
  | .plan _, false => { process with phase := if rank = 0 then .clearing else .arriving true }
  | .plan _, true => { process with phase := .reading }

/-- After the publish barrier: the status and the match test once more. -/
def read (process : RankProcess) (arena : IpcSharedPlanArena) (request : PlanRequest) : RankProcess :=
  if arena.status ≠ .success then
    { process with cacheValid := Function.update process.cacheValid request.collective false }.finish arena.status
  else if !ipcSharedPlanArenaMatches arena request.collective then
    { process with cacheValid := Function.update process.cacheValid request.collective false }.finish .internal
  else
    { process with
      cachedKey := Function.update process.cachedKey request.collective (request.key (group.member rank))
      cacheValid := Function.update process.cacheValid request.collective true }.finish .success

end RankProcess

/-- The writes of the publishing rank between the barriers, one at a time. -/
def publish (phase : Phase) (arena : IpcSharedPlanArena) (request : PlanRequest) :
    Option (IpcSharedPlanArena × Phase) :=
  match phase with
  | .clearing => some ({ arena with plan := {} }, .building)
  | .building =>
    let built := request.build (group.member 0) arena.plan
    some ({ arena with plan := built.2 }, .stamping built.1)
  | .stamping status =>
    some ({ arena with
      status := status
      collective := request.collective
      maxTransferTasks := maxTransferTasks request.collective }, .wiping status)
  | .wiping status => some (if status ≠ .success then { arena with plan := {} } else arena, .arriving true)
  | _ => none

end Calls

namespace IpcState

variable (group : IpcGroup) (history : List MatchedCall)

def put (state : IpcState) (rank : Nat) (process : RankProcess) : IpcState :=
  { state with ranks := Function.update state.ranks rank process }

/-- One process moves: it enters its next call, arrives at the barrier or leaves it, writes the slot or reads it. -/
inductive Step : IpcState → IpcState → Prop where
  | enter {state : IpcState} {rank : Nat} {call : MatchedCall} (member : rank < group.worldSize)
      (next : history[(state.ranks rank).call]? = some call)
      (here : (state.ranks rank).phase = .idle) :
      Step state (state.put rank ((state.ranks rank).enter group rank state.arenas call))
  | arrive {state : IpcState} {rank : Nat} {second : Bool} (member : rank < group.worldSize)
      (here : (state.ranks rank).phase = .arriving second)
      (early : state.gate.count + 1 ≠ group.worldSize) :
      Step state { state.put rank { state.ranks rank with phase := .waiting second state.gate.generation } with
        gate := { state.gate with count := state.gate.count + 1 } }
  | arriveLast {state : IpcState} {rank : Nat} {call : MatchedCall} {second : Bool} (member : rank < group.worldSize)
      (next : history[(state.ranks rank).call]? = some call)
      (here : (state.ranks rank).phase = .arriving second) (last : state.gate.count + 1 = group.worldSize) :
      Step state { state.put rank ((state.ranks rank).passBarrier rank call second) with
        gate := { count := 0, generation := state.gate.generation + 1 } }
  | leave {state : IpcState} {rank generation : Nat} {call : MatchedCall} {second : Bool}
      (member : rank < group.worldSize) (next : history[(state.ranks rank).call]? = some call)
      (here : (state.ranks rank).phase = .waiting second generation) (opened : generation ≠ state.gate.generation) :
      Step state (state.put rank ((state.ranks rank).passBarrier rank call second))
  | publish {state : IpcState} {rank : Nat} {request : PlanRequest} {arena : IpcSharedPlanArena} {phase : Phase}
      (member : rank < group.worldSize) (next : history[(state.ranks rank).call]? = some (.plan request))
      (here : publish group (state.ranks rank).phase (state.arenas request.collective) request = some (arena, phase)) :
      Step state { state.put rank { state.ranks rank with phase := phase } with
        arenas := Function.update state.arenas request.collective arena }
  | read {state : IpcState} {rank : Nat} {request : PlanRequest} (member : rank < group.worldSize)
      (next : history[(state.ranks rank).call]? = some (.plan request))
      (here : (state.ranks rank).phase = .reading) :
      Step state (state.put rank ((state.ranks rank).read group rank (state.arenas request.collective) request))

abbrev Reachable (state : IpcState) : Prop :=
  Relation.ReflTransGen (Step group history) {} state

/-- Every rank has returned from its last call. -/
def Finished (state : IpcState) : Prop :=
  ∀ rank < group.worldSize, (state.ranks rank).call = history.length

end IpcState

/-- Slots, keys and barriers after some matched calls, as if they ran one after another. -/
structure SlotHistory where
  arenas : Collective → IpcSharedPlanArena := fun _ => {}
  keys : Collective → Option TransferPlanRequestKey := fun _ => none
  rounds : Nat := 0

namespace SlotHistory

variable (group : IpcGroup)

def hit (slot : SlotHistory) (request : PlanRequest) : Bool :=
  match slot.keys request.collective with
  | none => false
  | some key => sameRequestKey key (request.key (group.member 0)) &&
      ipcSharedPlanArenaMatches (slot.arenas request.collective) request.collective

/-- What one rebuild leaves in the slot. -/
def rebuilt (request : PlanRequest) : IpcSharedPlanArena :=
  let built := request.build (group.member 0) {}
  { status := built.1
    collective := request.collective
    maxTransferTasks := maxTransferTasks request.collective
    plan := if built.1 = .success then built.2 else {} }

def next (slot : SlotHistory) : MatchedCall → SlotHistory
  | .sync => { slot with rounds := slot.rounds + 1 }
  | .plan request =>
    if request.rejected (group.member 0) ∨ slot.hit group request then slot
    else
      { arenas := Function.update slot.arenas request.collective (rebuilt group request)
        keys := Function.update slot.keys request.collective
          (if (rebuilt group request).status = .success then some (request.key (group.member 0)) else none)
        rounds := slot.rounds + 2 }

def after (history : List MatchedCall) (calls : Nat) : SlotHistory :=
  (history.take calls).foldl (next group) {}

/-- A call that goes through the barrier. -/
def Blocks (slot : SlotHistory) : MatchedCall → Prop
  | .sync => True
  | .plan request => ¬request.rejected (group.member 0) ∧ slot.hit group request = false

variable {group} {history : List MatchedCall} {slot : SlotHistory}

theorem after_succ (found : history[calls]? = some call) :
    after group history (calls + 1) = (after group history calls).next group call := by
  rw [after, List.take_add_one, found, List.foldl_append]
  rfl

theorem next_blocks {request : PlanRequest} (blocks : slot.Blocks group (.plan request)) :
    slot.next group (.plan request) =
      { arenas := Function.update slot.arenas request.collective (rebuilt group request)
        keys := Function.update slot.keys request.collective
          (if (rebuilt group request).status = .success then some (request.key (group.member 0)) else none)
        rounds := slot.rounds + 2 } := by
  obtain ⟨accepted, missed⟩ := blocks
  simp [next, accepted, missed]

theorem next_passes (passes : ¬slot.Blocks group call) : slot.next group call = slot := by
  cases call with
  | sync => exact absurd trivial passes
  | plan request =>
    refine if_pos ?_
    by_contra neither
    obtain ⟨accepted, missed⟩ := not_or.mp neither
    exact passes ⟨accepted, Bool.eq_false_iff.mpr missed⟩

theorem next_rounds_le (slot : SlotHistory) (call : MatchedCall) : slot.rounds ≤ (slot.next group call).rounds := by
  by_cases blocks : slot.Blocks group call
  · cases call with
    | sync => exact Nat.le_succ _
    | plan request =>
      rw [next_blocks blocks]
      exact Nat.le_add_right _ _
  · rw [next_passes blocks]

theorem next_rounds_lt (blocks : slot.Blocks group call) : slot.rounds < (slot.next group call).rounds := by
  cases call with
  | sync => exact Nat.lt_succ_self _
  | plan request =>
    rw [next_blocks blocks]
    exact Nat.lt_add_of_pos_right (by decide)

theorem after_rounds_mono (earlier : first ≤ second) :
    (after group history first).rounds ≤ (after group history second).rounds := by
  induction earlier with
  | refl => exact le_refl _
  | step _ ih =>
    rename_i last _
    refine le_trans ih ?_
    cases found : history[last]? with
    | none =>
      have past := List.getElem?_eq_none_iff.mp found
      unfold after
      rw [List.take_of_length_le past, List.take_of_length_le (Nat.le_succ_of_le past)]
    | some call =>
      rw [Nat.succ_eq_add_one, after_succ found]
      exact next_rounds_le _ _

/-- Calls that take no barrier change nothing. -/
theorem after_eq_of_rounds (same : (after group history first).rounds = (after group history second).rounds) :
    after group history first = after group history second := by
  suffices ordered : ∀ first second, first ≤ second →
      (after group history first).rounds = (after group history second).rounds →
      after group history first = after group history second by
    rcases Nat.le_total first second with earlier | earlier
    · exact ordered first second earlier same
    · exact (ordered second first earlier same.symm).symm
  intro first second earlier same
  induction earlier with
  | refl => rfl
  | step before ih =>
    rename_i last
    have lower : (after group history first).rounds ≤ (after group history last).rounds := after_rounds_mono before
    have upper : (after group history last).rounds ≤ (after group history (last + 1)).rounds :=
      after_rounds_mono (Nat.le_succ _)
    rw [Nat.succ_eq_add_one] at same ⊢
    rw [ih (by omega)]
    cases found : history[last]? with
    | none =>
      have past := List.getElem?_eq_none_iff.mp found
      unfold after
      rw [List.take_of_length_le past, List.take_of_length_le (Nat.le_succ_of_le past)]
    | some call =>
      rw [after_succ found] at same upper ⊢
      by_cases blocks : (after group history last).Blocks group call
      · have := next_rounds_lt blocks
        omega
      · exact (next_passes blocks).symm

/-- Cached keys belong to slots that answer them. -/
def Sound (group : IpcGroup) (slot : SlotHistory) : Prop :=
  ∀ collective key, slot.keys collective = some key →
    PlanAnswers (group.member 0) key (slot.arenas collective).plan

theorem rebuilt_matches {request : PlanRequest} :
    ipcSharedPlanArenaMatches (rebuilt group request) request.collective =
      decide ((rebuilt group request).status = .success) := by
  simp only [ipcSharedPlanArenaMatches, rebuilt, beq_self_eq_true, Bool.true_and]
  rfl

theorem rebuilt_cases (group : IpcGroup) (request : PlanRequest) :
    (rebuilt group request).status = .success ∧
        request.freshPlan (group.member 0) = some (rebuilt group request).plan ∨
      (rebuilt group request).status = .unsupported ∧ request.freshPlan (group.member 0) = none := by
  rcases request.build_cases (group.member 0) {} with ⟨built, fresh⟩ | ⟨failed, absent⟩
  · refine Or.inl ⟨built, ?_⟩
    rw [fresh, rebuilt, if_pos built]
  · exact Or.inr ⟨failed, absent⟩

theorem Sound.next (sound : slot.Sound group) (call : MatchedCall) : (slot.next group call).Sound group := by
  by_cases blocks : slot.Blocks group call
  · cases call with
    | sync => exact sound
    | plan request =>
      rw [next_blocks blocks]
      intro collective key cached
      by_cases here : collective = request.collective
      · subst here
        simp only [Function.update_self] at cached ⊢
        rcases rebuilt_cases group request with ⟨built, fresh⟩ | ⟨failed, _⟩
        · rw [if_pos built, Option.some.injEq] at cached
          rw [← cached]
          exact planAnswers_fresh fresh
        · rw [if_neg (by rw [failed]; decide)] at cached
          cases cached
      · simp only [Function.update_of_ne here] at cached ⊢
        exact sound collective key cached
  · rwa [next_passes blocks]

theorem after_sound (group : IpcGroup) (history : List MatchedCall) (calls : Nat) :
    (after group history calls).Sound group := by
  induction calls with
  | zero =>
    intro collective key cached
    change none = some key at cached
    cases cached
  | succ calls ih =>
    cases found : history[calls]? with
    | none =>
      have past := List.getElem?_eq_none_iff.mp found
      unfold after at ih ⊢
      rwa [List.take_of_length_le (Nat.le_succ_of_le past), ← List.take_of_length_le past]
    | some call =>
      rw [after_succ found]
      exact ih.next call

/-- A call that finds its key cached finds its fresh plan in the slot. -/
theorem Sound.hit {request : PlanRequest} (sound : slot.Sound group) (found : slot.hit group request = true) :
    request.freshPlan (group.member 0) = some (slot.arenas request.collective).plan := by
  unfold SlotHistory.hit at found
  split at found
  · cases found
  · rename_i key cached
    exact sound request.collective key cached request (Bool.and_eq_true_iff.mp found).1

/-- After an accepted request that builds afresh, the slot holds its plan. -/
theorem next_plan {request : PlanRequest} (sound : slot.Sound group) (accepted : ¬request.rejected (group.member 0))
    (fresh : request.freshPlan (group.member 0) = some plan) :
    ((slot.next group (.plan request)).arenas request.collective).plan = plan := by
  cases found : slot.hit group request with
  | true =>
    have held := sound.hit found
    have passes : ¬slot.Blocks group (.plan request) := by
      rintro ⟨_, missed⟩
      rw [found] at missed
      cases missed
    rw [next_passes passes]
    rw [fresh, Option.some.injEq] at held
    exact held.symm
  | false =>
    rw [next_blocks ⟨accepted, found⟩]
    simp only [Function.update_self]
    rcases rebuilt_cases group request with ⟨_, built⟩ | ⟨_, absent⟩
    · rw [fresh, Option.some.injEq] at built
      exact built.symm
    · rw [fresh] at absent
      cases absent

end SlotHistory

end Ooverlap.Distribution
