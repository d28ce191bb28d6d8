import Ooverlap.Distribution.SharedSlot
import Ooverlap.Support.Interleaving

/-! All ranks get the same answer from the shared plan slot, in every interleaving around the group's barrier. -/

namespace Ooverlap.Distribution

open Plan Lowering GenerationBarrier Interleaving Relation
open Api (OoStatus OoGroup)

/-- Barriers of its current call that a process has passed. -/
def Phase.stage : Phase → Nat
  | .idle | .arriving false | .waiting false _ => 0
  | .clearing | .building | .stamping _ | .wiping _ | .arriving true | .waiting true _ => 1
  | .reading => 2

def Phase.waits : Phase → Bool
  | .waiting _ _ => true
  | _ => false

def Phase.writes : Phase → Bool
  | .clearing | .building | .stamping _ | .wiping _ => true
  | _ => false

/-- Status that a request gets without any cache. -/
def PlanRequest.freshStatus (group : OoGroup) (request : PlanRequest) : OoStatus :=
  if request.rejected group then .invalidArgument
  else if (request.freshPlan group).isSome then .success else .unsupported

section Lockstep

variable (group : IpcGroup) (history : List MatchedCall)

def freshResult : MatchedCall → Option OoStatus
  | .sync => none
  | .plan request => some (request.freshStatus (group.member 0))

/-- Barriers a process has left since the group was made. -/
def passes (process : RankProcess) : Nat :=
  (SlotHistory.after group history process.call).rounds + process.phase.stage

def keysOf (process : RankProcess) (collective : Collective) : Option TransferPlanRequestKey :=
  if process.cacheValid collective then some (process.cachedKey collective) else none

/-- The slots while the publishing process stands where it does. -/
def slotsOf (publisher : RankProcess) : Collective → IpcSharedPlanArena :=
  let before := (SlotHistory.after group history publisher.call).arenas
  match publisher.phase, history[publisher.call]? with
  | .building, some (.plan request) =>
    Function.update before request.collective { before request.collective with plan := {} }
  | .stamping _, some (.plan request) =>
    Function.update before request.collective
      { before request.collective with plan := (request.build (group.member 0) {}).2 }
  | .wiping status, some (.plan request) =>
    Function.update before request.collective
      { status := status
        collective := request.collective
        maxTransferTasks := maxTransferTasks request.collective
        plan := (request.build (group.member 0) {}).2 }
  | .arriving true, _ | .waiting true _, _ | .reading, _ =>
    (SlotHistory.after group history (publisher.call + 1)).arenas
  | _, _ => before

/-- A process that has followed the matched calls so far. -/
structure RankSound (rank : Nat) (process : RankProcess) : Prop where
  bounded : process.call ≤ history.length
  blocks : process.phase ≠ .idle → ∃ call, history[process.call]? = some call ∧
    (SlotHistory.after group history process.call).Blocks group call
  plans : process.phase.stage ≠ 0 → ∃ request, history[process.call]? = some (.plan request)
  writer : process.phase.writes = true → rank = 0
  built : ∀ status, process.phase = .stamping status ∨ process.phase = .wiping status → ∀ request,
    history[process.call]? = some (.plan request) → status = (request.build (group.member 0) {}).1
  stored : ∀ second generation, process.phase = .waiting second generation →
    generation = passes group history process
  cached : ∀ collective, keysOf process collective = (SlotHistory.after group history process.call).keys collective
  results : process.results = (history.take process.call).filterMap (freshResult group)

structure Lockstep (state : IpcState) : Prop where
  barrier : Consistent (Finset.range group.worldSize) state.gate (fun rank => passes group history (state.ranks rank))
    (fun rank => (state.ranks rank).phase.waits)
  ranks : ∀ rank < group.worldSize, RankSound group history rank (state.ranks rank)
  slots : state.arenas = slotsOf group history (state.ranks 0)

end Lockstep

section Process

variable {group : IpcGroup} {history : List MatchedCall} {rank : Nat} {process : RankProcess}

open SlotHistory

theorem PlanRequest.key_member (group : IpcGroup) (request : PlanRequest) (rank : Nat) :
    request.key (group.member rank) = request.key (group.member 0) := by
  unfold PlanRequest.key makeRequestKey PlanRequest.launch prepareCollectiveLaunch
  simp only [group.sized]

theorem slotsOf_early (early : process.phase.stage = 0 ∨ process.phase = .clearing) :
    slotsOf group history process = (after group history process.call).arenas := by
  unfold slotsOf
  rcases early with stage | phase
  · cases phase : process.phase with
    | idle => rfl
    | arriving second =>
      rw [phase] at stage
      cases second with
      | false => rfl
      | true => cases stage
    | waiting second generation =>
      rw [phase] at stage
      cases second with
      | false => rfl
      | true => cases stage
    | _ => simp [phase, Phase.stage] at stage
  · rw [phase]

theorem slotsOf_late
    (late : process.phase = .arriving true ∨ (∃ generation, process.phase = .waiting true generation) ∨
      process.phase = .reading) :
    slotsOf group history process = (after group history (process.call + 1)).arenas := by
  unfold slotsOf
  rcases late with phase | ⟨generation, phase⟩ | phase <;> rw [phase]

namespace RankSound

variable (sound : RankSound group history rank process)

include sound

/-- The call of a process past its first barrier rebuilds the slot. -/
theorem rebuilds (past : process.phase.stage ≠ 0) : ∃ request, history[process.call]? = some (.plan request) ∧
    (after group history process.call).Blocks group (.plan request) := by
  obtain ⟨request, found⟩ := sound.plans past
  have moving : process.phase ≠ .idle := by
    intro idle
    rw [idle] at past
    exact past rfl
  obtain ⟨call, same, blocks⟩ := sound.blocks moving
  rw [found, Option.some.injEq] at same
  exact ⟨request, found, same ▸ blocks⟩

theorem rounds_rebuild (past : process.phase.stage ≠ 0) :
    (after group history (process.call + 1)).rounds = (after group history process.call).rounds + 2 := by
  obtain ⟨request, found, blocks⟩ := sound.rebuilds past
  rw [after_succ found, next_blocks blocks]

/-- No call starts between the two barriers of a rebuild. -/
theorem rounds_gap (past : process.phase.stage ≠ 0) (calls : Nat) :
    (after group history calls).rounds ≠ (after group history process.call).rounds + 1 := by
  have grown := sound.rounds_rebuild past
  rcases Nat.lt_or_ge process.call calls with later | earlier
  · have grows : (after group history (process.call + 1)).rounds ≤ (after group history calls).rounds :=
      after_rounds_mono later
    omega
  · have grows : (after group history calls).rounds ≤ (after group history process.call).rounds :=
      after_rounds_mono earlier
    omega

/-- Returning from a plan request, with the key that the calls so far have left and the status of a fresh build. -/
theorem finish (found : history[process.call]? = some (.plan request))
    (cached : ∀ collective, keysOf moved collective = (after group history (process.call + 1)).keys collective)
    (same : moved.call = process.call) (kept : moved.results = process.results)
    (status : result = request.freshStatus (group.member 0)) : RankSound group history rank (moved.finish result) where
  bounded := by
    obtain ⟨within, _⟩ := List.getElem?_eq_some_iff.mp found
    change moved.call + 1 ≤ history.length
    omega
  blocks moving := (moving rfl).elim
  plans past := (past rfl).elim
  writer := nofun
  built := nofun
  stored := nofun
  cached collective := by
    change keysOf moved collective = (after group history (moved.call + 1)).keys collective
    rw [same]
    exact cached collective
  results := by
    change moved.results ++ [result] = (history.take (moved.call + 1)).filterMap (freshResult group)
    rw [kept, same, sound.results, List.take_add_one, found, List.filterMap_append, status]
    rfl

theorem hit_iff (request : PlanRequest) :
    (process.cacheValid request.collective = true ∧
      sameRequestKey (process.cachedKey request.collective) (request.key (group.member rank)) = true ∧
      ipcSharedPlanArenaMatches ((after group history process.call).arenas request.collective) request.collective = true)
      ↔ (after group history process.call).hit group request = true := by
  have cached := sound.cached request.collective
  unfold keysOf at cached
  unfold hit
  rw [← cached, request.key_member group rank]
  cases process.cacheValid request.collective <;> simp

/-- What a step away from the barrier leaves: a sound process that has passed as many barriers. -/
structure Moves (group : IpcGroup) (history : List MatchedCall) (rank : Nat) (process moved : RankProcess) : Prop where
  sound : RankSound group history rank moved
  passes : passes group history moved = passes group history process
  free : moved.phase.waits = false

theorem enter_moves (idle : process.phase = .idle) (found : history[process.call]? = some call)
    {slots : Collective → IpcSharedPlanArena} (read : slots = (after group history process.call).arenas) :
    Moves group history rank process (process.enter group rank slots call) ∧
      slotsOf group history (process.enter group rank slots call) = slotsOf group history process := by
  have here : slotsOf group history process = (after group history process.call).arenas :=
    slotsOf_early (Or.inl (by rw [idle]; rfl))
  have arrives (blocks : (after group history process.call).Blocks group call) :
      Moves group history rank process { process with phase := .arriving false } ∧
        slotsOf group history { process with phase := .arriving false } = slotsOf group history process := by
    refine ⟨⟨⟨sound.bounded, fun _ => ⟨call, found, blocks⟩, fun past => (past rfl).elim, nofun, nofun, nofun,
      sound.cached, sound.results⟩, ?_, rfl⟩, ?_⟩
    · unfold passes
      rw [idle]
      rfl
    · rw [here]
      exact slotsOf_early (Or.inl rfl)
  have returns (request : PlanRequest) (result : OoStatus) (same : call = .plan request)
      (skips : ¬(after group history process.call).Blocks group call)
      (status : result = request.freshStatus (group.member 0)) :
      Moves group history rank process (process.finish result) ∧
        slotsOf group history (process.finish result) = slotsOf group history process := by
    subst same
    have still := (after_succ found).trans (next_passes skips)
    refine ⟨⟨sound.finish found (fun collective => ?_) rfl rfl status, ?_, rfl⟩, ?_⟩
    · rw [still]
      exact sound.cached collective
    · unfold passes
      rw [idle]
      exact congrArg SlotHistory.rounds still
    · rw [here, ← still]
      exact slotsOf_early (Or.inl rfl)
  subst read
  cases call with
  | sync => exact arrives trivial
  | plan request =>
    unfold RankProcess.enter
    simp only [sound.hit_iff request]
    by_cases refused : request.rejected (group.member 0)
    · have here : request.rejected (group.member rank) := refused
      rw [if_pos here]
      refine returns request _ rfl (fun blocks => blocks.1 refused) ?_
      rw [PlanRequest.freshStatus, if_pos refused]
    · have here : ¬request.rejected (group.member rank) := refused
      rw [if_neg here]
      by_cases found : (after group history process.call).hit group request = true
      · rw [if_pos found]
        refine returns request _ rfl (fun blocks => Bool.false_ne_true (blocks.2.symm.trans found)) ?_
        rw [PlanRequest.freshStatus, if_neg refused, (after_sound group history process.call).hit found]
        rfl
      · rw [if_neg found]
        exact arrives ⟨refused, Bool.eq_false_iff.mpr found⟩

theorem passBarrier_moves (found : history[process.call]? = some call)
    (inside : process.phase = .arriving second ∨ ∃ generation, process.phase = .waiting second generation) :
    RankSound group history rank (process.passBarrier rank call second) ∧
      passes group history (process.passBarrier rank call second) = passes group history process + 1 ∧
      (process.passBarrier rank call second).phase.waits = false ∧
      (rank = 0 → slotsOf group history (process.passBarrier rank call second) = slotsOf group history process) := by
  have stage : process.phase.stage = second.toNat := by
    rcases inside with phase | ⟨generation, phase⟩ <;> rw [phase] <;> cases second <;> rfl
  have moving : process.phase ≠ .idle := by
    rcases inside with phase | ⟨generation, phase⟩ <;> rw [phase] <;> nofun
  obtain ⟨_, same, blocks⟩ := sound.blocks moving
  rw [found, Option.some.injEq] at same
  subst same
  cases call with
  | sync =>
    have first : second = false := by
      cases second with
      | false => rfl
      | true =>
        obtain ⟨request, other⟩ := sound.plans (by rw [stage]; nofun)
        rw [found] at other
        cases other
    subst first
    have next : after group history (process.call + 1) = _ := after_succ found
    refine ⟨⟨?_, fun moving => (moving rfl).elim, fun past => (past rfl).elim, nofun, nofun, nofun, fun collective => ?_, ?_⟩,
      ?_, rfl, fun _ => ?_⟩
    · obtain ⟨within, _⟩ := List.getElem?_eq_some_iff.mp found
      exact within
    · change _ = (after group history (process.call + 1)).keys collective
      rw [next]
      exact sound.cached collective
    · change process.results = (history.take (process.call + 1)).filterMap (freshResult group)
      rw [sound.results, List.take_add_one, found, List.filterMap_append]
      exact (List.append_nil _).symm
    · unfold passes
      rw [stage]
      change (after group history (process.call + 1)).rounds + 0 = _
      rw [next]
      rfl
    · rw [slotsOf_early (Or.inl stage), slotsOf_early (Or.inl rfl)]
      change (after group history (process.call + 1)).arenas = _
      rw [next]
      rfl
  | plan request =>
    cases second with
    | false =>
      have calls : (process.passBarrier rank (.plan request) false).call = process.call := rfl
      by_cases publisher : rank = 0
      · have phase : (process.passBarrier rank (.plan request) false).phase = .clearing := if_pos publisher
        refine ⟨⟨sound.bounded, fun _ => ⟨_, found, blocks⟩, fun _ => ⟨request, found⟩, fun _ => publisher, ?_, ?_,
          sound.cached, sound.results⟩, ?_, ?_, fun _ => ?_⟩
        · rw [phase]
          nofun
        · rw [phase]
          nofun
        · unfold passes
          rw [phase, stage, calls]
          rfl
        · rw [phase]
          rfl
        · rw [slotsOf_early (Or.inl stage), slotsOf_early (Or.inr phase), calls]
      · have phase : (process.passBarrier rank (.plan request) false).phase = .arriving true := if_neg publisher
        refine ⟨⟨sound.bounded, fun _ => ⟨_, found, blocks⟩, fun _ => ⟨request, found⟩, ?_, ?_, ?_,
          sound.cached, sound.results⟩, ?_, ?_, fun here => (publisher here).elim⟩
        · rw [phase]
          nofun
        · rw [phase]
          nofun
        · rw [phase]
          nofun
        · unfold passes
          rw [phase, stage, calls]
          rfl
        · rw [phase]
          rfl
    | true =>
      refine ⟨⟨sound.bounded, fun _ => ⟨_, found, blocks⟩, fun _ => ⟨request, found⟩, nofun, nofun, nofun,
        sound.cached, sound.results⟩, ?_, rfl, fun _ => ?_⟩
      · unfold passes
        rw [stage]
        rfl
      · rw [slotsOf_late (Or.inr (Or.inr rfl)), slotsOf_late (inside.imp id Or.inl)]
        rfl

/-- Each write of the publisher changes its own slot only, and the last one leaves it rebuilt. -/
theorem publish_moves (found : history[process.call]? = some (.plan request))
    {slots : Collective → IpcSharedPlanArena} (held : slots = slotsOf group history process)
    (wrote : publish group process.phase (slots request.collective) request = some (arena, phase)) :
    Moves group history rank process { process with phase := phase } ∧
      Function.update slots request.collective arena = slotsOf group history { process with phase := phase } ∧
      rank = 0 := by
  have writes : process.phase.writes = true := by
    cases here : process.phase <;> rw [here] at wrote <;> first | rfl | cases wrote
  have stage : process.phase.stage = 1 := by
    cases here : process.phase <;> rw [here] at writes <;> first | rfl | cases writes
  have publisher := sound.writer writes
  obtain ⟨call, same, blocks⟩ := sound.blocks (by intro idle; rw [idle] at writes; cases writes)
  rw [found, Option.some.injEq] at same
  subst same
  have moved (status : ∀ status, phase = .stamping status ∨ phase = .wiping status →
      status = (request.build (group.member 0) {}).1) (stays : phase.stage = 1) (free : phase.waits = false) :
      Moves group history rank process { process with phase := phase } := by
    refine ⟨⟨sound.bounded, fun _ => ⟨_, found, blocks⟩, fun _ => ⟨request, found⟩, fun _ => publisher, ?_, ?_,
      sound.cached, sound.results⟩, ?_, free⟩
    · intro built here other same
      rw [found, Option.some.injEq, MatchedCall.plan.injEq] at same
      rw [← same]
      exact status built here
    · intro second generation here
      rw [show phase = _ from here] at free
      cases free
    · unfold passes
      rw [stage]
      exact congrArg _ stays
  unfold slotsOf at held
  cases here : process.phase with
  | clearing =>
    rw [here] at wrote held
    obtain ⟨rfl, rfl⟩ := wrote
    refine ⟨moved nofun rfl rfl, ?_, publisher⟩
    unfold slotsOf
    rw [held, found]
  | building =>
    rw [here, found] at held
    rw [here] at wrote
    obtain ⟨rfl, rfl⟩ := wrote
    subst held
    simp only [Function.update_self, Function.update_idem] at moved ⊢
    refine ⟨moved (by simp) rfl rfl, ?_, publisher⟩
    unfold slotsOf
    rw [found]
  | stamping status =>
    rw [here, found] at held
    rw [here] at wrote
    obtain ⟨rfl, rfl⟩ := wrote
    subst held
    have built := sound.built status (Or.inl here) request found
    simp only [Function.update_self, Function.update_idem]
    refine ⟨moved (by simp [built]) rfl rfl, ?_, publisher⟩
    unfold slotsOf
    rw [found]
  | wiping status =>
    rw [here, found] at held
    rw [here] at wrote
    obtain ⟨rfl, rfl⟩ := wrote
    subst held
    have built := sound.built status (Or.inr here) request found
    refine ⟨moved nofun rfl rfl, ?_, publisher⟩
    rw [slotsOf_late (Or.inl rfl), after_succ found, next_blocks blocks]
    simp only [Function.update_self, Function.update_idem, rebuilt, built]
    congr 1
    split
    · rfl
    · rename_i outcome
      rw [if_pos (not_not.mp outcome)]
  | _ =>
    rw [here] at writes
    cases writes

theorem read_moves (found : history[process.call]? = some (.plan request)) (reading : process.phase = .reading)
    {slots : Collective → IpcSharedPlanArena} (held : slots = (after group history (process.call + 1)).arenas) :
    Moves group history rank process (process.read group rank (slots request.collective) request) ∧
      slotsOf group history (process.read group rank (slots request.collective) request) =
        slotsOf group history process := by
  obtain ⟨_, same, blocks⟩ := sound.blocks (by rw [reading]; nofun)
  rw [found, Option.some.injEq] at same
  subst same
  have next := (after_succ found).trans (next_blocks blocks)
  have grown := sound.rounds_rebuild (by rw [reading]; nofun)
  have arena : slots request.collective = rebuilt group request := by
    rw [held, next]
    exact Function.update_self ..
  have returns (moved : RankProcess) (result : OoStatus) (same : moved.call = process.call)
      (kept : moved.results = process.results) (status : result = request.freshStatus (group.member 0))
      (cached : ∀ collective, keysOf moved collective = (after group history (process.call + 1)).keys collective) :
      Moves group history rank process (moved.finish result) ∧
        slotsOf group history (moved.finish result) = slotsOf group history process := by
    refine ⟨⟨sound.finish found cached same kept status, ?_, rfl⟩, ?_⟩
    · unfold passes
      change (after group history (moved.call + 1)).rounds + 0 = _
      rw [reading, same, grown]
      rfl
    · rw [slotsOf_late (Or.inr (Or.inr reading)), slotsOf_early (Or.inl rfl)]
      change (after group history (moved.call + 1)).arenas = _
      rw [same]
  rw [arena]
  unfold RankProcess.read
  rcases rebuilt_cases group request with ⟨success, fresh⟩ | ⟨failed, absent⟩
  · rw [if_neg (not_not.mpr success), rebuilt_matches, success]
    refine returns _ _ rfl rfl ?_ fun collective => ?_
    · rw [PlanRequest.freshStatus, if_neg blocks.1, fresh]
      rfl
    · rw [next, request.key_member group rank]
      by_cases here : collective = request.collective
      · subst here
        simp [keysOf, success]
      · simp only [keysOf, Function.update_of_ne here]
        exact sound.cached collective
  · rw [if_pos (by rw [failed]; nofun)]
    refine returns _ _ rfl rfl ?_ fun collective => ?_
    · rw [failed, PlanRequest.freshStatus, if_neg blocks.1, absent]
      rfl
    · rw [next]
      by_cases here : collective = request.collective
      · subst here
        simp [keysOf, failed]
      · simp only [keysOf, Function.update_of_ne here]
        exact sound.cached collective

end RankSound

end Process

namespace Lockstep

open SlotHistory

variable {group : IpcGroup} {history : List MatchedCall} {state : IpcState} {rank : Nat}

/-- Whoever is between two rounds of barriers finds the slots as the calls so far have left them. -/
theorem settled (lockstep : Lockstep group history state) (member : rank < group.worldSize)
    (free : (state.ranks rank).phase.waits = false)
    (round : passes group history (state.ranks rank) = (after group history calls).rounds) :
    state.arenas = (after group history calls).arenas := by
  have publisher := lockstep.ranks 0 group.positive
  have reached := lockstep.barrier.present rank (Finset.mem_range.mpr member) free
  have inside := lockstep.barrier.inside 0 (Finset.mem_range.mpr group.positive)
  have present := lockstep.barrier.present 0 (Finset.mem_range.mpr group.positive)
  rw [round] at reached
  rw [lockstep.slots]
  generalize state.ranks 0 = process at publisher inside present
  unfold passes at inside present
  rw [← reached] at inside present
  have early (stage : process.phase.stage = 0) (passed : (after group history process.call).rounds +
      process.phase.stage = (after group history calls).rounds) :
      slotsOf group history process = (after group history calls).arenas := by
    rw [stage] at passed
    rw [slotsOf_early (Or.inl stage), after_eq_of_rounds passed]
  have middle (stage : process.phase.stage = 1) (passed : (after group history process.call).rounds +
      process.phase.stage = (after group history calls).rounds) : False := by
    rw [stage] at passed
    exact publisher.rounds_gap (by omega) calls passed.symm
  have late (past : process.phase.stage ≠ 0) (passed : (after group history process.call).rounds + 2 =
      (after group history calls).rounds) :
      (after group history (process.call + 1)).arenas = (after group history calls).arenas := by
    rw [after_eq_of_rounds ((publisher.rounds_rebuild past).trans passed)]
  cases phase : process.phase with
  | idle =>
    rw [phase] at present early
    exact early rfl (present rfl)
  | arriving second =>
    rw [phase] at present early middle
    cases second with
    | false => exact early rfl (present rfl)
    | true => exact (middle rfl (present rfl)).elim
  | waiting second generation =>
    rw [phase] at inside early middle late
    cases second with
    | false =>
      rcases inside rfl with here | freed
      · exact early rfl here
      · change (after group history process.call).rounds + 0 + 1 = _ at freed
        obtain ⟨call, found, blocks⟩ := publisher.blocks (by rw [phase]; nofun)
        rw [slotsOf_early (Or.inl (by rw [phase]; rfl))]
        cases call with
        | sync =>
          have passed : (after group history (process.call + 1)).rounds = (after group history calls).rounds := by
            rw [after_succ found, ← freed]
            rfl
          rw [← after_eq_of_rounds passed, after_succ found]
          rfl
        | plan request =>
          have grown : (after group history (process.call + 1)).rounds =
              (after group history process.call).rounds + 2 := by rw [after_succ found, next_blocks blocks]
          exfalso
          rcases Nat.lt_or_ge process.call calls with later | earlier
          · have grows : (after group history (process.call + 1)).rounds ≤ (after group history calls).rounds :=
              after_rounds_mono later
            omega
          · have grows : (after group history calls).rounds ≤ (after group history process.call).rounds :=
              after_rounds_mono earlier
            omega
    | true =>
      rcases inside rfl with here | freed
      · exact (middle rfl here).elim
      · rw [slotsOf_late (Or.inr (Or.inl ⟨generation, phase⟩))]
        exact late nofun freed
  | reading =>
    rw [phase] at present late
    rw [slotsOf_late (Or.inr (Or.inr phase))]
    exact late nofun (present rfl)
  | _ =>
    rw [phase] at present middle
    exact (middle rfl (present rfl)).elim

/-- One process moves, the others stay where they are. -/
theorem placed (lockstep : Lockstep group history state) {gate : Gate}
    {arenas : Collective → IpcSharedPlanArena} (sound : RankSound group history rank moved)
    (barrier : Consistent (Finset.range group.worldSize) gate
      (fun other => passes group history (Function.update state.ranks rank moved other))
      (fun other => (Function.update state.ranks rank moved other).phase.waits))
    (slots : arenas = slotsOf group history (Function.update state.ranks rank moved 0)) :
    Lockstep group history ⟨gate, arenas, Function.update state.ranks rank moved⟩ where
  barrier := barrier
  ranks other member := by
    change RankSound group history other (Function.update state.ranks rank moved other)
    by_cases here : other = rank
    · subst here
      rwa [Function.update_self]
    · rw [Function.update_of_ne here]
      exact lockstep.ranks other member
  slots := slots

theorem elsewhere (state : IpcState) (rank : Nat) (moved : RankProcess) :
    Elsewhere rank (fun other => passes group history (state.ranks other))
      (fun other => passes group history (Function.update state.ranks rank moved other))
      (fun other => (state.ranks other).phase.waits)
      (fun other => (Function.update state.ranks rank moved other).phase.waits) := by
  intro other apart
  simp only [Function.update_of_ne apart, and_self]

/-- The slots are as before when the publisher did not move, or moved without writing. -/
theorem slots_kept (lockstep : Lockstep group history state)
    (quiet : rank = 0 → slotsOf group history moved = slotsOf group history (state.ranks rank)) :
    state.arenas = slotsOf group history (Function.update state.ranks rank moved 0) := by
  rw [lockstep.slots]
  by_cases here : rank = 0
  · subst here
    rw [Function.update_self, quiet rfl]
  · rw [Function.update_of_ne (Ne.symm here)]

theorem stays (lockstep : Lockstep group history state) (outside : (state.ranks rank).phase.waits = false)
    (moves : RankSound.Moves group history rank (state.ranks rank) moved) :
    Consistent (Finset.range group.worldSize) state.gate
      (fun other => passes group history (Function.update state.ranks rank moved other))
      (fun other => (Function.update state.ranks rank moved other).phase.waits) := by
  refine lockstep.barrier.stay (elsewhere state rank moved) ?_ ?_
  · simp only [Function.update_self, moves.passes]
  · simp only [Function.update_self, moves.free, outside]

theorem step (lockstep : Lockstep group history state) (taken : IpcState.Step group history state moved) :
    Lockstep group history moved := by
  cases taken with
  | @enter rank call member next here =>
    have sound := lockstep.ranks rank member
    have outside : (state.ranks rank).phase.waits = false := by rw [here]; rfl
    have settled : state.arenas = (SlotHistory.after group history (state.ranks rank).call).arenas :=
      lockstep.settled member outside (by unfold passes; rw [here]; rfl)
    obtain ⟨moves, quiet⟩ := sound.enter_moves here next settled
    exact lockstep.placed moves.sound (lockstep.stays outside moves) (lockstep.slots_kept fun _ => quiet)
  | @arrive rank second member here early =>
    have sound := lockstep.ranks rank member
    have listed := Finset.mem_range.mpr member
    have outside : (state.ranks rank).phase.waits = false := by rw [here]; rfl
    have present := lockstep.barrier.present rank listed outside
    have stage : (Phase.waiting second state.gate.generation).stage = (state.ranks rank).phase.stage := by
      rw [here]
      cases second <;> rfl
    have kept : passes group history { state.ranks rank with phase := .waiting second state.gate.generation } =
        passes group history (state.ranks rank) := by
      unfold passes
      exact congrArg _ stage
    obtain ⟨call, found, blocks⟩ := sound.blocks (by rw [here]; nofun)
    have moved : RankSound group history rank { state.ranks rank with phase := .waiting second state.gate.generation } := by
      refine ⟨sound.bounded, fun _ => ⟨call, found, blocks⟩, fun past => sound.plans ?_, nofun, by simp, ?_,
        sound.cached, sound.results⟩
      · rwa [← stage]
      · rintro _ _ ⟨⟩
        rw [kept]
        exact present.symm
    refine lockstep.placed moved ?_ (lockstep.slots_kept fun _ => ?_)
    · refine lockstep.barrier.arrive listed outside (by simpa using early) (elsewhere state rank _) ?_ ?_
      · simp only [Function.update_self, kept]
      · simp only [Function.update_self]
        rfl
    · cases second with
      | false => rw [slotsOf_early (Or.inl rfl), slotsOf_early (Or.inl (by rw [here]; rfl))]
      | true => rw [slotsOf_late (Or.inr (Or.inl ⟨_, rfl⟩)), slotsOf_late (Or.inl here)]
  | @arriveLast rank call second member next here last =>
    have outside : (state.ranks rank).phase.waits = false := by rw [here]; rfl
    obtain ⟨moved, more, free, quiet⟩ := (lockstep.ranks rank member).passBarrier_moves next (Or.inl here)
    refine lockstep.placed moved ?_ (lockstep.slots_kept quiet)
    refine lockstep.barrier.arriveLast (Finset.mem_range.mpr member) outside (by simpa using last)
      (elsewhere state rank _) ?_ ?_
    · simp only [Function.update_self, more]
    · simp only [Function.update_self, free]
  | @leave rank generation call second member next here opened =>
    have sound := lockstep.ranks rank member
    have inside : (state.ranks rank).phase.waits = true := by rw [here]; rfl
    have stored := sound.stored second generation here
    obtain ⟨moved, more, free, quiet⟩ := sound.passBarrier_moves next (Or.inr ⟨generation, here⟩)
    refine lockstep.placed moved ?_ (lockstep.slots_kept quiet)
    refine lockstep.barrier.leave (Finset.mem_range.mpr member) inside (by rwa [← stored])
      (elsewhere state rank _) ?_ ?_
    · simp only [Function.update_self, more]
    · simp only [Function.update_self, free]
  | @publish rank request arena phase member next here =>
    have sound := lockstep.ranks rank member
    have writes : (state.ranks rank).phase.writes = true := by
      cases phase : (state.ranks rank).phase <;> rw [phase] at here <;> first | rfl | cases here
    have outside : (state.ranks rank).phase.waits = false := by
      cases phase : (state.ranks rank).phase <;> rw [phase] at writes <;> first | rfl | cases writes
    have held : state.arenas = slotsOf group history (state.ranks rank) := by
      rw [sound.writer writes]
      exact lockstep.slots
    obtain ⟨moves, wrote, publisher⟩ := sound.publish_moves next held here
    refine lockstep.placed moves.sound (lockstep.stays outside moves) ?_
    rw [wrote, ← publisher, Function.update_self]
  | @read rank request member next here =>
    have sound := lockstep.ranks rank member
    have outside : (state.ranks rank).phase.waits = false := by rw [here]; rfl
    have settled : state.arenas = (SlotHistory.after group history ((state.ranks rank).call + 1)).arenas := by
      refine lockstep.settled member outside ?_
      rw [sound.rounds_rebuild (by rw [here]; nofun)]
      unfold passes
      rw [here]
      rfl
    obtain ⟨moves, quiet⟩ := sound.read_moves next here settled
    exact lockstep.placed moves.sound (lockstep.stays outside moves) (lockstep.slots_kept fun _ => quiet)

theorem start (group : IpcGroup) (history : List MatchedCall) : Lockstep group history {} where
  barrier := consistent_start (Finset.nonempty_range_iff.mpr (Nat.ne_of_gt group.positive))
  ranks _ _ := ⟨Nat.zero_le _, fun moving => (moving rfl).elim, fun past => (past rfl).elim, nofun, by simp, nofun,
    fun _ => rfl, rfl⟩
  slots := by
    have idle : ({} : RankProcess).phase.stage = 0 := rfl
    exact (slotsOf_early (Or.inl idle)).symm

theorem of_reachable (reached : IpcState.Reachable group history state) : Lockstep group history state :=
  invariant (Lockstep group history) (start group history) (fun _ _ lockstep taken => lockstep.step taken) reached

end Lockstep

end Ooverlap.Distribution
