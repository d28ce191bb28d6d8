import Mathlib.Algebra.BigOperators.Group.Finset.Basic
import Mathlib.Algebra.Order.BigOperators.Group.Finset
import Ooverlap.Distribution.SlotAgreement

/-! What the ranks get out of the shared plan slot, and that they all return. -/

namespace Ooverlap.Distribution

open Plan Lowering GenerationBarrier Interleaving Relation SlotHistory
open Api (OoGroup)

/-- Every rank returns the statuses of fresh builds, a plan it may use is the fresh plan of its request, and
the publisher writes only while every rank is inside the call it publishes for. -/
structure SlotAgreement (group : IpcGroup) (history : List MatchedCall) (state : IpcState) : Prop where
  statuses : ∀ rank < group.worldSize, (state.ranks rank).results =
    (history.take (state.ranks rank).call).filterMap (freshResult group)
  plans : ∀ rank < group.worldSize, (state.ranks rank).phase = .idle → ∀ call request,
    (state.ranks rank).call = call + 1 → history[call]? = some (.plan request) →
    request.freshStatus (group.member 0) = .success →
    request.freshPlan (group.member 0) = some (state.arenas request.collective).plan
  undisturbed : ∀ publisher < group.worldSize, (state.ranks publisher).phase.writes = true →
    ∀ rank < group.worldSize, (state.ranks rank).call = (state.ranks publisher).call ∧ (state.ranks rank).phase ≠ .idle

section Outcome

variable {group : IpcGroup} {history : List MatchedCall} {state : IpcState} {rank : Nat} {process : RankProcess}

theorem PlanRequest.freshStatus_success {request : PlanRequest} {view : OoGroup}
    (success : request.freshStatus view = .success) :
    ¬request.rejected view ∧ ∃ plan, request.freshPlan view = some plan := by
  unfold PlanRequest.freshStatus at success
  split at success
  · cases success
  · rename_i accepted
    cases found : request.freshPlan view with
    | none =>
      rw [found] at success
      cases success
    | some plan => exact ⟨accepted, plan, rfl⟩

theorem RankSound.rounds_block (sound : RankSound group history rank process) (moving : process.phase ≠ .idle) :
    (after group history process.call).rounds < (after group history (process.call + 1)).rounds := by
  obtain ⟨call, found, blocks⟩ := sound.blocks moving
  rw [after_succ found]
  exact next_rounds_lt blocks

/-- A process that has left one barrier of a rebuild is in the same call as another that has left as many. -/
theorem Lockstep.same_call (lockstep : Lockstep group history state) (publisher : 0 < group.worldSize)
    (past : (state.ranks 0).phase.stage = 1) (free : (state.ranks 0).phase.waits = false)
    (member : rank < group.worldSize) :
    (state.ranks rank).call = (state.ranks 0).call ∧ (state.ranks rank).phase ≠ .idle := by
  have reached := lockstep.barrier.present 0 (Finset.mem_range.mpr publisher) free
  have present := lockstep.barrier.present rank (Finset.mem_range.mpr member)
  have inside := lockstep.barrier.inside rank (Finset.mem_range.mpr member)
  have writing := lockstep.ranks 0 publisher
  have sound := lockstep.ranks rank member
  generalize state.ranks 0 = ahead at past free reached writing
  generalize state.ranks rank = process at present inside sound
  unfold passes at reached present inside
  rw [past] at reached
  rw [← reached] at present inside
  have gap := writing.rounds_gap (by omega)
  -- Two blocking calls with equally many barriers before them are the same call.
  have located (moving : process.phase ≠ .idle)
      (same : (after group history process.call).rounds = (after group history ahead.call).rounds) :
      process.call = ahead.call := by
    have rebuild := writing.rounds_rebuild (by omega)
    have block := sound.rounds_block moving
    by_contra apart
    rcases Nat.lt_or_gt_of_ne apart with earlier | later
    · have grows : (after group history (process.call + 1)).rounds ≤ (after group history ahead.call).rounds :=
        after_rounds_mono earlier
      omega
    · have grows : (after group history (ahead.call + 1)).rounds ≤ (after group history process.call).rounds :=
        after_rounds_mono later
      omega
  have early (stage : process.phase.stage = 0) (passed : (after group history process.call).rounds +
      process.phase.stage = (after group history ahead.call).rounds + 1) : False := by
    rw [stage] at passed
    exact gap process.call passed
  have middle (moving : process.phase ≠ .idle) (stage : process.phase.stage = 1)
      (passed : (after group history process.call).rounds + process.phase.stage =
        (after group history ahead.call).rounds + 1) : process.call = ahead.call := by
    rw [stage] at passed
    exact located moving (Nat.add_right_cancel passed)
  cases phase : process.phase with
  | idle =>
    rw [phase] at present early
    exact (early rfl (present rfl)).elim
  | arriving second =>
    rw [phase] at present early middle
    cases second with
    | false => exact (early rfl (present rfl)).elim
    | true => exact ⟨middle nofun rfl (present rfl), nofun⟩
  | waiting second generation =>
    rw [phase] at inside early middle
    have moving : process.phase ≠ .idle := by rw [phase]; nofun
    refine ⟨?_, nofun⟩
    cases second with
    | false =>
      rcases inside rfl with here | freed
      · exact (early rfl here).elim
      · exact located moving (Nat.add_right_cancel freed)
    | true =>
      rcases inside rfl with here | freed
      · exact middle nofun rfl here
      · have rebuild := sound.rounds_rebuild (by rw [phase]; nofun)
        change (after group history process.call).rounds + 1 + 1 = _ at freed
        exact (gap (process.call + 1) (rebuild.trans freed)).elim
  | reading =>
    rw [phase] at present
    have rebuild := sound.rounds_rebuild (by rw [phase]; nofun)
    exact (gap (process.call + 1) (rebuild.trans (present rfl))).elim
  | _ =>
    rw [phase] at present middle
    exact ⟨middle nofun rfl (present rfl), nofun⟩

theorem Lockstep.agreement (lockstep : Lockstep group history state) : SlotAgreement group history state where
  statuses rank member := (lockstep.ranks rank member).results
  plans rank member idle call request returned found success := by
    have settled : state.arenas = (after group history (call + 1)).arenas := by
      refine lockstep.settled member (by rw [idle]; rfl) ?_
      unfold passes
      rw [idle, returned]
      rfl
    obtain ⟨accepted, plan, fresh⟩ := PlanRequest.freshStatus_success success
    rw [settled, after_succ found, next_plan (after_sound group history call) accepted fresh]
    exact fresh
  undisturbed publisher member writes rank listed := by
    have first := (lockstep.ranks publisher member).writer writes
    subst first
    refine lockstep.same_call member ?_ ?_ listed
    · cases phase : (state.ranks 0).phase <;> rw [phase] at writes <;> first | rfl | cases writes
    · cases phase : (state.ranks 0).phase <;> rw [phase] at writes <;> first | rfl | cases writes

end Outcome

section Completion

variable {group : IpcGroup} {history : List MatchedCall} {state : IpcState} {rank : Nat} {process : RankProcess}

def Phase.order : Phase → Nat
  | .idle => 0
  | .arriving false => 1
  | .waiting false _ => 2
  | .clearing => 3
  | .building => 4
  | .stamping _ => 5
  | .wiping _ => 6
  | .arriving true => 7
  | .waiting true _ => 8
  | .reading => 9

/-- Bound on the steps a process still has to take. -/
def leftOf (history : List MatchedCall) (process : RankProcess) : Nat :=
  10 * (history.length - process.call) - process.phase.order

theorem Phase.order_le (phase : Phase) : phase.order ≤ 9 := by
  cases phase with
  | arriving second => cases second <;> decide
  | waiting second _ => cases second <;> exact Nat.le_of_ble_eq_true rfl
  | _ => exact Nat.le_of_ble_eq_true rfl

theorem leftOf_returns (found : history[process.call]? = some call) (next : moved.call = process.call + 1) :
    leftOf history moved < leftOf history process := by
  obtain ⟨within, _⟩ := List.getElem?_eq_some_iff.mp found
  have := process.phase.order_le
  unfold leftOf
  omega

theorem leftOf_advances (found : history[process.call]? = some call) (same : moved.call = process.call)
    (later : process.phase.order < moved.phase.order) : leftOf history moved < leftOf history process := by
  obtain ⟨within, _⟩ := List.getElem?_eq_some_iff.mp found
  have := moved.phase.order_le
  unfold leftOf
  omega

theorem passBarrier_left (found : history[process.call]? = some call)
    (inside : process.phase = .arriving second ∨ ∃ generation, process.phase = .waiting second generation) :
    leftOf history (process.passBarrier rank call second) < leftOf history process := by
  cases call with
  | sync => exact leftOf_returns found rfl
  | plan request =>
    have order : process.phase.order ≤ if second then 8 else 2 := by
      rcases inside with phase | ⟨_, phase⟩ <;> rw [phase] <;> cases second <;> simp [Phase.order]
    cases second with
    | false =>
      refine leftOf_advances found rfl (lt_of_le_of_lt order ?_)
      change 2 < (if rank = 0 then Phase.clearing else .arriving true).order
      split <;> simp [Phase.order]
    | true => exact leftOf_advances found rfl (lt_of_le_of_lt order (Nat.lt_succ_self 8))

theorem enter_left (found : history[process.call]? = some call) (idle : process.phase = .idle)
    (slots : Collective → IpcSharedPlanArena) :
    leftOf history (process.enter group rank slots call) < leftOf history process := by
  have arrives : leftOf history { process with phase := .arriving false } < leftOf history process :=
    leftOf_advances found rfl (by rw [idle]; exact Nat.zero_lt_one)
  cases call with
  | sync => exact arrives
  | plan request =>
    unfold RankProcess.enter
    dsimp only
    split
    · exact leftOf_returns found rfl
    · split
      · exact leftOf_returns found rfl
      · exact arrives

theorem publish_order {next : Phase} (wrote : publish group phase slot request = some (arena, next)) :
    phase.order < next.order := by
  cases phase <;> simp only [publish, Option.some.injEq, Prod.mk.injEq, reduceCtorEq] at wrote <;>
    obtain ⟨_, rfl⟩ := wrote <;> simp [Phase.order]

def remaining (group : IpcGroup) (history : List MatchedCall) (state : IpcState) : Nat :=
  ∑ rank ∈ Finset.range group.worldSize, leftOf history (state.ranks rank)

theorem remaining_moved (member : rank < group.worldSize) {moved : RankProcess} {after : IpcState}
    (ranks : after.ranks = Function.update state.ranks rank moved)
    (less : leftOf history moved < leftOf history (state.ranks rank)) :
    remaining group history after < remaining group history state := by
  unfold remaining
  rw [ranks]
  refine Finset.sum_lt_sum (fun other _ => ?_) ⟨rank, Finset.mem_range.mpr member, ?_⟩
  · by_cases here : other = rank
    · subst here
      rw [Function.update_self]
      exact le_of_lt less
    · rw [Function.update_of_ne here]
  · rwa [Function.update_self]

theorem remaining_decreases (lockstep : Lockstep group history state) (taken : IpcState.Step group history state moved) :
    remaining group history moved < remaining group history state := by
  cases taken with
  | enter member next here => exact remaining_moved member rfl (enter_left next here _)
  | @arrive rank second member here early =>
    obtain ⟨call, found, _⟩ := (lockstep.ranks rank member).blocks (by rw [here]; nofun)
    refine remaining_moved member rfl (leftOf_advances found rfl ?_)
    rw [here]
    cases second <;> exact Nat.lt_succ_self _
  | arriveLast member next here last => exact remaining_moved member rfl (passBarrier_left next (Or.inl here))
  | leave member next here opened => exact remaining_moved member rfl (passBarrier_left next (Or.inr ⟨_, here⟩))
  | publish member next here => exact remaining_moved member rfl (leftOf_advances next rfl (publish_order here))
  | read member next here =>
    refine remaining_moved member rfl (leftOf_returns next ?_)
    unfold RankProcess.read
    split
    · rfl
    · split <;> rfl

/-- Some process can move until all have returned from their last call. -/
theorem progress (lockstep : Lockstep group history state) :
    IpcState.Finished group history state ∨ ∃ moved, IpcState.Step group history state moved := by
  by_contra stuck
  obtain ⟨unfinished, blocked⟩ := not_or.mp stuck
  have halted : ∀ rank < group.worldSize, ((state.ranks rank).phase = .idle ∧ (state.ranks rank).call = history.length) ∨
      ∃ second, (state.ranks rank).phase = .waiting second state.gate.generation := by
    intro rank member
    have sound := lockstep.ranks rank member
    have writing (writes : (state.ranks rank).phase.writes = true) : False := by
      have past : (state.ranks rank).phase.stage ≠ 0 := by
        cases phase : (state.ranks rank).phase <;> rw [phase] at writes <;>
          first | exact Nat.one_ne_zero | cases writes
      obtain ⟨request, found⟩ := sound.plans past
      have wrote : ∃ arena phase, publish group (state.ranks rank).phase (state.arenas request.collective) request =
          some (arena, phase) := by
        cases phase : (state.ranks rank).phase <;> rw [phase] at writes <;>
          first | exact ⟨_, _, rfl⟩ | cases writes
      obtain ⟨arena, phase, wrote⟩ := wrote
      exact blocked ⟨_, .publish member found wrote⟩
    cases phase : (state.ranks rank).phase with
    | idle =>
      refine Or.inl ⟨rfl, ?_⟩
      cases found : history[(state.ranks rank).call]? with
      | none => exact le_antisymm sound.bounded (List.getElem?_eq_none_iff.mp found)
      | some call => exact (blocked ⟨_, .enter member found phase⟩).elim
    | arriving second =>
      obtain ⟨call, found, _⟩ := sound.blocks (by rw [phase]; nofun)
      by_cases last : state.gate.count + 1 = group.worldSize
      · exact (blocked ⟨_, .arriveLast member found phase last⟩).elim
      · exact (blocked ⟨_, .arrive member phase last⟩).elim
    | waiting second generation =>
      obtain ⟨call, found, _⟩ := sound.blocks (by rw [phase]; nofun)
      by_cases opened : generation = state.gate.generation
      · exact Or.inr ⟨second, by rw [opened]⟩
      · exact (blocked ⟨_, .leave member found phase opened⟩).elim
    | reading =>
      obtain ⟨request, found⟩ := sound.plans (by rw [phase]; nofun)
      exact (blocked ⟨_, .read member found phase⟩).elim
    | _ => exact (writing (by rw [phase]; rfl)).elim
  -- A rank that waits in a round which a returned rank has left contradicts the count of rounds.
  obtain ⟨free, listed, outside⟩ := lockstep.barrier.exists_free
  have member := Finset.mem_range.mp listed
  obtain ⟨idle, returned⟩ := (halted free member).resolve_right (by
    rintro ⟨second, phase⟩
    rcases outside with out | out
    · rw [phase] at out
      cases out
    · exact out ((lockstep.ranks free member).stored _ _ phase).symm)
  have rounds : (after group history history.length).rounds = state.gate.generation := by
    have present := lockstep.barrier.present free listed (by rw [idle]; rfl)
    unfold passes at present
    rw [idle, returned] at present
    exact present
  refine unfinished fun rank inRange => ?_
  rcases halted rank inRange with ⟨_, done⟩ | ⟨second, phase⟩
  · exact done
  · have sound := lockstep.ranks rank inRange
    have stored := sound.stored second _ phase
    have bounded := sound.rounds_block (by rw [phase]; nofun)
    obtain ⟨call, found, _⟩ := sound.blocks (by rw [phase]; nofun)
    obtain ⟨within, _⟩ := List.getElem?_eq_some_iff.mp found
    have last : (after group history ((state.ranks rank).call + 1)).rounds ≤
        (after group history history.length).rounds := after_rounds_mono within
    unfold passes at stored
    rw [phase, ← rounds] at stored
    cases second with
    | false =>
      change _ = (after group history (state.ranks rank).call).rounds + 0 at stored
      omega
    | true => exact (sound.rounds_gap (by rw [phase]; nofun) _ stored).elim

/-- In every interleaving of the processes, the shared slot answers every rank as a fresh build would, is
rewritten only inside the call that all ranks are in, and lets every rank return from all its calls. -/
theorem getOrBuildSharedIpcPlanDirect_agrees (group : IpcGroup) (history : List MatchedCall) :
    (∀ state, IpcState.Reachable group history state → SlotAgreement group history state) ∧
      Completes (IpcState.Step group history) {} (IpcState.Finished group history) := by
  refine ⟨fun state reached => (Lockstep.of_reachable reached).agreement, ?_⟩
  exact completes_of_progress (Lockstep group history) (Lockstep.start group history)
    (fun _ _ lockstep taken => lockstep.step taken) _ (remaining group history)
    (fun _ _ lockstep taken => remaining_decreases lockstep taken) fun _ lockstep => progress lockstep

/-- Two processes that see no topology. -/
def twoProcesses : IpcGroup where
  worldSize := 2
  positive := Nat.two_pos
  member _ := { numDevices := 2 }
  sized _ := rfl

/-- A request that is built, the same request again, one whose chunk size no plan takes, and the first once more. -/
def missHitFailure : List MatchedCall :=
  [.plan { count := 8 }, .plan { count := 8 }, .plan { count := 8, config := { chunkBytes := 0 } }, .sync,
    .plan { count := 8 }]

theorem missHitFailure_fresh : missHitFailure.filterMap (freshResult twoProcesses) =
    [.success, .success, .unsupported, .success] := by
  decide +kernel

/-- Every interleaving of the two processes can be run to its end, where both have the four fresh answers. -/
theorem getOrBuildSharedIpcPlanDirect_agrees_missHitFailure :
    ∀ state, IpcState.Reachable twoProcesses missHitFailure state →
      ∃ final, Relation.ReflTransGen (IpcState.Step twoProcesses missHitFailure) state final ∧
        ∀ rank < 2, (final.ranks rank).results = [.success, .success, .unsupported, .success] := by
  obtain ⟨agreement, completes⟩ := getOrBuildSharedIpcPlanDirect_agrees twoProcesses missHitFailure
  intro state reached
  obtain ⟨final, later, finished⟩ := completes state reached
  refine ⟨final, later, fun rank member => ?_⟩
  have answers := (agreement final (reached.trans later)).statuses rank member
  rw [finished rank member, List.take_length] at answers
  exact answers.trans missHitFailure_fresh

end Completion

end Ooverlap.Distribution
