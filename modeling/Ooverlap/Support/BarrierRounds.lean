import Mathlib.Algebra.BigOperators.Intervals
import Mathlib.Algebra.Order.BigOperators.Group.Finset
import Mathlib.Data.Fintype.Card
import Ooverlap.Support.GenerationBarrier
import Ooverlap.Support.Interleaving

/-! Agents in rounds of work, each round closed by one generation barrier that is used over and over. -/

namespace Ooverlap.BarrierRounds

open Relation Interleaving GenerationBarrier

/-- What every agent does before the barrier of each round, and what a load of the generation returns. -/
structure System (Agent Work Shared : Type*) where
  rounds : Nat
  segment : Nat → Agent → List Work
  performs : Agent → Work → Shared → Shared → Prop
  view : Nat → Int
  changes : ∀ generation, view (generation + 1) ≠ view generation

/-- Barriers left, work before the next one, and the generation an agent has read inside it. -/
structure State (Agent Work Shared : Type*) where
  passes : Agent → Nat
  todo : Agent → List Work
  held : Agent → Option Int
  gate : Gate
  shared : Shared

section Code

variable {Agent Work Shared : Type*} (system : System Agent Work Shared)

def start (shared : Shared) : State Agent Work Shared where
  passes _ := 0
  todo := system.segment 0
  held _ := none
  gate := {}
  shared := shared

/-- An agent goes on to the work after a barrier. -/
def State.pass [DecidableEq Agent] (state : State Agent Work Shared) (agent : Agent) : State Agent Work Shared :=
  { state with
    passes := Function.update state.passes agent (state.passes agent + 1)
    todo := Function.update state.todo agent (system.segment (state.passes agent + 1) agent)
    held := Function.update state.held agent none }

/-- One agent works, arrives at its barrier, opens it as the last one, or finds the generation changed and leaves. -/
inductive Step [Fintype Agent] [DecidableEq Agent] : State Agent Work Shared → State Agent Work Shared → Prop where
  | work {state : State Agent Work Shared} {agent : Agent} {item : Work} {rest : List Work} {shared : Shared}
      (outside : state.held agent = none) (next : state.todo agent = item :: rest)
      (performed : system.performs agent item state.shared shared) :
      Step state { state with todo := Function.update state.todo agent rest, shared := shared }
  | arrive {state : State Agent Work Shared} {agent : Agent} (outside : state.held agent = none)
      (done : state.todo agent = []) (more : state.passes agent < system.rounds)
      (early : state.gate.count + 1 ≠ Fintype.card Agent) :
      Step state
        { state with
          held := Function.update state.held agent (some (system.view state.gate.generation))
          gate := { state.gate with count := state.gate.count + 1 } }
  | arriveLast {state : State Agent Work Shared} {agent : Agent} (outside : state.held agent = none)
      (done : state.todo agent = []) (more : state.passes agent < system.rounds)
      (last : state.gate.count + 1 = Fintype.card Agent) :
      Step state
        { state.pass system agent with gate := { count := 0, generation := state.gate.generation + 1 } }
  | leave {state : State Agent Work Shared} {agent : Agent} {generation : Int}
      (inside : state.held agent = some generation) (opened : generation ≠ system.view state.gate.generation) :
      Step state (state.pass system agent)

abbrev Reachable [Fintype Agent] [DecidableEq Agent] (shared : Shared) (state : State Agent Work Shared) : Prop :=
  ReflTransGen (Step system) (start system shared) state

def Finished (state : State Agent Work Shared) : Prop :=
  ∀ agent, state.passes agent = system.rounds ∧ state.todo agent = []

/-- Safety of the barriers: nobody leaves one before everybody has entered it. -/
def Separates (state : State Agent Work Shared) : Prop :=
  ∀ agent other, state.passes agent ≤ state.passes other + if (state.held other).isSome then 1 else 0

/-- Work an agent has left in the round that the barrier is in. -/
def left (state : State Agent Work Shared) (agent : Agent) : List Work :=
  if (state.held agent).isSome then
    if state.passes agent = state.gate.generation then [] else system.segment state.gate.generation agent
  else state.todo agent

/-- Barrier words against the agents. -/
structure Aligned [Fintype Agent] (state : State Agent Work Shared) : Prop where
  consistent : Consistent Finset.univ state.gate state.passes fun agent => (state.held agent).isSome
  read : ∀ agent generation, state.held agent = some generation → generation = system.view (state.passes agent)
  within : ∀ agent, (state.held agent).isSome → state.passes agent < system.rounds
  bounded : ∀ agent, state.passes agent ≤ system.rounds

/-- An assertion that work keeps within a round and that a finished round hands over to the next. -/
structure RoundRule [DecidableEq Agent] (inv : Nat → (Agent → List Work) → Shared → Prop) : Prop where
  work : ∀ round left shared agent item rest shared', inv round left shared → left agent = item :: rest →
    system.performs agent item shared shared' → inv round (Function.update left agent rest) shared'
  next : ∀ round shared, round < system.rounds → inv round (fun _ => []) shared →
    inv (round + 1) (system.segment (round + 1)) shared

variable {system}

section Runs

variable [Fintype Agent] [DecidableEq Agent] {state after : State Agent Work Shared}

omit [DecidableEq Agent] in
theorem Aligned.outside (aligned : Aligned system state) (outside : state.held agent = none) :
    state.passes agent = state.gate.generation :=
  aligned.consistent.present agent (Finset.mem_univ _) (by simp [outside])

omit [DecidableEq Agent] in
theorem Aligned.opened (aligned : Aligned system state) (inside : state.held agent = some generation)
    (opened : generation ≠ system.view state.gate.generation) :
    state.passes agent + 1 = state.gate.generation := by
  have either := aligned.consistent.inside agent (Finset.mem_univ _) (by simp [inside])
  refine either.resolve_left fun same => opened ?_
  rw [aligned.read agent generation inside, same]

/-- The others while the last agent arrives. -/
theorem Aligned.last (aligned : Aligned system state) (outside : state.held actor = none)
    (last : state.gate.count + 1 = Fintype.card Agent) (apart : agent ≠ actor) :
    (state.held agent).isSome ∧ state.passes agent = state.gate.generation :=
  aligned.consistent.others_held (Finset.mem_univ actor) (by simp [outside]) last agent (Finset.mem_univ _) apart

omit [Fintype Agent] in
theorem elsewhere_pass (state : State Agent Work Shared) (actor : Agent) :
    Elsewhere actor state.passes (state.pass system actor).passes (fun agent => (state.held agent).isSome)
      (fun agent => ((state.pass system actor).held agent).isSome) := by
  intro agent apart
  simp only [State.pass, Function.update_of_ne apart, and_self]

omit [DecidableEq Agent] in
theorem aligned_start [Nonempty Agent] (system : System Agent Work Shared) (shared : Shared) :
    Aligned system (start system shared) where
  consistent := consistent_start Finset.univ_nonempty
  read _ _ inside := by cases inside
  within _ inside := by cases inside
  bounded _ := Nat.zero_le _

theorem aligned_pass (aligned : Aligned system state) (more : state.passes actor < system.rounds)
    (consistent : Consistent Finset.univ gate (state.pass system actor).passes
      fun agent => ((state.pass system actor).held agent).isSome) :
    Aligned system { state.pass system actor with gate := gate } where
  consistent := consistent
  read agent generation inside := by
    by_cases here : agent = actor
    · simp [State.pass, here] at inside
    · simp only [State.pass, Function.update_of_ne here] at inside ⊢
      exact aligned.read agent generation inside
  within agent inside := by
    by_cases here : agent = actor
    · simp [State.pass, here] at inside
    · simp only [State.pass, Function.update_of_ne here] at inside ⊢
      exact aligned.within agent inside
  bounded agent := by
    by_cases here : agent = actor
    · subst here
      simp only [State.pass, Function.update_self]
      exact more
    · simp only [State.pass, Function.update_of_ne here]
      exact aligned.bounded agent

theorem aligned_step (aligned : Aligned system state) (taken : Step system state after) : Aligned system after := by
  cases taken with
  | work outside next performed =>
    exact ⟨aligned.consistent, aligned.read, aligned.within, aligned.bounded⟩
  | @arrive actor outside done more early =>
    refine ⟨?_, fun agent generation inside => ?_, fun agent inside => ?_, aligned.bounded⟩
    · refine aligned.consistent.arrive (Finset.mem_univ actor) (by simp [outside]) early ?_ rfl (by simp)
      intro agent apart
      simp only [Function.update_of_ne apart, and_self]
    · by_cases here : agent = actor
      · subst here
        simp only [Function.update_self, Option.some.injEq] at inside
        rw [← inside, aligned.outside outside]
      · simp only [Function.update_of_ne here] at inside
        exact aligned.read agent generation inside
    · by_cases here : agent = actor
      · rw [here]
        exact more
      · simp only [Function.update_of_ne here] at inside
        exact aligned.within agent inside
  | @arriveLast actor outside done more last =>
    refine aligned_pass aligned more ?_
    exact aligned.consistent.arriveLast (Finset.mem_univ actor) (by simp [outside]) last (elsewhere_pass state actor)
      (by simp [State.pass]) (by simp [State.pass])
  | @leave actor generation inside opened =>
    refine aligned_pass aligned (aligned.within actor (by simp [inside])) ?_
    refine aligned.consistent.leave (Finset.mem_univ actor) (by simp [inside]) ?_ (elsewhere_pass state actor)
      (by simp [State.pass]) (by simp [State.pass])
    have := aligned.opened inside opened
    omega

theorem aligned_of_reachable [Nonempty Agent] (reached : Reachable system shared state) : Aligned system state :=
  invariant (Aligned system) (aligned_start system shared) (fun _ _ before taken => aligned_step before taken) reached

omit [DecidableEq Agent] in
theorem Aligned.separates (aligned : Aligned system state) : Separates state := by
  intro agent other
  have behind := aligned.consistent.passes_le (Finset.mem_univ agent)
  cases held : state.held other with
  | none =>
    have := aligned.outside held
    simp only [Option.isSome_none, Bool.false_eq_true, if_false]
    omega
  | some generation =>
    have := aligned.consistent.inside other (Finset.mem_univ _) (by simp [held])
    simp only [Option.isSome_some, if_true]
    omega

omit [Fintype Agent] [DecidableEq Agent] in
theorem left_outside (outside : state.held agent = none) : left system state agent = state.todo agent := by
  simp [left, outside]

/-- The rule of rounds: work is reasoned about inside one round, whatever the interleaving. -/
theorem RoundRule.step {inv : Nat → (Agent → List Work) → Shared → Prop} (rule : RoundRule system inv)
    (aligned : Aligned system state) (holds : inv state.gate.generation (left system state) state.shared)
    (taken : Step system state after) : inv after.gate.generation (left system after) after.shared := by
  cases taken with
  | @work actor item rest shared outside next performed =>
    have same : left system { state with todo := Function.update state.todo actor rest, shared := shared } =
        Function.update (left system state) actor rest := by
      funext agent
      by_cases here : agent = actor
      · subst here
        simp [left, outside]
      · simp [left, Function.update_of_ne here]
    rw [same]
    exact rule.work _ _ _ actor item rest shared holds (by rw [left_outside outside, next]) performed
  | @arrive actor outside done more early =>
    have same : left system
        { state with
          held := Function.update state.held actor (some (system.view state.gate.generation))
          gate := { state.gate with count := state.gate.count + 1 } } = left system state := by
      funext agent
      by_cases here : agent = actor
      · subst here
        simp [left, outside, done, aligned.outside outside]
      · simp [left, Function.update_of_ne here]
    rw [same]
    exact holds
  | @arriveLast actor outside done more last =>
    have finished : left system state = fun _ => [] := by
      funext agent
      by_cases here : agent = actor
      · rw [here, left_outside outside, done]
      · obtain ⟨inside, current⟩ := aligned.last outside last here
        simp [left, inside, current]
    have handed : left system
        { state.pass system actor with gate := { count := 0, generation := state.gate.generation + 1 } } =
          system.segment (state.gate.generation + 1) := by
      funext agent
      by_cases here : agent = actor
      · subst here
        simp [left, State.pass, aligned.outside outside]
      · obtain ⟨inside, current⟩ := aligned.last outside last here
        simp [left, State.pass, Function.update_of_ne here, inside, current]
    rw [finished] at holds
    rw [handed]
    exact rule.next _ _ (by rw [← aligned.outside outside]; exact more) holds
  | @leave actor generation inside opened =>
    have behind := aligned.opened inside opened
    have same : left system (state.pass system actor) = left system state := by
      funext agent
      by_cases here : agent = actor
      · subst here
        have current : state.passes agent ≠ state.gate.generation := by omega
        simp [left, State.pass, inside, current, behind]
      · simp [left, State.pass, Function.update_of_ne here]
    rw [same]
    exact holds

theorem RoundRule.reachable [Nonempty Agent] {inv : Nat → (Agent → List Work) → Shared → Prop}
    (rule : RoundRule system inv) (initial : inv 0 (system.segment 0) shared)
    (reached : Reachable system shared state) : inv state.gate.generation (left system state) state.shared := by
  have both : Aligned system state ∧ inv state.gate.generation (left system state) state.shared := by
    refine invariant (fun state => Aligned system state ∧ inv state.gate.generation (left system state) state.shared)
      ⟨aligned_start system shared, ?_⟩ ?_ reached
    · have fresh : left system (start system shared) = system.segment 0 := by
        funext agent
        simp [left, start]
      rw [fresh]
      exact initial
    · rintro before after ⟨aligned, holds⟩ taken
      exact ⟨aligned_step aligned taken, rule.step aligned holds taken⟩
  exact both.2

end Runs

section Completion

variable [Fintype Agent] [DecidableEq Agent] {state after : State Agent Work Shared}

variable (system) in
/-- Steps that an agent owes after a number of barriers. -/
def owed (agent : Agent) (passes : Nat) : Nat :=
  ∑ round ∈ Finset.Ico passes system.rounds, ((system.segment (round + 1) agent).length + 2)

variable (system) in
def remaining (state : State Agent Work Shared) : Nat :=
  ∑ agent, (owed system agent (state.passes agent) + (state.todo agent).length +
    if (state.held agent).isSome then 0 else 1)

omit [Fintype Agent] [DecidableEq Agent] in
theorem owed_pass (more : passes < system.rounds) :
    owed system agent passes = (system.segment (passes + 1) agent).length + 2 + owed system agent (passes + 1) :=
  Finset.sum_eq_sum_Ico_succ_bot more _

theorem remaining_lt (actor : Agent)
    (same : ∀ agent, agent ≠ actor → after.passes agent = state.passes agent ∧ after.todo agent = state.todo agent ∧
      after.held agent = state.held agent)
    (less : owed system actor (after.passes actor) + (after.todo actor).length +
        (if (after.held actor).isSome then 0 else 1) <
      owed system actor (state.passes actor) + (state.todo actor).length +
        if (state.held actor).isSome then 0 else 1) :
    remaining system after < remaining system state := by
  refine Finset.sum_lt_sum (fun agent _ => ?_) ⟨actor, Finset.mem_univ _, less⟩
  by_cases here : agent = actor
  · subst here
    exact less.le
  · obtain ⟨passes, todo, held⟩ := same agent here
    rw [passes, todo, held]

theorem remaining_decreases (aligned : Aligned system state) (taken : Step system state after) :
    remaining system after < remaining system state := by
  cases taken with
  | @work actor item rest shared outside next performed =>
    refine remaining_lt actor (fun agent apart => ⟨rfl, Function.update_of_ne apart .., rfl⟩) ?_
    simp [next]
  | @arrive actor outside done more early =>
    refine remaining_lt actor (fun agent apart => ⟨rfl, rfl, Function.update_of_ne apart ..⟩) ?_
    simp [outside]
  | @arriveLast actor outside done more last =>
    refine remaining_lt actor (fun agent apart => ⟨Function.update_of_ne apart .., Function.update_of_ne apart ..,
      Function.update_of_ne apart ..⟩) ?_
    simp only [State.pass, Function.update_self, outside, done, owed_pass more, List.length_nil, Option.isSome_none,
      Bool.false_eq_true, if_false]
    omega
  | @leave actor generation inside opened =>
    have more := aligned.within actor (by simp [inside])
    refine remaining_lt actor (fun agent apart => ⟨Function.update_of_ne apart .., Function.update_of_ne apart ..,
      Function.update_of_ne apart ..⟩) ?_
    simp only [State.pass, Function.update_self, inside, owed_pass more, Option.isSome_none, Option.isSome_some,
      Bool.false_eq_true, if_false, if_true]
    omega

/-- Someone can always go on, as long as somebody with work left in a round can. -/
theorem progress {inv : Nat → (Agent → List Work) → Shared → Prop} (aligned : Aligned system state)
    (holds : inv state.gate.generation (left system state) state.shared)
    (moves : ∀ round left shared, inv round left shared → (∃ agent, left agent ≠ []) →
      ∃ agent item rest shared', left agent = item :: rest ∧ system.performs agent item shared shared') :
    Finished system state ∨ ∃ next, Step system state next := by
  by_cases opened : ∃ agent generation, state.held agent = some generation ∧
      generation ≠ system.view state.gate.generation
  · obtain ⟨agent, generation, inside, opened⟩ := opened
    exact Or.inr ⟨_, .leave inside opened⟩
  have current : ∀ agent, (state.held agent).isSome → state.passes agent = state.gate.generation := by
    intro agent held
    obtain ⟨generation, inside⟩ := Option.isSome_iff_exists.mp held
    refine (aligned.consistent.inside agent (Finset.mem_univ _) held).resolve_right fun behind => ?_
    refine opened ⟨agent, generation, inside, ?_⟩
    rw [aligned.read agent generation inside, ← behind]
    exact (system.changes _).symm
  by_cases busy : ∃ agent, left system state agent ≠ []
  · obtain ⟨agent, item, rest, shared, next, performed⟩ := moves _ _ _ holds busy
    have outside : state.held agent = none := by
      cases held : state.held agent with
      | none => rfl
      | some generation =>
        rw [left, held, Option.isSome_some, if_pos rfl, if_pos (current agent (by simp [held]))] at next
        cases next
    rw [left_outside outside] at next
    exact Or.inr ⟨_, .work outside next performed⟩
  · have idle : ∀ agent, state.held agent = none → state.todo agent = [] := by
      intro agent outside
      have same : left system state agent = state.todo agent := left_outside outside
      rw [← same]
      exact not_not.mp fun more => busy ⟨agent, more⟩
    obtain ⟨agent, _, free⟩ := aligned.consistent.exists_free
    have outside : state.held agent = none := by
      cases held : state.held agent with
      | none => rfl
      | some generation => exact (free.elim (by simp [held]) fun later => absurd (current agent (by simp [held])) later)
    by_cases more : state.passes agent < system.rounds
    · right
      by_cases last : state.gate.count + 1 = Fintype.card Agent
      · exact ⟨_, .arriveLast outside (idle agent outside) more last⟩
      · exact ⟨_, .arrive outside (idle agent outside) more last⟩
    · refine Or.inl fun other => ?_
      have reachedEnd := aligned.outside outside
      have otherOutside : state.held other = none := by
        cases held : state.held other with
        | none => rfl
        | some generation =>
          have within := aligned.within other (by simp [held])
          have := current other (by simp [held])
          omega
      have otherEnd := aligned.outside otherOutside
      have := aligned.bounded other
      exact ⟨by omega, idle other otherOutside⟩

/-- Every run can be finished. -/
theorem completes [Nonempty Agent] {inv : Nat → (Agent → List Work) → Shared → Prop} (rule : RoundRule system inv)
    (initial : inv 0 (system.segment 0) shared)
    (moves : ∀ round left shared, inv round left shared → (∃ agent, left agent ≠ []) →
      ∃ agent item rest shared', left agent = item :: rest ∧ system.performs agent item shared shared') :
    Completes (Step system) (start system shared) (Finished system) := by
  refine completes_of_progress (Reachable system shared) .refl (fun _ _ reached taken => reached.tail taken) _
    (remaining system) (fun _ _ reached taken => ?_) fun state reached => ?_
  · exact remaining_decreases (aligned_of_reachable reached) taken
  · exact progress (aligned_of_reachable reached) (rule.reachable initial reached) moves

end Completion

end Code

end Ooverlap.BarrierRounds
