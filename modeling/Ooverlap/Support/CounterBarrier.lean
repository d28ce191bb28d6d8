import Mathlib.Algebra.Group.Action.Defs
import Mathlib.Algebra.Order.BigOperators.Group.Finset
import Mathlib.Data.Finset.Card
import Mathlib.Data.Finset.Max
import Mathlib.Tactic.Ring
import Ooverlap.Support.Interleaving

/-! Barriers on one shared counter that is never reset: every agent adds one and waits for a target. -/

namespace Ooverlap.CounterBarrier

open Relation Interleaving

/-- One item of an agent's sequential code. -/
inductive Item (Work : Type*) where
  | work (item : Work)
  | barrier (target : Nat)
  deriving DecidableEq

def Item.target? {Work : Type*} : Item Work → Option Nat
  | .work _ => none
  | .barrier target => some target

section Code

variable {Work : Type*} (items : List (Item Work))

def targets : List Nat :=
  items.filterMap Item.target?

/-- Barriers before a position of the code. -/
def roundsBefore (position : Nat) : Nat :=
  (targets (items.take position)).length

variable {items}

theorem targets_split (position : Nat) :
    targets items = targets (items.take position) ++ targets (items.drop position) := by
  rw [targets, targets, targets, ← List.filterMap_append, List.take_append_drop]

theorem roundsBefore_le (position : Nat) : roundsBefore items position ≤ (targets items).length := by
  rw [targets_split position, List.length_append]
  exact Nat.le_add_right _ _

theorem roundsBefore_mono {first second : Nat} (order : first ≤ second) :
    roundsBefore items first ≤ roundsBefore items second := by
  have earlier : roundsBefore (items.take second) first ≤ roundsBefore items second := roundsBefore_le first
  rwa [roundsBefore, List.take_take, min_eq_left order] at earlier

theorem roundsBefore_succ (found : items[position]? = some item) :
    roundsBefore items (position + 1) = roundsBefore items position + (item.target?.toList).length := by
  unfold roundsBefore targets
  rw [List.take_add_one, found, List.filterMap_append, List.length_append]
  cases item <;> rfl

theorem target_at (found : items[position]? = some (.barrier target)) :
    (targets items)[roundsBefore items position]? = some target := by
  obtain ⟨bound, here⟩ := List.getElem?_eq_some_iff.mp found
  have rest : items.drop position = .barrier target :: items.drop (position + 1) := by
    rw [List.drop_eq_getElem_cons bound, here]
  rw [targets_split position, roundsBefore, List.getElem?_append_right (le_refl _), Nat.sub_self, rest]
  rfl

theorem roundsBefore_finished (finished : items.length ≤ position) :
    roundsBefore items position = (targets items).length := by
  rw [roundsBefore, List.take_of_length_le finished]

end Code

/-- Agents with their code, and what a load of the counter returns. -/
structure System (Agent Work : Type*) where
  agents : Finset Agent
  items : Agent → List (Item Work)
  view : Nat → Nat

/-- Position of every agent, whether it has arrived at the barrier there, and the arrivals counted so far. -/
structure State (Agent : Type*) where
  pc : Agent → Nat
  waiting : Agent → Bool
  count : Nat

section States

variable {Agent Work : Type*} (system : System Agent Work)

def start (base : Nat) : State Agent where
  pc _ := 0
  waiting _ := false
  count := base

def Finished (state : State Agent) : Prop :=
  ∀ agent ∈ system.agents, (system.items agent).length ≤ state.pc agent

/-- Barriers an agent has left. -/
def passes (state : State Agent) (agent : Agent) : Nat :=
  roundsBefore (system.items agent) (state.pc agent)

/-- Barriers an agent has arrived at. -/
def arrivals (state : State Agent) (agent : Agent) : Nat :=
  passes system state agent + if state.waiting agent then 1 else 0

/-- Safety: an agent leaves a barrier only after every agent has arrived at it. -/
def Separates (state : State Agent) : Prop :=
  ∀ agent ∈ system.agents, ∀ other ∈ system.agents, passes system state agent ≤ arrivals system state other

/-- Every agent meets the same barriers in the same order. -/
def Aligned (rounds : List Nat) : Prop :=
  ∀ agent ∈ system.agents, targets (system.items agent) = rounds

/-- While an agent waits in a round, a load reaches the target exactly when the whole round has arrived. -/
def Faithful (base : Nat) (rounds : List Nat) : Prop :=
  ∀ round target, rounds[round]? = some target → ∀ count,
    base + system.agents.card * round < count → count < base + system.agents.card * (round + 2) →
    count ≤ base + system.agents.card * rounds.length →
      (target ≤ system.view count ↔ base + system.agents.card * (round + 1) ≤ count)

/-- What holds in every state of a run. -/
structure Consistent (base : Nat) (rounds : List Nat) (state : State Agent) : Prop where
  separates : Separates system state
  counted : state.count = base + ∑ agent ∈ system.agents, arrivals system state agent
  atBarrier : ∀ agent ∈ system.agents, state.waiting agent = true →
    ∃ target, (system.items agent)[state.pc agent]? = some (.barrier target)

variable {system}

theorem arrivals_of_waiting (waiting : state.waiting agent = true) :
    arrivals system state agent = passes system state agent + 1 := by
  rw [arrivals, waiting]
  rfl

theorem arrivals_of_quiet (quiet : state.waiting agent = false) :
    arrivals system state agent = passes system state agent := by
  rw [arrivals, quiet]
  rfl

theorem passes_le_arrivals (state : State Agent) (agent : Agent) :
    passes system state agent ≤ arrivals system state agent :=
  Nat.le_add_right _ _

theorem arrivals_le_succ (state : State Agent) (agent : Agent) :
    arrivals system state agent ≤ passes system state agent + 1 := by
  unfold arrivals
  split <;> omega

/-- An agent at a work item waits for nobody. -/
theorem quiet_at_work (consistent : Consistent system base rounds state) (member : agent ∈ system.agents)
    (next : (system.items agent)[state.pc agent]? = some (.work item)) : state.waiting agent = false := by
  cases waiting : state.waiting agent with
  | false => rfl
  | true =>
    obtain ⟨target, barrier⟩ := consistent.atBarrier agent member waiting
    rw [next] at barrier
    cases barrier

theorem arrivals_le (aligned : Aligned system rounds) (consistent : Consistent system base rounds state)
    (member : agent ∈ system.agents) : arrivals system state agent ≤ rounds.length := by
  have bound : roundsBefore (system.items agent) (state.pc agent) ≤ (targets (system.items agent)).length :=
    roundsBefore_le (state.pc agent)
  rw [aligned agent member] at bound
  unfold arrivals
  cases waiting : state.waiting agent with
  | false => exact bound
  | true =>
    obtain ⟨target, found⟩ := consistent.atBarrier agent member waiting
    have stored := target_at found
    rw [aligned agent member] at stored
    exact (List.getElem?_eq_some_iff.mp stored).1

theorem count_le (aligned : Aligned system rounds) (consistent : Consistent system base rounds state) :
    state.count ≤ base + system.agents.card * rounds.length := by
  have sum := Finset.sum_le_card_nsmul system.agents (arrivals system state) rounds.length
    fun agent member => arrivals_le aligned consistent member
  rw [consistent.counted]
  simpa using sum

/-- Bounds of the counter while an agent waits in its round. -/
theorem waiting_count (consistent : Consistent system base rounds state) (member : agent ∈ system.agents)
    (waiting : state.waiting agent = true) :
    base + system.agents.card * passes system state agent < state.count ∧
      state.count < base + system.agents.card * (passes system state agent + 2) := by
  have own : arrivals system state agent = passes system state agent + 1 := arrivals_of_waiting waiting
  have lower : ∑ other ∈ system.agents, passes system state agent <
      ∑ other ∈ system.agents, arrivals system state other :=
    Finset.sum_lt_sum (fun other inAgents => consistent.separates agent member other inAgents)
      ⟨agent, member, by omega⟩
  have upper : ∑ other ∈ system.agents, arrivals system state other <
      ∑ other ∈ system.agents, (passes system state agent + 2) := by
    refine Finset.sum_lt_sum (fun other inAgents => ?_) ⟨agent, member, by omega⟩
    have behind := consistent.separates other inAgents agent member
    have ahead : arrivals system state other ≤ passes system state other + 1 := arrivals_le_succ state other
    omega
  rw [Finset.sum_const, smul_eq_mul] at lower upper
  rw [consistent.counted]
  exact ⟨by omega, by omega⟩

/-- A whole round has arrived exactly when everyone has. -/
theorem round_arrived_iff (consistent : Consistent system base rounds state)
    (waiting : state.waiting agent = true) :
    base + system.agents.card * (passes system state agent + 1) ≤ state.count ↔
      ∀ other ∈ system.agents, passes system state agent + 1 ≤ arrivals system state other := by
  have own : arrivals system state agent = passes system state agent + 1 := arrivals_of_waiting waiting
  rw [consistent.counted]
  constructor
  · intro enough other inAgents
    by_contra late
    have each : ∀ third ∈ system.agents, arrivals system state third ≤ passes system state agent + 1 := by
      intro third inThird
      have behind := consistent.separates third inThird other inAgents
      have ahead : arrivals system state third ≤ passes system state third + 1 := arrivals_le_succ state third
      omega
    have below := Finset.sum_lt_sum each ⟨other, inAgents, by omega⟩
    rw [Finset.sum_const, smul_eq_mul] at below
    omega
  · intro all
    have enough : system.agents.card • (passes system state agent + 1) ≤
        ∑ other ∈ system.agents, arrivals system state other :=
      Finset.card_nsmul_le_sum system.agents _ _ all
    rw [smul_eq_mul] at enough
    omega

/-- Leaving a barrier: the counter shows that everyone has arrived. -/
theorem passes_arrived (aligned : Aligned system rounds) (faithful : Faithful system base rounds)
    (consistent : Consistent system base rounds state) (member : agent ∈ system.agents)
    (next : (system.items agent)[state.pc agent]? = some (.barrier target))
    (waiting : state.waiting agent = true) :
    target ≤ system.view state.count ↔
      ∀ other ∈ system.agents, passes system state agent + 1 ≤ arrivals system state other := by
  have stored := target_at next
  rw [aligned agent member] at stored
  obtain ⟨lower, upper⟩ := waiting_count consistent member waiting
  rw [faithful _ target stored _ lower upper (count_le aligned consistent)]
  exact round_arrived_iff consistent waiting

theorem consistent_start (base : Nat) : Consistent system base rounds (start base) := by
  have none : ∀ agent, passes system (start base) agent = 0 := fun agent => by
    simp [passes, start, roundsBefore, targets]
  have idle : ∀ agent, arrivals system (start base) agent = 0 := fun agent => by
    rw [arrivals, none]
    rfl
  refine ⟨fun agent _ other _ => ?_, ?_, fun agent _ waiting => ?_⟩
  · rw [none, idle]
  · rw [Finset.sum_eq_zero fun agent _ => idle agent]
    rfl
  · cases waiting

/-- A finished run has counted every arrival. -/
theorem finished_count (aligned : Aligned system rounds) (consistent : Consistent system base rounds state)
    (finished : Finished system state) : state.count = base + system.agents.card * rounds.length := by
  have each : ∀ agent ∈ system.agents, arrivals system state agent = rounds.length := by
    intro agent member
    have upper := arrivals_le aligned consistent member
    have all : passes system state agent = rounds.length := by
      rw [passes, roundsBefore_finished (finished agent member), aligned agent member]
    have passed : passes system state agent ≤ arrivals system state agent := passes_le_arrivals state agent
    omega
  rw [consistent.counted, Finset.sum_congr rfl each, Finset.sum_const, smul_eq_mul]

/-- An agent past a barrier: every other agent has done everything before the same barrier. -/
theorem passed_barrier (consistent : Consistent system base rounds state) (member : agent ∈ system.agents)
    (other_member : other ∈ system.agents)
    (barrier : (system.items agent)[position]? = some (.barrier target)) (past : position < state.pc agent)
    (matching : roundsBefore (system.items other) otherPosition = roundsBefore (system.items agent) position) :
    otherPosition ≤ state.pc other := by
  by_contra behind
  have ahead : roundsBefore (system.items agent) position + 1 ≤ passes system state agent := by
    have counted := roundsBefore_succ barrier
    rw [passes]
    calc
      roundsBefore (system.items agent) position + 1 = roundsBefore (system.items agent) (position + 1) :=
        counted.symm
      _ ≤ roundsBefore (system.items agent) (state.pc agent) := roundsBefore_mono past
  have separated := consistent.separates agent member other other_member
  have late : arrivals system state other ≤ roundsBefore (system.items other) otherPosition := by
    unfold arrivals
    cases waiting : state.waiting other with
    | false => exact roundsBefore_mono (le_of_lt (not_le.mp behind))
    | true =>
      obtain ⟨there, found⟩ := consistent.atBarrier other other_member waiting
      have counted := roundsBefore_succ found
      calc
        passes system state other + 1 = roundsBefore (system.items other) (state.pc other + 1) := counted.symm
        _ ≤ roundsBefore (system.items other) otherPosition := roundsBefore_mono (not_le.mp behind)
  omega

end States

section Runs

variable {Agent Work : Type*} [DecidableEq Agent] (system : System Agent Work)

/-- An agent has done the work at its position. -/
def State.work (state : State Agent) (agent : Agent) : State Agent :=
  { state with pc := Function.update state.pc agent (state.pc agent + 1) }

/-- An agent has added one to the counter at its barrier. -/
def State.arrive (state : State Agent) (agent : Agent) : State Agent :=
  { state with waiting := Function.update state.waiting agent true, count := state.count + 1 }

/-- An agent has left the barrier it waited at. -/
def State.pass (state : State Agent) (agent : Agent) : State Agent :=
  { state with
    pc := Function.update state.pc agent (state.pc agent + 1)
    waiting := Function.update state.waiting agent false }

/-- One agent works, arrives at its barrier, or finds the counter at its target and goes on. -/
inductive Step : State Agent → State Agent → Prop where
  | work {state : State Agent} (agent : Agent) (member : agent ∈ system.agents) (item : Work)
    (next : (system.items agent)[state.pc agent]? = some (.work item)) : Step state (state.work agent)
  | arrive {state : State Agent} (agent : Agent) (member : agent ∈ system.agents) (target : Nat)
    (next : (system.items agent)[state.pc agent]? = some (.barrier target))
    (fresh : state.waiting agent = false) : Step state (state.arrive agent)
  | pass {state : State Agent} (agent : Agent) (member : agent ∈ system.agents) (target : Nat)
    (next : (system.items agent)[state.pc agent]? = some (.barrier target))
    (arrived : state.waiting agent = true) (reached : target ≤ system.view state.count) :
    Step state (state.pass agent)

abbrev Reachable (base : Nat) (state : State Agent) : Prop :=
  ReflTransGen (Step system) (start base) state

variable {system}

theorem passes_work (next : (system.items agent)[state.pc agent]? = some (.work item)) (other : Agent) :
    passes system (state.work agent) other = passes system state other := by
  by_cases same : other = agent
  · subst same
    simp only [passes, State.work, Function.update_self, roundsBefore_succ next]
    rfl
  · simp only [passes, State.work, Function.update_of_ne same]

theorem arrivals_work (next : (system.items agent)[state.pc agent]? = some (.work item)) (other : Agent) :
    arrivals system (state.work agent) other = arrivals system state other := by
  rw [arrivals, passes_work next, arrivals]
  rfl

theorem passes_arrive (state : State Agent) (agent other : Agent) :
    passes system (state.arrive agent) other = passes system state other := rfl

theorem arrivals_arrive_self (fresh : state.waiting agent = false) :
    arrivals system (state.arrive agent) agent = arrivals system state agent + 1 := by
  rw [arrivals_of_quiet fresh, arrivals, passes_arrive]
  simp only [State.arrive, Function.update_self, if_true]

theorem arrivals_arrive_of_ne (state : State Agent) (apart : other ≠ agent) :
    arrivals system (state.arrive agent) other = arrivals system state other := by
  rw [arrivals, passes_arrive, arrivals]
  simp only [State.arrive, Function.update_of_ne apart]

theorem sum_arrivals_arrive (member : agent ∈ system.agents) (fresh : state.waiting agent = false) :
    ∑ other ∈ system.agents, arrivals system (state.arrive agent) other =
      ∑ other ∈ system.agents, arrivals system state other + 1 := by
  have rest : ∑ other ∈ system.agents.erase agent, arrivals system (state.arrive agent) other =
      ∑ other ∈ system.agents.erase agent, arrivals system state other :=
    Finset.sum_congr rfl fun other inRest => arrivals_arrive_of_ne state (Finset.ne_of_mem_erase inRest)
  have before := Finset.add_sum_erase system.agents (arrivals system state) member
  have later := Finset.add_sum_erase system.agents (arrivals system (state.arrive agent)) member
  rw [arrivals_arrive_self fresh, rest] at later
  omega

theorem passes_pass_self (next : (system.items agent)[state.pc agent]? = some (.barrier target)) :
    passes system (state.pass agent) agent = passes system state agent + 1 := by
  simp only [passes, State.pass, Function.update_self, roundsBefore_succ next]
  rfl

theorem passes_pass_of_ne (state : State Agent) (apart : other ≠ agent) :
    passes system (state.pass agent) other = passes system state other := by
  simp only [passes, State.pass, Function.update_of_ne apart]

theorem arrivals_pass (next : (system.items agent)[state.pc agent]? = some (.barrier target))
    (arrived : state.waiting agent = true) (other : Agent) :
    arrivals system (state.pass agent) other = arrivals system state other := by
  by_cases same : other = agent
  · subst same
    have left : (state.pass other).waiting other = false := Function.update_self ..
    rw [arrivals_of_quiet left, passes_pass_self next, arrivals_of_waiting arrived]
  · rw [arrivals, passes_pass_of_ne state same, arrivals]
    simp only [State.pass, Function.update_of_ne same]

theorem consistent_work (before : Consistent system base rounds state) (member : agent ∈ system.agents)
    (next : (system.items agent)[state.pc agent]? = some (.work item)) :
    Consistent system base rounds (state.work agent) where
  separates first inFirst second inSecond := by
    rw [passes_work next, arrivals_work next]
    exact before.separates first inFirst second inSecond
  counted := by
    simp only [arrivals_work next]
    exact before.counted
  atBarrier other inAgents waiting := by
    have apart : other ≠ agent := by
      rintro rfl
      have quiet : state.waiting other = true := waiting
      rw [quiet_at_work before member next] at quiet
      cases quiet
    simp only [State.work, Function.update_of_ne apart]
    exact before.atBarrier other inAgents waiting

theorem consistent_arrive (before : Consistent system base rounds state) (member : agent ∈ system.agents)
    (next : (system.items agent)[state.pc agent]? = some (.barrier target)) (fresh : state.waiting agent = false) :
    Consistent system base rounds (state.arrive agent) where
  separates first inFirst second inSecond := by
    have earlier := before.separates first inFirst second inSecond
    rw [passes_arrive]
    by_cases same : second = agent
    · subst same
      rw [arrivals_arrive_self fresh]
      exact le_trans earlier (Nat.le_succ _)
    · rw [arrivals_arrive_of_ne state same]
      exact earlier
  counted := by
    rw [sum_arrivals_arrive member fresh, ← Nat.add_assoc, ← before.counted]
    rfl
  atBarrier other inAgents waiting := by
    by_cases same : other = agent
    · subst same
      exact ⟨target, next⟩
    · simp only [State.arrive, Function.update_of_ne same] at waiting
      exact before.atBarrier other inAgents waiting

/-- Leaving a barrier keeps the rounds separate: the counter has shown that everyone has arrived. -/
theorem consistent_pass (before : Consistent system base rounds state)
    (next : (system.items agent)[state.pc agent]? = some (.barrier target))
    (arrived : state.waiting agent = true)
    (everyone : ∀ other ∈ system.agents, passes system state agent + 1 ≤ arrivals system state other) :
    Consistent system base rounds (state.pass agent) where
  separates first inFirst second inSecond := by
    rw [arrivals_pass next arrived]
    by_cases same : first = agent
    · subst same
      rw [passes_pass_self next]
      exact everyone second inSecond
    · rw [passes_pass_of_ne state same]
      exact before.separates first inFirst second inSecond
  counted := by
    simp only [arrivals_pass next arrived]
    exact before.counted
  atBarrier other inAgents waiting := by
    by_cases same : other = agent
    · subst same
      simp [State.pass] at waiting
    · simp only [State.pass, Function.update_of_ne same] at waiting ⊢
      exact before.atBarrier other inAgents waiting

theorem consistent_step (aligned : Aligned system rounds) (faithful : Faithful system base rounds)
    (before : Consistent system base rounds state) (taken : Step system state after) :
    Consistent system base rounds after := by
  cases taken with
  | work agent member item next => exact consistent_work before member next
  | arrive agent member target next fresh => exact consistent_arrive before member next fresh
  | pass agent member target next arrived reached =>
    exact consistent_pass before next arrived
      ((passes_arrived aligned faithful before member next arrived).mp reached)

theorem consistent_of_reachable (aligned : Aligned system rounds) (faithful : Faithful system base rounds)
    (reached : Reachable system base state) : Consistent system base rounds state :=
  invariant (Consistent system base rounds) (consistent_start base)
    (fun _ _ before taken => consistent_step aligned faithful before taken) reached

section Measure

variable (system)

/-- Work left to an agent: two for an item, one for a barrier it has arrived at. -/
def leftOf (state : State Agent) (agent : Agent) : Nat :=
  2 * ((system.items agent).length - state.pc agent) - if state.waiting agent then 1 else 0

def remaining (state : State Agent) : Nat :=
  ∑ agent ∈ system.agents, leftOf system state agent

end Measure

theorem remaining_decreases (consistent : Consistent system base rounds state) (taken : Step system state after) :
    remaining system after < remaining system state := by
  have oneLess : ∀ agent ∈ system.agents, (∀ other, other ≠ agent →
      after.pc other = state.pc other ∧ after.waiting other = state.waiting other) →
      leftOf system after agent < leftOf system state agent → remaining system after < remaining system state := by
    intro agent member same less
    refine Finset.sum_lt_sum (fun other _ => ?_) ⟨agent, member, less⟩
    by_cases here : other = agent
    · subst here
      exact le_of_lt less
    · rw [leftOf, leftOf, (same other here).1, (same other here).2]
  cases taken with
  | work agent member item next =>
    have within := (List.getElem?_eq_some_iff.mp next).1
    have quiet : state.waiting agent = false := quiet_at_work consistent member next
    refine oneLess agent member (fun other apart => ⟨Function.update_of_ne apart .., rfl⟩) ?_
    simp only [leftOf, State.work, Function.update_self, quiet, Bool.false_eq_true, if_false]
    omega
  | arrive agent member target next fresh =>
    have within := (List.getElem?_eq_some_iff.mp next).1
    refine oneLess agent member (fun other apart => ⟨rfl, Function.update_of_ne apart ..⟩) ?_
    simp only [leftOf, State.arrive, Function.update_self, fresh, if_true, Bool.false_eq_true, if_false]
    omega
  | pass agent member target next arrived reached =>
    have within := (List.getElem?_eq_some_iff.mp next).1
    refine oneLess agent member
      (fun other apart => ⟨Function.update_of_ne apart .., Function.update_of_ne apart ..⟩) ?_
    simp only [leftOf, State.pass, Function.update_self, arrived, if_true, Bool.false_eq_true, if_false]
    omega

/-- The last agents of a round are never stuck: someone can always take a step. -/
theorem progress (aligned : Aligned system rounds) (faithful : Faithful system base rounds)
    (consistent : Consistent system base rounds state) :
    Finished system state ∨ ∃ next, Step system state next := by
  by_cases finished : Finished system state
  · exact Or.inl finished
  refine Or.inr ?_
  -- The agent that has arrived least often among the unfinished ones can go on.
  let unfinished := system.agents.filter fun agent => state.pc agent < (system.items agent).length
  have nonempty : unfinished.Nonempty := by
    simp only [Finished, not_forall, not_le] at finished
    obtain ⟨agent, member, behind⟩ := finished
    exact ⟨agent, Finset.mem_filter.mpr ⟨member, behind⟩⟩
  obtain ⟨agent, inUnfinished, least⟩ := unfinished.exists_min_image (arrivals system state) nonempty
  obtain ⟨member, behind⟩ := Finset.mem_filter.mp inUnfinished
  obtain ⟨item, next⟩ : ∃ item, (system.items agent)[state.pc agent]? = some item :=
    ⟨_, List.getElem?_eq_getElem behind⟩
  cases item with
  | work item => exact ⟨_, .work agent member item next⟩
  | barrier target =>
    cases waiting : state.waiting agent with
    | false => exact ⟨_, .arrive agent member target next waiting⟩
    | true =>
      refine ⟨_, .pass agent member target next waiting ?_⟩
      rw [passes_arrived aligned faithful consistent member next waiting]
      intro other inAgents
      have own : arrivals system state agent = passes system state agent + 1 := arrivals_of_waiting waiting
      by_cases done : state.pc other < (system.items other).length
      · have more := least other (Finset.mem_filter.mpr ⟨inAgents, done⟩)
        omega
      · have all : passes system state other = rounds.length := by
          rw [passes, roundsBefore_finished (not_lt.mp done), aligned other inAgents]
        have bound := arrivals_le aligned consistent member
        have passed : passes system state other ≤ arrivals system state other := passes_le_arrivals state other
        omega

/-- Every consistent state can be finished: no agent waits for a barrier that another one never reaches. -/
theorem finishable (aligned : Aligned system rounds) (faithful : Faithful system base rounds)
    (consistent : Consistent system base rounds state) :
    ∃ final, ReflTransGen (Step system) state final ∧ Finished system final :=
  completes_of_progress (Consistent system base rounds) consistent
    (fun _ _ before taken => consistent_step aligned faithful before taken) (Finished system) (remaining system)
    (fun _ _ here taken => remaining_decreases here taken) (fun _ here => progress aligned faithful here) state .refl

/-- Every run can be finished. -/
theorem completes (aligned : Aligned system rounds) (faithful : Faithful system base rounds) :
    Completes (Step system) (start base) (Finished system) :=
  fun _ reached => finishable aligned faithful (consistent_of_reachable aligned faithful reached)

/-- One agent can run ahead through its work up to its next barrier. -/
theorem reachable_ahead (member : agent ∈ system.agents)
    (works : ∀ position < count, ∃ item, (system.items agent)[position]? = some (.work item)) :
    Reachable system base { start base with pc := Function.update (fun _ => 0) agent count } := by
  induction count with
  | zero =>
    have unmoved : Function.update (fun _ : Agent => 0) agent 0 = fun _ => 0 := Function.update_eq_self agent _
    rw [unmoved]
    exact .refl
  | succ count ih =>
    have before := ih fun position earlier => works position (Nat.lt_succ_of_lt earlier)
    obtain ⟨item, next⟩ := works count (Nat.lt_succ_self count)
    have taken : Step system { start base with pc := Function.update (fun _ => 0) agent count } _ :=
      .work agent member item (by simpa using next)
    simp only [State.work, start, Function.update_idem, Function.update_self] at taken
    exact before.tail taken

end Runs

end Ooverlap.CounterBarrier
