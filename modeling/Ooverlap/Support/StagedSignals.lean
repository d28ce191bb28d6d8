import Mathlib.Algebra.Group.Action.Defs
import Mathlib.Algebra.Order.BigOperators.Group.Finset
import Mathlib.Data.Finset.Card
import Ooverlap.Support.Stages

/-! Signals between agents whose code runs in stages: flags that one agent raises, and counters on which many arrive. -/

namespace Ooverlap.Interleaving

open Relation

namespace Staged

variable {Agent Action : Type*} {staged : Staged Agent Action} {pc : Agent → Nat} {agent : Agent}

/-- An agent stands in a stage or beyond it. -/
def Reached (staged : Staged Agent Action) (pc : Agent → Nat) (agent : Agent) (index : Nat) : Prop :=
  staged.offset agent index ≤ pc agent

theorem Reached.mono (reached : staged.Reached pc agent later) (before : earlier ≤ later) :
    staged.Reached pc agent earlier :=
  le_trans (staged.offset_mono agent before) reached

/-- An agent that has left a stage has taken each of its actions. -/
theorem Reached.taken (past : staged.Reached pc agent (index + 1)) (inside : place < (staged.stage index agent).length) :
    staged.offset agent index + place < pc agent := by
  unfold Reached at past
  rw [offset_succ] at past
  omega

theorem Reached.advance [DecidableEq Agent] (reached : staged.Reached pc agent index) (actor : Agent) :
    staged.Reached (Function.update pc actor (pc actor + 1)) agent index := by
  unfold Reached at reached ⊢
  by_cases same : agent = actor
  · subst same
    rw [Function.update_self]
    omega
  · rwa [Function.update_of_ne same]

/-- The code of an agent at a position of one of its stages. -/
theorem code_stage (inRange : index < staged.count) (found : (staged.stage index agent)[place]? = some action) :
    (staged.code agent)[staged.offset agent index + place]? = some action := by
  rw [code, code_at staged.count inRange (List.getElem?_eq_some_iff.mp found).1, found]

/-- The stage in which a position of the code stands. -/
theorem stage_code (found : (staged.code agent)[position]? = some action) :
    ∃ index < staged.count, ∃ place, (staged.stage index agent)[place]? = some action ∧
      position = staged.offset agent index + place := by
  obtain ⟨within, _⟩ := List.getElem?_eq_some_iff.mp found
  obtain ⟨index, inRange, place, inside, same⟩ := exists_stage staged.count within
  rw [same, code, code_at staged.count inRange inside] at found
  exact ⟨index, inRange, place, found, same⟩

/-- An action of an earlier stage stands before one of a later stage. -/
theorem place_before (found : (staged.stage index agent)[place]? = some action) (before : index < later) :
    staged.offset agent index + place < staged.offset agent later := by
  have inside := (List.getElem?_eq_some_iff.mp found).1
  have grown := staged.offset_mono agent (Nat.succ_le_of_lt before)
  rw [Nat.succ_eq_add_one, offset_succ] at grown
  omega

theorem index_of_reached (found : (staged.stage index agent)[place]? = some action)
    (reached : staged.offset agent bound ≤ staged.offset agent index + place) : bound ≤ index := by
  by_contra after
  exact absurd (place_before found (not_le.mp after)) (not_lt.mpr reached)

/-- A step of one agent carries it over the end of a stage of one action exactly by that action. -/
theorem crosses [DecidableEq Agent] (found : (staged.stage index agent)[place]? = some action)
    (here : pc agent = staged.offset agent index + place) (single : (staged.stage stop agent).length = 1) :
    staged.Reached (Function.update pc agent (pc agent + 1)) agent (stop + 1) ↔
      staged.Reached pc agent (stop + 1) ∨ index = stop := by
  have inside := (List.getElem?_eq_some_iff.mp found).1
  unfold Reached
  rw [Function.update_self, here, offset_succ, single]
  rcases Nat.lt_trichotomy index stop with before | rfl | after
  · have grown := staged.offset_mono agent (Nat.succ_le_of_lt before)
    rw [Nat.succ_eq_add_one, offset_succ] at grown
    omega
  · omega
  · have grown := staged.offset_mono agent (Nat.succ_le_of_lt after)
    rw [Nat.succ_eq_add_one, offset_succ, single] at grown
    omega

theorem reached_others [DecidableEq Agent] (apart : other ≠ agent) :
    staged.Reached (Function.update pc agent (pc agent + 1)) other stop ↔ staged.Reached pc other stop := by
  unfold Reached
  rw [Function.update_of_ne apart]

instance : Decidable (staged.Reached pc agent index) := inferInstanceAs (Decidable (_ ≤ _))

end Staged

namespace Program

variable {Agent Action Shared : Type*} [DecidableEq Agent] {program : Program Agent Action Shared}
variable {staged : Staged Agent Action} {shared : Shared} {state : State Agent Shared}

variable (program) in
/-- Once an agent is past a guarded action, what the guard told it still holds. -/
theorem passed (holds : (Agent → Nat) → Prop) (code : ∀ agent, program.code agent = staged.code agent)
    (stable : ∀ pc actor, holds pc → holds (Function.update pc actor (pc actor + 1)))
    (inRange : index < staged.count) (member : action ∈ staged.stage index agent)
    (informs : ∀ state, program.Reachable shared state → program.enabled action state.shared → holds state.pc)
    (reached : program.Reachable shared state) (past : staged.Reached state.pc agent (index + 1)) :
    holds state.pc := by
  obtain ⟨place, found⟩ := List.mem_iff_getElem?.mp member
  have taken := past.taken (List.getElem?_eq_some_iff.mp found).1
  clear past
  induction reached with
  | refl => exact absurd taken (Nat.not_lt_zero _)
  | @tail before after earlier step ih =>
    obtain ⟨actor, next, located, allowed⟩ := step
    by_cases already : staged.offset agent index + place < before.pc agent
    · exact stable before.pc actor (ih already)
    · have same : agent = actor := by
        by_contra apart
        simp only [Function.update_of_ne apart] at taken
        exact already taken
      subst same
      simp only [Function.update_self] at taken
      have here : before.pc agent = staged.offset agent index + place := by omega
      have this := Staged.code_stage inRange found
      rw [code, here, this] at located
      cases located
      exact stable before.pc agent (informs before earlier allowed)

variable (program) in
/-- A flag that is up has been raised by a signal of the one agent that raises it. -/
theorem raised (flag : Shared → Prop) (signal : Action → Prop) (down : ¬flag shared)
    (raises : ∀ agent, ∀ action ∈ program.code agent, ∀ shared, ¬flag shared →
      flag (program.effect action shared) → agent = signaller ∧ signal action)
    (reached : program.Reachable shared state) (up : flag state.shared) :
    ∃ position < state.pc signaller, ∃ action, (program.code signaller)[position]? = some action ∧ signal action := by
  induction reached with
  | refl => exact absurd up down
  | @tail before after earlier step ih =>
    obtain ⟨actor, action, located, allowed⟩ := step
    by_cases already : flag before.shared
    · obtain ⟨position, taken, found⟩ := ih already
      refine ⟨position, lt_of_lt_of_le taken ?_, found⟩
      by_cases same : signaller = actor
      · subst same
        simp
      · simp [Function.update_of_ne same]
    · obtain ⟨same, isSignal⟩ := raises actor action (List.mem_of_getElem? located) before.shared already up
      subst same
      exact ⟨before.pc actor, by simp, action, located, isSignal⟩

variable (program) in
/-- Whoever sees the flag knows in which stage its signaller stands at least. -/
theorem raised_reached (flag : Shared → Prop) (signal : Action → Prop)
    (code : ∀ agent, program.code agent = staged.code agent) (down : ¬flag shared)
    (raises : ∀ agent, ∀ action ∈ program.code agent, ∀ shared, ¬flag shared →
      flag (program.effect action shared) → agent = signaller ∧ signal action)
    (only : ∀ index < staged.count, ∀ action ∈ staged.stage index signaller, signal action → first ≤ index)
    (reached : program.Reachable shared state) (up : flag state.shared) :
    staged.Reached state.pc signaller first := by
  obtain ⟨position, taken, action, located, isSignal⟩ := program.raised flag signal down raises reached up
  rw [code] at located
  obtain ⟨index, inRange, place, found, same⟩ := Staged.stage_code located
  have later := only index inRange action (List.mem_of_getElem? found) isSignal
  have ordered := staged.offset_mono signaller later
  unfold Staged.Reached
  omega

variable (program) in
/-- What an action establishes holds from then on, if whatever comes after it keeps it. -/
theorem established (flag : Shared → Prop) (position : Nat) (located : (program.code agent)[position]? = some action)
    (sets : ∀ shared, flag (program.effect action shared))
    (keeps : ∀ state : State Agent Shared, position < state.pc agent → flag state.shared → ∀ actor other,
      (program.code actor)[state.pc actor]? = some other → flag (program.effect other state.shared))
    (reached : program.Reachable shared state) (taken : position < state.pc agent) : flag state.shared := by
  induction reached with
  | refl => exact absurd taken (Nat.not_lt_zero _)
  | @tail before after earlier step ih =>
    obtain ⟨actor, other, found, allowed⟩ := step
    by_cases already : position < before.pc agent
    · exact keeps before already (ih already) actor other found
    · have same : agent = actor := by
        by_contra apart
        simp only [Function.update_of_ne apart] at taken
        exact already taken
      subst same
      simp only [Function.update_self] at taken
      have here : before.pc agent = position := by omega
      rw [here, located] at found
      cases found
      exact sets before.shared

variable (program) in
/-- What an action of a stage establishes, and nothing undoes, holds once its agent has left the stage. -/
theorem established_stage (flag : Shared → Prop) (code : ∀ agent, program.code agent = staged.code agent)
    (inRange : index < staged.count) (member : action ∈ staged.stage index agent)
    (sets : ∀ shared, flag (program.effect action shared))
    (keeps : ∀ other shared, flag shared → flag (program.effect other shared))
    (reached : program.Reachable shared state) (past : staged.Reached state.pc agent (index + 1)) :
    flag state.shared := by
  obtain ⟨place, found⟩ := List.mem_iff_getElem?.mp member
  refine program.established flag (staged.offset agent index + place) ?_ sets
    (fun _ _ holds _ other _ => keeps other _ holds) reached (past.taken (List.getElem?_eq_some_iff.mp found).1)
  rw [code]
  exact Staged.code_stage inRange found

end Program

/-- A counter on which the members of each round arrive: by an action that is a stage of its own. -/
structure Barriers (Agent Shared : Type*) where
  rounds : Nat
  members : Nat → Finset Agent
  place : Nat → Nat
  waiters : Nat → Finset Agent
  gate : Nat → Nat
  counter : Shared → Nat
  base : Nat

namespace Barriers

variable {Agent Action Shared : Type*}

/-- What the counter shows once the rounds before `round` are complete. -/
def target (barriers : Barriers Agent Shared) (round : Nat) : Nat :=
  barriers.base + ∑ index ∈ Finset.range round, (barriers.members index).card

/-- Every member has arrived in the round. -/
def Complete (barriers : Barriers Agent Shared) (staged : Staged Agent Action) (pc : Agent → Nat) (round : Nat) : Prop :=
  ∀ agent ∈ barriers.members round, staged.Reached pc agent (barriers.place round + 1)

/-- Only arrivals count, waiters of a round, which may have arrived in it themselves, wait for the counter to show it
complete, and where waiting has had that effect nobody arrives in a round before the earlier ones are complete. -/
structure Rule [DecidableEq Agent] (barriers : Barriers Agent Shared) (program : Program Agent Action Shared)
    (shared : Shared) (staged : Staged Agent Action) : Prop where
  code : ∀ agent, program.code agent = staged.code agent
  initial : barriers.counter shared = barriers.base
  ordered : ∀ first < barriers.rounds, ∀ second < barriers.rounds, barriers.place first = barriers.place second →
    first = second
  single : ∀ round < barriers.rounds, ∀ agent ∈ barriers.members round,
    (staged.stage (barriers.place round) agent).length = 1
  counts : ∀ agent, ∀ index < staged.count, ∀ action ∈ staged.stage index agent, ∀ shared,
    barriers.counter (program.effect action shared) = barriers.counter shared +
      if ∃ round < barriers.rounds, index = barriers.place round ∧ agent ∈ barriers.members round then 1 else 0
  waits : ∀ round < barriers.rounds, ∀ agent ∈ barriers.waiters round,
    ∃ wait, staged.stage (barriers.gate round) agent = [wait] ∧
      ∀ shared, (agent ∈ barriers.members round → barriers.place round < barriers.gate round →
        barriers.target round < barriers.counter shared) →
        program.enabled wait shared → barriers.target (round + 1) ≤ barriers.counter shared
  linked : ∀ state, program.Reachable shared state →
    (∀ round < barriers.rounds, ∀ agent ∈ barriers.waiters round,
      staged.Reached state.pc agent (barriers.gate round + 1) → barriers.Complete staged state.pc round) →
    ∀ round later, round < later → later < barriers.rounds → ∀ agent ∈ barriers.members later,
      staged.Reached state.pc agent (barriers.place later + 1) → barriers.Complete staged state.pc round

variable {barriers : Barriers Agent Shared} {staged : Staged Agent Action}

/-- Members that have arrived in a round. -/
def arrived (barriers : Barriers Agent Shared) (staged : Staged Agent Action) (pc : Agent → Nat) (round : Nat) :
    Finset Agent :=
  (barriers.members round).filter fun agent => staged.Reached pc agent (barriers.place round + 1)

theorem arrived_subset (pc : Agent → Nat) (round : Nat) : barriers.arrived staged pc round ⊆ barriers.members round :=
  Finset.filter_subset _ _

theorem arrived_complete (pc : Agent → Nat) (round : Nat) :
    (barriers.arrived staged pc round).card = (barriers.members round).card ↔ barriers.Complete staged pc round := by
  constructor
  · intro same agent member
    have all := Finset.eq_of_subset_of_card_le (arrived_subset pc round) same.ge
    rw [← all] at member
    exact (Finset.mem_filter.mp member).2
  · intro complete
    rw [arrived, Finset.filter_true_of_mem complete]

/-- The counter has counted every arrival, and who has waited for a round has seen it complete. -/
structure Met (barriers : Barriers Agent Shared) (staged : Staged Agent Action) (state : State Agent Shared) :
    Prop where
  counted : barriers.counter state.shared = barriers.base +
    ∑ round ∈ Finset.range barriers.rounds, (barriers.arrived staged state.pc round).card
  passed : ∀ round < barriers.rounds, ∀ agent ∈ barriers.waiters round,
    staged.Reached state.pc agent (barriers.gate round + 1) → barriers.Complete staged state.pc round

/-- Where nobody has arrived in the rounds from `bound` on, the counter shows no more than the rounds before. -/
theorem Met.at_most (met : Met barriers staged state) (inRange : bound ≤ barriers.rounds)
    (none : ∀ round, bound ≤ round → round < barriers.rounds → barriers.arrived staged state.pc round = ∅) :
    barriers.counter state.shared ≤ barriers.target bound := by
  obtain ⟨rest, split⟩ := Nat.exists_eq_add_of_le inRange
  have later : ∑ index ∈ Finset.range rest, (barriers.arrived staged state.pc (bound + index)).card = 0 := by
    refine Finset.sum_eq_zero fun index below => Finset.card_eq_zero.mpr (none _ (Nat.le_add_right _ _) ?_)
    rw [split]
    exact Nat.add_lt_add_left (Finset.mem_range.mp below) _
  rw [met.counted, split, Finset.sum_range_add, later, Nat.add_zero]
  exact Nat.add_le_add_left (Finset.sum_le_sum fun round _ => Finset.card_le_card (arrived_subset state.pc round)) _

section Rounds

variable [DecidableEq Agent] {program : Program Agent Action Shared} {shared : Shared} {state : State Agent Shared}

/-- The counter shows a round complete exactly when every member has arrived in it. -/
theorem Met.complete_iff {round : Nat} (rule : barriers.Rule program shared staged)
    (reached : program.Reachable shared state) (met : Met barriers staged state) (inside : round < barriers.rounds)
    (peopled : (barriers.members round).Nonempty) :
    barriers.target (round + 1) ≤ barriers.counter state.shared ↔ barriers.Complete staged state.pc round := by
  obtain ⟨rest, split⟩ := Nat.exists_eq_add_of_le (Nat.succ_le_of_lt inside)
  have parts : barriers.counter state.shared = barriers.base +
      (∑ index ∈ Finset.range (round + 1), (barriers.arrived staged state.pc index).card +
        ∑ later ∈ Finset.range rest, (barriers.arrived staged state.pc (round + 1 + later)).card) := by
    rw [met.counted, split, Finset.sum_range_add]
  have each : ∀ index ∈ Finset.range round,
      (barriers.arrived staged state.pc index).card ≤ (barriers.members index).card :=
    fun index _ => Finset.card_le_card (arrived_subset state.pc index)
  unfold target
  constructor
  · intro enough
    by_cases more : ∃ later < rest, (barriers.arrived staged state.pc (round + 1 + later)).Nonempty
    · obtain ⟨later, below, agent, found⟩ := more
      obtain ⟨member, begun⟩ := Finset.mem_filter.mp found
      exact rule.linked state reached met.passed round _ (by omega) (by omega) agent member begun
    · have none : ∑ later ∈ Finset.range rest, (barriers.arrived staged state.pc (round + 1 + later)).card = 0 := by
        refine Finset.sum_eq_zero fun later below => Finset.card_eq_zero.mpr ?_
        refine Finset.not_nonempty_iff_eq_empty.mp fun begun => more ⟨later, Finset.mem_range.mp below, begun⟩
      have total := Finset.sum_le_sum each
      rw [parts, none, Finset.sum_range_succ, Finset.sum_range_succ] at enough
      have most : (barriers.arrived staged state.pc round).card ≤ _ :=
        Finset.card_le_card (arrived_subset state.pc round)
      exact (arrived_complete state.pc round).mp (by omega)
  · intro complete
    have full : ∀ index ∈ Finset.range (round + 1),
        (barriers.members index).card = (barriers.arrived staged state.pc index).card := by
      intro index below
      refine ((arrived_complete state.pc index).mpr ?_).symm
      rcases Nat.lt_succ_iff_lt_or_eq.mp (Finset.mem_range.mp below) with before | rfl
      · obtain ⟨agent, member⟩ := peopled
        exact rule.linked state reached met.passed index round before inside agent member (complete agent member)
      · exact complete
    rw [parts, Finset.sum_congr rfl full]
    omega

/-- Whoever has arrived in a round has been counted, and all of the rounds before. -/
theorem Met.exceeds {round : Nat} (rule : barriers.Rule program shared staged) (reached : program.Reachable shared state)
    (met : Met barriers staged state) (inside : round < barriers.rounds) (member : agent ∈ barriers.members round)
    (begun : staged.Reached state.pc agent (barriers.place round + 1)) :
    barriers.target round < barriers.counter state.shared := by
  have full : ∀ index ∈ Finset.range round,
      (barriers.members index).card = (barriers.arrived staged state.pc index).card := by
    intro index below
    refine ((arrived_complete state.pc index).mpr ?_).symm
    exact rule.linked state reached met.passed index round (Finset.mem_range.mp below) inside agent member begun
  have own : 0 < (barriers.arrived staged state.pc round).card :=
    Finset.card_pos.mpr ⟨agent, Finset.mem_filter.mpr ⟨member, begun⟩⟩
  have some := Finset.sum_le_sum_of_subset (f := fun index => (barriers.arrived staged state.pc index).card)
    (Finset.range_mono (Nat.succ_le_of_lt inside))
  rw [Finset.sum_range_succ] at some
  rw [met.counted, target, Finset.sum_congr rfl full]
  omega

theorem Complete.advance {round : Nat} (complete : barriers.Complete staged pc round) (actor : Agent) :
    barriers.Complete staged (Function.update pc actor (pc actor + 1)) round :=
  fun agent member => (complete agent member).advance actor

/-- An arrival adds the agent to its round, and nothing else changes who has arrived. -/
theorem arrived_step (rule : barriers.Rule program shared staged) {pc : Agent → Nat} {round : Nat}
    (found : (staged.stage index actor)[spot]? = some action) (here : pc actor = staged.offset actor index + spot)
    (inside : round < barriers.rounds) :
    (barriers.arrived staged (Function.update pc actor (pc actor + 1)) round).card =
      (barriers.arrived staged pc round).card +
        if index = barriers.place round ∧ actor ∈ barriers.members round then 1 else 0 := by
  by_cases arrives : index = barriers.place round ∧ actor ∈ barriers.members round
  · obtain ⟨rfl, member⟩ := arrives
    have single := rule.single round inside actor member
    have absent : actor ∉ barriers.arrived staged pc round := by
      intro already
      have past := (Finset.mem_filter.mp already).2
      unfold Staged.Reached at past
      have within := (List.getElem?_eq_some_iff.mp found).1
      rw [Staged.offset_succ] at past
      omega
    rw [if_pos ⟨rfl, member⟩, ← Finset.card_insert_of_notMem absent]
    congr 1
    ext agent
    rw [Finset.mem_insert, arrived, arrived, Finset.mem_filter, Finset.mem_filter]
    by_cases same : agent = actor
    · subst same
      simp [Staged.crosses found here single, member]
    · simp [Staged.reached_others same, same]
  · rw [if_neg arrives, Nat.add_zero]
    congr 1
    refine Finset.filter_congr fun agent member => ?_
    by_cases same : agent = actor
    · subst same
      rw [Staged.crosses found here (rule.single round inside agent member)]
      exact or_iff_left fun equal => arrives ⟨equal, member⟩
    · exact Staged.reached_others same

theorem met_start (rule : barriers.Rule program shared staged) : Met barriers staged (Program.start shared) where
  counted := by
    have none : ∀ round ∈ Finset.range barriers.rounds,
        (barriers.arrived staged (fun _ => 0) round).card = 0 := by
      intro round below
      refine Finset.card_eq_zero.mpr (Finset.filter_eq_empty_iff.mpr fun agent member begun => ?_)
      have single := rule.single round (Finset.mem_range.mp below) agent member
      change staged.offset agent (barriers.place round + 1) ≤ 0 at begun
      rw [Staged.offset_succ] at begun
      omega
    change barriers.counter shared = _ + ∑ round ∈ _, (barriers.arrived staged (fun _ => 0) round).card
    rw [Finset.sum_eq_zero none, rule.initial, Nat.add_zero]
  passed round inside agent waiting through := by
    obtain ⟨wait, stage, _⟩ := rule.waits round inside agent waiting
    change staged.offset agent (barriers.gate round + 1) ≤ 0 at through
    rw [Staged.offset_succ, stage] at through
    exact absurd through (by simp)

theorem met_step (rule : barriers.Rule program shared staged) (reached : program.Reachable shared before)
    (met : Met barriers staged before) (step : program.Step before after) : Met barriers staged after := by
  obtain ⟨actor, action, located, allowed⟩ := step
  rw [rule.code] at located
  obtain ⟨index, inRange, spot, found, here⟩ := Staged.stage_code located
  constructor
  · have arrivals := fun round (below : round ∈ Finset.range barriers.rounds) =>
      arrived_step rule found here (Finset.mem_range.mp below)
    change barriers.counter (program.effect action before.shared) = _
    rw [rule.counts actor index inRange action (List.mem_of_getElem? found), Finset.sum_congr rfl arrivals,
      Finset.sum_add_distrib, ← Nat.add_assoc, ← met.counted]
    congr 1
    by_cases arrives : ∃ round < barriers.rounds, index = barriers.place round ∧ actor ∈ barriers.members round
    · rw [if_pos arrives]
      obtain ⟨round, inside, placed, member⟩ := arrives
      rw [Finset.sum_eq_single_of_mem round (Finset.mem_range.mpr inside), if_pos ⟨placed, member⟩]
      intro other below apart
      refine if_neg fun both => apart ?_
      exact rule.ordered other (Finset.mem_range.mp below) round inside (both.1.symm.trans placed)
    · rw [if_neg arrives]
      refine (Finset.sum_eq_zero fun round below => if_neg fun both => arrives ?_).symm
      exact ⟨round, Finset.mem_range.mp below, both⟩
  · intro round inside agent waiting through
    obtain ⟨wait, stage, told⟩ := rule.waits round inside agent waiting
    by_cases same : agent = actor
    · subst same
      rcases (Staged.crosses found here (by rw [stage]; rfl)).mp through with already | rfl
      · exact (met.passed round inside agent waiting already).advance agent
      · rw [stage] at found
        obtain rfl := List.mem_singleton.mp (List.mem_of_getElem? found)
        have begun : barriers.place round < barriers.gate round →
            staged.Reached before.pc agent (barriers.place round + 1) := fun earlier => by
          rw [Staged.Reached, here]
          exact Nat.le_add_right_of_le (staged.offset_mono agent (Nat.succ_le_of_lt earlier))
        have shown := told before.shared
          (fun member earlier => met.exceeds rule reached inside member (begun earlier)) allowed
        rcases (barriers.members round).eq_empty_or_nonempty with none | peopled
        · exact fun other member => absurd (none ▸ member) (Finset.notMem_empty other)
        · exact ((met.complete_iff rule reached inside peopled).mp shown).advance agent
    · exact (met.passed round inside agent waiting ((Staged.reached_others same).mp through)).advance actor

/-- In every run the counter is right about every round. -/
theorem met_of_reachable (rule : barriers.Rule program shared staged) (reached : program.Reachable shared state) :
    Met barriers staged state := by
  induction reached with
  | refl => exact met_start rule
  | tail earlier step ih => exact met_step rule earlier ih step

end Rounds

end Barriers

end Ooverlap.Interleaving
