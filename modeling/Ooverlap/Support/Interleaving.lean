import Mathlib.Algebra.BigOperators.Group.Finset.Basic
import Mathlib.Algebra.Order.BigOperators.Group.Finset
import Mathlib.Logic.Function.Basic
import Mathlib.Logic.Relation

/-! Interleavings of sequential agents over shared state. -/

namespace Ooverlap.Interleaving

open Relation

section Runs

variable {State : Type*} {step : State → State → Prop}

theorem invariant (holds : State → Prop) (initial : holds start)
    (preserved : ∀ before after, holds before → step before after → holds after)
    (run : ReflTransGen step start final) : holds final := by
  induction run with
  | refl => exact initial
  | tail _ taken ih => exact preserved _ _ ih taken

/-- From every reachable state some finished state is reachable. -/
def Completes (step : State → State → Prop) (start : State) (finished : State → Prop) : Prop :=
  ∀ state, ReflTransGen step start state → ∃ final, ReflTransGen step state final ∧ finished final

/-- A decreasing measure together with progress makes every run completable. -/
theorem completes_of_progress (holds : State → Prop) (initial : holds start)
    (preserved : ∀ before after, holds before → step before after → holds after)
    (finished : State → Prop) (remaining : State → Nat)
    (decreases : ∀ before after, holds before → step before after → remaining after < remaining before)
    (progress : ∀ state, holds state → finished state ∨ ∃ next, step state next) :
    Completes step start finished := by
  intro state reached
  have here := invariant holds initial preserved reached
  clear reached
  induction budget : remaining state using Nat.strong_induction_on generalizing state with
  | _ budget ih =>
    rcases progress state here with done | ⟨next, taken⟩
    · exact ⟨state, .refl, done⟩
    · have smaller := decreases state next here taken
      obtain ⟨final, rest, done⟩ :=
        ih (remaining next) (budget ▸ smaller) next (preserved state next here taken) rfl
      exact ⟨final, .head taken rest, done⟩

end Runs

/-- Sequential code of every agent, with guards and effects on one shared state. -/
structure Program (Agent Action Shared : Type*) where
  code : Agent → List Action
  enabled : Action → Shared → Prop
  effect : Action → Shared → Shared

structure State (Agent Shared : Type*) where
  pc : Agent → Nat
  shared : Shared

namespace Program

variable {Agent Action Shared : Type*} [DecidableEq Agent] (program : Program Agent Action Shared)

def start (shared : Shared) : State Agent Shared where
  pc _ := 0
  shared := shared

/-- One agent performs its next action, if the shared state allows it. -/
inductive Step : State Agent Shared → State Agent Shared → Prop where
  | perform {state : State Agent Shared} (agent : Agent) (action : Action)
      (next : (program.code agent)[state.pc agent]? = some action)
      (allowed : program.enabled action state.shared) :
      Step state
        { pc := Function.update state.pc agent (state.pc agent + 1)
          shared := program.effect action state.shared }

def Finished (state : State Agent Shared) : Prop :=
  ∀ agent, state.pc agent = (program.code agent).length

abbrev Reachable (shared : Shared) (state : State Agent Shared) : Prop :=
  ReflTransGen program.Step (start shared) state

variable {program}

theorem pc_le_length (reached : program.Reachable shared state) (agent : Agent) :
    state.pc agent ≤ (program.code agent).length := by
  refine invariant (fun state => state.pc agent ≤ (program.code agent).length)
    (Nat.zero_le _) ?_ reached
  rintro _ _ bounded ⟨actor, action, next, allowed⟩
  by_cases same : agent = actor
  · subst same
    simp only [Function.update_self]
    obtain ⟨within, _⟩ := List.getElem?_eq_some_iff.mp next
    exact within
  · simpa only [Function.update_of_ne same] using bounded

/-- An action that an agent has behind it. -/
def Performed (program : Program Agent Action Shared) (state : State Agent Shared) (agent : Agent) (action : Action) :
    Prop :=
  ∃ position < state.pc agent, (program.code agent)[position]? = some action

omit [DecidableEq Agent] in
theorem not_performed_start (shared : Shared) (agent : Agent) (action : Action) :
    ¬program.Performed (start shared) agent action :=
  fun ⟨_, before, _⟩ => Nat.not_lt_zero _ before

/-- A step adds the action that it takes to those performed. -/
theorem performed_step {pc : Agent → Nat} {shared after : Shared} {actor : Agent}
    (next : (program.code actor)[pc actor]? = some action) (agent : Agent) (other : Action) :
    program.Performed ⟨Function.update pc actor (pc actor + 1), after⟩ agent other ↔
      program.Performed ⟨pc, shared⟩ agent other ∨ agent = actor ∧ other = action := by
  unfold Performed
  by_cases same : agent = actor
  · subst same
    simp only [Function.update_self, true_and]
    constructor
    · rintro ⟨position, before, found⟩
      rcases Nat.lt_succ_iff_lt_or_eq.mp before with earlier | rfl
      · exact Or.inl ⟨position, earlier, found⟩
      · exact Or.inr (Option.some.inj (found.symm.trans next))
    · rintro (⟨position, earlier, found⟩ | rfl)
      · exact ⟨position, Nat.lt_succ_of_lt earlier, found⟩
      · exact ⟨_, Nat.lt_succ_self _, next⟩
  · simp only [Function.update_of_ne same, same, false_and, or_false]

/-- What one agent alone writes evolves as its own code run in isolation. -/
theorem view_sequential {View : Type*} (view : Shared → View) (apply : Action → View → View)
    (agent : Agent)
    (own : ∀ action ∈ program.code agent, ∀ shared,
      view (program.effect action shared) = apply action (view shared))
    (foreign : ∀ other, other ≠ agent → ∀ action ∈ program.code other, ∀ shared,
      view (program.effect action shared) = view shared)
    (reached : program.Reachable shared state) :
    view state.shared =
      ((program.code agent).take (state.pc agent)).foldl (fun seen action => apply action seen)
        (view shared) := by
  refine invariant (fun state => view state.shared =
    ((program.code agent).take (state.pc agent)).foldl (fun seen action => apply action seen)
      (view shared)) rfl ?_ reached
  rintro before _ sequential ⟨actor, action, next, allowed⟩
  have member : action ∈ program.code actor := List.mem_of_getElem? next
  by_cases same : actor = agent
  · subst same
    simp only [Function.update_self]
    rw [own action member, sequential, List.take_add_one, next]
    simp
  · simp only [Function.update_of_ne (Ne.symm same)]
    rw [foreign actor same action member, sequential]

/-- A fact that every action establishes or keeps stays true along runs. -/
theorem stable_along (holds : Shared → Prop)
    (keeps : ∀ agent, ∀ action ∈ program.code agent, ∀ shared, holds shared →
      holds (program.effect action shared))
    (run : ReflTransGen program.Step before after) (initially : holds before.shared) :
    holds after.shared := by
  refine invariant (fun state => holds state.shared) initially ?_ run
  rintro _ _ here ⟨agent, action, next, allowed⟩
  exact keeps agent action (List.mem_of_getElem? next) _ here

section Solo

/-- Actions that can be taken one after another. -/
def Allowed (program : Program Agent Action Shared) : List Action → Shared → Prop
  | [], _ => True
  | action :: rest, shared => program.enabled action shared ∧ program.Allowed rest (program.effect action shared)

omit [DecidableEq Agent] in
theorem allowed_append {first second : List Action} (before : program.Allowed first shared)
    (after : program.Allowed second (first.foldl (fun seen action => program.effect action seen) shared)) :
    program.Allowed (first ++ second) shared := by
  induction first generalizing shared with
  | nil => exact after
  | cons action rest ih => exact ⟨before.1, ih before.2 after⟩

omit [DecidableEq Agent] in
theorem allowed_of_free {actions : List Action} (free : ∀ action ∈ actions, ∀ shared, program.enabled action shared)
    (shared : Shared) : program.Allowed actions shared := by
  induction actions generalizing shared with
  | nil => trivial
  | cons action rest ih =>
    exact ⟨free action List.mem_cons_self shared, ih (fun other member => free other (List.mem_cons_of_mem _ member)) _⟩

/-- One agent goes on alone for as long as nothing stops it. -/
theorem solo_reachable {pc : Agent → Nat} {initial shared : Shared} {segment : List Action}
    (reached : program.Reachable initial ⟨pc, shared⟩) (here : pc agent = position)
    (ahead : segment <+: (program.code agent).drop position) (allowed : program.Allowed segment shared) :
    program.Reachable initial ⟨Function.update pc agent (position + segment.length),
      segment.foldl (fun seen action => program.effect action seen) shared⟩ := by
  subst here
  induction segment generalizing pc shared with
  | nil => simpa using reached
  | cons action rest ih =>
    obtain ⟨later, split⟩ := ahead
    have next : (program.code agent)[pc agent]? = some action := by
      rw [← Nat.add_zero (pc agent), ← List.getElem?_drop, ← split]
      rfl
    have taken := reached.tail (.perform agent action next allowed.1)
    have following : rest <+: (program.code agent).drop (pc agent + 1) := by
      rw [← List.drop_drop, ← split]
      exact ⟨later, rfl⟩
    have whole := ih taken allowed.2 (by simpa using following)
    simpa [Nat.add_assoc, Nat.add_comm 1] using whole

/-- One agent takes some of the actions that are known to be its next ones. -/
theorem solo_steps {pc : Agent → Nat} {initial shared : Shared} {code : List Action} (steps : Nat)
    (reached : program.Reachable initial ⟨pc, shared⟩) (known : program.code agent = code) (here : pc agent = position)
    (allowed : program.Allowed ((code.drop position).take steps) shared) :
    program.Reachable initial ⟨Function.update pc agent (position + ((code.drop position).take steps).length),
      ((code.drop position).take steps).foldl (fun seen action => program.effect action seen) shared⟩ :=
  solo_reachable reached here (known ▸ List.take_prefix ..) allowed

end Solo

section Finite

variable (agents : Finset Agent)

/-- Actions still to be performed by the listed agents. -/
def remaining (program : Program Agent Action Shared) (state : State Agent Shared) : Nat :=
  ∑ agent ∈ agents, ((program.code agent).length - state.pc agent)

theorem remaining_decreases (active : ∀ agent, program.code agent ≠ [] → agent ∈ agents)
    (taken : program.Step before after) :
    remaining agents program after < remaining agents program before := by
  obtain ⟨actor, action, next, allowed⟩ := taken
  obtain ⟨within, _⟩ := List.getElem?_eq_some_iff.mp next
  have listed : actor ∈ agents := active actor (List.ne_nil_of_length_pos (Nat.zero_lt_of_lt within))
  apply Finset.sum_lt_sum
  · intro agent _
    by_cases same : agent = actor
    · subst same
      simp only [Function.update_self]
      omega
    · simp only [Function.update_of_ne same, le_refl]
  · refine ⟨actor, listed, ?_⟩
    simp only [Function.update_self]
    omega

/-- Programs of finitely many agents complete as soon as no reachable state is stuck. -/
theorem completes (active : ∀ agent, program.code agent ≠ [] → agent ∈ agents) (shared : Shared)
    (progress : ∀ state, program.Reachable shared state →
      program.Finished state ∨ ∃ next, program.Step state next) :
    Completes program.Step (start shared) program.Finished := by
  refine completes_of_progress (program.Reachable shared) .refl
    (fun _ _ reached taken => reached.tail taken) _ (remaining agents program) ?_ progress
  exact fun _ _ _ taken => remaining_decreases agents active taken

end Finite

end Program

end Ooverlap.Interleaving
