import Mathlib.Data.List.Flatten
import Ooverlap.Support.Interleaving

/-! Programs in stages: when signals between agents order every conflict of an interleaving. -/

namespace Ooverlap.Interleaving

open Relation

/-- A range taken in blocks of `width`. -/
theorem flatMap_range_mul {α : Type*} (width count : Nat) (block : Nat → List α) :
    (List.range (width * count)).flatMap block =
      (List.range count).flatMap fun index => (List.range width).flatMap fun inner => block (width * index + inner) := by
  induction count with
  | zero => simp
  | succ count ih =>
    rw [Nat.mul_succ, List.range_add, List.flatMap_append, ih, List.range_succ, List.flatMap_append, List.flatMap_map]
    simp

/-- Only one index of a range contributes. -/
theorem flatMap_range_single {α : Type*} (count only : Nat) (block : List α) :
    ((List.range count).flatMap fun index => if only = index then block else []) = if only < count then block else [] := by
  induction count with
  | zero => rfl
  | succ count ih =>
    rw [List.range_succ, List.flatMap_append, ih, List.flatMap_singleton]
    rcases Nat.lt_trichotomy only count with before | rfl | after
    · rw [if_pos before, if_neg (Nat.ne_of_lt before), if_pos (Nat.lt_succ_of_lt before), List.append_nil]
    · rw [if_neg (Nat.lt_irrefl _), if_pos rfl, if_pos (Nat.lt_succ_self _), List.nil_append]
    · rw [if_neg (Nat.lt_asymm after), if_neg (Nat.ne_of_gt after), if_neg (Nat.not_lt.mpr after), List.append_nil]

/-- Code in numbered stages, every agent with its own actions in each. -/
structure Staged (Agent Action : Type*) where
  count : Nat
  stage : Nat → Agent → List Action

namespace Staged

variable {Agent Action : Type*} (staged : Staged Agent Action)

/-- Actions an agent has before stage `bound`. -/
def upTo (bound : Nat) (agent : Agent) : List Action :=
  (List.range bound).flatMap fun index => staged.stage index agent

def code (agent : Agent) : List Action :=
  staged.upTo staged.count agent

def offset (agent : Agent) (bound : Nat) : Nat :=
  (staged.upTo bound agent).length

/-- The actions of all agents, stage after stage. -/
def sequential (agents : List Agent) : List Action :=
  (List.range staged.count).flatMap fun index => agents.flatMap (staged.stage index)

section Offsets

variable {staged} {agent : Agent}

theorem upTo_succ (bound : Nat) :
    staged.upTo (bound + 1) agent = staged.upTo bound agent ++ staged.stage bound agent := by
  simp [upTo, List.range_succ]

theorem offset_succ (bound : Nat) :
    staged.offset agent (bound + 1) = staged.offset agent bound + (staged.stage bound agent).length := by
  rw [offset, upTo_succ, List.length_append]
  rfl

variable (staged) (agent) in
theorem offset_mono (ordered : earlier ≤ later) : staged.offset agent earlier ≤ staged.offset agent later := by
  induction ordered with
  | refl => exact le_refl _
  | step _ ih =>
    rw [offset_succ]
    exact le_trans ih (Nat.le_add_right _ _)

/-- The code of an agent at a position inside a stage. -/
theorem code_at (bound : Nat) (earlier : index < bound) (inside : position < (staged.stage index agent).length) :
    (staged.upTo bound agent)[staged.offset agent index + position]? = (staged.stage index agent)[position]? := by
  induction bound with
  | zero => exact absurd earlier (Nat.not_lt_zero _)
  | succ bound ih =>
    rw [upTo_succ]
    rcases Nat.lt_succ_iff_lt_or_eq.mp earlier with before | rfl
    · have room : staged.offset agent index + position < (staged.upTo bound agent).length := by
        have grown := staged.offset_mono agent (Nat.succ_le_of_lt before)
        rw [Nat.succ_eq_add_one, offset_succ] at grown
        exact lt_of_lt_of_le (Nat.add_lt_add_left inside _) grown
      rw [List.getElem?_append_left room]
      exact ih before
    · have past : (staged.upTo index agent).length ≤ staged.offset agent index + position := Nat.le_add_right _ _
      rw [List.getElem?_append_right past]
      simp [offset]

/-- Every position of the code lies inside a stage. -/
theorem exists_stage (bound : Nat) (within : position < staged.offset agent bound) :
    ∃ index < bound, ∃ place < (staged.stage index agent).length, position = staged.offset agent index + place := by
  induction bound with
  | zero => exact absurd within (Nat.not_lt_zero _)
  | succ bound ih =>
    by_cases early : position < staged.offset agent bound
    · obtain ⟨index, before, place, inside, same⟩ := ih early
      exact ⟨index, Nat.lt_succ_of_lt before, place, inside, same⟩
    · rw [offset_succ] at within
      exact ⟨bound, Nat.lt_succ_self _, position - staged.offset agent bound, by omega, by omega⟩

theorem mem_upTo (earlier : index < bound) (member : action ∈ staged.stage index agent) :
    action ∈ staged.upTo bound agent :=
  List.mem_flatMap.mpr ⟨index, List.mem_range.mpr earlier, member⟩

end Offsets

section Fuller

/-- A list whose kept part falls into consecutive parts falls into parts itself. -/
theorem exists_parts (keep : Action → Bool) (parts : Nat → List Action) (last : Nat) (actions : List Action)
    (kept : actions.filter keep = (List.range (last + 1)).flatMap parts) :
    ∃ fuller : Nat → List Action, (List.range (last + 1)).flatMap fuller = actions ∧
      (∀ index ≤ last, (fuller index).filter keep = parts index) ∧ ∀ index > last, fuller index = [] := by
  induction last generalizing actions with
  | zero =>
    refine ⟨fun index => if index = 0 then actions else [], by simp, fun index bound => ?_, fun index beyond => ?_⟩
    · obtain rfl := Nat.le_zero.mp bound
      simpa using kept
    · exact if_neg (Nat.ne_of_gt beyond)
  | succ last ih =>
    rw [List.range_succ, List.flatMap_append, List.flatMap_singleton] at kept
    obtain ⟨front, back, rfl, keptFront, keptBack⟩ := List.filter_eq_append_iff.mp kept
    obtain ⟨fuller, whole, inside, beyond⟩ := ih front keptFront
    refine ⟨Function.update fuller (last + 1) back, ?_, fun index bound => ?_, fun index after => ?_⟩
    · rw [List.range_succ, List.flatMap_append, List.flatMap_singleton, Function.update_self]
      congr 1
      rw [← whole]
      refine List.flatMap_congr fun index member => Function.update_of_ne ?_ _ _
      exact Nat.ne_of_lt (List.mem_range.mp member)
    · by_cases here : index = last + 1
      · subst here
        rw [Function.update_self]
        exact keptBack
      · rw [Function.update_of_ne here]
        exact inside index (by omega)
    · rw [Function.update_of_ne (by omega)]
      exact beyond index (by omega)

/-- Code that keeps the actions of all stages falls into stages that keep them. -/
theorem exists_fuller (keep : Action → Bool) (code : Agent → List Action) (positive : 0 < staged.count)
    (kept : ∀ agent, (code agent).filter keep = staged.code agent) :
    ∃ fuller : Staged Agent Action, fuller.count = staged.count ∧ (∀ agent, fuller.code agent = code agent) ∧
      (∀ index < staged.count, ∀ agent, (fuller.stage index agent).filter keep = staged.stage index agent) ∧
      ∀ index ≥ staged.count, ∀ agent, fuller.stage index agent = [] := by
  obtain ⟨last, more⟩ : ∃ last, staged.count = last + 1 := ⟨staged.count - 1, by omega⟩
  have each : ∀ agent, ∃ fuller : Nat → List Action, (List.range (last + 1)).flatMap fuller = code agent ∧
      (∀ index ≤ last, (fuller index).filter keep = staged.stage index agent) ∧ ∀ index > last, fuller index = [] := by
    intro agent
    refine exists_parts keep _ last (code agent) ?_
    rw [kept, Staged.code, upTo, more]
  choose fuller whole inside beyond using each
  refine ⟨⟨last + 1, fun index agent => fuller agent index⟩, more.symm, whole, fun index bound agent => ?_,
    fun index after agent => ?_⟩
  · exact inside agent index (by omega)
  · exact beyond agent index (by omega)

end Fuller

section Performed

variable (agents : List Agent)

/-- Actions of one stage that the agents have taken. -/
def taken (pc : Agent → Nat) (index : Nat) : List Action :=
  agents.flatMap fun agent => (staged.stage index agent).take (pc agent - staged.offset agent index)

/-- Actions taken before stage `bound`, stage after stage. -/
def performed (pc : Agent → Nat) (bound : Nat) : List Action :=
  (List.range bound).flatMap (staged.taken agents pc)

variable {staged} {agents}

theorem performed_succ (pc : Agent → Nat) (bound : Nat) :
    staged.performed agents pc (bound + 1) =
      staged.performed agents pc bound ++ staged.taken agents pc bound := by
  simp [performed, List.range_succ]

theorem mem_taken (member : action ∈ staged.taken agents pc index) :
    ∃ agent ∈ agents, action ∈ staged.stage index agent ∧ staged.offset agent index < pc agent := by
  obtain ⟨agent, listed, inTaken⟩ := List.mem_flatMap.mp member
  have positive := List.length_pos_of_mem inTaken
  rw [List.length_take] at positive
  exact ⟨agent, listed, List.mem_of_mem_take inTaken, by omega⟩

/-- Once every agent is through, all stages have been performed. -/
theorem performed_finished (through : ∀ agent ∈ agents, staged.offset agent staged.count ≤ pc agent) :
    staged.performed agents pc staged.count = staged.sequential agents := by
  refine List.flatMap_congr fun index member => List.flatMap_congr fun agent listed => ?_
  have whole := staged.offset_mono agent (Nat.succ_le_of_lt (List.mem_range.mp member))
  rw [Nat.succ_eq_add_one, offset_succ] at whole
  have done := through agent listed
  rw [List.take_of_length_le (by omega)]

theorem performed_start (bound : Nat) : staged.performed agents (fun _ => 0) bound = [] := by
  simp [performed, taken]

variable [DecidableEq Agent] {pc : Agent → Nat} {actor : Agent}

/-- A step inside stage `index` changes what is taken of no other stage. -/
theorem taken_elsewhere (apart : other ≠ index) (inside : place < (staged.stage index actor).length)
    (here : pc actor = staged.offset actor index + place) :
    staged.taken agents (Function.update pc actor (pc actor + 1)) other = staged.taken agents pc other := by
  refine List.flatMap_congr fun agent _ => ?_
  by_cases same : agent = actor
  · subst same
    rw [Function.update_self]
    rcases Nat.lt_or_gt_of_ne apart with before | after
    · have whole := staged.offset_mono agent (Nat.succ_le_of_lt before)
      rw [Nat.succ_eq_add_one, offset_succ] at whole
      rw [List.take_of_length_le (by omega), List.take_of_length_le (by omega)]
    · have beyond := staged.offset_mono agent (Nat.succ_le_of_lt after)
      rw [Nat.succ_eq_add_one, offset_succ] at beyond
      rw [Nat.sub_eq_zero_of_le (by omega), Nat.sub_eq_zero_of_le (by omega)]
  · rw [Function.update_of_ne same]

/-- A step puts its action into the stage, before what others have taken of it and of later stages. -/
theorem taken_advance (distinct : agents.Nodup) (listed : actor ∈ agents)
    (next : (staged.stage index actor)[place]? = some action)
    (here : pc actor = staged.offset actor index + place) :
    ∃ left right, staged.taken agents pc index = left ++ right ∧
      staged.taken agents (Function.update pc actor (pc actor + 1)) index = left ++ action :: right ∧
      ∀ later ∈ right, ∃ agent, agent ≠ actor ∧ later ∈ staged.stage index agent ∧
        staged.offset agent index < pc agent := by
  obtain ⟨before, after, rfl⟩ := List.append_of_mem listed
  obtain ⟨_, distinctAfter, apart⟩ := List.nodup_append.mp distinct
  have freshBefore : ∀ agent ∈ before, agent ≠ actor := fun agent member =>
    apart agent member actor (List.mem_cons_self ..)
  have freshAfter : ∀ agent ∈ after, agent ≠ actor := fun agent member same =>
    (List.nodup_cons.mp distinctAfter).1 (same ▸ member)
  have others : ∀ list : List Agent, (∀ agent ∈ list, agent ≠ actor) →
      staged.taken list (Function.update pc actor (pc actor + 1)) index = staged.taken list pc index := by
    intro list fresh
    refine List.flatMap_congr fun agent member => ?_
    rw [Function.update_of_ne (fresh agent member)]
  have split : ∀ counter : Agent → Nat, staged.taken (before ++ actor :: after) counter index =
      staged.taken before counter index ++
        ((staged.stage index actor).take (counter actor - staged.offset actor index) ++
          staged.taken after counter index) := fun counter => by
    simp [taken]
  refine ⟨staged.taken before pc index ++ (staged.stage index actor).take place, staged.taken after pc index,
    ?_, ?_, ?_⟩
  · rw [split, here, Nat.add_sub_cancel_left, List.append_assoc]
  · rw [split, others before freshBefore, others after freshAfter, Function.update_self, here, Nat.add_assoc,
      Nat.add_sub_cancel_left, List.take_add_one, next]
    simp
  · intro later member
    obtain ⟨agent, inAfter, inStage, past⟩ := mem_taken member
    exact ⟨agent, freshAfter agent inAfter, inStage, past⟩

/-- A step puts its action among those performed, before actions of other agents only. -/
theorem performed_advance (distinct : agents.Nodup) (listed : actor ∈ agents)
    (next : (staged.stage index actor)[place]? = some action)
    (here : pc actor = staged.offset actor index + place) (bound : Nat) (earlier : index < bound) :
    ∃ left right, staged.performed agents pc bound = left ++ right ∧
      staged.performed agents (Function.update pc actor (pc actor + 1)) bound = left ++ action :: right ∧
      ∀ later ∈ right, ∃ other agent, index ≤ other ∧ other < bound ∧ agent ≠ actor ∧
        later ∈ staged.stage other agent ∧ staged.offset agent other < pc agent := by
  have inside := (List.getElem?_eq_some_iff.mp next).1
  induction bound with
  | zero => exact absurd earlier (Nat.not_lt_zero _)
  | succ bound ih =>
    rw [performed_succ, performed_succ]
    rcases Nat.lt_succ_iff_lt_or_eq.mp earlier with before | rfl
    · obtain ⟨left, right, old, new, after⟩ := ih before
      rw [old, new, taken_elsewhere (Nat.ne_of_gt before) inside here]
      refine ⟨left, right ++ staged.taken agents pc bound, by simp, by simp, ?_⟩
      intro later member
      rcases List.mem_append.mp member with inRight | inLast
      · obtain ⟨other, agent, ordered, below, apart, inStage, past⟩ := after later inRight
        exact ⟨other, agent, ordered, Nat.lt_succ_of_lt below, apart, inStage, past⟩
      · obtain ⟨agent, _, inStage, past⟩ := mem_taken inLast
        refine ⟨bound, agent, before.le, Nat.lt_succ_self _, ?_, inStage, past⟩
        rintro rfl
        have beyond := staged.offset_mono agent (Nat.succ_le_of_lt before)
        rw [Nat.succ_eq_add_one, offset_succ] at beyond
        omega
    · have earlierStages : staged.performed agents (Function.update pc actor (pc actor + 1)) index =
          staged.performed agents pc index :=
        List.flatMap_congr fun other member =>
          taken_elsewhere (Nat.ne_of_lt (List.mem_range.mp member)) inside here
      obtain ⟨left, right, old, new, after⟩ := taken_advance distinct listed next here
      refine ⟨staged.performed agents pc index ++ left, right, by rw [old, List.append_assoc],
        by rw [earlierStages, new, List.append_assoc], fun later member => ?_⟩
      obtain ⟨agent, apart, inStage, past⟩ := after later member
      exact ⟨index, agent, le_refl _, Nat.lt_succ_self _, apart, inStage, past⟩

end Performed

end Staged

namespace Program

variable {Agent Action Shared : Type*} [DecidableEq Agent]

/-- Reaching stage `later` tells `second` that `first` is through with stage `earlier`. -/
def Awaits (program : Program Agent Action Shared) (shared : Shared) (staged : Staged Agent Action)
    (earlier : Nat) (first : Agent) (later : Nat) (second : Agent) : Prop :=
  ∀ state, program.Reachable shared state → staged.offset second later ≤ state.pc second →
    staged.offset first (earlier + 1) ≤ state.pc first

/-- A program in stages whose signals order all dependent actions of different agents. -/
structure Synchronized (program : Program Agent Action Shared) (shared : Shared) (staged : Staged Agent Action)
    (agents : List Agent) (independent : Action → Action → Prop) : Prop where
  distinct : agents.Nodup
  code : ∀ agent, program.code agent = staged.code agent
  listed : ∀ agent ∉ agents, ∀ index, staged.stage index agent = []
  ordered : ∀ earlier later first second, first ≠ second → earlier ≤ later → later < staged.count →
    (∀ action ∈ staged.stage earlier first, ∀ other ∈ staged.stage later second, independent action other) ∨
      earlier < later ∧ Awaits program shared staged earlier first later second
  unblocked : ∀ state, program.Reachable shared state → ∀ index < staged.count,
    (∀ agent, staged.offset agent index ≤ state.pc agent) →
    ∀ agent, state.pc agent < staged.offset agent (index + 1) → ∀ action ∈ staged.stage index agent,
      program.enabled action state.shared

namespace Synchronized

open Staged

variable {program : Program Agent Action Shared} {shared : Shared} {staged : Staged Agent Action}
variable {agents : List Agent} {independent : Action → Action → Prop} {state : State Agent Shared}

/-- The stage in which an agent's next action stands. -/
theorem next_stage (synchronized : program.Synchronized shared staged agents independent)
    (next : (program.code agent)[state.pc agent]? = some action) :
    agent ∈ agents ∧ ∃ index < staged.count, ∃ place, (staged.stage index agent)[place]? = some action ∧
      state.pc agent = staged.offset agent index + place := by
  rw [synchronized.code] at next
  obtain ⟨within, _⟩ := List.getElem?_eq_some_iff.mp next
  obtain ⟨index, earlier, place, inside, position⟩ := exists_stage staged.count within
  rw [position, Staged.code, code_at staged.count earlier inside] at next
  refine ⟨?_, index, earlier, place, next, position⟩
  by_contra absent
  rw [synchronized.listed agent absent index] at inside
  exact Nat.not_lt_zero _ inside

/-- The agent furthest behind can always move. -/
theorem progress (synchronized : program.Synchronized shared staged agents independent)
    (reached : program.Reachable shared state) :
    program.Finished state ∨ ∃ next, program.Step state next := by
  by_cases through : ∀ agent, staged.offset agent staged.count ≤ state.pc agent
  · refine Or.inl fun agent => ?_
    have bounded := pc_le_length reached agent
    rw [synchronized.code] at bounded ⊢
    exact le_antisymm bounded (through agent)
  · right
    have behind : ∃ bound, ¬∀ agent, staged.offset agent bound ≤ state.pc agent := ⟨staged.count, through⟩
    classical
    have last := Nat.find_spec behind
    have first := fun bound => Nat.find_min (m := bound) behind
    have notAfter := Nat.find_min' behind through
    generalize Nat.find behind = bound at last first notAfter
    cases bound with
    | zero => exact absurd (fun agent => Nat.zero_le _) last
    | succ index =>
      have arrived := not_not.mp (first index (Nat.lt_succ_self _))
      obtain ⟨agent, short⟩ := not_forall.mp last
      have before := not_le.mp short
      rw [offset_succ] at short
      have here := arrived agent
      have inside : state.pc agent - staged.offset agent index < (staged.stage index agent).length := by omega
      have position : staged.offset agent index + (state.pc agent - staged.offset agent index) = state.pc agent := by
        omega
      generalize found : (staged.stage index agent)[state.pc agent - staged.offset agent index] = action
      have listedAction := List.getElem?_eq_some_iff.mpr ⟨inside, found⟩
      have next : (program.code agent)[state.pc agent]? = some action := by
        rw [synchronized.code, ← position, Staged.code, code_at staged.count notAfter inside]
        exact listedAction
      exact ⟨_, .perform agent action next
        (synchronized.unblocked state reached index notAfter arrived agent before action
          (List.mem_of_getElem? listedAction))⟩

theorem completes (synchronized : program.Synchronized shared staged agents independent) :
    Completes program.Step (start shared) program.Finished := by
  refine Program.completes agents.toFinset (fun agent busy => ?_) shared fun state reached =>
    synchronized.progress reached
  rw [List.mem_toFinset]
  by_contra absent
  refine busy ?_
  rw [synchronized.code, Staged.code, Staged.upTo]
  exact List.flatMap_eq_nil_iff.mpr fun index _ => synchronized.listed agent absent index

/-- What an agent is about to do depends on nothing another agent is about to do. -/
theorem next_independent (synchronized : program.Synchronized shared staged agents independent)
    (symmetric : ∀ action other, independent action other → independent other action)
    (reached : program.Reachable shared state) (apart : first ≠ second)
    (next : (program.code first)[state.pc first]? = some action)
    (nextOther : (program.code second)[state.pc second]? = some other) : independent action other := by
  obtain ⟨_, index, inRange, place, found, position⟩ := synchronized.next_stage next
  obtain ⟨_, indexOther, inRangeOther, innerOther, foundOther, positionOther⟩ := synchronized.next_stage nextOther
  have inside := (List.getElem?_eq_some_iff.mp found).1
  have insideOther := (List.getElem?_eq_some_iff.mp foundOther).1
  rcases le_total index indexOther with before | before
  · rcases synchronized.ordered index indexOther first second apart before inRangeOther with free | ⟨_, awaits⟩
    · exact free action (List.mem_of_getElem? found) other (List.mem_of_getElem? foundOther)
    · have through := awaits state reached (by omega)
      rw [offset_succ] at through
      omega
  · rcases synchronized.ordered indexOther index second first apart.symm before inRange with free | ⟨_, awaits⟩
    · exact symmetric _ _ (free other (List.mem_of_getElem? foundOther) action (List.mem_of_getElem? found))
    · have through := awaits state reached (by omega)
      rw [offset_succ] at through
      omega

theorem foldl_commute {effect : Action → Shared → Shared} (later : List Action)
    (commutes : ∀ other ∈ later, ∀ shared, effect action (effect other shared) = effect other (effect action shared))
    (shared : Shared) :
    effect action (later.foldl (fun seen other => effect other seen) shared) =
      later.foldl (fun seen other => effect other seen) (effect action shared) := by
  induction later generalizing shared with
  | nil => rfl
  | cons other rest ih =>
    rw [List.foldl_cons, ih (fun third member => commutes third (List.mem_cons_of_mem _ member)),
      commutes other (List.mem_cons_self ..), List.foldl_cons]

/-- Every interleaving leaves what its actions leave stage after stage. -/
theorem linearized (synchronized : program.Synchronized shared staged agents independent)
    (commutes : ∀ first second, ∀ action ∈ program.code first, ∀ other ∈ program.code second,
      independent action other → ∀ shared,
        program.effect action (program.effect other shared) = program.effect other (program.effect action shared))
    (reached : program.Reachable shared state) :
    state.shared = (staged.performed agents state.pc staged.count).foldl
      (fun seen action => program.effect action seen) shared := by
  induction reached with
  | refl => rw [start, performed_start, List.foldl_nil]
  | @tail before _ earlier taken ih =>
    obtain ⟨actor, action, next, allowed⟩ := taken
    obtain ⟨listed, index, inRange, place, found, position⟩ := synchronized.next_stage next
    obtain ⟨left, right, old, new, after⟩ :=
      performed_advance synchronized.distinct listed found position staged.count inRange
    have inside := (List.getElem?_eq_some_iff.mp found).1
    have free : ∀ later ∈ right, ∀ shared,
        program.effect action (program.effect later shared) = program.effect later (program.effect action shared) := by
      intro later member
      obtain ⟨other, agent, ordered, below, apart, inStage, past⟩ := after later member
      rcases synchronized.ordered index other actor agent apart.symm ordered below with independent | ⟨_, awaits⟩
      · refine commutes actor agent action (List.mem_of_getElem? next) later ?_
          (independent action (List.mem_of_getElem? found) later inStage)
        rw [synchronized.code]
        exact mem_upTo below inStage
      · have through := awaits before earlier past.le
        rw [offset_succ] at through
        omega
    rw [new, ih, old, List.foldl_append, List.foldl_append, List.foldl_cons]
    exact foldl_commute right free _

/-- Every finished interleaving leaves what the stages leave one after the other. -/
theorem finished_shared (synchronized : program.Synchronized shared staged agents independent)
    (commutes : ∀ first second, ∀ action ∈ program.code first, ∀ other ∈ program.code second,
      independent action other → ∀ shared,
        program.effect action (program.effect other shared) = program.effect other (program.effect action shared))
    (reached : program.Reachable shared state) (finished : program.Finished state) :
    state.shared = (staged.sequential agents).foldl (fun seen action => program.effect action seen) shared := by
  rw [synchronized.linearized commutes reached, performed_finished]
  intro agent _
  rw [finished agent, synchronized.code]
  exact le_refl _

end Synchronized

end Program

end Ooverlap.Interleaving
