import Ooverlap.Fast.Barriers

/-! What the flags and inboxes of the fast kernels tell about whoever raised them. -/

namespace Ooverlap.Fast

open Interleaving Plan Word

section Values

variable {Value : Type*} {history : List (Collective Value)} {worldSize : Nat}

theorem readyValue_eq (positive : 0 < epoch) (small : epoch < 2 ^ 21) (phase : 0 ≤ step ∧ step < 1024) :
    readyValue epoch step = epoch * 1024 + step :=
  toInt32_of_inInt32 ⟨by unfold kReadySignalPhaseStride; omega, by unfold kReadySignalPhaseStride; omega⟩

/-- A stage in which a ready value is published. -/
def ReadyAt (history : List (Collective Value)) (index : Nat) (value : Int) : Prop :=
  ∃ collective, history[index / stageWidth]? = some collective ∧
    (index % stageWidth = 8 ∧ value = readyValue collective.epoch kLoadedReadyPhase ∨
      index % stageWidth = 20 ∧ value = readyValue collective.epoch kDoneReadyPhase)

theorem ReadyAt.loaded {history : List (Collective Value)} (found : history[launch]? = some collective) :
    ReadyAt history (stageWidth * launch + 8) (readyValue collective.epoch kLoadedReadyPhase) :=
  ⟨collective, by rwa [stage_div (by decide)], .inl ⟨stage_mod (by decide) _, rfl⟩⟩

theorem ReadyAt.done {history : List (Collective Value)} (found : history[launch]? = some collective) :
    ReadyAt history (stageWidth * launch + 20) (readyValue collective.epoch kDoneReadyPhase) :=
  ⟨collective, by rwa [stage_div (by decide)], .inr ⟨stage_mod (by decide) _, rfl⟩⟩

/-- The published values grow from stage to stage. -/
theorem ReadyAt.lt_of_lt (launched : Launched worldSize history) (first : ReadyAt history index value)
    (second : ReadyAt history later next) (ordered : index < later) : value < next := by
  obtain ⟨collective, found, phase⟩ := first
  obtain ⟨other, there, phaseThere⟩ := second
  obtain ⟨positive, small⟩ := launched.words _ collective found
  obtain ⟨positiveThere, smallThere⟩ := launched.words _ other there
  rw [readyValue_eq positive small (by decide), readyValue_eq positive small (by decide)] at phase
  rw [readyValue_eq positiveThere smallThere (by decide), readyValue_eq positiveThere smallThere (by decide)]
    at phaseThere
  unfold kLoadedReadyPhase kDoneReadyPhase at *
  rcases Nat.lt_or_eq_of_le (Nat.div_le_div_right (c := stageWidth) ordered.le) with before | same
  · have grown := launched.epochs _ _ collective other before found there
    omega
  · rw [same] at found
    obtain rfl := Option.some.inj (found.symm.trans there)
    have parts := Nat.div_add_mod index stageWidth
    have partsThere := Nat.div_add_mod later stageWidth
    rw [same] at parts
    omega

theorem ReadyAt.le_of_le (launched : Launched worldSize history) (first : ReadyAt history index value)
    (second : ReadyAt history later next) (ordered : index ≤ later) : value ≤ next := by
  rcases Nat.lt_or_eq_of_le ordered with before | rfl
  · exact (first.lt_of_lt launched second before).le
  · obtain ⟨collective, found, phase⟩ := first
    obtain ⟨other, there, phaseThere⟩ := second
    obtain rfl := Option.some.inj (found.symm.trans there)
    omega

end Values

section Flags

variable {Value : Type*} {worldSize : Nat} {history : List (Collective Value)} {devices : Devices Value}
variable {state : State Agent (Devices Value)}

/-- An agent stands in a stage of a launch or beyond it. -/
def Stands (start : Nat → Scratch → Nat) (history : List (Collective Value)) (pc : Agent → Nat) (agent : Agent)
    (launch stage : Nat) : Prop :=
  (historyStages start history).Reached pc agent (stageWidth * launch + stage)

theorem Stands.mono {start : Nat → Scratch → Nat} {pc : Agent → Nat} (stands : Stands start history pc agent later stage)
    (before : stageWidth * launch + earlier ≤ stageWidth * later + stage) :
    Stands start history pc agent launch earlier :=
  Staged.Reached.mono stands before

/-- An action of an agent's code stands in one of its stages. -/
theorem mem_code {start : Nat → Scratch → Nat} (filled : Filled history) (member : action ∈ agentCode start history agent) :
    ∃ index < (historyStages start history).count, action ∈ (historyStages start history).stage index agent := by
  rw [agentCode_staged filled] at member
  obtain ⟨index, inRange, inStage⟩ := List.mem_flatMap.mp member
  exact ⟨index, List.mem_range.mp inRange, inStage⟩

theorem effect_issued (history : List (Collective Value)) (action : Action) (devices : Devices Value) (bulk : Bulk) :
    (effect history action devices).issued bulk = true ↔ devices.issued bulk = true ∨ action = .issue bulk := by
  cases action <;> try simp [effect]
  case issue other =>
    by_cases same : bulk = other
    · subst same
      simp
    · simp [Function.update_of_ne same, Ne.symm same]

theorem effect_completed (history : List (Collective Value)) (action : Action) (devices : Devices Value) (bulk : Bulk) :
    (effect history action devices).completed bulk = true ↔ devices.completed bulk = true ∨ action = .complete bulk := by
  cases action <;> try simp [effect]
  case complete other =>
    by_cases same : bulk = other
    · subst same
      simp
    · simp [Function.update_of_ne same, Ne.symm same]

theorem effect_inbox (history : List (Collective Value)) (action : Action) (devices : Devices Value)
    (owner waiter : Nat) : (effect history action devices).inbox owner waiter = devices.inbox owner waiter ∨
      ∃ value, action = .publish owner waiter value ∧ (effect history action devices).inbox owner waiter = value := by
  cases action <;> try exact .inl rfl
  case publish other place value =>
    by_cases same : owner = other ∧ waiter = place
    · obtain ⟨rfl, rfl⟩ := same
      exact .inr ⟨value, rfl, Tables.store_self⟩
    · exact .inl (Tables.store_of_ne fun row column => same ⟨row, column⟩)

def issueStage (bulk : Bulk) : Nat :=
  if bulk.index = 0 then 1 else 13

/-- An issued copy was issued by its CTA. -/
theorem issued_stands (launched : Launched worldSize history) (entry : Entry history devices)
    (reached : (fastProgram devices.counter history).Reachable devices state) (up : state.shared.issued bulk = true) :
    Stands devices.counter history state.pc (.cta bulk.block.rank bulk.block.cta) bulk.block.launch
      (issueStage bulk) := by
  have place : ∀ index agent, Action.issue bulk ∈ (historyStages devices.counter history).stage index agent →
      agent = .cta bulk.block.rank bulk.block.cta ∧ stageWidth * bulk.block.launch + issueStage bulk = index := by
    intro index agent member
    cases agent with
    | engine other =>
      obtain ⟨_, _, _, _, ⟨_, same⟩ | ⟨_, moves⟩ | ⟨_, same⟩⟩ := engine_stage member
      · cases same
      · exact moves.elim
      · cases same
    | cta rank cta =>
      obtain ⟨collective, found, inside, job, given, same, spot⟩ := cta_stage member
      rw [same]
      refine ⟨rfl, ?_⟩
      have parts := Nat.div_add_mod index stageWidth
      change stageWidth * (index / stageWidth) + issueStage bulk = index
      unfold issueStage
      rcases spot with ⟨stage, first⟩ | ⟨stage, target, _, later⟩
      · rw [if_pos first]
        omega
      · rw [if_neg (by omega)]
        omega
  refine (fastProgram devices.counter history).raised_reached (fun devices => devices.issued bulk = true)
    (fun action => action = .issue bulk) (fun agent => agentCode_staged launched.filled agent)
    (by simp [entry.issued]) ?_ ?_ reached up
  · intro agent action member shared down raised
    have isIssue := ((effect_issued history action shared bulk).mp raised).resolve_left down
    subst isIssue
    obtain ⟨index, _, inStage⟩ := mem_code launched.filled member
    exact ⟨(place index agent inStage).1, rfl⟩
  · intro index _ action member isIssue
    subst isIssue
    exact (place index _ member).2.le

/-- A completed copy was completed by its engine. -/
theorem completed_stands (launched : Launched worldSize history) (entry : Entry history devices)
    (reached : (fastProgram devices.counter history).Reachable devices state)
    (up : state.shared.completed bulk = true) :
    Stands devices.counter history state.pc (.engine bulk) bulk.block.launch (engineStage bulk + 2) := by
  have place : ∀ index agent, Action.complete bulk ∈ (historyStages devices.counter history).stage index agent →
      agent = .engine bulk ∧ stageWidth * bulk.block.launch + (engineStage bulk + 2) = index := by
    intro index agent member
    cases agent with
    | engine other =>
      obtain ⟨here, _, _, _, ⟨_, same⟩ | ⟨_, moves⟩ | ⟨stage, same⟩⟩ := engine_stage member
      · cases same
      · exact moves.elim
      · cases same
        have parts := Nat.div_add_mod index stageWidth
        rw [here]
        exact ⟨rfl, by omega⟩
    | cta rank cta =>
      obtain ⟨_, _, _, _, _, impossible⟩ := cta_stage member
      exact impossible.elim
  refine (fastProgram devices.counter history).raised_reached (fun devices => devices.completed bulk = true)
    (fun action => action = .complete bulk) (fun agent => agentCode_staged launched.filled agent)
    (by simp [entry.completed]) ?_ ?_ reached up
  · intro agent action member shared down raised
    have isComplete := ((effect_completed history action shared bulk).mp raised).resolve_left down
    subst isComplete
    obtain ⟨index, _, inStage⟩ := mem_code launched.filled member
    exact ⟨(place index agent inStage).1, rfl⟩
  · intro index _ action member isComplete
    subst isComplete
    exact (place index _ member).2.le

theorem publish_place {start : Nat → Scratch → Nat}
    (member : Action.publish owner waiter value ∈ (historyStages start history).stage index agent) :
    agent = .cta owner 0 ∧ ReadyAt history index value := by
  cases agent with
  | engine other =>
    obtain ⟨_, _, _, _, ⟨_, same⟩ | ⟨_, moves⟩ | ⟨_, same⟩⟩ := engine_stage member
    · cases same
    · exact moves.elim
    · cases same
  | cta rank cta =>
    obtain ⟨collective, found, inside, job, given, rfl, first, isPeer, spot⟩ := cta_stage member
    obtain rfl : cta = 0 := first
    exact ⟨rfl, collective, found, spot⟩

/-- A value in an inbox tells how far the CTA 0 of its owner has come. -/
theorem inbox_stands (launched : Launched worldSize history)
    (reached : (fastProgram devices.counter history).Reachable devices state)
    (ready : ReadyAt history index value) (fresh : devices.inbox owner waiter < value)
    (up : value ≤ state.shared.inbox owner waiter) :
    (historyStages devices.counter history).Reached state.pc (.cta owner 0) index := by
  refine (fastProgram devices.counter history).raised_reached (fun devices => value ≤ devices.inbox owner waiter)
    (fun action => ∃ next, value ≤ next ∧ action = .publish owner waiter next)
    (fun agent => agentCode_staged launched.filled agent) (not_le.mpr fresh) ?_ ?_
    reached up
  · intro agent action member shared down raised
    rcases effect_inbox history action shared owner waiter with kept | ⟨next, rfl, stored⟩
    · change value ≤ (effect history action shared).inbox owner waiter at raised
      rw [kept] at raised
      exact absurd raised down
    · obtain ⟨place, _, inStage⟩ := mem_code launched.filled member
      change value ≤ (effect history (Action.publish owner waiter next) shared).inbox owner waiter at raised
      rw [stored] at raised
      exact ⟨(publish_place inStage).1, next, raised, rfl⟩
  · intro other _ action member isSignal
    obtain ⟨next, more, rfl⟩ := isSignal
    by_contra before
    exact absurd more (not_le.mpr ((publish_place member).2.lt_of_lt launched ready (not_le.mp before)))

/-- A copy is issued once its CTA is past issuing it. -/
theorem issued_past (launched : Launched worldSize history)
    (reached : (fastProgram devices.counter history).Reachable devices state)
    (inRange : index < (historyStages devices.counter history).count)
    (member : Action.issue bulk ∈ (historyStages devices.counter history).stage index agent)
    (past : (historyStages devices.counter history).Reached state.pc agent (index + 1)) :
    state.shared.issued bulk = true :=
  (fastProgram devices.counter history).established_stage (fun devices => devices.issued bulk = true)
    (fun agent => agentCode_staged launched.filled agent) inRange member
    (fun shared => (effect_issued history _ shared bulk).mpr (.inr rfl))
    (fun other shared holds => (effect_issued history other shared bulk).mpr (.inl holds)) reached past

theorem completed_past (launched : Launched worldSize history)
    (reached : (fastProgram devices.counter history).Reachable devices state)
    (inRange : index < (historyStages devices.counter history).count)
    (member : Action.complete bulk ∈ (historyStages devices.counter history).stage index agent)
    (past : (historyStages devices.counter history).Reached state.pc agent (index + 1)) :
    state.shared.completed bulk = true :=
  (fastProgram devices.counter history).established_stage (fun devices => devices.completed bulk = true)
    (fun agent => agentCode_staged launched.filled agent) inRange member
    (fun shared => (effect_completed history _ shared bulk).mpr (.inr rfl))
    (fun other shared holds => (effect_completed history other shared bulk).mpr (.inl holds)) reached past

/-- A published value, or a later one, stays in the inbox. -/
theorem inbox_past (launched : Launched worldSize history)
    (reached : (fastProgram devices.counter history).Reachable devices state)
    (inRange : index < (historyStages devices.counter history).count)
    (member : Action.publish owner waiter value ∈ (historyStages devices.counter history).stage index (.cta owner 0))
    (past : (historyStages devices.counter history).Reached state.pc (.cta owner 0) (index + 1)) :
    value ≤ state.shared.inbox owner waiter := by
  have ready := (publish_place member).2
  obtain ⟨place, found⟩ := List.mem_iff_getElem?.mp member
  have located := Staged.code_stage inRange found
  rw [← agentCode_staged launched.filled] at located
  refine (fastProgram devices.counter history).established (fun devices => value ≤ devices.inbox owner waiter) _ located
    (fun shared => ?_) ?_ reached (past.taken (List.getElem?_eq_some_iff.mp found).1)
  · change value ≤ Tables.store shared.inbox owner waiter value owner waiter
    rw [Tables.store_self]
  · intro before taken holds actor other next
    change value ≤ (effect history other before.shared).inbox owner waiter
    rcases effect_inbox history other before.shared owner waiter with kept | ⟨newer, rfl, stored⟩
    · rw [kept]
      exact holds
    · rw [stored]
      change (agentCode devices.counter history actor)[before.pc actor]? = _ at next
      rw [agentCode_staged launched.filled] at next
      obtain ⟨later, _, spot, inStage, here⟩ := Staged.stage_code next
      obtain ⟨rfl, readyLater⟩ := publish_place (List.mem_of_getElem? inStage)
      refine ready.le_of_le launched readyLater (Staged.index_of_reached inStage ?_)
      omega

end Flags

end Ooverlap.Fast
