import Ooverlap.Fast.Order

/-! The fast kernels end in every interleaving, and leave what their stages leave one after the other. -/

namespace Ooverlap.Fast

open Interleaving Plan Word

section Conflicts

variable {Value : Type*}

/-- The elements that a bulk copy loads. -/
def Loads (launch : FastLaunch) (bulk : Bulk) (position : Nat) : Prop :=
  bulk.index = 0 ∧ ∃ job, launch.job bulk.block.cta = some job ∧ ∃ element < job.count, position = job.source + element

/-- The elements that a bulk copy writes. -/
def Hits (launch : FastLaunch) (bulk : Bulk) (rank position : Nat) : Prop :=
  ∃ job target index, launch.job bulk.block.cta = some job ∧ bulk.index = index + 1 ∧
    job.targets[index]? = some target ∧ rank = target.1 ∧ ∃ element < job.count, position = target.2 + element

/-- Reductions into one place may come in any order; a gather writes each place once, and none that is loaded. -/
structure Separate (history : List (Collective Value)) : Prop where
  reduces : ∀ (launch : Nat) (collective : Collective Value), history[launch]? = some collective →
    collective.kind ≠ .allGather → ∀ old new other,
      collective.op (collective.op old new) other = collective.op (collective.op old other) new
  stores : ∀ (launch : Nat) (collective : Collective Value), history[launch]? = some collective →
    collective.kind = .allGather → ∀ first second : Bulk, ∀ rank position,
      Hits (collective.launch first.block.rank) first rank position →
      Hits (collective.launch second.block.rank) second rank position →
      first.block.launch = launch → second.block.launch = launch → first = second
  keeps : ∀ (launch : Nat) (collective : Collective Value), history[launch]? = some collective →
    collective.kind = .allGather → ∀ first second : Bulk, ∀ position,
      Loads (collective.launch first.block.rank) first position →
      ¬Hits (collective.launch second.block.rank) second first.block.rank position

variable {worldSize : Nat} {history : List (Collective Value)} {devices : Devices Value}

/-- Where a load stands, and what it reads. -/
theorem load_place {start : Nat → Scratch → Nat}
    (member : Action.load block element position ∈ (historyStages start history).stage index agent) :
    agent = .engine ⟨block, 0⟩ ∧ index = stageWidth * block.launch + 3 ∧
      ∃ collective moves, history[block.launch]? = some collective ∧
        block.cta < (collective.launch block.rank).ctaCount ∧ historyMoves history ⟨block, 0⟩ = some moves ∧
        Loads (collective.launch block.rank) ⟨block, 0⟩ position := by
  cases agent with
  | cta rank cta =>
    obtain ⟨_, _, _, _, _, impossible⟩ := cta_stage member
    exact impossible.elim
  | engine bulk =>
    obtain ⟨moves, moving⟩ := engine_moves member
    obtain ⟨here, collective, found, inside, ⟨_, same⟩ | ⟨stage, works⟩ | ⟨_, same⟩⟩ := engine_stage member
    · cases same
    · obtain ⟨rfl, first, job, given, below, rfl⟩ := works
      obtain ⟨block, number⟩ := bulk
      obtain rfl : number = 0 := first
      have parts := Nat.div_add_mod index stageWidth
      refine ⟨rfl, ?_, collective, moves, found, inside, moving, rfl, job, given, element, below, rfl⟩
      change block.launch = _ at here
      change _ = 2 + 1 at stage
      rw [here]
      omega
    · cases same

/-- Where a send stands, and what it writes. -/
theorem send_place {start : Nat → Scratch → Nat}
    (member : Action.send block element rank position ∈ (historyStages start history).stage index agent) :
    ∃ target, agent = .engine ⟨block, target + 1⟩ ∧ index = stageWidth * block.launch + 15 ∧
      ∃ collective moves job, history[block.launch]? = some collective ∧
        block.cta < (collective.launch block.rank).ctaCount ∧ historyMoves history ⟨block, target + 1⟩ = some moves ∧
        (collective.launch block.rank).job block.cta = some job ∧ target < job.targets.length ∧
        (∃ goal ∈ job.targets, rank = goal.1) ∧
        Hits (collective.launch block.rank) ⟨block, target + 1⟩ rank position := by
  cases agent with
  | cta rank cta =>
    obtain ⟨_, _, _, _, _, impossible⟩ := cta_stage member
    exact impossible.elim
  | engine bulk =>
    obtain ⟨moves, moving⟩ := engine_moves member
    obtain ⟨here, collective, found, inside, ⟨_, same⟩ | ⟨stage, works⟩ | ⟨_, same⟩⟩ := engine_stage member
    · cases same
    · obtain ⟨rfl, job, goal, target, given, later, isGoal, below, rfl, rfl⟩ := works
      obtain ⟨block, number⟩ := bulk
      obtain rfl : number = target + 1 := later
      have parts := Nat.div_add_mod index stageWidth
      refine ⟨target, rfl, ?_, collective, moves, job, found, inside, moving, given,
        (List.getElem?_eq_some_iff.mp isGoal).1, ⟨goal, List.mem_of_getElem? isGoal, rfl⟩,
        job, goal, target, given, rfl, isGoal, rfl, element, below, rfl⟩
      change block.launch = _ at here
      change _ = 14 + 1 at stage
      rw [here]
      omega
    · cases same

variable {state : State Agent (Devices Value)}

/-- Whoever sends to a rank knows that the rank has entered the same kernel. -/
theorem target_entered (launched : Launched worldSize history) (entry : Entry history devices)
    (reached : (fastProgram devices.counter history).Reachable devices state)
    (found : history[block.launch]? = some collective) (inside : block.cta < (collective.launch block.rank).ctaCount)
    (moving : historyMoves history ⟨block, target + 1⟩ = some moves)
    (isPeer : rank ∈ (collective.launch block.rank).peers)
    (working : Stands devices.counter history state.pc (.engine ⟨block, target + 1⟩) block.launch 15) :
    Stands devices.counter history state.pc (.cta rank 0) block.launch 8 := by
  have issued : Stands devices.counter history state.pc (.cta block.rank block.cta) block.launch 13 :=
    engine_issued launched entry reached moving working
  exact peers_loaded launched entry reached found inside (issued.mono (Nat.add_le_add_left (by decide) _)) isPeer

/-- A rank in a later kernel has received everything that was sent to it in an earlier one. -/
theorem received (launched : Launched worldSize history) (entry : Entry history devices)
    (reached : (fastProgram devices.counter history).Reachable devices state)
    (found : history[block.launch]? = some collective) (inside : block.cta < (collective.launch block.rank).ctaCount)
    (given : (collective.launch block.rank).job block.cta = some job) (isTarget : target < job.targets.length)
    (isPeer : rank ∈ (collective.launch block.rank).peers) (before : block.launch < later)
    (grid : cta < gridOf history later rank)
    (begun : Stands devices.counter history state.pc (.cta rank cta) later 1) :
    Stands devices.counter history state.pc (.engine ⟨block, target + 1⟩) block.launch 16 := by
  have isRank := (launched.grids _ collective found block.rank).mp (Nat.zero_lt_of_lt inside)
  obtain ⟨rankInside, apart⟩ := (launched.peers _ collective found block.rank isRank rank).mp isPeer
  have back : block.rank ∈ (collective.launch rank).peers :=
    (launched.peers _ collective found rank rankInside block.rank).mpr ⟨isRank, apart.symm⟩
  have left := entered launched entry reached grid begun before
  rw [gridOf_found found] at left
  have sent := peers_sent launched entry reached found left back
    ((launched.grids _ collective found rank).mpr rankInside) (Nat.zero_lt_of_lt inside) block.cta inside
  exact send_finished launched entry reached found inside given isTarget
    (sent.mono (Nat.add_le_add_left (by decide) _))

theorem exchanges_reduce (separate : Separate history) (found : history[launch]? = some collective)
    (reduces : collective.kind ≠ .allGather) : Exchanges history launch launch := by
  intro old new other
  simp only [mergeOf, found, Collective.merge, if_neg reduces]
  exact separate.reduces launch collective found reduces old new other

theorem target_peer {block : Block} {collective : Collective Value} {goal : Nat × Nat}
    (launched : Launched worldSize history) (found : history[block.launch]? = some collective)
    (inside : block.cta < (collective.launch block.rank).ctaCount)
    (given : (collective.launch block.rank).job block.cta = some job) (isGoal : goal ∈ job.targets) :
    goal.1 ∈ (collective.launch block.rank).peers :=
  launched.targets _ collective found block.rank
    ((launched.grids _ collective found block.rank).mp (Nat.zero_lt_of_lt inside)) _ job given goal isGoal

theorem peer_grid {block : Block} {collective : Collective Value} (launched : Launched worldSize history)
    (found : history[block.launch]? = some collective)
    (inside : block.cta < (collective.launch block.rank).ctaCount)
    (isPeer : rank ∈ (collective.launch block.rank).peers) : 0 < (collective.launch rank).ctaCount := by
  have isRank := (launched.grids _ collective found block.rank).mp (Nat.zero_lt_of_lt inside)
  have rankInside := ((launched.peers _ collective found block.rank isRank rank).mp isPeer).1
  exact (launched.grids _ collective found rank).mpr rankInside

/-- A rank in a later kernel has loaded everything that it loads in an earlier one. -/
theorem loaded_before (launched : Launched worldSize history) (entry : Entry history devices)
    (reached : (fastProgram devices.counter history).Reachable devices state)
    (found : history[block.launch]? = some collective) (inside : block.cta < (collective.launch block.rank).ctaCount)
    (before : block.launch < later) (grid : cta < gridOf history later block.rank)
    (begun : Stands devices.counter history state.pc (.cta block.rank cta) later 1) :
    Stands devices.counter history state.pc (.engine ⟨block, 0⟩) block.launch 4 := by
  have left := entered launched entry reached grid begun before block.cta (by rwa [gridOf_found found])
  have late : Stands devices.counter history state.pc (.cta block.rank block.cta) block.launch 13 :=
    Stands.mono left (Nat.add_le_add_left (by decide) _)
  exact load_finished_late launched entry reached found inside late

/-- A kernel that waits for its loads before the rendezvous has loaded everything once its first CTA meets the peers. -/
theorem loaded_met (launched : Launched worldSize history) (entry : Entry history devices)
    (reached : (fastProgram devices.counter history).Reachable devices state)
    (found : history[block.launch]? = some collective) (inside : block.cta < (collective.launch block.rank).ctaCount)
    (early : collective.waitsEarly = true)
    (met : Stands devices.counter history state.pc (.cta block.rank 0) block.launch 8) :
    Stands devices.counter history state.pc (.engine ⟨block, 0⟩) block.launch 4 := by
  have together := grid_met launched entry reached found (Nat.zero_lt_of_lt inside) 0 (by decide) met block.cta inside
  refine load_finished launched entry reached found inside ?_
  rw [if_pos early]
  exact together.mono (Nat.add_le_add_left (by decide) _)

/-- A load and a later send that changes what is loaded: the load is complete before the send begins. -/
theorem load_awaits_send (launched : Launched worldSize history) (entry : Entry history devices)
    (separate : Separate history)
    (member : Action.load block element position ∈ (historyStages devices.counter history).stage earlier first)
    (memberOther : Action.send sender part rank place ∈ (historyStages devices.counter history).stage later second)
    (ordered : earlier ≤ later)
    (conflict : ¬Independent history (.load block element position) (.send sender part rank place)) :
    earlier < later ∧ (fastProgram devices.counter history).Awaits devices (historyStages devices.counter history)
      earlier first later second := by
  obtain ⟨rfl, rfl, collective, moves, found, inside, moving, loads⟩ := load_place member
  obtain ⟨target, rfl, rfl, other, movesThere, job, there, insideThere, movingThere, given, isTarget,
    ⟨goal, isGoal, rfl⟩, hits⟩ := send_place memberOther
  refine ⟨by unfold stageWidth at *; omega, fun state reached working => ?_⟩
  change Stands devices.counter history state.pc (.engine ⟨sender, target + 1⟩) sender.launch 15 at working
  change Stands devices.counter history state.pc (.engine ⟨block, 0⟩) block.launch 4
  by_cases own : block = sender
  · subst own
    have issued : Stands devices.counter history state.pc (.cta block.rank block.cta) block.launch 13 :=
      engine_issued launched entry reached movingThere working
    exact load_finished_late launched entry reached found inside issued
  have here : block.rank = goal.1 := by
    by_contra elsewhere
    exact conflict ⟨fun same => absurd same elsewhere, fun same => absurd same own⟩
  have isPeer := target_peer launched there insideThere given isGoal
  rw [← here] at isPeer
  have met := target_entered launched entry reached there insideThere movingThere isPeer working
  rcases Nat.lt_or_ge block.launch sender.launch with before | notBefore
  · have grid : 0 < gridOf history sender.launch block.rank := by
      rw [gridOf_found there]
      exact peer_grid launched there insideThere isPeer
    exact loaded_before launched entry reached found inside before grid (met.mono (Nat.add_le_add_left (by decide) _))
  · have same : block.launch = sender.launch := by
      unfold stageWidth at ordered
      omega
    rw [← same] at there met
    obtain rfl := Option.some.inj (found.symm.trans there)
    by_cases gathers : collective.kind = .allGather
    · have shared : position = place := by
        by_contra different
        exact conflict ⟨fun _ => different, fun same => absurd same own⟩
      rw [← shared, ← here] at hits
      exact absurd hits (separate.keeps _ collective found gathers ⟨block, 0⟩ ⟨sender, target + 1⟩ position loads)
    · exact loaded_met launched entry reached found inside (bne_iff_ne.mpr gathers) met

/-- A send and a later load of what it changes: the send is complete before the kernel of the load begins. -/
theorem send_awaits_load (launched : Launched worldSize history) (entry : Entry history devices)
    (member : Action.send block element rank position ∈ (historyStages devices.counter history).stage earlier first)
    (memberOther : Action.load reader part place ∈ (historyStages devices.counter history).stage later second)
    (ordered : earlier ≤ later)
    (conflict : ¬Independent history (.send block element rank position) (.load reader part place)) :
    earlier < later ∧ (fastProgram devices.counter history).Awaits devices (historyStages devices.counter history)
      earlier first later second := by
  obtain ⟨target, rfl, rfl, collective, moves, job, found, inside, moving, given, isTarget,
    ⟨goal, isGoal, rfl⟩, hits⟩ := send_place member
  obtain ⟨rfl, rfl, other, movesThere, there, insideThere, movingThere, loads⟩ := load_place memberOther
  have before : block.launch < reader.launch := by
    unfold stageWidth at ordered
    omega
  refine ⟨by unfold stageWidth at *; omega, fun state reached working => ?_⟩
  have here : reader.rank = goal.1 := by
    by_contra elsewhere
    refine conflict ⟨fun same => absurd same elsewhere, fun same => ?_⟩
    rw [same] at before
    exact absurd before (Nat.lt_irrefl _)
  have isPeer := target_peer launched found inside given isGoal
  rw [← here] at isPeer
  have issued : Stands devices.counter history state.pc (.cta reader.rank reader.cta) reader.launch 1 :=
    engine_issued launched entry reached movingThere working
  exact received launched entry reached found inside given isTarget isPeer before (by rwa [gridOf_found there]) issued

/-- Two sends into one place that may not be exchanged are of different kernels, and the second waits for the first. -/
theorem send_awaits_send (launched : Launched worldSize history) (entry : Entry history devices)
    (separate : Separate history)
    (member : Action.send block element rank position ∈ (historyStages devices.counter history).stage earlier first)
    (memberOther : Action.send sender part goalRank place ∈ (historyStages devices.counter history).stage later second)
    (apart : first ≠ second) (ordered : earlier ≤ later)
    (conflict : ¬Independent history (.send block element rank position) (.send sender part goalRank place)) :
    earlier < later ∧ (fastProgram devices.counter history).Awaits devices (historyStages devices.counter history)
      earlier first later second := by
  obtain ⟨target, rfl, rfl, collective, moves, job, found, inside, moving, given, isTarget,
    ⟨goal, isGoal, rfl⟩, hits⟩ := send_place member
  obtain ⟨targetThere, rfl, rfl, other, movesThere, jobThere, there, insideThere, movingThere, givenThere,
    isTargetThere, ⟨goalThere, isGoalThere, rfl⟩, hitsThere⟩ := send_place memberOther
  have one : goal.1 = goalThere.1 ∧ position = place ∧ ¬Exchanges history block.launch sender.launch := by
    by_contra different
    refine conflict fun same landing => ?_
    by_contra exchanges
    exact different ⟨same, landing, exchanges⟩
  obtain ⟨together, rfl, clash⟩ := one
  rcases Nat.lt_or_ge block.launch sender.launch with before | notBefore
  · refine ⟨by unfold stageWidth at *; omega, fun state reached working => ?_⟩
    have isPeer := target_peer launched found inside given isGoal
    have isPeerThere := target_peer launched there insideThere givenThere isGoalThere
    rw [← together] at isPeerThere
    have met := target_entered launched entry reached there insideThere movingThere isPeerThere working
    have grid : 0 < gridOf history sender.launch goal.1 := by
      rw [gridOf_found there]
      exact peer_grid launched there insideThere isPeerThere
    exact received launched entry reached found inside given isTarget isPeer before grid
      (met.mono (Nat.add_le_add_left (by decide) _))
  · have same : block.launch = sender.launch := by
      unfold stageWidth at ordered
      omega
    rw [← same] at there clash
    obtain rfl := Option.some.inj (found.symm.trans there)
    by_cases gathers : collective.kind = .allGather
    · rw [← together] at hitsThere
      have only := separate.stores _ collective found gathers ⟨block, target + 1⟩ ⟨sender, targetThere + 1⟩ _ _
        hits hitsThere rfl same.symm
      exact absurd (congrArg Agent.engine only) apart
    · exact absurd (exchanges_reduce separate found gathers) clash

/-- Two actions that may not be exchanged are ordered by signals. -/
theorem conflict_awaits (launched : Launched worldSize history) (entry : Entry history devices)
    (separate : Separate history)
    (member : action ∈ (historyStages devices.counter history).stage earlier first)
    (memberOther : other ∈ (historyStages devices.counter history).stage later second)
    (apart : first ≠ second) (ordered : earlier ≤ later) (conflict : ¬Independent history action other) :
    earlier < later ∧ (fastProgram devices.counter history).Awaits devices (historyStages devices.counter history)
      earlier first later second := by
  cases action <;> cases other <;> try exact absurd trivial conflict
  case publish.publish owner waiter value owner' waiter' value' =>
    refine absurd (fun same => absurd ?_ apart) conflict
    rw [(publish_place member).1, (publish_place memberOther).1, same]
  case load.load block element position block' element' position' =>
    refine absurd (fun same => absurd ?_ apart) conflict
    rw [(load_place member).1, (load_place memberOther).1, same]
  case load.send => exact load_awaits_send launched entry separate member memberOther ordered conflict
  case send.load => exact send_awaits_load launched entry member memberOther ordered conflict
  case send.send => exact send_awaits_send launched entry separate member memberOther apart ordered conflict

/-- Of two actions that may not be exchanged, the one of the earlier stage comes first. -/
theorem conflict_earlier (launched : Launched worldSize history) (entry : Entry history devices)
    (separate : Separate history)
    (found : ((historyStages devices.counter history).stage earlier first)[spot]? = some action)
    (there : ((historyStages devices.counter history).stage later second)[mark]? = some other)
    (apart : first ≠ second) (ordered : earlier ≤ later) (conflict : ¬Independent history action other)
    (reached : (fastProgram devices.counter history).Reachable devices state)
    (taken : (historyStages devices.counter history).offset second later + mark < state.pc second) :
    (historyStages devices.counter history).offset first earlier + spot < state.pc first := by
  obtain ⟨_, awaits⟩ := conflict_awaits launched entry separate (List.mem_of_getElem? found)
    (List.mem_of_getElem? there) apart ordered conflict
  have past := awaits state reached (Nat.le_of_lt (Nat.lt_of_le_of_lt (Nat.le_add_right _ mark) taken))
  exact Staged.Reached.taken past (List.getElem?_eq_some_iff.mp found).1

/-- Two actions that may not be exchanged come in one order in all interleavings. -/
theorem conflict_ordered (launched : Launched worldSize history) (entry : Entry history devices)
    (separate : Separate history) (apart : first ≠ second)
    (located : (agentCode devices.counter history first)[position]? = some action)
    (locatedOther : (agentCode devices.counter history second)[place]? = some other)
    (conflict : ¬Independent history action other) :
    (∀ state, (fastProgram devices.counter history).Reachable devices state → place < state.pc second →
      position < state.pc first) ∨
    ∀ state, (fastProgram devices.counter history).Reachable devices state → position < state.pc first →
      place < state.pc second := by
  rw [agentCode_staged launched.filled] at located locatedOther
  obtain ⟨earlier, _, spot, found, rfl⟩ := Staged.stage_code located
  obtain ⟨later, _, mark, there, rfl⟩ := Staged.stage_code locatedOther
  rcases Nat.le_total earlier later with ordered | ordered
  · exact .inl fun state reached => conflict_earlier launched entry separate found there apart ordered conflict reached
  · exact .inr fun state reached => conflict_earlier launched entry separate there found apart.symm ordered
      (fun free => conflict free.symm) reached

/-- An element is loaded before its own and later collectives send to it, and after earlier ones have. -/
theorem load_send_order (launched : Launched worldSize history) (entry : Entry history devices)
    (separate : Separate history) (reached : (fastProgram devices.counter history).Reachable devices state)
    (loads : (agentCode devices.counter history first)[position]? = some (.load reader element address))
    (sends : (agentCode devices.counter history second)[place]? = some (.send sender part reader.rank address)) :
    (reader.launch ≤ sender.launch → place < state.pc second → position < state.pc first) ∧
      (sender.launch < reader.launch → position < state.pc first → place < state.pc second) := by
  rw [agentCode_staged launched.filled] at loads sends
  obtain ⟨loadStage, _, spot, found, rfl⟩ := Staged.stage_code loads
  obtain ⟨sendStage, _, mark, there, rfl⟩ := Staged.stage_code sends
  obtain ⟨rfl, rfl, _⟩ := load_place (List.mem_of_getElem? found)
  obtain ⟨target, rfl, rfl, _⟩ := send_place (List.mem_of_getElem? there)
  have apart : Agent.engine ⟨reader, 0⟩ ≠ .engine ⟨sender, target + 1⟩ := by
    intro same
    cases same
  have conflict : ¬Independent history (.load reader element address) (.send sender part reader.rank address) :=
    fun free => free.1 rfl rfl
  constructor
  · intro before taken
    exact conflict_earlier launched entry separate found there apart (by unfold stageWidth; omega) conflict reached taken
  · intro after taken
    exact conflict_earlier launched entry separate there found apart.symm (by unfold stageWidth; omega)
      (fun free => conflict free.symm) reached taken

end Conflicts

section Progress

variable {Value : Type*} {worldSize : Nat} {history : List (Collective Value)} {devices : Devices Value}
variable {state : State Agent (Devices Value)}

theorem bulkMoves_send {launch : FastLaunch} (block : Block) (given : launch.job block.cta = some job)
    (isTarget : target < job.targets.length) : ∃ moves, bulkMoves launch ⟨block, target + 1⟩ = some moves := by
  simp only [bulkMoves, given]
  rw [List.getElem?_eq_getElem isTarget]
  exact ⟨_, rfl⟩

theorem bulkMoves_load {launch : FastLaunch} (block : Block) (given : launch.job block.cta = some job) :
    ∃ moves, bulkMoves launch ⟨block, 0⟩ = some moves := by
  simp only [bulkMoves, given]
  exact ⟨_, rfl⟩

theorem bulkMoves_cases {launch : FastLaunch} {bulk : Bulk} (moving : bulkMoves launch bulk = some moves) :
    ∃ job, launch.job bulk.block.cta = some job ∧
      (bulk.index = 0 ∨ ∃ target < job.targets.length, bulk.index = target + 1) := by
  unfold bulkMoves at moving
  split at moving
  · cases moving
  · rename_i job given
    split at moving
    · exact ⟨job, given, .inl (by assumption)⟩
    · rename_i index later
      obtain ⟨target, found, _⟩ := Option.map_eq_some_iff.mp moving
      exact ⟨job, given, .inr ⟨index, (List.getElem?_eq_some_iff.mp found).1, later⟩⟩

theorem historyMoves_found {history : List (Collective Value)} (found : history[bulk.block.launch]? = some collective)
    (inside : bulk.block.cta < (collective.launch bulk.block.rank).ctaCount) :
    historyMoves history bulk = bulkMoves (collective.launch bulk.block.rank) bulk := by
  simp only [historyMoves, found, if_pos inside]

theorem historyMoves_some {history : List (Collective Value)} (moving : historyMoves history bulk = some moves) :
    ∃ collective, history[bulk.block.launch]? = some collective ∧
      bulk.block.cta < (collective.launch bulk.block.rank).ctaCount ∧
      bulkMoves (collective.launch bulk.block.rank) bulk = some moves := by
  unfold historyMoves at moving
  split at moving
  · cases moving
  · rename_i collective found
    split at moving
    · rename_i inside
      exact ⟨collective, found, inside, moving⟩
    · cases moving

theorem engineStage_below (bulk : Bulk) : engineStage bulk + 2 < stageWidth := by
  unfold engineStage stageWidth
  split <;> decide

theorem complete_mem {start : Nat → Scratch → Nat} (moving : historyMoves history bulk = some moves) :
    Action.complete bulk ∈ (historyStages start history).stage
      (stageWidth * bulk.block.launch + (engineStage bulk + 2)) (.engine bulk) := by
  rw [historyStages_stage (engineStage_below bulk)]
  simp [launchStage, moving]

theorem issue_mem {start : Nat → Scratch → Nat} {history : List (Collective Value)}
    (found : history[bulk.block.launch]? = some collective)
    (inside : bulk.block.cta < (collective.launch bulk.block.rank).ctaCount)
    (moving : historyMoves history bulk = some moves) :
    Action.issue bulk ∈ (historyStages start history).stage (stageWidth * bulk.block.launch + issueStage bulk)
      (.cta bulk.block.rank bulk.block.cta) := by
  obtain ⟨⟨launch, rank, cta⟩, number⟩ := bulk
  rw [historyMoves_found found inside] at moving
  obtain ⟨job, given, first | ⟨target, isTarget, later⟩⟩ := bulkMoves_cases moving
  · obtain rfl : number = 0 := first
    change _ ∈ (historyStages start history).stage (stageWidth * launch + 1) (.cta rank cta)
    rw [stage_cta found inside given (by decide)]
    exact List.mem_singleton.mpr rfl
  · obtain rfl : number = target + 1 := later
    change _ ∈ (historyStages start history).stage (stageWidth * launch + 13) (.cta rank cta)
    rw [stage_cta found inside given (by decide)]
    exact List.mem_map.mpr ⟨target, List.mem_range.mpr isTarget, rfl⟩

theorem publish_mem (start : Nat → Scratch → Nat) {history : List (Collective Value)}
    (found : history[launch]? = some collective) (grid : 0 < (collective.launch rank).ctaCount)
    (given : (collective.launch rank).job 0 = some job) (isPeer : peer ∈ (collective.launch rank).peers) :
    Action.publish rank peer (readyValue collective.epoch kLoadedReadyPhase) ∈
        (historyStages start history).stage (stageWidth * launch + 8) (.cta rank 0) ∧
      Action.publish rank peer (readyValue collective.epoch kDoneReadyPhase) ∈
        (historyStages start history).stage (stageWidth * launch + 20) (.cta rank 0) := by
  rw [stage_cta found grid given (by decide), stage_cta found grid given (by decide)]
  simp only [ctaStage, publishReady, Kernel.publishes, if_true]
  exact ⟨List.mem_map_of_mem isPeer, List.mem_map_of_mem isPeer⟩

/-- CTAs may enter a kernel when all stand there. -/
theorem enter_unblocked (launched : Launched worldSize history) (entry : Entry history devices)
    (reached : (fastProgram devices.counter history).Reachable devices state) (found : history[launch]? = some collective)
    (isRank : rank < worldSize)
    (arrived : ∀ agent, Stands devices.counter history state.pc agent launch 0) :
    ctasBefore (history.take launch) rank ≤ state.shared.exited rank := by
  cases launch with
  | zero => exact Nat.zero_le _
  | succ previous =>
    have rule := exit_rule launched entry rank
    have inRange := (List.getElem?_eq_some_iff.mp found).1
    obtain ⟨last, there⟩ : ∃ last, history[previous]? = some last :=
      ⟨_, List.getElem?_eq_getElem (Nat.lt_of_succ_lt inRange)⟩
    have peopled : (ctasOf rank (gridOf history previous rank)).Nonempty := by
      refine ⟨.cta rank 0, mem_ctasOf.mpr ⟨0, ?_, rfl⟩⟩
      rw [gridOf_found there]
      exact (launched.grids previous last there rank).mpr isRank
    have met := Barriers.met_of_reachable rule reached
    have complete : (exitBarriers history rank).Complete (historyStages devices.counter history) state.pc previous :=
      fun agent _ => Staged.Reached.mono (arrived agent) (by
        change stageWidth * previous + 23 ≤ stageWidth * (previous + 1) + 0
        exact le_of_eq (Nat.mul_succ _ _).symm)
    have shown := (met.complete_iff rule reached (Nat.lt_of_succ_lt inRange) peopled).mpr complete
    rwa [exitBarriers_target] at shown

/-- While a CTA stands in a kernel, nobody of its rank has arrived at a barrier of a later one. -/
theorem none_later {round : Nat} (launched : Launched worldSize history) (entry : Entry history devices)
    (reached : (fastProgram devices.counter history).Reachable devices state) (found : history[launch]? = some collective)
    (inside : cta < (collective.launch rank).ctaCount)
    (here : ¬Stands devices.counter history state.pc (.cta rank cta) launch 23) (later : launch < round / 3) :
    (gridBarriers devices.counter history rank scratch).arrived (historyStages devices.counter history) state.pc round =
      ∅ := by
  refine Finset.not_nonempty_iff_eq_empty.mp fun ⟨agent, listed⟩ => here ?_
  obtain ⟨member, begun⟩ := Finset.mem_filter.mp listed
  obtain ⟨other, inLater, rfl⟩ := mem_ctasOf.mp member
  obtain ⟨next, there, _, inGrid⟩ := counterGrid_inside inLater
  have entering : Stands devices.counter history state.pc (.cta rank other) (round / 3) 1 :=
    begun.mono (Nat.add_le_add_left (Nat.le_add_left 1 _) _)
  exact entered launched entry reached (by rwa [gridOf_found there]) entering later cta (by rwa [gridOf_found found])

theorem counter_at_most {bound : Nat} (launched : Launched worldSize history) (entry : Entry history devices)
    (reached : (fastProgram devices.counter history).Reachable devices state) (found : history[launch]? = some collective)
    (within : bound ≤ 3) (none : ∀ index, 3 * launch + bound ≤ index →
      (gridBarriers devices.counter history rank collective.scratch).arrived (historyStages devices.counter history)
        state.pc index = ∅) :
    state.shared.counter rank collective.scratch ≤
      lastValue devices.counter (history.take launch) rank collective.scratch +
        bound * (collective.launch rank).ctaCount := by
  have inRange := (List.getElem?_eq_some_iff.mp found).1
  have met := Barriers.met_of_reachable (grid_rule launched entry rank collective.scratch) reached
  have counted := met.at_most (show 3 * launch + bound ≤ 3 * history.length by omega) fun index after _ => none index after
  rwa [gridBarriers_target rank collective.scratch launch within, counterGrid_found found] at counted

/-- What the counter shows at most while a CTA waits at a barrier. -/
theorem waiting_at_most {round : Nat} (launched : Launched worldSize history) (entry : Entry history devices)
    (reached : (fastProgram devices.counter history).Reachable devices state) (found : history[launch]? = some collective)
    (inside : cta < (collective.launch rank).ctaCount) (below : round < 3)
    (here : ¬Stands devices.counter history state.pc (.cta rank cta) launch (arriveStage round + 2)) :
    state.shared.counter rank collective.scratch ≤
        lastValue devices.counter (history.take launch) rank collective.scratch + 3 * (collective.launch rank).ctaCount ∧
      ((collective.launch rank).ctaCount ≤ 1 → state.shared.counter rank collective.scratch ≤
        lastValue devices.counter (history.take launch) rank collective.scratch +
          (round + 1) * (collective.launch rank).ctaCount) := by
  have staying : ¬Stands devices.counter history state.pc (.cta rank cta) launch 23 := fun left =>
    here (left.mono (by unfold arriveStage; split_ifs <;> omega))
  constructor
  · refine counter_at_most launched entry reached found (Nat.le_refl 3) fun index after => ?_
    exact none_later launched entry reached found inside staying (by omega)
  · intro alone
    refine counter_at_most launched entry reached found (show round + 1 ≤ 3 from below) fun index after => ?_
    rcases Nat.lt_or_eq_of_le (show launch ≤ index / 3 by omega) with later | same
    · exact none_later launched entry reached found inside staying later
    -- the later rounds of the same launch: its only CTA is the one that waits
    · refine Finset.not_nonempty_iff_eq_empty.mp fun ⟨agent, listed⟩ => here ?_
      obtain ⟨member, begun⟩ := Finset.mem_filter.mp listed
      obtain ⟨other, inGrid, rfl⟩ := mem_ctasOf.mp member
      rw [← same, counterGrid_found found] at inGrid
      obtain rfl : other = cta := by omega
      have apart : arriveStage round + 1 < arriveStage (index % 3) :=
        arriveStage_lt (by omega) (Nat.mod_lt _ (by decide))
      have standing : Stands devices.counter history state.pc (.cta rank other) (index / 3)
          (arriveStage (index % 3) + 1) := begun
      refine standing.mono ?_
      rw [same]
      omega

/-- A grid barrier opens for a CTA that waits there, when all stand behind the arrivals. -/
theorem wait_unblocked {round : Nat} (launched : Launched worldSize history) (entry : Entry history devices)
    (reached : (fastProgram devices.counter history).Reachable devices state) (found : history[launch]? = some collective)
    (inside : cta < (collective.launch rank).ctaCount) (below : round < 3)
    (arrived : ∀ agent, Stands devices.counter history state.pc agent launch (arriveStage round + 1))
    (here : ¬Stands devices.counter history state.pc (.cta rank cta) launch (arriveStage round + 2)) :
    toUInt32 (lastValue devices.counter (history.take launch) rank collective.scratch +
      (round + 1) * (collective.launch rank).ctaCount) ≤ toUInt32 (state.shared.counter rank collective.scratch) := by
  have whole : (3 * launch + round) / 3 = launch := by omega
  have part : (3 * launch + round) % 3 = round := by omega
  have inRange := (List.getElem?_eq_some_iff.mp found).1
  have rule := grid_rule launched entry rank collective.scratch
  have met := Barriers.met_of_reachable rule reached
  have inRounds : 3 * launch + round < (gridBarriers devices.counter history rank collective.scratch).rounds := by
    change _ < 3 * history.length
    omega
  have peopled : ((gridBarriers devices.counter history rank collective.scratch).members (3 * launch + round)).Nonempty := by
    refine ⟨.cta rank cta, mem_ctasOf.mpr ⟨cta, ?_, rfl⟩⟩
    rwa [whole, counterGrid_found found]
  have shown : (gridBarriers devices.counter history rank collective.scratch).target (3 * launch + (round + 1)) ≤ _ :=
    (met.complete_iff rule reached inRounds peopled).mpr fun agent _ => by
      simp only [gridBarriers, whole, part]
      exact arrived agent
  rw [gridBarriers_target rank collective.scratch launch (show round + 1 ≤ 3 from below), counterGrid_found found]
    at shown
  obtain ⟨most, alone⟩ := waiting_at_most launched entry reached found inside below here
  exact counter_open (entry.unwrapped launch collective found rank) (Nat.zero_lt_of_lt inside) shown most alone

/-- Once all agents stand at a stage, nothing in it has to wait. -/
theorem unblocked (launched : Launched worldSize history) (entry : Entry history devices)
    (reached : (fastProgram devices.counter history).Reachable devices state)
    (inRange : index < (historyStages devices.counter history).count)
    (arrived : ∀ agent, (historyStages devices.counter history).Reached state.pc agent index)
    (short : ¬(historyStages devices.counter history).Reached state.pc agent (index + 1))
    (member : action ∈ (historyStages devices.counter history).stage index agent) :
    enabled history action state.shared := by
  have split := Nat.div_add_mod index stageWidth
  cases agent with
  | engine bulk =>
    obtain ⟨here, collective, found, inside, ⟨stage, rfl⟩ | ⟨_, works⟩ | ⟨_, rfl⟩⟩ := engine_stage member
    · obtain ⟨moves, moving⟩ := engine_moves member
      have before : stageWidth * bulk.block.launch + issueStage bulk + 1 ≤ index := by
        rw [here]
        unfold issueStage
        unfold engineStage at stage
        by_cases first : bulk.index = 0
        · rw [if_pos first] at stage ⊢
          omega
        · rw [if_neg first] at stage ⊢
          omega
      exact issued_past launched reached (lt_of_lt_of_le (Nat.lt_succ_self _) (before.trans inRange.le))
        (issue_mem found inside moving) ((arrived _).mono before)
    · cases action <;> first | exact trivial | exact works.elim
    · exact trivial
  | cta rank cta =>
    obtain ⟨collective, found, inside, job, given, place⟩ := cta_stage member
    have isRank := (launched.grids _ collective found rank).mp (Nat.zero_lt_of_lt inside)
    have stands : ∀ stage, index % stageWidth = stage → ∀ agent,
        Stands devices.counter history state.pc agent (index / stageWidth) stage := by
      intro stage same agent
      refine (arrived agent).mono ?_
      rw [← same, split]
    cases action <;> try exact trivial
    case enter launch other =>
      obtain ⟨stage, rfl, rfl⟩ := place
      exact enter_unblocked launched entry reached found isRank (stands 0 stage)
    case finish bulk =>
      obtain ⟨block, number⟩ := bulk
      obtain ⟨same, spot⟩ := place
      obtain rfl : block = ⟨index / stageWidth, rank, cta⟩ := same
      have completes : ∀ stage moves, index % stageWidth = stage →
          historyMoves history ⟨⟨index / stageWidth, rank, cta⟩, number⟩ = some moves →
          engineStage ⟨⟨index / stageWidth, rank, cta⟩, number⟩ + 3 ≤ stage →
          state.shared.completed ⟨⟨index / stageWidth, rank, cta⟩, number⟩ = true := by
        intro stage moves same moving late
        exact completed_past launched reached (historyStages_count found (engineStage_below _)) (complete_mem moving)
          ((stands stage same _).mono (Nat.add_le_add_left late _))
      rcases spot with ⟨stage, first⟩ | ⟨stage, target, isTarget, later⟩
      · obtain rfl : number = 0 := first
        obtain ⟨moves, moving⟩ := bulkMoves_load ⟨index / stageWidth, rank, cta⟩ given
        have known : historyMoves history ⟨⟨index / stageWidth, rank, cta⟩, 0⟩ = some moves :=
          (historyMoves_found found inside).trans moving
        rcases stage with early | late
        · exact completes 5 moves early known (Nat.le_refl 5)
        · exact completes 12 moves late known (Nat.le_add_left 5 7)
      · obtain rfl : number = target + 1 := later
        obtain ⟨moves, moving⟩ := bulkMoves_send ⟨index / stageWidth, rank, cta⟩ given isTarget
        have known : historyMoves history ⟨⟨index / stageWidth, rank, cta⟩, target + 1⟩ = some moves :=
          (historyMoves_found found inside).trans moving
        exact completes 17 moves stage known (Nat.le_refl 17)
    case wait other scratch target =>
      obtain ⟨rfl, rfl, round, below, stage, rfl⟩ := place
      have spot : index % stageWidth = arriveStage round + 1 := by
        rw [stage]
        unfold arriveStage
        split_ifs <;> rfl
      refine wait_unblocked launched entry reached found inside below (stands _ spot) fun past => short ?_
      rw [← split, spot]
      exact past
    case await waiter owner value =>
      obtain ⟨rfl, assigned, spot⟩ := place
      have isPeer := Kernel.assignedPeers_subset assigned
      obtain ⟨ownerInside, other⟩ := (launched.peers _ collective found waiter isRank owner).mp isPeer
      have back := (launched.peers _ collective found owner ownerInside waiter).mpr ⟨isRank, other.symm⟩
      have grid := (launched.grids _ collective found owner).mpr ownerInside
      obtain ⟨first, givenFirst⟩ := launched.filled _ collective found owner 0 grid
      obtain ⟨loaded, done⟩ := publish_mem devices.counter found grid givenFirst back
      rcases spot with ⟨stage, rfl⟩ | ⟨stage, rfl⟩
      · exact inbox_past launched reached (historyStages_count found (by decide)) loaded (stands 9 stage _)
      · exact inbox_past launched reached (historyStages_count found (by decide)) done (stands 21 stage _)
    case begin => exact place.elim

end Progress

section Agents

variable {Value : Type*}

/-- Bulk copies of a CTA. -/
def copiesOf (history : List (Collective Value)) (block : Block) : Nat :=
  match history[block.launch]? with
  | none => 0
  | some collective =>
    match (collective.launch block.rank).job block.cta with
    | none => 0
    | some job => job.targets.length + 1

/-- All CTAs that are launched and the engines of their bulk copies. -/
def agentsOf (worldSize : Nat) (history : List (Collective Value)) : List Agent :=
  ((List.range history.length).flatMap fun launch => (List.range worldSize).flatMap fun rank =>
    (List.range (gridOf history launch rank)).flatMap fun cta =>
      .cta rank cta ::
        (List.range (copiesOf history ⟨launch, rank, cta⟩)).map fun index => .engine ⟨⟨launch, rank, cta⟩, index⟩).dedup

variable {worldSize : Nat} {history : List (Collective Value)} {devices : Devices Value}
variable {state : State Agent (Devices Value)}

theorem mem_agentsOf (found : history[launch]? = some collective) (isRank : rank < worldSize)
    (inside : cta < (collective.launch rank).ctaCount)
    (listed : agent ∈ Agent.cta rank cta ::
      (List.range (copiesOf history ⟨launch, rank, cta⟩)).map fun index => .engine ⟨⟨launch, rank, cta⟩, index⟩) :
    agent ∈ agentsOf worldSize history := by
  refine List.mem_dedup.mpr (List.mem_flatMap.mpr ⟨launch, List.mem_range.mpr (List.getElem?_eq_some_iff.mp found).1, ?_⟩)
  refine List.mem_flatMap.mpr ⟨rank, List.mem_range.mpr isRank, List.mem_flatMap.mpr ⟨cta, List.mem_range.mpr ?_, listed⟩⟩
  rwa [gridOf_found found]

/-- Whoever has anything to do is listed. -/
theorem agents_listed {start : Nat → Scratch → Nat} (launched : Launched worldSize history)
    (member : action ∈ (historyStages start history).stage index agent) : agent ∈ agentsOf worldSize history := by
  cases agent with
  | cta rank cta =>
    obtain ⟨collective, found, inside, _⟩ := cta_stage member
    have isRank := (launched.grids _ collective found rank).mp (Nat.zero_lt_of_lt inside)
    exact mem_agentsOf found isRank inside List.mem_cons_self
  | engine bulk =>
    obtain ⟨_, collective, found, inside, _⟩ := engine_stage member
    obtain ⟨moves, moving⟩ := engine_moves member
    have isRank := (launched.grids _ collective found bulk.block.rank).mp (Nat.zero_lt_of_lt inside)
    rw [historyMoves_found found inside] at moving
    obtain ⟨job, given, spot⟩ := bulkMoves_cases moving
    refine mem_agentsOf found isRank inside (List.mem_cons_of_mem _ (List.mem_map.mpr ⟨bulk.index, ?_, rfl⟩))
    refine List.mem_range.mpr ?_
    simp only [copiesOf, found, given]
    rcases spot with first | ⟨target, isTarget, later⟩
    · omega
    · omega

/-- The stages of a history order its conflicts and never block. -/
theorem synchronized (launched : Launched worldSize history) (entry : Entry history devices)
    (separate : Separate history) :
    (fastProgram devices.counter history).Synchronized devices (historyStages devices.counter history)
      (agentsOf worldSize history) (Independent history) where
  distinct := List.nodup_dedup _
  code agent := agentCode_staged launched.filled agent
  listed agent absent index :=
    List.eq_nil_iff_forall_not_mem.mpr fun _ member => absent (agents_listed launched member)
  ordered earlier later first second apart ordered _ := by
    by_cases free : ∀ action ∈ (historyStages devices.counter history).stage earlier first,
        ∀ other ∈ (historyStages devices.counter history).stage later second, Independent history action other
    · exact .inl free
    · right
      simp only [not_forall] at free
      obtain ⟨action, member, other, memberOther, conflict⟩ := free
      exact conflict_awaits launched entry separate member memberOther apart ordered conflict
  unblocked _ reached _ inRange arrived _ short _ member :=
    unblocked launched entry reached inRange arrived (not_le.mpr short) member

/-- Every interleaving of the fast kernels can be completed. -/
theorem fast_completes (launched : Launched worldSize history) (entry : Entry history devices)
    (separate : Separate history) :
    Completes (fastProgram devices.counter history).Step (Program.start devices)
      (fastProgram devices.counter history).Finished :=
  (synchronized launched entry separate).completes

/-- Every finished interleaving leaves what the stages leave one after the other. -/
theorem finished_sequential (launched : Launched worldSize history) (entry : Entry history devices)
    (separate : Separate history) (reached : (fastProgram devices.counter history).Reachable devices state)
    (finished : (fastProgram devices.counter history).Finished state) :
    state.shared = ((historyStages devices.counter history).sequential (agentsOf worldSize history)).foldl
      (fun seen action => effect history action seen) devices :=
  (synchronized launched entry separate).finished_shared
    (fun _ _ _ _ _ _ free shared => effect_comm free shared) reached finished

end Agents

end Ooverlap.Fast
