import Ooverlap.Fast.Synchronized

/-! What one collective after another makes of the memories of the ranks. -/

namespace Ooverlap.Fast

open Interleaving

section Folds

variable {Value : Type*} (history : List (Collective Value))

/-- Actions taken one after another. -/
def run (actions : List Action) (devices : Devices Value) : Devices Value :=
  actions.foldl (fun seen action => effect history action seen) devices

/-- An element sent to a place, as its sender, and as the value that its chunk holds for it. -/
def arrival (chunk : Block → Nat → Value) (rank position : Nat) : Action → Option (Nat × Value)
  | .send block element goal place =>
    if goal = rank ∧ place = position then some (block.rank, chunk block element) else none
  | _ => none

variable {history} {devices : Devices Value}

theorem run_append (first second : List Action) (devices : Devices Value) :
    run history (first ++ second) devices = run history second (run history first devices) :=
  List.foldl_append

/-- Only sends write the memories. -/
theorem run_memory (actions : List Action) (devices : Devices Value)
    (sendless : ∀ block element rank position, Action.send block element rank position ∉ actions) :
    (run history actions devices).memory = devices.memory := by
  induction actions generalizing devices with
  | nil => rfl
  | cons action rest ih =>
    have later := ih (effect history action devices)
      fun block element rank position member => sendless block element rank position (List.mem_cons_of_mem _ member)
    refine later.trans ?_
    cases action <;> try rfl
    case send block element rank position => exact absurd List.mem_cons_self (sendless block element rank position)

/-- Only loads fill the chunks. -/
theorem run_chunk (actions : List Action) (devices : Devices Value)
    (loadless : ∀ block element position, Action.load block element position ∉ actions) :
    (run history actions devices).chunk = devices.chunk := by
  induction actions generalizing devices with
  | nil => rfl
  | cons action rest ih =>
    have later := ih (effect history action devices)
      fun block element position member => loadless block element position (List.mem_cons_of_mem _ member)
    refine later.trans ?_
    cases action <;> try rfl
    case load block element position => exact absurd List.mem_cons_self (loadless block element position)

/-- Where nothing is sent, a chunk is filled from the memory of its rank. -/
theorem run_loads (actions : List Action) (devices : Devices Value)
    (sendless : ∀ block element rank position, Action.send block element rank position ∉ actions)
    (only : ∀ place, Action.load block element place ∈ actions → place = position)
    (loaded : Action.load block element position ∈ actions ∨
      devices.chunk block element = devices.memory block.rank position) :
    (run history actions devices).chunk block element = devices.memory block.rank position := by
  induction actions generalizing devices with
  | nil => exact loaded.resolve_left List.not_mem_nil
  | cons action rest ih =>
    have kept : (effect history action devices).memory = devices.memory :=
      run_memory [action] devices fun block element rank position member =>
        sendless block element rank position (List.mem_cons.mpr (.inl (List.mem_singleton.mp member)))
    have later := ih (effect history action devices)
      (fun block element rank position member => sendless block element rank position (List.mem_cons_of_mem _ member))
      (fun place member => only place (List.mem_cons_of_mem _ member))
    rw [kept] at later
    refine later ?_
    by_cases here : ∃ place, action = .load block element place
    · obtain ⟨place, rfl⟩ := here
      obtain rfl := only place List.mem_cons_self
      exact .inr Tables.store_self
    · rcases loaded with listed | already
      · rcases List.mem_cons.mp listed with same | later
        · exact absurd ⟨position, same.symm⟩ here
        · exact .inl later
      · right
        rw [← already]
        cases action <;> try rfl
        case load other third place =>
          refine Tables.store_of_ne fun same column => here ⟨place, ?_⟩
          rw [same, column]

/-- Sends merge what arrives at each place one after another. -/
theorem run_sends (actions : List Action) (devices : Devices Value) (launch : Nat)
    (loadless : ∀ block element position, Action.load block element position ∉ actions)
    (same : ∀ block element rank position, Action.send block element rank position ∈ actions → block.launch = launch)
    (rank position : Nat) :
    (run history actions devices).memory rank position =
      (actions.filterMap (arrival devices.chunk rank position)).foldl
        (fun old sent => mergeOf history launch old sent.2) (devices.memory rank position) := by
  induction actions generalizing devices with
  | nil => rfl
  | cons action rest ih =>
    have later := ih (effect history action devices)
      (fun block element position member => loadless block element position (List.mem_cons_of_mem _ member))
      (fun block element rank position member => same block element rank position (List.mem_cons_of_mem _ member))
    change (run history rest (effect history action devices)).memory rank position = _
    rw [later]
    have kept : (effect history action devices).chunk = devices.chunk :=
      run_chunk [action] devices fun block element position member =>
        loadless block element position (List.mem_cons.mpr (.inl (List.mem_singleton.mp member)))
    rw [kept]
    cases action <;> try rfl
    case send block element goal place =>
      obtain rfl := same block element goal place List.mem_cons_self
      by_cases here : goal = rank ∧ place = position
      · obtain ⟨rfl, rfl⟩ := here
        have arrives : arrival devices.chunk goal place (.send block element goal place) =
            some (block.rank, devices.chunk block element) := if_pos ⟨rfl, rfl⟩
        rw [List.filterMap_cons_some arrives, List.foldl_cons]
        congr 1
        exact Tables.store_self
      · have passes : arrival devices.chunk rank position (.send block element goal place) = none := if_neg here
        rw [List.filterMap_cons_none passes]
        congr 1
        exact Tables.store_of_ne fun row column => here ⟨row.symm, column.symm⟩

end Folds

section Launches

variable {Value : Type*}

/-- A CTA sends its element to the given place, from where it stands in the sender's memory. -/
structure SendsTo (launch : FastLaunch) (cta target element rank position source : Nat) : Prop where
  inGrid : cta < launch.ctaCount
  work : ∃ job goal, launch.job cta = some job ∧ job.targets[target]? = some goal ∧ goal.1 = rank ∧
    element < job.count ∧ goal.2 + element = position ∧ source = job.source + element

/-- The ranks that send to a place, each once, and where in its memory each takes the element from. -/
structure Delivers (collective : Collective Value) (rank position : Nat) (senders : List Nat) (source : Nat → Nat) :
    Prop where
  distinct : senders.Nodup
  sent : ∀ sender cta target element place,
    SendsTo (collective.launch sender) cta target element rank position place → sender ∈ senders ∧ place = source sender
  once : ∀ sender cta target element place other goal spot line,
    SendsTo (collective.launch sender) cta target element rank position place →
    SendsTo (collective.launch sender) other goal spot rank position line → cta = other ∧ target = goal
  given : ∀ sender ∈ senders, ∃ cta target element,
    SendsTo (collective.launch sender) cta target element rank position (source sender)
  gathered : collective.kind = .allGather → senders.length ≤ 1

/-- What a collective makes of the memories: at every place the elements sent there are merged, in any order. -/
def Outcome (collective : Collective Value) (before after : Nat → Nat → Value) : Prop :=
  ∀ rank position senders source, Delivers collective rank position senders source →
    after rank position =
      senders.foldl (fun old sender => collective.merge old (before sender (source sender))) (before rank position)

variable {worldSize : Nat} {history : List (Collective Value)} {collective : Collective Value}

/-- The sends of an agent in one launch. -/
theorem sends_stage {start : Nat → Scratch → Nat} (launch : Nat) (agent : Agent) :
    (historyStages start history).stage (stageWidth * launch + 15) agent = [] ∨
      ∃ block target collective job goal, agent = .engine ⟨block, target + 1⟩ ∧ block.launch = launch ∧
        history[launch]? = some collective ∧ block.cta < (collective.launch block.rank).ctaCount ∧
        (collective.launch block.rank).job block.cta = some job ∧ job.targets[target]? = some goal ∧
        (historyStages start history).stage (stageWidth * launch + 15) agent =
          (List.range job.count).map fun element => .send block element goal.1 (goal.2 + element) := by
  rw [historyStages_stage (by decide)]
  cases agent with
  | cta rank cta =>
    left
    simp only [launchStage]
    split
    · rfl
    · split
      · split
        · rfl
        · rfl
      · rfl
  | engine bulk =>
    simp only [launchStage]
    cases moving : historyMoves history bulk with
    | none => exact .inl rfl
    | some moves =>
      by_cases here : bulk.block.launch = launch
      · obtain ⟨block, number⟩ := bulk
        cases number with
        | zero =>
          left
          simp [engineStage]
        | succ target =>
          right
          obtain ⟨collective, found, inside, step⟩ := historyMoves_some moving
          simp only [bulkMoves] at step
          split at step
          · cases step
          · rename_i job given
            obtain ⟨goal, isGoal, rfl⟩ := Option.map_eq_some_iff.mp step
            refine ⟨block, target, collective, job, goal, rfl, here, ?_, inside, given, isGoal, ?_⟩
            · rw [← here]
              exact found
            · exact (if_pos here).trans rfl
      · left
        simp [here]

/-- The elements of a bulk send. -/
theorem send_stage {start : Nat → Scratch → Nat} (found : history[launch]? = some collective)
    (inside : cta < (collective.launch rank).ctaCount) (given : (collective.launch rank).job cta = some job)
    (isGoal : job.targets[target]? = some goal) :
    (historyStages start history).stage (stageWidth * launch + 15) (.engine ⟨⟨launch, rank, cta⟩, target + 1⟩) =
      (List.range job.count).map fun element => .send ⟨launch, rank, cta⟩ element goal.1 (goal.2 + element) := by
  obtain ⟨moves, moving⟩ := bulkMoves_send ⟨launch, rank, cta⟩ given (List.getElem?_eq_some_iff.mp isGoal).1
  have known : historyMoves history ⟨⟨launch, rank, cta⟩, target + 1⟩ = some moves :=
    (historyMoves_found found inside).trans moving
  have listed : moves = (List.range job.count).map fun element =>
      Action.send ⟨launch, rank, cta⟩ element goal.1 (goal.2 + element) := by
    simp only [bulkMoves, given, isGoal, Option.map_some] at moving
    exact (Option.some.inj moving).symm
  rw [historyStages_stage (by decide), ← listed]
  simp only [launchStage, known]
  exact if_pos trivial

/-- The elements of a bulk load. -/
theorem load_stage {start : Nat → Scratch → Nat} (found : history[launch]? = some collective)
    (inside : cta < (collective.launch rank).ctaCount) (given : (collective.launch rank).job cta = some job) :
    (historyStages start history).stage (stageWidth * launch + 3) (.engine ⟨⟨launch, rank, cta⟩, 0⟩) =
      (List.range job.count).map fun element => .load ⟨launch, rank, cta⟩ element (job.source + element) := by
  obtain ⟨moves, moving⟩ := bulkMoves_load ⟨launch, rank, cta⟩ given
  have known : historyMoves history ⟨⟨launch, rank, cta⟩, 0⟩ = some moves :=
    (historyMoves_found found inside).trans moving
  have listed : moves = (List.range job.count).map fun element =>
      Action.load ⟨launch, rank, cta⟩ element (job.source + element) := by
    simp only [bulkMoves, given] at moving
    exact (Option.some.inj moving).symm
  rw [historyStages_stage (by decide), ← listed]
  simp only [launchStage, known]
  exact if_pos trivial

/-- A load takes its element from the CTA's part of the source. -/
theorem load_source {start : Nat → Scratch → Nat} (found : history[block.launch]? = some collective)
    (given : (collective.launch block.rank).job block.cta = some job)
    (member : Action.load block element position ∈ (historyStages start history).stage index agent) :
    position = job.source + element := by
  cases agent with
  | cta rank cta =>
    obtain ⟨_, _, _, _, _, impossible⟩ := cta_stage member
    exact impossible.elim
  | engine bulk =>
    obtain ⟨_, other, there, _, ⟨_, same⟩ | ⟨_, works⟩ | ⟨_, same⟩⟩ := engine_stage member
    · cases same
    · obtain ⟨rfl, _, own, isOwn, _, rfl⟩ := works
      rw [found] at there
      obtain rfl := Option.some.inj there
      rw [given] at isOwn
      rw [Option.some.inj isOwn]
    · cases same

/-- What an agent sends to a place, by its rank. -/
theorem arrival_stage {start : Nat → Scratch → Nat} {chunk : Block → Nat → Value}
    (found : history[launch]? = some collective)
    (inStage : action ∈ (historyStages start history).stage (stageWidth * launch + 15) agent)
    (arrives : arrival chunk rank position action = some sent) :
    ∃ sender cta target element job, agent = .engine ⟨⟨launch, sender, cta⟩, target + 1⟩ ∧
      sent = (sender, chunk ⟨launch, sender, cta⟩ element) ∧ (collective.launch sender).job cta = some job ∧
      element < job.count ∧
      SendsTo (collective.launch sender) cta target element rank position (job.source + element) := by
  cases action <;> try cases arrives
  case send block element goal spot =>
    obtain ⟨⟨sameRank, samePlace⟩, same⟩ := Option.ite_none_right_eq_some.mp arrives
    subst sameRank samePlace
    rcases sends_stage launch agent with none | ⟨other, target, collective', job, goal', home, there, known, inside,
      given, isGoal, stage⟩
    · rw [none] at inStage
      cases inStage
    · obtain rfl := Option.some.inj (found.symm.trans known)
      rw [stage] at inStage
      obtain ⟨index, below, listed⟩ := List.mem_map.mp inStage
      have below := List.mem_range.mp below
      cases listed
      obtain ⟨number, sender, cta⟩ := block
      obtain rfl : number = launch := there
      exact ⟨sender, cta, target, element, job, home, (Option.some.inj same).symm, given, below, inside, job, goal',
        given, isGoal, rfl, below, rfl, rfl⟩

/-- All actions of a launch in one of its stages. -/
def stageActions (start : Nat → Scratch → Nat) (worldSize : Nat) (history : List (Collective Value))
    (launch stage : Nat) : List Action :=
  (agentsOf worldSize history).flatMap ((historyStages start history).stage (stageWidth * launch + stage))

/-- What is sent to a place comes from its senders, once from each. -/
theorem arrivals_senders {start : Nat → Scratch → Nat} {chunk : Block → Nat → Value} (launched : Launched worldSize history)
    (found : history[launch]? = some collective) (delivers : Delivers collective rank position senders source) :
    List.Perm (((stageActions start worldSize history launch 15).filterMap (arrival chunk rank position)).map Prod.fst)
      senders := by
  refine (List.perm_ext_iff_of_nodup ?_ delivers.distinct).mpr fun sender => ⟨fun listed => ?_, fun member => ?_⟩
  · refine List.pairwise_map.mpr (List.pairwise_filterMap.mpr (List.pairwise_flatMap.mpr ⟨fun agent _ => ?_, ?_⟩))
    · rcases sends_stage launch agent with none | ⟨block, target, _, job, goal, _, _,
        _, _, _, _, stage⟩
      · rw [none]
        exact List.Pairwise.nil
      · rw [stage]
        refine List.pairwise_map.mpr (List.pairwise_lt_range.imp fun {first second} before => ?_)
        intro sent arrives other arrivesOther
        obtain ⟨⟨_, here⟩, _⟩ := Option.ite_none_right_eq_some.mp arrives
        obtain ⟨⟨_, there⟩, _⟩ := Option.ite_none_right_eq_some.mp arrivesOther
        omega
    · refine (List.nodup_dedup _).imp fun {first second} apart => ?_
      intro action inFirst other inSecond sent arrives sentOther arrivesOther same
      obtain ⟨rank, cta, target, _, _, rfl, rfl, _, _, sends⟩ := arrival_stage found inFirst arrives
      obtain ⟨rank', cta', target', _, _, rfl, rfl, _, _, sends'⟩ := arrival_stage found inSecond arrivesOther
      obtain rfl : rank = rank' := same
      obtain ⟨rfl, rfl⟩ := delivers.once _ _ _ _ _ _ _ _ _ sends sends'
      exact apart rfl
  · obtain ⟨sent, inSent, rfl⟩ := List.mem_map.mp listed
    obtain ⟨action, member, arrives⟩ := List.mem_filterMap.mp inSent
    obtain ⟨agent, _, inStage⟩ := List.mem_flatMap.mp member
    obtain ⟨rank, cta, target, element, _, _, rfl, _, _, sends⟩ := arrival_stage found inStage arrives
    exact (delivers.sent _ _ _ _ _ sends).1
  · obtain ⟨cta, target, element, sends⟩ := delivers.given sender member
    obtain ⟨job, goal, given, isGoal, rfl, below, rfl, _⟩ := sends.work
    have inStage : Action.send ⟨launch, sender, cta⟩ element goal.1 (goal.2 + element) ∈
        (historyStages start history).stage (stageWidth * launch + 15) (.engine ⟨⟨launch, sender, cta⟩, target + 1⟩) := by
      rw [send_stage found sends.inGrid given isGoal]
      exact List.mem_map.mpr ⟨element, List.mem_range.mpr below, rfl⟩
    refine List.mem_map.mpr ⟨_, List.mem_filterMap.mpr ⟨_, List.mem_flatMap.mpr ⟨_, ?_, inStage⟩, if_pos ⟨rfl, rfl⟩⟩, rfl⟩
    exact agents_listed launched inStage

theorem mergeOf_found (found : history[launch]? = some collective) (old new : Value) :
    mergeOf history launch old new = collective.merge old new := by
  simp only [mergeOf, found]

/-- The order of the arrivals at a place makes no difference. -/
theorem merge_perm {launch : Nat} {arrived senders : List Nat} (separate : Separate history)
    (found : history[launch]? = some collective) (gathered : collective.kind = .allGather → senders.length ≤ 1)
    (value : Nat → Value) (old : Value) (perm : arrived.Perm senders) :
    arrived.foldl (fun old sender => collective.merge old (value sender)) old =
      senders.foldl (fun old sender => collective.merge old (value sender)) old := by
  by_cases gather : collective.kind = .allGather
  · rcases senders with _ | ⟨sender, _ | ⟨second, rest⟩⟩
    · rw [perm.eq_nil]
    · rw [perm.eq_singleton]
    · have short := gathered gather
      simp only [List.length_cons] at short
      omega
  · refine perm.foldl_eq' (fun first _ second _ seen => ?_) old
    have reduces : ∀ old new, collective.merge old new = collective.op old new := fun _ _ => if_neg gather
    simp only [reduces]
    exact separate.reduces launch collective found gather _ _ _

theorem mem_stageActions {start : Nat → Scratch → Nat} :
    action ∈ stageActions start worldSize history launch stage ↔ ∃ agent ∈ agentsOf worldSize history,
      action ∈ (historyStages start history).stage (stageWidth * launch + stage) agent :=
  List.mem_flatMap

theorem stageActions_loadless {start : Nat → Scratch → Nat} (below : stage < stageWidth) (apart : stage ≠ 3)
    (block : Block) (element position : Nat) :
    Action.load block element position ∉ stageActions start worldSize history launch stage := by
  intro member
  obtain ⟨agent, _, inStage⟩ := mem_stageActions.mp member
  obtain ⟨_, place, _⟩ := load_place inStage
  unfold stageWidth at below place
  omega

theorem stageActions_sendless {start : Nat → Scratch → Nat} (below : stage < stageWidth) (apart : stage ≠ 15)
    (block : Block) (element rank position : Nat) :
    Action.send block element rank position ∉ stageActions start worldSize history launch stage := by
  intro member
  obtain ⟨agent, _, inStage⟩ := mem_stageActions.mp member
  obtain ⟨_, _, place, _⟩ := send_place inStage
  unfold stageWidth at below place
  omega

/-- Stages without loads and sends leave the memories and the chunks alone. -/
theorem run_quiet {start : Nat → Scratch → Nat} (stages : List Nat)
    (quiet : ∀ stage ∈ stages, stage < stageWidth ∧ stage ≠ 3 ∧ stage ≠ 15) (devices : Devices Value) :
    (run history (stages.flatMap (stageActions start worldSize history launch)) devices).memory = devices.memory ∧
      (run history (stages.flatMap (stageActions start worldSize history launch)) devices).chunk = devices.chunk := by
  constructor
  · refine run_memory _ _ fun block element rank position member => ?_
    obtain ⟨stage, isQuiet, inStage⟩ := List.mem_flatMap.mp member
    exact stageActions_sendless (quiet stage isQuiet).1 (quiet stage isQuiet).2.2 _ _ _ _ inStage
  · refine run_chunk _ _ fun block element position member => ?_
    obtain ⟨stage, isQuiet, inStage⟩ := List.mem_flatMap.mp member
    exact stageActions_loadless (quiet stage isQuiet).1 (quiet stage isQuiet).2.1 _ _ _ inStage

/-- All actions of a launch, stage after stage. -/
def launchActions (start : Nat → Scratch → Nat) (worldSize : Nat) (history : List (Collective Value)) (launch : Nat) :
    List Action :=
  (List.range stageWidth).flatMap (stageActions start worldSize history launch)

theorem launchActions_split (start : Nat → Scratch → Nat) (launch : Nat) :
    launchActions start worldSize history launch =
      (List.range 3).flatMap (stageActions start worldSize history launch) ++
      (stageActions start worldSize history launch 3 ++
      ((List.range' 4 11).flatMap (stageActions start worldSize history launch) ++
      (stageActions start worldSize history launch 15 ++
      (List.range' 16 7).flatMap (stageActions start worldSize history launch)))) := by
  have parts : List.range stageWidth = List.range 3 ++ ([3] ++ (List.range' 4 11 ++ ([15] ++ List.range' 16 7))) := rfl
  simp only [launchActions, parts, List.flatMap_append, List.flatMap_singleton]

/-- The load stage of a launch fills every chunk from the memory of its rank. -/
theorem loads_fill {start : Nat → Scratch → Nat} (launched : Launched worldSize history)
    (found : history[launch]? = some collective) (inside : cta < (collective.launch rank).ctaCount)
    (given : (collective.launch rank).job cta = some job) (below : element < job.count) (devices : Devices Value) :
    (run history (stageActions start worldSize history launch 3) devices).chunk ⟨launch, rank, cta⟩ element =
      devices.memory rank (job.source + element) := by
  have inStage : Action.load ⟨launch, rank, cta⟩ element (job.source + element) ∈
      (historyStages start history).stage (stageWidth * launch + 3) (.engine ⟨⟨launch, rank, cta⟩, 0⟩) := by
    rw [load_stage found inside given]
    exact List.mem_map.mpr ⟨element, List.mem_range.mpr below, rfl⟩
  have listed := mem_stageActions.mpr ⟨_, agents_listed launched inStage, inStage⟩
  refine run_loads _ devices (stageActions_sendless (by decide) (by decide)) (fun place member => ?_) (.inl listed)
  obtain ⟨agent, _, there⟩ := mem_stageActions.mp member
  exact load_source found given there

/-- A launch whose stages follow each other has the outcome of its collective. -/
theorem launch_outcome {start : Nat → Scratch → Nat} (launched : Launched worldSize history) (separate : Separate history)
    (found : history[launch]? = some collective) (devices : Devices Value) :
    Outcome collective devices.memory (run history (launchActions start worldSize history launch) devices).memory := by
  intro rank position senders source delivers
  rw [launchActions_split, run_append, run_append, run_append, run_append]
  generalize early : run history ((List.range 3).flatMap (stageActions start worldSize history launch)) devices = ready
  generalize loading : run history (stageActions start worldSize history launch 3) ready = loaded
  generalize between :
    run history ((List.range' 4 11).flatMap (stageActions start worldSize history launch)) loaded = settled
  generalize sending : run history (stageActions start worldSize history launch 15) settled = finished
  have readyMemory : ready.memory = devices.memory := by
    rw [← early]
    exact (run_quiet _ (by decide) _).1
  have loadedMemory : loaded.memory = ready.memory := by
    rw [← loading]
    exact run_memory _ _ (stageActions_sendless (by decide) (by decide))
  obtain ⟨settledMemory, settledChunk⟩ : settled.memory = loaded.memory ∧ settled.chunk = loaded.chunk := by
    rw [← between]
    exact run_quiet _ (by decide) _
  have same : ∀ block element goal place,
      Action.send block element goal place ∈ stageActions start worldSize history launch 15 → block.launch = launch := by
    intro block element goal place member
    obtain ⟨_, _, inStage⟩ := mem_stageActions.mp member
    obtain ⟨_, _, spot, _⟩ := send_place inStage
    unfold stageWidth at spot
    omega
  have each : ∀ sent ∈ (stageActions start worldSize history launch 15).filterMap (arrival settled.chunk rank position),
      sent.2 = devices.memory sent.1 (source sent.1) := by
    intro sent member
    obtain ⟨action, listed, arrives⟩ := List.mem_filterMap.mp member
    obtain ⟨agent, _, inStage⟩ := mem_stageActions.mp listed
    obtain ⟨sender, cta, _, element, job, _, rfl, given, below, sends⟩ := arrival_stage found inStage arrives
    change settled.chunk ⟨launch, sender, cta⟩ element = devices.memory sender (source sender)
    rw [settledChunk, ← loading, loads_fill launched found sends.inGrid given below, readyMemory,
      (delivers.sent _ _ _ _ _ sends).2]
  rw [(run_quiet _ (by decide) finished).1, ← sending,
    run_sends _ _ launch (stageActions_loadless (by decide) (by decide)) same, settledMemory, loadedMemory, readyMemory]
  calc ((stageActions start worldSize history launch 15).filterMap (arrival settled.chunk rank position)).foldl
        (fun old sent => mergeOf history launch old sent.2) (devices.memory rank position)
      = ((stageActions start worldSize history launch 15).filterMap (arrival settled.chunk rank position)).foldl
        (fun old sent => collective.merge old (devices.memory sent.1 (source sent.1))) (devices.memory rank position) :=
        List.foldl_ext _ _ _ fun old sent member => by rw [mergeOf_found found, each sent member]
    _ = (((stageActions start worldSize history launch 15).filterMap (arrival settled.chunk rank position)).map
        Prod.fst).foldl (fun old sender => collective.merge old (devices.memory sender (source sender)))
        (devices.memory rank position) := by rw [List.foldl_map]
    _ = _ := merge_perm separate found delivers.gathered (fun sender => devices.memory sender (source sender)) _
        (arrivals_senders launched found delivers)

/-- The stages of a history, one launch after another. -/
theorem sequential_launches (start : Nat → Scratch → Nat) :
    (historyStages start history).sequential (agentsOf worldSize history) =
      (List.range history.length).flatMap (launchActions start worldSize history) :=
  flatMap_range_mul _ _ _

end Launches

section Histories

variable {Value : Type*} {worldSize : Nat} {history : List (Collective Value)} {devices : Devices Value}
variable {state : State Agent (Devices Value)}

/-- In every interleaving that has ended, the collectives of the history have changed the memories one after another,
each by its outcome. -/
theorem history_outcome (launched : Launched worldSize history) (entry : Entry history devices)
    (separate : Separate history) (reached : (fastProgram devices.counter history).Reachable devices state)
    (finished : (fastProgram devices.counter history).Finished state) :
    ∃ memories : Nat → Nat → Nat → Value, memories 0 = devices.memory ∧
      state.shared.memory = memories history.length ∧
      ∀ (launch : Nat) (collective : Collective Value), history[launch]? = some collective →
        Outcome collective (memories launch) (memories (launch + 1)) := by
  refine ⟨fun count => (run history ((List.range count).flatMap (launchActions devices.counter worldSize history))
    devices).memory, rfl, ?_, fun launch collective found => ?_⟩
  · rw [finished_sequential launched entry separate reached finished, sequential_launches]
    rfl
  · simp only [List.range_succ, List.flatMap_append, List.flatMap_singleton, run_append]
    exact launch_outcome launched separate found _

end Histories

end Ooverlap.Fast
