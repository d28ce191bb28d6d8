import Ooverlap.Fast.Kernel
import Ooverlap.Support.StagedSignals

/-! The fast kernels in stages: every collective of a history goes through the same nineteen. -/

namespace Ooverlap.Fast

open Interleaving

section Stages

variable {Value : Type*}

/-- Actions of a CTA in each stage of a collective; the stages left out are those of its engines. -/
def ctaStage (collective : Collective Value) (counterBase : Nat) (block : Block) (job : Job) : Nat → List Action
  | 0 => [.enter block.launch block.rank]
  | 1 => [.issue (block.bulk 0)]
  | 5 => if collective.waitsEarly then [.finish (block.bulk 0)] else []
  | 6 => [.arrive block.rank collective.scratch]
  | 7 => [.wait block.rank collective.scratch (counterBase + (collective.launch block.rank).ctaCount)]
  | 8 => publishReady (collective.launch block.rank) block.rank block.cta (readyValue collective.epoch kLoadedReadyPhase)
  | 9 => awaitReady (collective.launch block.rank) block.rank block.cta (readyValue collective.epoch kLoadedReadyPhase)
  | 10 => [.arrive block.rank collective.scratch]
  | 11 => [.wait block.rank collective.scratch (counterBase + 2 * (collective.launch block.rank).ctaCount)]
  | 12 => if collective.waitsEarly then [] else [.finish (block.bulk 0)]
  | 13 => issueSends block job
  | 17 => finishSends block job
  | 18 => [.arrive block.rank collective.scratch]
  | 19 => [.wait block.rank collective.scratch (counterBase + 3 * (collective.launch block.rank).ctaCount)]
  | 20 => publishReady (collective.launch block.rank) block.rank block.cta (readyValue collective.epoch kDoneReadyPhase)
  | 21 => awaitReady (collective.launch block.rank) block.rank block.cta (readyValue collective.epoch kDoneReadyPhase)
  | 22 => [.exit block.rank]
  | _ => []

def stageWidth : Nat := 23

/-- The stage in which the engine takes up a bulk copy: it moves the elements in the next one, and then reports. -/
def engineStage (bulk : Bulk) : Nat :=
  if bulk.index = 0 then 2 else 14

variable (start : Nat → Scratch → Nat) (history : List (Collective Value))

/-- Actions of an agent in a stage of one collective of the history. -/
def launchStage (launch stage : Nat) : Agent → List Action
  | .cta rank cta =>
    match history[launch]? with
    | none => []
    | some collective =>
      if cta < (collective.launch rank).ctaCount then
        match (collective.launch rank).job cta with
        | none => []
        | some job =>
          ctaStage collective (lastValue start (history.take launch) rank collective.scratch) ⟨launch, rank, cta⟩ job stage
      else []
  | .engine bulk =>
    match historyMoves history bulk with
    | none => []
    | some moves =>
      if bulk.block.launch = launch then
        if stage = engineStage bulk then [.begin bulk]
        else if stage = engineStage bulk + 1 then moves
        else if stage = engineStage bulk + 2 then [.complete bulk]
        else []
      else []

def historyStages : Staged Agent Action where
  count := stageWidth * history.length
  stage index agent := launchStage start history (index / stageWidth) (index % stageWidth) agent

/-- Every CTA of every launched grid has a chunk. -/
def Filled (history : List (Collective Value)) : Prop :=
  ∀ (launch : Nat) (collective : Collective Value), history[launch]? = some collective →
    ∀ rank cta, cta < (collective.launch rank).ctaCount → ∃ job, (collective.launch rank).job cta = some job

end Stages

section Code

variable {Value : Type*} {start : Nat → Scratch → Nat} {history : List (Collective Value)}

theorem ctaStage_flatMap (collective : Collective Value) (counterBase : Nat) (block : Block)
    (found : (collective.launch block.rank).job block.cta = some job) :
    (List.range stageWidth).flatMap (ctaStage collective counterBase block job) =
      .enter block.launch block.rank :: ctaCode collective counterBase block ++ [.exit block.rank] := by
  simp [ctaCode, found, stageWidth, List.range_succ, ctaStage, arriveAndWait, readyRendezvous,
    publishReady, awaitReady, Kernel.distributedReadyRendezvousForCta]

theorem stage_div (below : stage < stageWidth) (launch : Nat) : (stageWidth * launch + stage) / stageWidth = launch := by
  unfold stageWidth at *
  omega

theorem stage_mod (below : stage < stageWidth) (launch : Nat) : (stageWidth * launch + stage) % stageWidth = stage := by
  unfold stageWidth at *
  omega

theorem historyStages_stage (below : stage < stageWidth) (launch : Nat) (agent : Agent) :
    (historyStages start history).stage (stageWidth * launch + stage) agent =
      launchStage start history launch stage agent := by
  change launchStage start history _ _ agent = _
  rw [stage_div below, stage_mod below]

theorem historyMoves_launched (moving : historyMoves history bulk = some moves) :
    bulk.block.launch < history.length := by
  unfold historyMoves at moving
  split at moving
  · cases moving
  · rename_i found
    exact (List.getElem?_eq_some_iff.mp found).1

/-- The code of every agent is that of its stages. -/
theorem agentCode_staged (filled : Filled history) (agent : Agent) :
    agentCode start history agent = (historyStages start history).code agent := by
  have blocks : (historyStages start history).code agent =
      (List.range history.length).flatMap fun launch =>
        (List.range stageWidth).flatMap fun stage => launchStage start history launch stage agent := by
    change (List.range (stageWidth * history.length)).flatMap _ = _
    rw [flatMap_range_mul]
    refine List.flatMap_congr fun launch _ => List.flatMap_congr fun stage below => ?_
    exact historyStages_stage (List.mem_range.mp below) launch agent
  rw [blocks]
  cases agent with
  | cta rank cta =>
    refine List.flatMap_congr fun launch _ => ?_
    unfold launchCode launchStage
    cases found : history[launch]? with
    | none => simp
    | some collective =>
      by_cases launched : cta < (collective.launch rank).ctaCount
      · obtain ⟨job, given⟩ := filled launch collective found rank cta launched
        simp only [if_pos launched, given]
        exact (ctaStage_flatMap collective _ ⟨launch, rank, cta⟩ given).symm
      · simp [launched]
  | engine bulk =>
    simp only [agentCode, engineCode, launchStage]
    cases moving : historyMoves history bulk with
    | none => simp
    | some moves =>
      have each : ∀ launch, ((List.range stageWidth).flatMap fun stage =>
          if bulk.block.launch = launch then
            if stage = engineStage bulk then [.begin bulk]
            else if stage = engineStage bulk + 1 then moves
            else if stage = engineStage bulk + 2 then [.complete bulk]
            else []
          else []) =
          if bulk.block.launch = launch then .begin bulk :: moves ++ [.complete bulk] else [] := by
        intro launch
        by_cases here : bulk.block.launch = launch
        · simp only [if_pos here]
          unfold engineStage
          split <;> simp [stageWidth, List.range_succ]
        · simp [here]
      simp only [each]
      rw [flatMap_range_single, if_pos (historyMoves_launched moving)]

end Code

section Places

variable {Value : Type*}

/-- Where each action of a CTA stands, and what it names. -/
def InCta (collective : Collective Value) (counterBase : Nat) (block : Block) (job : Job) (stage : Nat) :
    Action → Prop
  | .enter launch rank => stage = 0 ∧ launch = block.launch ∧ rank = block.rank
  | .issue bulk => bulk.block = block ∧
      (stage = 1 ∧ bulk.index = 0 ∨ stage = 13 ∧ ∃ target < job.targets.length, bulk.index = target + 1)
  | .finish bulk => bulk.block = block ∧
      ((stage = 5 ∨ stage = 12) ∧ bulk.index = 0 ∨ stage = 17 ∧ ∃ target < job.targets.length, bulk.index = target + 1)
  | .arrive rank scratch => rank = block.rank ∧ scratch = collective.scratch ∧ (stage = 6 ∨ stage = 10 ∨ stage = 18)
  | .wait rank scratch target => rank = block.rank ∧ scratch = collective.scratch ∧ ∃ round < 3,
      stage = (if round = 0 then 7 else if round = 1 then 11 else 19) ∧
      target = counterBase + (round + 1) * (collective.launch block.rank).ctaCount
  | .publish owner waiter value => owner = block.rank ∧ block.cta = 0 ∧
      waiter ∈ (collective.launch block.rank).peers ∧
      (stage = 8 ∧ value = readyValue collective.epoch kLoadedReadyPhase ∨
        stage = 20 ∧ value = readyValue collective.epoch kDoneReadyPhase)
  | .await waiter owner value => waiter = block.rank ∧
      owner ∈ Kernel.assignedPeers (collective.launch block.rank).peers (collective.launch block.rank).ctaCount block.cta ∧
      (stage = 9 ∧ value = readyValue collective.epoch kLoadedReadyPhase ∨
        stage = 21 ∧ value = readyValue collective.epoch kDoneReadyPhase)
  | .exit rank => rank = block.rank ∧ stage = 22
  | _ => False

variable {collective : Collective Value} {block : Block} {job : Job}

theorem mem_ctaStage (member : action ∈ ctaStage collective counterBase block job stage) :
    InCta collective counterBase block job stage action := by
  unfold ctaStage at member
  split at member
  case h_1 =>
    obtain rfl := List.mem_singleton.mp member
    exact ⟨rfl, rfl, rfl⟩
  case h_2 =>
    obtain rfl := List.mem_singleton.mp member
    exact ⟨rfl, .inl ⟨rfl, rfl⟩⟩
  case h_3 =>
    split at member
    · obtain rfl := List.mem_singleton.mp member
      exact ⟨rfl, .inl ⟨.inl rfl, rfl⟩⟩
    · cases member
  case h_4 =>
    obtain rfl := List.mem_singleton.mp member
    exact ⟨rfl, rfl, .inl rfl⟩
  case h_5 =>
    obtain rfl := List.mem_singleton.mp member
    exact ⟨rfl, rfl, 0, by decide, rfl, by simp⟩
  case h_6 =>
    obtain ⟨first, peer, isPeer, rfl⟩ := Kernel.mem_publishes member
    exact ⟨rfl, first, isPeer, .inl ⟨rfl, rfl⟩⟩
  case h_7 =>
    obtain ⟨peer, assigned, rfl⟩ := Kernel.mem_awaits member
    exact ⟨rfl, assigned, .inl ⟨rfl, rfl⟩⟩
  case h_8 =>
    obtain rfl := List.mem_singleton.mp member
    exact ⟨rfl, rfl, .inr (.inl rfl)⟩
  case h_9 =>
    obtain rfl := List.mem_singleton.mp member
    exact ⟨rfl, rfl, 1, by decide, rfl, rfl⟩
  case h_10 =>
    split at member
    · cases member
    · obtain rfl := List.mem_singleton.mp member
      exact ⟨rfl, .inl ⟨.inr rfl, rfl⟩⟩
  case h_11 =>
    obtain ⟨target, below, rfl⟩ := List.mem_map.mp member
    exact ⟨rfl, .inr ⟨rfl, target, List.mem_range.mp below, rfl⟩⟩
  case h_12 =>
    obtain ⟨target, below, rfl⟩ := List.mem_map.mp member
    exact ⟨rfl, .inr ⟨rfl, target, List.mem_range.mp below, rfl⟩⟩
  case h_13 =>
    obtain rfl := List.mem_singleton.mp member
    exact ⟨rfl, rfl, .inr (.inr rfl)⟩
  case h_14 =>
    obtain rfl := List.mem_singleton.mp member
    exact ⟨rfl, rfl, 2, by decide, rfl, rfl⟩
  case h_15 =>
    obtain ⟨first, peer, isPeer, rfl⟩ := Kernel.mem_publishes member
    exact ⟨rfl, first, isPeer, .inr ⟨rfl, rfl⟩⟩
  case h_16 =>
    obtain ⟨peer, assigned, rfl⟩ := Kernel.mem_awaits member
    exact ⟨rfl, assigned, .inr ⟨rfl, rfl⟩⟩
  case h_17 =>
    obtain rfl := List.mem_singleton.mp member
    exact ⟨rfl, rfl⟩
  case h_18 => cases member

/-- What an engine moves. -/
def InEngine (launch : FastLaunch) (bulk : Bulk) : Action → Prop
  | .load block element position => block = bulk.block ∧ bulk.index = 0 ∧
      ∃ job, launch.job block.cta = some job ∧ element < job.count ∧ position = job.source + element
  | .send block element rank position => block = bulk.block ∧
      ∃ job target index, launch.job block.cta = some job ∧ bulk.index = index + 1 ∧
        job.targets[index]? = some target ∧ element < job.count ∧ rank = target.1 ∧ position = target.2 + element
  | _ => False

theorem mem_bulkMoves (moving : bulkMoves launch bulk = some moves) (member : action ∈ moves) :
    InEngine launch bulk action := by
  unfold bulkMoves at moving
  split at moving
  · cases moving
  · rename_i job given
    split at moving
    · rename_i first
      cases moving
      obtain ⟨element, below, rfl⟩ := List.mem_map.mp member
      exact ⟨rfl, first, job, given, List.mem_range.mp below, rfl⟩
    · rename_i index later
      obtain ⟨target, found, rfl⟩ := Option.map_eq_some_iff.mp moving
      obtain ⟨element, below, rfl⟩ := List.mem_map.mp member
      exact ⟨rfl, job, target, index, given, later, found, List.mem_range.mp below, rfl, rfl⟩

variable {start : Nat → Scratch → Nat} {history : List (Collective Value)}

/-- The collective, the chunk and the place of what a CTA does in a stage. -/
theorem cta_stage (member : action ∈ (historyStages start history).stage index (.cta rank cta)) :
    ∃ collective, history[index / stageWidth]? = some collective ∧ cta < (collective.launch rank).ctaCount ∧
      ∃ job, (collective.launch rank).job cta = some job ∧
        InCta collective (lastValue start (history.take (index / stageWidth)) rank collective.scratch)
          ⟨index / stageWidth, rank, cta⟩ job (index % stageWidth) action := by
  change action ∈ launchStage start history (index / stageWidth) (index % stageWidth) (.cta rank cta) at member
  simp only [launchStage] at member
  split at member
  · cases member
  · rename_i collective found
    split at member
    · rename_i launched
      split at member
      · cases member
      · rename_i job given
        exact ⟨collective, found, launched, job, given, mem_ctaStage member⟩
    · cases member

/-- The collective and the place of what an engine does in a stage. -/
theorem engine_stage (member : action ∈ (historyStages start history).stage index (.engine bulk)) :
    bulk.block.launch = index / stageWidth ∧
      ∃ collective, history[bulk.block.launch]? = some collective ∧
        bulk.block.cta < (collective.launch bulk.block.rank).ctaCount ∧
        (index % stageWidth = engineStage bulk ∧ action = .begin bulk ∨
          index % stageWidth = engineStage bulk + 1 ∧ InEngine (collective.launch bulk.block.rank) bulk action ∨
          index % stageWidth = engineStage bulk + 2 ∧ action = .complete bulk) := by
  change action ∈ launchStage start history (index / stageWidth) (index % stageWidth) (.engine bulk) at member
  simp only [launchStage] at member
  cases moving : historyMoves history bulk with
  | none =>
    rw [moving] at member
    cases member
  | some moves =>
    simp only [moving] at member
    split at member
    case isFalse => cases member
    case isTrue here =>
      refine ⟨here, ?_⟩
      unfold historyMoves at moving
      split at moving
      · cases moving
      · rename_i collective found
        split at moving
        case isFalse => cases moving
        case isTrue launched =>
          refine ⟨collective, found, launched, ?_⟩
          split at member
          · exact .inl ⟨by assumption, List.mem_singleton.mp member⟩
          · split at member
            · exact .inr (.inl ⟨by assumption, mem_bulkMoves moving member⟩)
            · split at member
              · exact .inr (.inr ⟨by assumption, List.mem_singleton.mp member⟩)
              · cases member

theorem engine_moves (member : action ∈ (historyStages start history).stage index (.engine bulk)) :
    ∃ moves, historyMoves history bulk = some moves := by
  change action ∈ launchStage start history (index / stageWidth) (index % stageWidth) (.engine bulk) at member
  simp only [launchStage] at member
  cases moving : historyMoves history bulk with
  | none =>
    rw [moving] at member
    cases member
  | some moves => exact ⟨moves, rfl⟩

end Places

end Ooverlap.Fast
