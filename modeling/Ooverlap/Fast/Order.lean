import Ooverlap.Fast.Signals

/-! The signals of the fast kernels order every conflict, and never wait for each other in a circle. -/

namespace Ooverlap.Fast

open Interleaving Plan Word

section Chain

variable {Value : Type*} {worldSize : Nat} {history : List (Collective Value)} {devices : Devices Value}
variable {state : State Agent (Devices Value)} {collective : Collective Value} {launch rank cta : Nat}

/-- A CTA past a grid barrier has seen all CTAs of the grid arrive. -/
theorem grid_met (launched : Launched worldSize history) (entry : Entry history devices)
    (reached : (fastProgram devices.counter history).Reachable devices state) (found : history[launch]? = some collective)
    (inside : cta < (collective.launch rank).ctaCount) (round : Nat) (below : round < 3)
    (through : Stands devices.counter history state.pc (.cta rank cta) launch (arriveStage round + 2)) :
    ∀ other < (collective.launch rank).ctaCount,
      Stands devices.counter history state.pc (.cta rank other) launch (arriveStage round + 1) := by
  intro other otherInside
  have whole : (3 * launch + round) / 3 = launch := by omega
  have part : (3 * launch + round) % 3 = round := by omega
  have inRange := (List.getElem?_eq_some_iff.mp found).1
  have members : ∀ index < (collective.launch rank).ctaCount,
      Agent.cta rank index ∈ ctasOf rank (counterGrid history ((3 * launch + round) / 3) rank collective.scratch) := by
    intro index below
    rw [whole, counterGrid_found found]
    exact mem_ctasOf.mpr ⟨index, below, rfl⟩
  have met := Barriers.met_of_reachable (grid_rule launched entry rank collective.scratch) reached
  have past : (historyStages devices.counter history).Reached state.pc (.cta rank cta)
      ((gridBarriers devices.counter history rank collective.scratch).gate (3 * launch + round) + 1) := by
    simp only [gridBarriers, whole, part]
    exact through
  have inRounds : 3 * launch + round < (gridBarriers devices.counter history rank collective.scratch).rounds := by
    change _ < 3 * history.length
    omega
  have complete := met.passed (3 * launch + round) inRounds _ (members cta inside) past _ (members other otherInside)
  simp only [gridBarriers, whole, part] at complete
  exact complete

/-- A CTA past a poll has heard from the owner of the inbox. -/
theorem awaited (launched : Launched worldSize history) (entry : Entry history devices)
    (reached : (fastProgram devices.counter history).Reachable devices state) (waiter : Nat)
    (inRange : index + 1 < (historyStages devices.counter history).count)
    (member : Action.await waiter owner value ∈ (historyStages devices.counter history).stage (index + 1) agent)
    (ready : ReadyAt history index value)
    (past : (historyStages devices.counter history).Reached state.pc agent (index + 2)) :
    (historyStages devices.counter history).Reached state.pc (.cta owner 0) index := by
  have fresh : devices.inbox owner waiter < value := by
    obtain ⟨collective, found, phase⟩ := ready
    have stale := entry.stale _ collective found owner waiter
    obtain ⟨positive, small⟩ := launched.words _ collective found
    rw [readyValue_eq positive small (by decide)] at stale
    rw [readyValue_eq positive small (by decide), readyValue_eq positive small (by decide)] at phase
    unfold kLoadedReadyPhase kDoneReadyPhase at *
    omega
  refine (fastProgram devices.counter history).passed
    (fun pc => (historyStages devices.counter history).Reached pc (.cta owner 0) index)
    (fun agent => agentCode_staged launched.filled agent)
    (fun _ actor holds => holds.advance actor) inRange member ?_ reached past
  intro state reached allowed
  exact inbox_stands launched reached ready fresh allowed

theorem historyStages_count {start : Nat → Scratch → Nat} (found : history[launch]? = some collective)
    (below : stage < stageWidth) : stageWidth * launch + stage < (historyStages start history).count := by
  have inRange := (List.getElem?_eq_some_iff.mp found).1
  change _ < stageWidth * history.length
  calc stageWidth * launch + stage < stageWidth * launch + stageWidth := Nat.add_lt_add_left below _
    _ = stageWidth * (launch + 1) := (Nat.mul_succ _ _).symm
    _ ≤ stageWidth * history.length := Nat.mul_le_mul_left _ (Nat.succ_le_of_lt inRange)

/-- When all CTAs of a grid are past a rendezvous, the CTA 0 of every peer has reached its own publishing. -/
theorem peers_published (launched : Launched worldSize history) (entry : Entry history devices)
    (reached : (fastProgram devices.counter history).Reachable devices state) (found : history[launch]? = some collective)
    (first : stage = 8 ∨ stage = 20)
    (through : ∀ cta < (collective.launch rank).ctaCount,
      Stands devices.counter history state.pc (.cta rank cta) launch (stage + 2))
    (isPeer : peer ∈ (collective.launch rank).peers) (grid : 0 < (collective.launch rank).ctaCount) :
    Stands devices.counter history state.pc (.cta peer 0) launch stage := by
  obtain ⟨cta, inside, assigned⟩ := Kernel.assignedPeers_covers isPeer grid
  obtain ⟨job, given⟩ := launched.filled launch collective found rank cta inside
  have past := through cta inside
  rcases first with rfl | rfl
  · refine awaited launched entry reached rank (historyStages_count found (by decide)) ?_ (.loaded found) past
    change _ ∈ (historyStages devices.counter history).stage (stageWidth * launch + 9) (.cta rank cta)
    rw [stage_cta found inside given (by decide)]
    exact List.mem_map.mpr ⟨peer, assigned, rfl⟩
  · refine awaited launched entry reached rank (historyStages_count found (by decide)) ?_ (.done found) past
    change _ ∈ (historyStages devices.counter history).stage (stageWidth * launch + 21) (.cta rank cta)
    rw [stage_cta found inside given (by decide)]
    exact List.mem_map.mpr ⟨peer, assigned, rfl⟩

/-- A CTA about to send has heard from all peers that they have loaded. -/
theorem peers_loaded (launched : Launched worldSize history) (entry : Entry history devices)
    (reached : (fastProgram devices.counter history).Reachable devices state) (found : history[launch]? = some collective)
    (inside : cta < (collective.launch rank).ctaCount)
    (through : Stands devices.counter history state.pc (.cta rank cta) launch 12)
    (isPeer : peer ∈ (collective.launch rank).peers) :
    Stands devices.counter history state.pc (.cta peer 0) launch 8 := by
  have all := grid_met launched entry reached found inside 1 (by decide) through
  refine peers_published launched entry reached found (.inl rfl) (fun other below => ?_) isPeer
    (Nat.zero_lt_of_lt inside)
  exact (all other below).mono (Nat.add_le_add_left (by decide) _)

/-- When a rank has left a kernel, all its peers are through with sending. -/
theorem peers_sent (launched : Launched worldSize history) (entry : Entry history devices)
    (reached : (fastProgram devices.counter history).Reachable devices state) (found : history[launch]? = some collective)
    (left : ∀ cta < (collective.launch rank).ctaCount,
      Stands devices.counter history state.pc (.cta rank cta) launch 23)
    (isPeer : peer ∈ (collective.launch rank).peers) (grid : 0 < (collective.launch rank).ctaCount)
    (gridThere : 0 < (collective.launch peer).ctaCount) :
    ∀ cta < (collective.launch peer).ctaCount,
      Stands devices.counter history state.pc (.cta peer cta) launch 19 := by
  have published := peers_published launched entry reached found (.inr rfl)
    (fun cta below => (left cta below).mono (Nat.add_le_add_left (by decide) _)) isPeer grid
  exact grid_met launched entry reached found gridThere 2 (by decide) published

/-- A CTA past waiting for a bulk copy knows its engine to be done. -/
theorem finished (launched : Launched worldSize history) (entry : Entry history devices)
    (reached : (fastProgram devices.counter history).Reachable devices state)
    (inRange : index < (historyStages devices.counter history).count)
    (member : Action.finish bulk ∈ (historyStages devices.counter history).stage index agent)
    (past : (historyStages devices.counter history).Reached state.pc agent (index + 1)) :
    Stands devices.counter history state.pc (.engine bulk) bulk.block.launch (engineStage bulk + 2) := by
  refine (fastProgram devices.counter history).passed
    (fun pc => Stands devices.counter history pc (.engine bulk) bulk.block.launch (engineStage bulk + 2))
    (fun agent => agentCode_staged launched.filled agent)
    (fun _ actor holds => Staged.Reached.advance holds actor) inRange member ?_ reached past
  intro state reached allowed
  exact completed_stands launched entry reached allowed

/-- The load of a chunk is done once its CTA stands behind the kernel's wait for it. -/
theorem load_finished (launched : Launched worldSize history) (entry : Entry history devices)
    (reached : (fastProgram devices.counter history).Reachable devices state) (found : history[launch]? = some collective)
    (inside : cta < (collective.launch rank).ctaCount)
    (through : Stands devices.counter history state.pc (.cta rank cta) launch (if collective.waitsEarly then 6 else 13)) :
    Stands devices.counter history state.pc (.engine ⟨⟨launch, rank, cta⟩, 0⟩) launch 4 := by
  obtain ⟨job, given⟩ := launched.filled launch collective found rank cta inside
  by_cases early : collective.waitsEarly = true
  · rw [if_pos early] at through
    have member : Action.finish ⟨⟨launch, rank, cta⟩, 0⟩ ∈
        (historyStages devices.counter history).stage (stageWidth * launch + 5) (.cta rank cta) := by
      rw [stage_cta found inside given (by decide)]
      simp [ctaStage, early, Block.bulk]
    exact finished launched entry reached (historyStages_count found (by decide)) member through
  · rw [if_neg early] at through
    have member : Action.finish ⟨⟨launch, rank, cta⟩, 0⟩ ∈
        (historyStages devices.counter history).stage (stageWidth * launch + 12) (.cta rank cta) := by
      rw [stage_cta found inside given (by decide)]
      simp [ctaStage, early, Block.bulk]
    exact finished launched entry reached (historyStages_count found (by decide)) member through

theorem load_finished_late (launched : Launched worldSize history) (entry : Entry history devices)
    (reached : (fastProgram devices.counter history).Reachable devices state) (found : history[launch]? = some collective)
    (inside : cta < (collective.launch rank).ctaCount)
    (through : Stands devices.counter history state.pc (.cta rank cta) launch 13) :
    Stands devices.counter history state.pc (.engine ⟨⟨launch, rank, cta⟩, 0⟩) launch 4 := by
  refine load_finished launched entry reached found inside (through.mono (Nat.add_le_add_left ?_ _))
  split <;> decide

/-- What a CTA sends has arrived once the CTA stands behind its wait for that. -/
theorem send_finished (launched : Launched worldSize history) (entry : Entry history devices)
    (reached : (fastProgram devices.counter history).Reachable devices state) (found : history[launch]? = some collective)
    (inside : cta < (collective.launch rank).ctaCount) (given : (collective.launch rank).job cta = some job)
    (isTarget : target < job.targets.length)
    (through : Stands devices.counter history state.pc (.cta rank cta) launch 18) :
    Stands devices.counter history state.pc (.engine ⟨⟨launch, rank, cta⟩, target + 1⟩) launch 16 := by
  have member : Action.finish ⟨⟨launch, rank, cta⟩, target + 1⟩ ∈
      (historyStages devices.counter history).stage (stageWidth * launch + 17) (.cta rank cta) := by
    rw [stage_cta found inside given (by decide)]
    exact List.mem_map.mpr ⟨target, List.mem_range.mpr isTarget, rfl⟩
  exact finished launched entry reached (historyStages_count found (by decide)) member through

/-- A working engine's copy has been issued. -/
theorem engine_issued (launched : Launched worldSize history) (entry : Entry history devices)
    (reached : (fastProgram devices.counter history).Reachable devices state)
    (moving : historyMoves history bulk = some moves)
    (through : Stands devices.counter history state.pc (.engine bulk) bulk.block.launch (engineStage bulk + 1)) :
    Stands devices.counter history state.pc (.cta bulk.block.rank bulk.block.cta) bulk.block.launch
      (issueStage bulk) := by
  have below : engineStage bulk < stageWidth := by
    unfold engineStage stageWidth
    split <;> decide
  have inRange : stageWidth * bulk.block.launch + engineStage bulk < (historyStages devices.counter history).count :=
    historyStages_count (List.getElem?_eq_getElem (historyMoves_launched moving)) below
  have member : Action.begin bulk ∈ (historyStages devices.counter history).stage
      (stageWidth * bulk.block.launch + engineStage bulk) (.engine bulk) := by
    rw [historyStages_stage below]
    simp [launchStage, moving]
  refine (fastProgram devices.counter history).passed
    (fun pc => Stands devices.counter history pc (.cta bulk.block.rank bulk.block.cta) bulk.block.launch
      (issueStage bulk))
    (fun agent => agentCode_staged launched.filled agent)
    (fun _ actor holds => Staged.Reached.advance holds actor) inRange member ?_ reached through
  intro state reached allowed
  exact issued_stands launched entry reached allowed

end Chain

end Ooverlap.Fast
