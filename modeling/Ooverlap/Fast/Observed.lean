import Ooverlap.Fast.Synchronized

/-! What an action that the fast kernels have taken tells about the other ranks. -/

namespace Ooverlap.Fast

open Interleaving

variable {Value : Type*} {worldSize : Nat} {history : List (Collective Value)} {devices : Devices Value}
variable {state : State Agent (Devices Value)} {collective : Collective Value}

/-- Where a taken action stands, its agent stands at least. -/
theorem performed_stage (launched : Launched worldSize history)
    (performed : (fastProgram devices.counter history).Performed state agent action) :
    ∃ index, action ∈ (historyStages devices.counter history).stage index agent ∧
      (historyStages devices.counter history).Reached state.pc agent index := by
  obtain ⟨position, taken, located⟩ := performed
  change (agentCode devices.counter history agent)[position]? = some action at located
  rw [agentCode_staged launched.filled] at located
  obtain ⟨index, _, place, found, rfl⟩ := Staged.stage_code located
  exact ⟨index, List.mem_of_getElem? found, Nat.le_of_lt (Nat.lt_of_le_of_lt (Nat.le_add_right _ place) taken)⟩

/-- An agent that has left a stage has taken its actions. -/
theorem performed_past (launched : Launched worldSize history)
    (inRange : index < (historyStages devices.counter history).count)
    (member : action ∈ (historyStages devices.counter history).stage index agent)
    (past : (historyStages devices.counter history).Reached state.pc agent (index + 1)) :
    (fastProgram devices.counter history).Performed state agent action := by
  obtain ⟨place, found⟩ := List.mem_iff_getElem?.mp member
  refine ⟨_, past.taken (List.getElem?_eq_some_iff.mp found).1, ?_⟩
  change (agentCode devices.counter history agent)[_]? = some action
  rw [agentCode_staged launched.filled]
  exact Staged.code_stage inRange found

/-- What a sender has behind it: the rank that it writes to is its peer, and has met it in the same kernel. -/
theorem sent_met (launched : Launched worldSize history) (entry : Entry history devices)
    (reached : (fastProgram devices.counter history).Reachable devices state)
    (found : history[writer.launch]? = some collective)
    (sent : (fastProgram devices.counter history).Performed state agent (.send writer part rank place)) :
    writer.cta < (collective.launch writer.rank).ctaCount ∧ rank ∈ (collective.launch writer.rank).peers ∧
      Stands devices.counter history state.pc (.cta writer.rank writer.cta) writer.launch 13 ∧
      Stands devices.counter history state.pc (.cta rank 0) writer.launch 8 := by
  obtain ⟨index, member, here⟩ := performed_stage launched sent
  obtain ⟨target, rfl, rfl, other, moves, job, there, inside, moving, given, _, ⟨goal, isGoal, rfl⟩, _⟩ :=
    send_place member
  obtain rfl := Option.some.inj (found.symm.trans there)
  have isPeer := target_peer launched found inside given isGoal
  exact ⟨inside, isPeer, engine_issued launched entry reached moving here,
    target_entered launched entry reached found inside moving isPeer here⟩

/-- Nothing is sent to a rank before a CTA of the sender has polled the rank's entry. -/
theorem sent_observed (launched : Launched worldSize history) (entry : Entry history devices)
    (reached : (fastProgram devices.counter history).Reachable devices state)
    (found : history[writer.launch]? = some collective)
    (sent : (fastProgram devices.counter history).Performed state agent (.send writer part rank place)) :
    ∃ cta, (fastProgram devices.counter history).Performed state (.cta writer.rank cta)
      (.await writer.rank rank (readyValue collective.epoch kLoadedReadyPhase)) := by
  obtain ⟨inside, isPeer, standing, _⟩ := sent_met launched entry reached found sent
  obtain ⟨cta, inGrid, assigned⟩ := Kernel.assignedPeers_covers isPeer (Nat.zero_lt_of_lt inside)
  obtain ⟨job, given⟩ := launched.filled _ collective found _ cta inGrid
  have together := grid_met launched entry reached found inside 1 (by decide)
    (standing.mono (Nat.add_le_add_left (by decide) _)) cta inGrid
  have polled : Stands devices.counter history state.pc (.cta writer.rank cta) writer.launch 10 :=
    together.mono (Nat.add_le_add_left (by decide) _)
  refine ⟨cta, performed_past launched (historyStages_count found (show 9 < stageWidth by decide)) ?_ polled⟩
  rw [stage_cta found inGrid given (by decide)]
  exact List.mem_map.mpr ⟨rank, assigned, rfl⟩

/-- All CTAs of a rank have entered the kernel before anything is sent to it. -/
theorem sent_entered (launched : Launched worldSize history) (entry : Entry history devices)
    (reached : (fastProgram devices.counter history).Reachable devices state)
    (found : history[writer.launch]? = some collective)
    (sent : (fastProgram devices.counter history).Performed state agent (.send writer part rank place))
    (inGrid : cta < (collective.launch rank).ctaCount) :
    (fastProgram devices.counter history).Performed state (.cta rank cta) (.enter writer.launch rank) := by
  obtain ⟨_, _, _, met⟩ := sent_met launched entry reached found sent
  obtain ⟨job, given⟩ := launched.filled _ collective found _ cta inGrid
  have together := grid_met launched entry reached found (Nat.zero_lt_of_lt inGrid) 0 (by decide) met cta inGrid
  have begun : Stands devices.counter history state.pc (.cta rank cta) writer.launch 1 :=
    together.mono (Nat.add_le_add_left (by decide) _)
  refine performed_past launched (historyStages_count found (show 0 < stageWidth by decide)) ?_ begun
  rw [stage_cta found inGrid given (by decide)]
  exact List.mem_singleton.mpr rfl

/-- A kernel that waits for its loads first has made all of them before anything is sent to its rank. -/
theorem sent_loaded (launched : Launched worldSize history) (entry : Entry history devices)
    (reached : (fastProgram devices.counter history).Reachable devices state)
    (found : history[writer.launch]? = some collective) (early : collective.waitsEarly = true)
    (sent : (fastProgram devices.counter history).Performed state agent (.send writer part reader.rank place))
    (same : reader.launch = writer.launch)
    (loads : .load reader element address ∈ (fastProgram devices.counter history).code loader) :
    (fastProgram devices.counter history).Performed state loader (.load reader element address) := by
  obtain ⟨_, _, _, met⟩ := sent_met launched entry reached found sent
  obtain ⟨index, inRange, member⟩ := mem_code launched.filled loads
  obtain ⟨rfl, rfl, other, _, there, inGrid, _, _⟩ := load_place member
  rw [same] at there
  obtain rfl := Option.some.inj (found.symm.trans there)
  rw [← same] at found met
  exact performed_past launched inRange member (loaded_met launched entry reached found inGrid early met)

/-- When all CTAs of a rank's kernel have left it, everything that its peers send there has arrived. -/
theorem over_received (launched : Launched worldSize history) (entry : Entry history devices)
    (reached : (fastProgram devices.counter history).Reachable devices state)
    (found : history[writer.launch]? = some collective)
    (ended : ctasBefore (history.take (writer.launch + 1)) rank ≤ state.shared.exited rank)
    (sends : .send writer part rank place ∈ (fastProgram devices.counter history).code agent) :
    (fastProgram devices.counter history).Performed state agent (.send writer part rank place) := by
  obtain ⟨index, inRange, member⟩ := mem_code launched.filled sends
  obtain ⟨target, rfl, rfl, other, moves, job, there, inside, moving, given, isTarget, ⟨goal, isGoal, rfl⟩, _⟩ :=
    send_place member
  obtain rfl := Option.some.inj (found.symm.trans there)
  have isPeer := target_peer launched found inside given isGoal
  have grid := peer_grid launched found inside isPeer
  have isRank := (launched.grids _ collective found writer.rank).mp (Nat.zero_lt_of_lt inside)
  obtain ⟨rankInside, apart⟩ := (launched.peers _ collective found writer.rank isRank goal.1).mp isPeer
  have back : writer.rank ∈ (collective.launch goal.1).peers :=
    (launched.peers _ collective found goal.1 rankInside writer.rank).mpr ⟨isRank, apart.symm⟩
  have rule := exit_rule launched entry goal.1
  have met := Barriers.met_of_reachable rule reached
  have peopled : ((exitBarriers history goal.1).members writer.launch).Nonempty := by
    refine ⟨.cta goal.1 0, mem_ctasOf.mpr ⟨0, ?_, rfl⟩⟩
    rwa [gridOf_found found]
  rw [← exitBarriers_target] at ended
  have complete := (met.complete_iff rule reached (List.getElem?_eq_some_iff.mp found).1 peopled).mp ended
  have left : ∀ cta < (collective.launch goal.1).ctaCount,
      Stands devices.counter history state.pc (.cta goal.1 cta) writer.launch 23 := by
    intro cta below
    refine complete _ (mem_ctasOf.mpr ⟨cta, ?_, rfl⟩)
    rwa [gridOf_found found]
  have through := peers_sent launched entry reached found left back grid (Nat.zero_lt_of_lt inside) writer.cta inside
  exact performed_past launched inRange member
    (send_finished launched entry reached found inside given isTarget (through.mono (Nat.add_le_add_left (by decide) _)))

end Ooverlap.Fast
