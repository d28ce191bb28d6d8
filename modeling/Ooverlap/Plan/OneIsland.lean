import Ooverlap.Plan.AllReduceRanks
import Ooverlap.Plan.StagedListing

/-! What a plan of one island says about the transports between its ranks. -/

namespace Ooverlap.Plan

section Turns

/-- A loop that succeeded took every one of its turns. -/
theorem forM_turn {items : List α} {step : α → BuildM Unit} (ran : items.forM step state = .ok ((), after))
    (member : item ∈ items) : ∃ before later, step item before = .ok ((), later) := by
  induction items generalizing state with
  | nil => cases member
  | cons first rest ih =>
    obtain ⟨_, middle, here, later⟩ := BuildM.bind_ok ran
    rcases List.mem_cons.mp member with rfl | inRest
    · exact ⟨state, middle, here⟩
    · exact ih later inRest

theorem unguarded {condition : Prop} [Decidable condition] {step : BuildM Unit}
    (ran : (if condition then transferPlanAbortBuild else step) state = .ok ((), after)) :
    ¬condition ∧ step state = .ok ((), after) := by
  by_cases holds : condition
  · rw [if_pos holds] at ran
    cases ran
  · rw [if_neg holds] at ran
    exact ⟨holds, ran⟩

end Turns

variable {input : TransferPlanBuildInput} {transports : TransportMatrix} {rank : Int}

/-- Batches are emitted only when every destination is reached directly. -/
theorem emitCopyBatches_direct {pending batch : List Int}
    (ran : AllGather.emitCopyBatches cap input transports rank beginBytes bytes numWindows batch transport pending state =
      .ok ((), after)) :
    ∀ peer ∈ pending, peer ≠ rank → transportUsesDirectTma (transports rank peer) = true := by
  induction pending generalizing batch transport state with
  | nil => exact fun _ none => nomatch none
  | cons dstRank rest ih =>
    intro peer member remote
    rw [AllGather.emitCopyBatches] at ran
    by_cases own : dstRank = rank
    · rw [if_pos own] at ran
      rcases List.mem_cons.mp member with rfl | inRest
      · exact absurd own remote
      · exact ih ran peer inRest remote
    · rw [if_neg own] at ran
      obtain ⟨direct, taken⟩ := unguarded (unguarded ran).2
      rcases List.mem_cons.mp member with rfl | inRest
      · simpa using direct
      · split at taken
        · obtain ⟨_, _, _, later⟩ := BuildM.bind_ok taken
          exact ih later peer inRest remote
        · exact ih taken peer inRest remote

theorem emitAllGatherSourceCopies_direct
    (ran : AllGather.emitAllGatherSourceCopies cap input transports rank (intRange input.worldSize) beginBytes bytes
      numWindows state = .ok ((), after)) : PeersDirect input transports rank := by
  intro peer isPeer
  have isRank := mem_intRange.mpr (mem_peersOf.mp isPeer).1
  have remote := (mem_peersOf.mp isPeer).2
  have emitted := (unguarded ran).2
  split at emitted
  · have listed : peer ∈ (intRange input.worldSize).filter (· ≠ rank) := List.mem_filter.mpr ⟨isRank, by simpa using remote⟩
    obtain ⟨_, _, turn⟩ := forM_turn emitted listed
    have direct := (unguarded turn).1
    simp only [Bool.or_eq_true, not_or, Bool.not_eq_true', Bool.not_eq_false] at direct
    exact direct.2
  · exact emitCopyBatches_direct emitted peer isRank remote

theorem emitSliceReductions_direct
    (ran : ReduceScatter.emitSliceReductions cap input transports rank state = .ok ((), after)) :
    PeersDirect input transports rank := by
  intro peer isPeer
  obtain ⟨_, _, turn⟩ := forM_turn ran isPeer
  simpa using (unguarded turn).1

/-- Ranks that all reach their peers directly form a directly reachable group. -/
theorem allDirect_of_peers (matrix : buildTransportMatrix input.topo input.worldSize = some transports)
    (reaches : ∀ rank ∈ intRange input.worldSize, PeersDirect input transports rank) :
    AllDirect input.topo input.worldSize := by
  intro src dst srcValid dstValid
  simp only [validRank, Bool.and_eq_true, decide_eq_true_eq] at srcValid dstValid
  by_cases same : src = dst
  · subst same
    unfold chooseDirectOrFallbackTransport
    split
    · rfl
    · split
      · rfl
      · rw [if_pos rfl]
        rfl
  · have direct := reaches src (mem_intRange.mpr srcValid) dst (mem_peersOf.mpr ⟨dstValid, Ne.symm same⟩)
    unfold buildTransportMatrix at matrix
    split at matrix
    · cases matrix
    · cases matrix
      dsimp only at direct
      rwa [if_pos ⟨srcValid.1, srcValid.2, dstValid⟩] at direct

theorem directBuild_turns {step : Int → BuildM Unit} (ran : directBuild cap input step state = .ok ((), after))
    (inRange : rank ∈ intRange input.worldSize) : ∃ before later, step rank before = .ok ((), later) := by
  obtain ⟨_, _, _, ran⟩ := BuildM.bind_ok ran
  obtain ⟨_, _, _, ran⟩ := BuildM.bind_ok ran
  obtain ⟨_, _, looped, _⟩ := BuildM.bind_ok ran
  exact forM_turn looped inRange

/-- A reduce-scatter plan of one island needs every pair of ranks to be directly connected. -/
theorem buildReduceScatterTransferPlan_allDirect (single : AllReduce.OneIsland input)
    (built : (ReduceScatter.buildReduceScatterTransferPlan cap storage input).1 = true) :
    AllDirect input.topo input.worldSize := by
  obtain ⟨_, state, ran, _⟩ := runPlanner_ok built
  cases matrix : buildTransportMatrix input.topo input.worldSize with
  | none => simp [ReduceScatter.planReduceScatter, matrix, transferPlanAbortBuild] at ran
  | some transports =>
    cases grouped : buildIslands input transports with
    | none => simp [ReduceScatter.planReduceScatter, matrix, grouped, transferPlanAbortBuild] at ran
    | some islands =>
      simp only [ReduceScatter.planReduceScatter, matrix, grouped, if_pos (single transports islands matrix grouped)] at ran
      refine allDirect_of_peers matrix fun rank inRange => ?_
      obtain ⟨_, _, turn⟩ := directBuild_turns (unguarded ran).2 inRange
      exact emitSliceReductions_direct turn

theorem buildAllGatherTransferPlan_allDirect (single : AllReduce.OneIsland input)
    (built : (AllGather.buildAllGatherTransferPlan cap storage input).1 = true) :
    AllDirect input.topo input.worldSize := by
  obtain ⟨_, state, ran, _⟩ := runPlanner_ok built
  cases matrix : buildTransportMatrix input.topo input.worldSize with
  | none => simp [AllGather.planAllGather, matrix, transferPlanAbortBuild] at ran
  | some transports =>
    cases grouped : AllGather.buildAllGatherIslands input transports with
    | none => simp [AllGather.planAllGather, matrix, grouped, transferPlanAbortBuild] at ran
    | some islands =>
      obtain ⟨found, searched, kept⟩ := Option.bind_eq_some_iff.mp grouped
      have few : islands.islandCount ≤ 1 := by
        split at kept
        · cases kept
          exact single transports islands matrix searched
        · cases kept
      simp only [AllGather.planAllGather, matrix, grouped, if_pos few] at ran
      refine allDirect_of_peers matrix fun rank inRange => ?_
      obtain ⟨_, _, turn⟩ := directBuild_turns (unguarded ran).2 inRange
      exact emitAllGatherSourceCopies_direct turn

/-- A group is one island or falls into several. -/
theorem severalIslands_of_not_one (several : ¬AllReduce.OneIsland input) : SeveralIslands input := by
  unfold AllReduce.OneIsland at several
  push Not at several
  obtain ⟨transports, islands, matrix, grouped, many⟩ := several
  exact ⟨transports, islands, matrix, grouped, many⟩

end Ooverlap.Plan
