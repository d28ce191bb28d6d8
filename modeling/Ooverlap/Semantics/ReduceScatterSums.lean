import Ooverlap.Semantics.DirectPlan

/-! When every interleaving of the direct reduce-scatter plan leaves each rank the sum of its slice. -/

namespace Ooverlap.Semantics

open Ooverlap.Plan Ooverlap.Plan.AllReduce Ooverlap.Plan.ReduceScatter Ooverlap.Interleaving

section Contributions

variable {M : Type} [AddCommMonoid M] {input : TransferPlanBuildInput}

/-- The buffer in which a rank hands in what it contributes. -/
def contribution (input : TransferPlanBuildInput) (rank : Int) : BufferId :=
  if input.outOfPlace then bufferOf (rankInputRef rank) else rankBuffer rank

/-- After its input copy a rank holds its own contribution, and no other buffer has changed. -/
theorem runBuffers_inputCopies (values : BufferId → M) :
    runBuffers (inputCopies input rank) values =
      Function.update values (rankBuffer rank) (values (contribution input rank)) := by
  unfold inputCopies contribution
  split
  · exact bufferEffect_copy rfl values
  · exact (Function.update_eq_self _ _).symm

end Contributions

section Reductions

variable {input : TransferPlanBuildInput} {transports : TransportMatrix}

theorem sliceReductions_workload : SliceWorkload input (sliceReductions input transports) where
  executor rank _ task member := by
    obtain ⟨peer, _, rfl⟩ := List.mem_map.mp member
    rfl
  moves rank _ task member := by
    obtain ⟨peer, _, rfl⟩ := List.mem_map.mp member
    exact Or.inr (Or.inr (Or.inl rfl))
  within rank _ task member := by
    obtain ⟨peer, _, rfl⟩ := List.mem_map.mp member
    refine ⟨fun _ => rfl, fun _ => rfl, fun _ dst isDestination => ?_⟩
    rw [List.mem_singleton.mp (show dst ∈ [rankBufferRef rank (sliceBeginBytes input rank)] from isDestination)]
    rfl

/-- The reductions of a rank add what every peer's buffer holds to its own. -/
theorem runBuffers_reductions {M : Type} [AddCommMonoid M] (peers : List Int) (absent : rank ∉ peers)
    (values : BufferId → M) :
    runBuffers (peers.map fun peer =>
        reduceTask input rank peer rank (rankBufferRef peer (sliceBeginBytes input rank))
          (rankBufferRef rank (sliceBeginBytes input rank)) (sliceBytes input rank) (sliceWindows input rank)
          (transports rank peer)) values (rankBuffer rank) =
      values (rankBuffer rank) + (peers.map fun peer => values (rankBuffer peer)).sum := by
  have apart : ∀ peer ∈ peers, rankBuffer peer ≠ rankBuffer rank := fun peer member same =>
    absent (rankBuffer_inj.mp same ▸ member)
  refine runBuffers_reduces peers _ rankBuffer ?_ ?_ ?_ apart values
  · exact fun _ _ => rfl
  · exact fun _ _ => rfl
  · exact fun _ _ => rfl

end Reductions

/-- Reduce-scatter: no run gets stuck, no rank is about to touch what another is about to write, and
every finished run leaves each rank the sum of all contributions to the elements it owns. -/
def ScattersSums (input : TransferPlanBuildInput) (plan : TransferPlan) : Prop :=
  RaceFree input.dtypeSize plan ∧ ∀ (M : Type) [AddCommMonoid M] (mem : BufferId → Nat → M),
    let program := planProgram (M := M) input.dtypeSize plan
    Completes program.Step (Program.start (entryState mem)) program.Finished ∧
    ∀ state, program.Reachable (entryState mem) state → program.Finished state →
      ∀ rank ∈ intRange input.worldSize, ∀ index, OwnsElement input rank index →
        state.shared.mem (rankBuffer rank) index =
          ((intRange input.worldSize).map fun peer => mem (contribution input peer) index).sum

section Direct

variable {input : TransferPlanBuildInput}

/-- What a successful build on a directly reachable group leaves. -/
theorem buildReduceScatterTransferPlan_staged (direct : AllDirect input.topo input.worldSize)
    (built : (buildReduceScatterTransferPlan cap storage input).1 = true)
    (fits : input.count * input.dtypeSize < 2 ^ 64) :
    ∃ transports : TransportMatrix, StagedPlan input.dtypeSize input.worldSize
      (buildReduceScatterTransferPlan cap storage input).2 (directStages input (sliceReductions input transports)) := by
  obtain ⟨_, _, transports, _, state, ran, same⟩ := buildReduceScatterTransferPlan_direct direct built
  rw [same]
  exact ⟨transports, directBuild_staged fits (fun rank _ => emitSliceReductions_lists cap input transports rank)
    sliceReductions_workload ran⟩

/-- A rank ends up with its own contribution and what its peers' buffers held from the start. -/
theorem reduceScatter_column {plan : TransferPlan} {transports : TransportMatrix} {M : Type} [AddCommMonoid M]
    {mem : BufferId → Nat → M} {state : State Int (Shared M)} (positive : 0 < input.dtypeSize)
    (fits : input.count * input.dtypeSize < 2 ^ 64)
    (stagedPlan : StagedPlan input.dtypeSize input.worldSize plan
      (directStages input (sliceReductions input transports)))
    (reached : (planProgram input.dtypeSize plan).Reachable (entryState mem) state)
    (finished : (planProgram input.dtypeSize plan).Finished state)
    (inRange : rank ∈ intRange input.worldSize) (owns : OwnsElement input rank index) :
    state.shared.mem (rankBuffer rank) index = mem (contribution input rank) index +
      ((peersOf rank input.worldSize).map fun peer => mem (rankBuffer peer) index).sum := by
  have column := congrFun (directStages_column sliceReductions_workload positive fits stagedPlan reached finished
    inRange owns) (rankBuffer rank)
  change state.shared.mem (rankBuffer rank) index = _ at column
  rw [column, runBuffers_inputCopies]
  refine (runBuffers_reductions _ (by simp) _).trans ?_
  rw [Function.update_self]
  congr 2
  refine List.map_congr_left fun peer isPeer => ?_
  exact Function.update_of_ne (fun same => (mem_peersOf.mp isPeer).2 (rankBuffer_inj.mp same)) _ _

theorem reduceScatter_sums {plan : TransferPlan} {transports : TransportMatrix} (positive : 0 < input.dtypeSize)
    (fits : input.count * input.dtypeSize < 2 ^ 64)
    (stagedPlan : StagedPlan input.dtypeSize input.worldSize plan
      (directStages input (sliceReductions input transports)))
    (gathered : input.outOfPlace = false ∨ input.worldSize = 1) : ScattersSums input plan := by
  refine ⟨stagedPlan.raceFree, fun M _ mem => ⟨stagedPlan.completes mem, ?_⟩⟩
  intro state reached finished rank inRange index owns
  rw [reduceScatter_column positive fits stagedPlan reached finished inRange owns]
  rcases gathered with inPlace | single
  · have own : ∀ peer, contribution input peer = rankBuffer peer := fun peer => by
      simp [contribution, inPlace]
    simp only [own]
    exact (sum_intRange_eq inRange fun peer => mem (rankBuffer peer) index).symm
  · have alone := peersOf_single (le_of_eq single) inRange
    rw [sum_intRange_eq inRange fun peer => mem (contribution input peer) index, alone]
    rfl

/-- Out of place a rank adds what its peers' output buffers happened to hold. -/
theorem reduceScatter_outOfPlace {plan : TransferPlan} {transports : TransportMatrix} (positive : 0 < input.dtypeSize)
    (fits : input.count * input.dtypeSize < 2 ^ 64) (several : 1 < input.worldSize)
    (stagedPlan : StagedPlan input.dtypeSize input.worldSize plan
      (directStages input (sliceReductions input transports)))
    (owns : OwnsElement input 0 index) (outOfPlace : input.outOfPlace = true) : ¬ScattersSums input plan := by
  intro sums
  let mem : BufferId → Nat → Nat := fun buffer _ => if buffer = rankBuffer 1 then 1 else 0
  obtain ⟨completes, correct⟩ := sums.2 Nat mem
  obtain ⟨final, reached, finished⟩ := completes _ .refl
  have first : (0 : Int) ∈ intRange input.worldSize := mem_intRange.mpr ⟨by omega, by omega⟩
  have isPeer : (1 : Int) ∈ peersOf 0 input.worldSize := mem_peersOf.mpr ⟨⟨by omega, several⟩, by omega⟩
  have expected := correct final reached finished 0 first index owns
  have silent : ∀ peer, mem (contribution input peer) index = 0 := fun peer => by
    simp [mem, contribution, outOfPlace, rankBuffer, bufferOf, rankInputRef, rankBufferRef]
  have contributes : mem (rankBuffer 1) index ≤
      ((peersOf 0 input.worldSize).map fun peer => mem (rankBuffer peer) index).sum :=
    List.single_le_sum (fun _ _ => Nat.zero_le _) _ (List.mem_map.mpr ⟨1, isPeer, rfl⟩)
  have one : mem (rankBuffer 1) index = 1 := if_pos rfl
  rw [reduceScatter_column positive fits stagedPlan reached finished first owns] at expected
  simp only [silent] at expected
  simp only [List.map_const', List.sum_replicate, smul_zero, zero_add] at expected
  rw [expected, one] at contributes
  exact absurd contributes (by decide)

end Direct

section Outcome

variable {input : TransferPlanBuildInput}

/-- The direct reduce-scatter plan leaves every rank the sum of its slice, in every interleaving,
exactly when it works in place or for one rank. -/
theorem buildReduceScatterTransferPlan_sums_iff (direct : AllDirect input.topo input.worldSize)
    (built : (buildReduceScatterTransferPlan cap storage input).1 = true)
    (fits : input.count * input.dtypeSize < 2 ^ 64) :
    ScattersSums input (buildReduceScatterTransferPlan cap storage input).2 ↔
      input.outOfPlace = false ∨ input.worldSize = 1 := by
  obtain ⟨valid, active, _⟩ := buildReduceScatterTransferPlan_direct direct built
  obtain ⟨⟨nonempty, _⟩, positive, _⟩ := (validBuildInput_iff input).mp valid
  obtain ⟨transports, stagedPlan⟩ := buildReduceScatterTransferPlan_staged direct built fits
  refine ⟨fun sums => ?_, reduceScatter_sums positive fits stagedPlan⟩
  by_contra neither
  obtain ⟨outOfPlace, several⟩ := not_or.mp neither
  have first : (0 : Int) ∈ intRange input.worldSize := mem_intRange.mpr ⟨le_refl _, nonempty⟩
  have someBytes : sliceBytes input 0 ≠ 0 := fun none => active 0 first (Or.inl none)
  rw [sliceBytes_eq fits first] at someBytes
  have owns : OwnsElement input 0 (sliceStart input 0) :=
    ⟨le_refl _, Nat.lt_add_of_pos_right (Nat.pos_of_mul_pos_right (Nat.pos_of_ne_zero someBytes))⟩
  exact reduceScatter_outOfPlace positive fits (by omega) stagedPlan owns (by simpa using outOfPlace) sums

/-- Three ranks with an uneven split of seven half-precision elements. -/
theorem buildReduceScatterTransferPlan_sums_three :
    ScattersSums { worldSize := 3, count := 7, dtypeSize := 2 }
      (buildReduceScatterTransferPlan 256 {} { worldSize := 3, count := 7, dtypeSize := 2 }).2 :=
  (buildReduceScatterTransferPlan_sums_iff (allDirect_of_absent rfl) (by decide +kernel) (by decide)).mpr (Or.inl rfl)

/-- Two ranks with separate input and output: each brings only its own slice of its own input into
its buffer, and then reduces its peer's slice out of a buffer nobody filled. -/
theorem buildReduceScatterTransferPlan_sums_unfilled :
    let input : TransferPlanBuildInput := { worldSize := 2, count := 2, dtypeSize := 2, outOfPlace := true }
    (buildReduceScatterTransferPlan 256 {} input).1 = true ∧ AllDirect input.topo input.worldSize ∧
      ¬ScattersSums input (buildReduceScatterTransferPlan 256 {} input).2 := by
  intro input
  have built : (buildReduceScatterTransferPlan 256 {} input).1 = true := by decide +kernel
  have direct : AllDirect input.topo input.worldSize := allDirect_of_absent rfl
  obtain ⟨transports, stagedPlan⟩ := buildReduceScatterTransferPlan_staged direct built (by decide)
  have owns : OwnsElement input 0 0 := ⟨by decide, by decide⟩
  exact ⟨built, direct, reduceScatter_outOfPlace (by decide) (by decide) (by decide) stagedPlan owns rfl⟩

end Outcome

end Ooverlap.Semantics
