import Mathlib.Tactic.IntervalCases
import Ooverlap.Plan.Islands
import Ooverlap.Plan.Listing
import Ooverlap.Plan.RankShape

/-! When planner steps have room: the number of tasks they push against the plan's capacity. -/

namespace Ooverlap.Plan

open Word

def kTmaMultiGpuAllReduceMaxPeers : Nat := 15
def kTmaMultiGpuReduceScatterMaxPeers : Nat := 15
def kTmaMultiGpuAllGatherMaxPeers : Nat := 15

/-- The extra slot of each rank is for its barrier; none is for the entry rendezvous. -/
def kTmaMultiGpuAllReduceMaxTransferTasks : Nat :=
  (kTmaMultiGpuAllReduceMaxPeers + 1) * (2 * kTmaMultiGpuAllReduceMaxPeers + 2)

def kTmaMultiGpuReduceScatterMaxTransferTasks : Nat :=
  (kTmaMultiGpuReduceScatterMaxPeers + 1) * (kTmaMultiGpuReduceScatterMaxPeers + 1)

def kTmaMultiGpuAllGatherMaxTransferTasks : Nat :=
  (kTmaMultiGpuAllGatherMaxPeers + 1) * (kTmaMultiGpuAllGatherMaxPeers + 1)

/-- A step that, when its guard holds and `count` more tasks fit, pushes that many; otherwise it leaves the
cleared plan. -/
structure Takes (cap : Nat) (step : BuildM Unit) (valid : Prop) (count : Nat) : Prop where
  ok : ∀ state : BuildState, valid → state.plan.tasks.length + count ≤ cap → ∃ state', step state = .ok ((), state') ∧
    state'.plan.tasks.length = state.plan.tasks.length + count
  error : ∀ state : BuildState, state.plan.tasks.length ≤ cap →
    ¬(valid ∧ state.plan.tasks.length + count ≤ cap) → step state = .error {}

namespace Takes

theorem pure (cap : Nat) : Takes cap (Pure.pure ()) True 0 where
  ok state _ _ := ⟨state, rfl, rfl⟩
  error _ bounded failed := absurd ⟨trivial, bounded⟩ failed

theorem abort (cap count : Nat) : Takes cap transferPlanAbortBuild False count where
  ok _ impossible _ := impossible.elim
  error _ _ _ := rfl

theorem bind (first : Takes cap step valid count) (second : Takes cap next validNext countNext) :
    Takes cap (step >>= fun _ => next) (valid ∧ validNext) (count + countNext) where
  ok state guard fits := by
    obtain ⟨middle, here, grown⟩ := first.ok state guard.1 (by omega)
    obtain ⟨state', later, grownNext⟩ := second.ok middle guard.2 (by omega)
    refine ⟨state', ?_, by omega⟩
    change (step state >>= fun result => next result.2) = _
    rw [here, ← later]
    rfl
  error state bounded failed := by
    change (step state >>= fun result => next result.2) = _
    by_cases succeeds : valid ∧ state.plan.tasks.length + count ≤ cap
    · obtain ⟨middle, here, grown⟩ := first.ok state succeeds.1 succeeds.2
      rw [here]
      refine second.error middle (by omega) fun ⟨guard, fits⟩ => failed ⟨⟨succeeds.1, guard⟩, ?_⟩
      omega
    · rw [first.error state bounded succeeds]
      rfl

theorem guarded (condition : Prop) [Decidable condition] (taken : Takes cap step valid count) :
    Takes cap (if condition then transferPlanAbortBuild else step) (¬condition ∧ valid) count := by
  by_cases holds : condition
  · simpa [holds] using abort cap count
  · simpa [holds] using taken

theorem congr (takes : Takes cap step valid count) (same : valid ↔ valid') (sameCount : count = count') :
    Takes cap step valid' count' := by
  subst sameCount
  rwa [propext same] at takes

theorem forM (items : List α) (step : α → BuildM Unit) (valid : α → Prop) (count : α → Nat)
    (each : ∀ item ∈ items, Takes cap (step item) (valid item) (count item)) :
    Takes cap (items.forM step) (∀ item ∈ items, valid item) (items.map count).sum := by
  induction items with
  | nil => simpa using pure cap
  | cons item rest ih =>
    have here := each item (List.mem_cons_self ..)
    have later := ih fun other member => each other (List.mem_cons_of_mem _ member)
    simpa using here.bind later

/-- A step that emits a fixed number of tasks. -/
theorem of_emits (emits : Emits cap step valid emission) (counts : ∀ phases, (emission.tasks phases).length = count) :
    Takes cap step valid count where
  ok state guard fits := by
    refine ⟨_, emits.ok state guard (by simpa only [Emission.Fits, counts] using fits), ?_⟩
    simp only [Emission.apply, List.length_append, counts]
  error state bounded failed := by
    refine emits.error state bounded fun succeeds => failed ⟨succeeds.1, ?_⟩
    simpa only [Emission.Fits, counts] using succeeds.2

/-- Marking the terminal tasks never needs room. -/
theorem marked (takes : Takes cap step valid count) (worldSize : Int) :
    Takes cap (step >>= fun _ => markLastTaskPerRankTerminal worldSize) valid count := by
  have marks : Takes cap (markLastTaskPerRankTerminal worldSize) True 0 := by
    refine ⟨fun state _ _ => ⟨_, markLastTaskPerRankTerminal_run worldSize state, ?_⟩, fun _ bounded failed => ?_⟩
    · simp [markedTerminal_length]
    · exact absurd ⟨trivial, bounded⟩ failed
  exact (takes.bind marks).congr (iff_of_eq (and_true _)) rfl

/-- From an empty plan a step succeeds exactly when its guard holds and its tasks fit. -/
theorem succeeds_iff (takes : Takes cap step valid count) (size : Int) :
    (∃ state, step { plan := { worldSize := size } } = .ok ((), state)) ↔ valid ∧ count ≤ cap := by
  constructor
  · intro ⟨state, ran⟩
    by_contra failed
    rw [takes.error _ (Nat.zero_le _) (by simpa using failed)] at ran
    cases ran
  · intro ⟨guard, fits⟩
    obtain ⟨state, ran, _⟩ := takes.ok { plan := { worldSize := size } } guard (by simpa using fits)
    exact ⟨state, ran⟩

end Takes

theorem runPlanner_succeeds_iff (valid : validBuildInput input = true) (planner : BuildM Unit) (storage : TransferPlan) :
    (runPlanner planner storage input).1 = true ↔
      ∃ state, planner { plan := { worldSize := input.worldSize } } = .ok ((), state) := by
  have accepted : ¬(!validBuildInput input) = true := by simp [valid]
  unfold runPlanner
  rw [if_neg accepted]
  cases planner { plan := { worldSize := input.worldSize } } with
  | error plan => simp
  | ok result => exact ⟨fun _ => ⟨result.2, rfl⟩, fun _ => rfl⟩

section Counts

variable (input : TransferPlanBuildInput)

/-- Ready tasks of one rank's entry rendezvous: one publish, and a wait for each peer. -/
def rendezvousTasks : Nat :=
  if input.worldSize ≤ 1 then 0 else input.worldSize.toNat

def inputCopyTasks : Nat :=
  if input.outOfPlace then 1 else 0

def peerTransport (rank peer : Int) : TransportKind :=
  chooseDirectOrFallbackTransport { input.topo with worldSize := input.worldSize } rank peer

/-- Batches of at most four consecutive destinations of one transport, `gathered` of them open. -/
def fanoutBatches (gathered : Nat) (current : TransportKind) : List TransportKind → Nat
  | [] => if gathered = 0 then 0 else 1
  | next :: rest =>
    if gathered ≠ 0 ∧ (gathered = tmaTwoGpuPeerMaxFanoutDsts ∨ next ≠ current) then fanoutBatches 1 next rest + 1
    else fanoutBatches (gathered + 1) (if gathered = 0 then next else current) rest

/-- Copies of a rank's slice to its peers: batched when the slice is aligned, else one for each peer. -/
def copyTasks (rank : Int) : Nat :=
  if AllGather.allGatherCopyFanoutCompatible (sliceBeginBytes input rank) (sliceBytes input rank) then
    fanoutBatches 0 .directNvlink ((peersOf rank input.worldSize).map (peerTransport input rank))
  else (peersOf rank input.worldSize).length

/-- Every rank's slice has bytes and windows in the machine arithmetic of the planner. -/
def SlicesPlanned : Prop :=
  ∀ rank ∈ intRange input.worldSize, ¬(sliceBytes input rank = 0 ∨ sliceWindows input rank ≤ 0)

instance : Decidable (SlicesPlanned input) :=
  inferInstanceAs (Decidable (∀ _ ∈ _, _))

end Counts

section Entry

variable {input : TransferPlanBuildInput}

theorem peersOf_length (inRange : rank ∈ intRange worldSize) : (peersOf rank worldSize).length = worldSize.toNat - 1 := by
  have erased : peersOf rank worldSize = (intRange worldSize).erase rank := by
    rw [(intRange_nodup worldSize).erase_eq_filter]
    exact List.filter_congr fun other _ => by simp [bne, Bool.beq_eq_decide_eq]
  rw [erased, List.length_erase_of_mem inRange, length_intRange]

theorem fanoutBatches_le (gathered : Nat) (current : TransportKind) (pending : List TransportKind) :
    fanoutBatches gathered current pending ≤ (if gathered = 0 then 0 else 1) + pending.length := by
  induction pending generalizing gathered current with
  | nil => simp [fanoutBatches]
  | cons next rest ih =>
    have alone := ih 1 next
    have grown := ih (gathered + 1) (if gathered = 0 then next else current)
    rw [if_neg one_ne_zero] at alone
    rw [if_neg (Nat.succ_ne_zero gathered)] at grown
    rw [fanoutBatches, List.length_cons]
    by_cases flushes : gathered ≠ 0 ∧ (gathered = tmaTwoGpuPeerMaxFanoutDsts ∨ next ≠ current)
    · rw [if_pos flushes, if_neg flushes.1]
      omega
    · rw [if_neg flushes]
      by_cases first : gathered = 0
      · rw [if_pos first] at grown ⊢
        omega
      · rw [if_neg first] at grown ⊢
        omega

/-- Batching never takes more copies than there are peers. -/
theorem copyTasks_le (inRange : rank ∈ intRange input.worldSize) : copyTasks input rank ≤ input.worldSize.toNat - 1 := by
  rw [← peersOf_length inRange]
  unfold copyTasks
  split
  · simpa using fanoutBatches_le 0 .directNvlink ((peersOf rank input.worldSize).map (peerTransport input rank))
  · exact le_refl _

/-- On a directly reachable group a rank publishes its readiness on one channel. -/
theorem publishChannels_direct (direct : AllDirect input.topo input.worldSize)
    (inRange : rank ∈ intRange input.worldSize) (several : 1 < input.worldSize) :
    publishChannels input.topo rank (peersOf rank input.worldSize) = [.deviceMemory] := by
  have bounds := mem_intRange.mp inRange
  have rankValid : validRank rank input.worldSize = true := by simp [validRank, bounds]
  have heard : ∀ peer ∈ peersOf rank input.worldSize,
      chooseReadySignalChannel input.topo peer rank = .deviceMemory := by
    intro peer isPeer
    have inside := (mem_peersOf.mp isPeer).1
    exact chooseReadySignalChannel_direct direct (by simp [validRank, inside]) rankValid
  obtain ⟨peer, isPeer⟩ := List.exists_mem_of_ne_nil _ (peersOf_busy several rank)
  have device : ((peersOf rank input.worldSize).any fun waiter =>
      chooseReadySignalChannel input.topo waiter rank == .deviceMemory) = true :=
    List.any_eq_true.mpr ⟨peer, isPeer, by rw [heard peer isPeer]; rfl⟩
  have host : ((peersOf rank input.worldSize).any fun waiter =>
      chooseReadySignalChannel input.topo waiter rank == .hostMapped) = false := by
    rw [List.any_eq_false]
    intro other isOther
    rw [heard other isOther]
    decide
  simp only [publishChannels, List.filter_cons, device, host, List.filter_nil, if_true, Bool.false_eq_true, if_false]

theorem rendezvousMakers_length (direct : AllDirect input.topo input.worldSize)
    (inRange : rank ∈ intRange input.worldSize) :
    (rendezvousMakers input.topo rank input.worldSize).length = rendezvousTasks input := by
  have bounds := mem_intRange.mp inRange
  unfold rendezvousMakers rendezvousTasks
  by_cases alone : input.worldSize ≤ 1
  · simp [alone]
  · rw [if_neg (by omega), if_neg alone, publishChannels_direct direct inRange (by omega)]
    simp only [List.map_cons, List.map_nil, List.singleton_append, List.length_cons, List.length_map,
      peersOf_length inRange]
    omega

theorem emitEntryRendezvous_takes (cap : Nat) (direct : AllDirect input.topo input.worldSize) :
    Takes cap (emitEntryRendezvous cap input) True (input.worldSize.toNat * rendezvousTasks input) := by
  have loop := Takes.forM (intRange input.worldSize) _ (fun _ => True) (fun _ => rendezvousTasks input)
    fun rank inRange => Takes.of_emits (appendReadyRendezvousTasks_emits cap input.topo rank input.worldSize)
      fun phases => by simpa [Emission.sequence] using rendezvousMakers_length direct inRange
  exact loop.congr (by simp) (by simp)

theorem pushCopyTask_takes (cap : Nat) (input : TransferPlanBuildInput) (executorRank srcRank dstRank : Int)
    (src dst : LogicalBufferRef) (bytes : Nat) (numWindows : Int) (transport : TransportKind) :
    Takes cap (pushCopyTask cap input executorRank srcRank dstRank src dst bytes numWindows transport)
      (¬(bytes = 0 ∨ numWindows ≤ 0)) 1 :=
  Takes.of_emits (pushCopyTask_emits ..) fun _ => rfl

theorem emitOptionalSliceCopies_takes (cap : Nat) (planned : SlicesPlanned input) :
    Takes cap (emitOptionalSliceCopies cap input) True (input.worldSize.toNat * inputCopyTasks input) := by
  unfold emitOptionalSliceCopies inputCopyTasks
  cases input.outOfPlace with
  | false => exact Takes.pure cap
  | true =>
    have loop := Takes.forM (intRange input.worldSize) _ _ _ fun rank _ =>
      pushCopyTask_takes cap input rank rank rank (rankInputRef rank (sliceBeginBytes input rank))
        (rankBufferRef rank (sliceBeginBytes input rank)) (sliceBytes input rank) (sliceWindows input rank) .directNvlink
    exact loop.congr (iff_true_intro planned) (by simp)

end Entry

section Direct

variable {input : TransferPlanBuildInput}

/-- Between ranks of the group the matrix holds what the topology chooses. -/
theorem buildTransportMatrix_chosen (matrix : buildTransportMatrix input.topo input.worldSize = some transports)
    (srcInRange : src ∈ intRange input.worldSize) (dstInRange : dst ∈ intRange input.worldSize) :
    transports src dst = peerTransport input src dst := by
  unfold buildTransportMatrix at matrix
  split at matrix
  · cases matrix
  · cases matrix
    rw [mem_intRange] at srcInRange dstInRange
    exact if_pos ⟨srcInRange.1, srcInRange.2, dstInRange⟩

/-- The matrix of a directly reachable group: every pair is direct, ranks as the topology chooses. -/
theorem buildTransportMatrix_some (direct : AllDirect input.topo input.worldSize)
    (size : 0 < input.worldSize ∧ input.worldSize ≤ 16) :
    ∃ transports, buildTransportMatrix input.topo input.worldSize = some transports ∧
      (∀ src dst, transportUsesDirectTma (transports src dst) = true) ∧
      ∀ src ∈ intRange input.worldSize, ∀ dst ∈ intRange input.worldSize,
        transports src dst = peerTransport input src dst := by
  have limit : (kPlannerMaxRanks : Int) = 16 := rfl
  have within : ¬(input.worldSize ≤ 0 ∨ input.worldSize > (kPlannerMaxRanks : Int)) := by omega
  obtain ⟨transports, matrix⟩ : ∃ transports, buildTransportMatrix input.topo input.worldSize = some transports := by
    unfold buildTransportMatrix
    rw [if_neg within]
    exact ⟨_, rfl⟩
  exact ⟨transports, matrix, buildTransportMatrix_direct direct matrix, fun src srcInRange dst dstInRange =>
    buildTransportMatrix_chosen matrix srcInRange dstInRange⟩

end Direct

namespace ReduceScatter

variable {cap : Nat} {input : TransferPlanBuildInput} {transports : TransportMatrix}

/-- Tasks of the direct plan: each rank's input copy, entry rendezvous and reductions. -/
def directTasks (input : TransferPlanBuildInput) : Nat :=
  input.worldSize.toNat * (inputCopyTasks input + rendezvousTasks input + (input.worldSize.toNat - 1))

def SizesPlanned (input : TransferPlanBuildInput) : Prop :=
  ¬(totalBytes input = 0 ∨ totalWindows input ≤ 0) ∧ SlicesPlanned input

instance (input : TransferPlanBuildInput) : Decidable (SizesPlanned input) :=
  inferInstanceAs (Decidable (_ ∧ _))

theorem fillReduceScatterSliceMetadata_iff : fillReduceScatterSliceMetadata input = true ↔ SizesPlanned input := by
  simp [fillReduceScatterSliceMetadata, SizesPlanned, SlicesPlanned]

theorem emitSliceReductions_takes (reaches : ∀ src dst, transportUsesDirectTma (transports src dst) = true)
    (planned : SlicesPlanned input) (inRange : rank ∈ intRange input.worldSize) :
    Takes cap (emitSliceReductions cap input transports rank) True (input.worldSize.toNat - 1) := by
  have loop := Takes.forM (peersOf rank input.worldSize) _ _ (fun _ => 1) fun peer _ =>
    Takes.guarded ((!transportUsesDirectTma (transports rank peer)) = true)
      (Takes.of_emits (pushReduceTask_emits cap input rank peer rank (rankBufferRef peer (sliceBeginBytes input rank))
        (rankBufferRef rank (sliceBeginBytes input rank)) (sliceBytes input rank) (sliceWindows input rank)
        (transports rank peer)) fun _ => rfl)
  refine loop.congr (iff_true_intro fun peer _ => ⟨by simp [reaches], planned rank inRange⟩) ?_
  simp [peersOf_length inRange]

theorem buildDirectReduceScatterPlan_takes (direct : AllDirect input.topo input.worldSize)
    (reaches : ∀ src dst, transportUsesDirectTma (transports src dst) = true) :
    Takes cap (buildDirectReduceScatterPlan cap input transports) (SizesPlanned input) (directTasks input) := by
  unfold buildDirectReduceScatterPlan
  by_cases sized : SizesPlanned input
  · have planned := sized.2
    rw [if_neg (by simpa using fillReduceScatterSliceMetadata_iff.mpr sized)]
    have copies := emitOptionalSliceCopies_takes cap planned
    have entries := emitEntryRendezvous_takes cap direct
    have reductions := Takes.forM (intRange input.worldSize) (emitSliceReductions cap input transports)
      (fun _ => True) (fun _ => input.worldSize.toNat - 1) fun rank inRange =>
        emitSliceReductions_takes reaches planned inRange
    have whole := copies.bind (entries.bind (reductions.marked input.worldSize))
    refine whole.congr (by simp [sized]) ?_
    simp only [directTasks, List.map_const', List.sum_replicate, length_intRange, smul_eq_mul, Nat.mul_add,
      Nat.add_assoc]
  · have unplanned : fillReduceScatterSliceMetadata input ≠ true := mt fillReduceScatterSliceMetadata_iff.mp sized
    rw [if_pos (by simpa using unplanned)]
    exact (Takes.abort cap _).congr (by simp [sized]) rfl

/-- On a directly reachable group the planner succeeds exactly when every size is planned and the tasks fit. -/
theorem buildReduceScatterTransferPlan_succeeds_iff (valid : validBuildInput input = true)
    (direct : AllDirect input.topo input.worldSize) :
    (buildReduceScatterTransferPlan cap storage input).1 = true ↔ SizesPlanned input ∧ directTasks input ≤ cap := by
  have size := ((validBuildInput_iff input).mp valid).1
  rw [buildReduceScatterTransferPlan, runPlanner_succeeds_iff valid]
  obtain ⟨transports, matrix, reaches, _⟩ := buildTransportMatrix_some direct size
  obtain ⟨islands, grouped⟩ := buildIslands_some input transports size
  have single := buildIslands_direct input reaches grouped
  have planned : planReduceScatter cap input = buildDirectReduceScatterPlan cap input transports := by
    simp only [planReduceScatter, matrix, grouped, if_pos single]
  rw [planned]
  exact (buildDirectReduceScatterPlan_takes direct reaches).succeeds_iff input.worldSize

/-- The plan's capacity holds the tasks of eleven ranks and no more. -/
theorem directTasks_fit_iff (valid : validBuildInput input = true) :
    directTasks input ≤ kTmaMultiGpuReduceScatterMaxTransferTasks ↔ input.worldSize ≤ 11 := by
  obtain ⟨size, _⟩ := (validBuildInput_iff input).mp valid
  have capacity : kTmaMultiGpuReduceScatterMaxTransferTasks = 256 := rfl
  have inputs : inputCopyTasks input ≤ 1 := by
    unfold inputCopyTasks
    split <;> simp
  obtain ⟨ranks, same⟩ : ∃ ranks : Nat, input.worldSize = ranks := ⟨input.worldSize.toNat, by omega⟩
  have bounds : 1 ≤ ranks ∧ ranks ≤ 16 := by omega
  simp only [directTasks, rendezvousTasks, capacity, same, Int.toNat_natCast]
  generalize inputCopyTasks input = copies at inputs
  obtain ⟨lower, upper⟩ := bounds
  interval_cases ranks <;> simp <;> omega

end ReduceScatter

namespace AllGather

variable {cap : Nat} {input : TransferPlanBuildInput} {transports : TransportMatrix}

/-- Tasks of the direct plan: each rank's input copy, entry rendezvous and copies to its peers. -/
def directTasks (input : TransferPlanBuildInput) : Nat :=
  ((intRange input.worldSize).map fun rank =>
    inputCopyTasks input + rendezvousTasks input + copyTasks input rank).sum

theorem pushCopyBatchTask_takes (reaches : transportUsesDirectTma transport = true)
    (sized : ¬(bytes = 0 ∨ numWindows ≤ 0)) (some : batch ≠ []) (few : batch.length ≤ tmaTwoGpuPeerMaxFanoutDsts) :
    Takes cap (pushCopyBatchTask cap input srcRank srcRank batch (rankBufferRef srcRank beginBytes)
      (batch.map fun dstRank => rankBufferRef dstRank beginBytes) bytes numWindows transport) True 1 := by
  have fanout : Takes cap (pushCopyFanoutTask cap input srcRank srcRank batch (rankBufferRef srcRank beginBytes)
      (batch.map fun dstRank => rankBufferRef dstRank beginBytes) bytes numWindows transport) True 1 := by
    unfold pushCopyFanoutTask
    have nonempty : batch.length ≠ 0 := mt List.length_eq_zero_iff.mp some
    have accepted : ¬(batch.length = 0 ∨ batch.length > tmaTwoGpuPeerMaxFanoutDsts ∨ bytes = 0 ∨ numWindows ≤ 0 ∨
        (!transportUsesDirectTma transport) = true) := by
      simp only [reaches, Bool.not_true, Bool.false_eq_true, or_false]
      omega
    rw [List.length_map, if_neg accepted]
    exact Takes.of_emits (Emits.push cap srcRank _) fun _ => rfl
  match batch, some with
  | [dstRank], _ => exact (pushCopyTask_takes ..).congr (iff_true_intro sized) rfl
  | _ :: _ :: _, _ => exact fanout

theorem emitCopyBatches_takes (reaches : ∀ src dst, transportUsesDirectTma (transports src dst) = true)
    (sized : ¬(bytes = 0 ∨ numWindows ≤ 0)) (pending : List Int)
    (inRange : ∀ dstRank ∈ pending, dstRank ∈ intRange input.worldSize) (batch : List Int)
    (batchTransport : TransportKind) (direct : transportUsesDirectTma batchTransport = true)
    (few : batch.length ≤ tmaTwoGpuPeerMaxFanoutDsts) :
    Takes cap (emitCopyBatches cap input transports srcRank beginBytes bytes numWindows batch
        batchTransport pending) True
      (fanoutBatches batch.length batchTransport ((pending.filter (· ≠ srcRank)).map (transports srcRank))) := by
  have one : (1 : Nat) ≤ tmaTwoGpuPeerMaxFanoutDsts := by decide
  induction pending generalizing batch batchTransport with
  | nil =>
    unfold emitCopyBatches
    cases batch with
    | nil => exact Takes.pure cap
    | cons first rest => exact pushCopyBatchTask_takes direct sized (List.cons_ne_nil _ _) few
  | cons dstRank rest ih =>
    have later := ih fun other member => inRange other (List.mem_cons_of_mem _ member)
    have valid : validRank dstRank input.worldSize = true := by
      simpa [validRank] using mem_intRange.mp (inRange dstRank (List.mem_cons_self ..))
    unfold emitCopyBatches
    by_cases own : dstRank = srcRank
    · rw [if_pos own, List.filter_cons_of_neg (by simpa using own)]
      exact later batch batchTransport direct few
    · rw [if_neg own, if_neg (by simp [valid]), if_neg (by simp [reaches]), List.filter_cons_of_pos (by simpa using own),
        List.map_cons, fanoutBatches]
      cases batch with
      | nil => exact later [dstRank] _ (reaches _ _) one
      | cons first others =>
        by_cases flushes : others.length + 1 = tmaTwoGpuPeerMaxFanoutDsts ∨ transports srcRank dstRank ≠ batchTransport
        · rw [if_pos (by simpa using flushes), if_pos ⟨by simp, flushes⟩, Nat.add_comm]
          exact ((pushCopyBatchTask_takes direct sized (List.cons_ne_nil _ _) few).bind
            (later [dstRank] _ (reaches _ _) one)).congr (by simp) rfl
        · have stays : ¬((first :: others).length ≠ 0 ∧ ((first :: others).length = tmaTwoGpuPeerMaxFanoutDsts ∨
              transports srcRank dstRank ≠ batchTransport)) := fun holds => flushes holds.2
          rw [if_neg (by simpa using flushes), if_neg stays]
          have room : (first :: others ++ [dstRank]).length ≤ tmaTwoGpuPeerMaxFanoutDsts := by
            simp only [List.length_append, List.length_cons, List.length_nil] at few ⊢
            omega
          simpa using later (first :: others ++ [dstRank]) batchTransport direct room

theorem emitAllGatherSourceCopies_takes (reaches : ∀ src dst, transportUsesDirectTma (transports src dst) = true)
    (chosen : ∀ src ∈ intRange input.worldSize, ∀ dst ∈ intRange input.worldSize,
      transports src dst = peerTransport input src dst)
    (planned : SlicesPlanned input) (inRange : rank ∈ intRange input.worldSize) :
    Takes cap (emitAllGatherSourceCopies cap input transports rank (intRange input.worldSize)
      (sliceBeginBytes input rank) (sliceBytes input rank) (sliceWindows input rank)) True (copyTasks input rank) := by
  have sized := planned rank inRange
  have valid : validRank rank input.worldSize = true := by simpa [validRank] using mem_intRange.mp inRange
  have entered : ¬(((intRange input.worldSize).length : Int) > input.worldSize ∨
      (!validRank rank input.worldSize) = true ∨ sliceBytes input rank = 0 ∨ sliceWindows input rank ≤ 0) := by
    have bounds := mem_intRange.mp inRange
    rw [length_intRange]
    simp only [valid, Bool.not_true, Bool.false_eq_true, false_or]
    omega
  have filtered : (intRange input.worldSize).filter (· ≠ rank) = peersOf rank input.worldSize := rfl
  unfold emitAllGatherSourceCopies copyTasks
  rw [if_neg entered]
  by_cases aligned : allGatherCopyFanoutCompatible (sliceBeginBytes input rank) (sliceBytes input rank) = true
  · rw [if_neg (by simp [aligned]), if_pos aligned]
    have transported : (peersOf rank input.worldSize).map (peerTransport input rank) =
        ((intRange input.worldSize).filter (· ≠ rank)).map (transports rank) := by
      refine List.map_congr_left fun peer isPeer => ?_
      exact (chosen rank inRange peer (mem_intRange.mpr (mem_peersOf.mp isPeer).1)).symm
    rw [transported]
    exact emitCopyBatches_takes reaches sized _ (fun _ member => member) [] .directNvlink rfl (Nat.zero_le _)
  · rw [if_pos (by simp [aligned]), if_neg aligned, filtered]
    have loop := Takes.forM (peersOf rank input.worldSize) _ _ (fun _ => 1) fun peer _ =>
      Takes.guarded ((!validRank peer input.worldSize || !transportUsesDirectTma (transports rank peer)) = true)
        (pushCopyTask_takes cap input rank rank peer (rankBufferRef rank (sliceBeginBytes input rank))
          (rankBufferRef peer (sliceBeginBytes input rank)) (sliceBytes input rank) (sliceWindows input rank)
          (transports rank peer))
    refine loop.congr (iff_true_intro fun peer isPeer => ⟨?_, sized⟩) (by simp)
    have peerValid : validRank peer input.worldSize = true := by simpa [validRank] using (mem_peersOf.mp isPeer).1
    simp [reaches, peerValid]

/-- Every slice is planned and ends behind its beginning. -/
def SizesPlanned (input : TransferPlanBuildInput) : Prop :=
  SlicesPlanned input ∧ ∀ rank ∈ intRange input.worldSize,
    sliceBeginBytes input rank ≤ toUInt64 (sliceBeginBytes input rank + sliceBytes input rank)

instance (input : TransferPlanBuildInput) : Decidable (SizesPlanned input) :=
  inferInstanceAs (Decidable (_ ∧ ∀ _ ∈ _, _))

theorem fillAllGatherSliceMetadata_iff :
    fillAllGatherSliceMetadata input (oneRankPerSlice input) = true ↔ SizesPlanned input := by
  simp only [fillAllGatherSliceMetadata, SizesPlanned, SlicesPlanned, islandBlockEnd, islandBlockBegin, oneRankPerSlice,
    Bool.and_eq_true, List.all_eq_true, Bool.not_eq_true', Bool.or_eq_false_iff, beq_eq_false_iff_ne, not_or,
    decide_eq_false_iff_not, ne_eq]
  exact and_congr_right fun _ => forall₂_congr fun rank _ => decide_eq_false_iff_not.trans Nat.not_lt

theorem buildDirectAllGatherPlan_takes (direct : AllDirect input.topo input.worldSize)
    (reaches : ∀ src dst, transportUsesDirectTma (transports src dst) = true)
    (chosen : ∀ src ∈ intRange input.worldSize, ∀ dst ∈ intRange input.worldSize,
      transports src dst = peerTransport input src dst) :
    Takes cap (buildDirectAllGatherPlan cap input transports) (SizesPlanned input) (directTasks input) := by
  unfold buildDirectAllGatherPlan
  by_cases sized : SizesPlanned input
  · have planned := sized.1
    rw [if_neg (by simpa using fillAllGatherSliceMetadata_iff.mpr sized)]
    have inputs := emitOptionalSliceCopies_takes cap planned
    have entries := emitEntryRendezvous_takes cap direct
    have each : ∀ rank ∈ intRange input.worldSize, Takes cap (emitAllGatherSourceCopies cap input transports rank
        (intRange input.worldSize) (sliceBeginBytes input rank) (sliceBytes input rank) (sliceWindows input rank))
        True (copyTasks input rank) := fun rank inRange => emitAllGatherSourceCopies_takes reaches chosen planned inRange
    have copies := Takes.forM (intRange input.worldSize) _ (fun _ => True) (copyTasks input) each
    have whole := inputs.bind (entries.bind (copies.marked input.worldSize))
    refine whole.congr (by simp [sized]) ?_
    simp only [directTasks, List.sum_map_add, List.map_const', List.sum_replicate, length_intRange, smul_eq_mul,
      Nat.add_assoc]
  · have unplanned : fillAllGatherSliceMetadata input (oneRankPerSlice input) ≠ true :=
      mt fillAllGatherSliceMetadata_iff.mp sized
    rw [if_pos (by simpa using unplanned)]
    exact (Takes.abort cap _).congr (by simp [sized]) rfl

/-- A directly reachable group is one island of all ranks, which is one interval. -/
theorem buildAllGatherIslands_direct (size : 0 < input.worldSize ∧ input.worldSize ≤ 16)
    (reaches : ∀ src dst, transportUsesDirectTma (transports src dst) = true) :
    ∃ islands, buildAllGatherIslands input transports = some islands ∧ islands.islandCount ≤ 1 := by
  obtain ⟨islands, grouped⟩ := buildIslands_some input transports size
  have single := buildIslands_direct input reaches grouped
  have partition := buildIslands_partition input transports grouped
  have home : ∀ rank ∈ intRange input.worldSize, islands.islandOfRank rank = 0 := by
    intro rank inRange
    have bounds := mem_intRange.mp (partition.home rank inRange)
    omega
  obtain ⟨last, whole⟩ : ∃ last : Nat, input.worldSize = (last + 1 : Nat) := ⟨input.worldSize.toNat - 1, by omega⟩
  have interval : ∀ island ∈ intRange islands.islandCount,
      islands.lastRank island - islands.firstRank island + 1 = (islands.islandRanks island).length := by
    intro island inRange
    have bounds := mem_intRange.mp inRange
    have zero : island = 0 := by omega
    have all : islands.islandRanks island = intRange input.worldSize := by
      rw [partition.ranks]
      refine List.filter_eq_self.mpr fun rank member => ?_
      simp [home rank member, zero]
    have first : (intRange input.worldSize).headD input.worldSize = 0 := by
      rw [whole, intRange, Int.toNat_natCast, List.range_succ_eq_map]
      rfl
    have final : (intRange input.worldSize).getLastD (-1) = last := by
      rw [whole, intRange, Int.toNat_natCast, List.range_succ, List.map_append]
      simp
    obtain ⟨firstRank, lastRank⟩ := buildIslands_ends input transports grouped island
    rw [firstRank, lastRank, all, first, final, length_intRange]
    omega
  refine ⟨islands, ?_, single⟩
  unfold buildAllGatherIslands
  rw [grouped, Option.bind_some, if_pos]
  exact List.all_eq_true.mpr fun island inRange => by simpa using interval island inRange

/-- On a directly reachable group the planner succeeds exactly when every size is planned and the tasks fit. -/
theorem buildAllGatherTransferPlan_succeeds_iff (valid : validBuildInput input = true)
    (direct : AllDirect input.topo input.worldSize) :
    (buildAllGatherTransferPlan cap storage input).1 = true ↔ SizesPlanned input ∧ directTasks input ≤ cap := by
  have size := ((validBuildInput_iff input).mp valid).1
  rw [buildAllGatherTransferPlan, runPlanner_succeeds_iff valid]
  obtain ⟨transports, matrix, reaches, chosen⟩ := buildTransportMatrix_some direct size
  obtain ⟨islands, grouped, single⟩ := buildAllGatherIslands_direct size reaches
  have planned : planAllGather cap input = buildDirectAllGatherPlan cap input transports := by
    simp only [planAllGather, matrix, grouped, if_pos single]
  rw [planned]
  exact (buildDirectAllGatherPlan_takes direct reaches chosen).succeeds_iff input.worldSize

end AllGather

end Ooverlap.Plan
