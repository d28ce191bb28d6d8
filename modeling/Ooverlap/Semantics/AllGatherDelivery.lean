import Ooverlap.Semantics.ReduceScatterSums

/-! The direct all-gather plan: one delivery for every pair of ranks, and all slices everywhere. -/

namespace Ooverlap.Semantics

open Ooverlap.Plan Ooverlap.Plan.AllReduce Ooverlap.Plan.AllGather Ooverlap.Interleaving

section SourceCopies

variable {input : TransferPlanBuildInput} {transports : TransportMatrix} {srcRank : Int}

/-- A copy of `bytes` bytes at `start` of the source rank's buffer to the same place elsewhere. -/
structure SourceCopy (srcRank : Int) (start bytes : Nat) (task : TransferTask) : Prop where
  op : task.op = .copy ∨ task.op = .copyFanout
  executor : task.executorRank = srcRank
  source : task.src = rankBufferRef srcRank start
  length : task.bytes = bytes

theorem batchTask_destinations (begin bytes : Nat) (windows : Int) (batch : List Int) (transport : TransportKind)
    (few : batch.length ≤ tmaTwoGpuPeerMaxFanoutDsts) :
    destinationRefs (batchTask input srcRank begin bytes windows batch transport) =
      batch.map fun dstRank => rankBufferRef dstRank begin := by
  unfold batchTask
  split
  · rfl
  · have whole : (batch.map fun dstRank => rankBufferRef dstRank begin).take tmaTwoGpuPeerMaxFanoutDsts =
        batch.map fun dstRank => rankBufferRef dstRank begin :=
      List.take_of_length_le (by rwa [List.length_map])
    simp only [destinationRefs, makeCopyFanoutTransferTask, makeFanoutTransferTask, whole, List.length_map,
      Int.toNat_natCast]
    exact List.take_of_length_le (by rw [List.length_map])

theorem batchTask_copies (begin bytes : Nat) (windows : Int) (batch : List Int) (transport : TransportKind) :
    SourceCopy srcRank begin bytes (batchTask input srcRank begin bytes windows batch transport) := by
  unfold batchTask
  split
  · exact ⟨Or.inl rfl, rfl, rfl, rfl⟩
  · exact ⟨Or.inr rfl, rfl, rfl, rfl⟩

theorem sourceCopies_copies (candidates : List Int) (begin bytes : Nat) (windows : Int) :
    ∀ task ∈ sourceCopies input transports srcRank candidates begin bytes windows,
      SourceCopy srcRank begin bytes task := by
  intro task member
  unfold sourceCopies at member
  split at member
  · obtain ⟨_, _, rfl⟩ := List.mem_map.mp member
    exact ⟨Or.inl rfl, rfl, rfl, rfl⟩
  · obtain ⟨_, _, rfl⟩ := List.mem_map.mp member
    exact batchTask_copies ..

/-- The copies of a slice reach every other candidate once, in order. -/
theorem sourceCopies_destinations (candidates : List Int) (begin bytes : Nat) (windows : Int) :
    (sourceCopies input transports srcRank candidates begin bytes windows).flatMap destinationRefs =
      (candidates.filter (· ≠ srcRank)).map fun dstRank => rankBufferRef dstRank begin := by
  unfold sourceCopies
  split
  · rw [List.flatMap_map]
    exact List.map_eq_flatMap.symm
  · have sizes := copyBatches_sizes transports srcRank [] .directNvlink candidates (Nat.zero_le _)
    have each : ∀ flushed ∈ copyBatches transports srcRank [] .directNvlink candidates,
        destinationRefs (batchTask input srcRank begin bytes windows flushed.1 flushed.2) =
          flushed.1.map fun dstRank => rankBufferRef dstRank begin :=
      fun flushed member => batchTask_destinations _ _ _ _ _ (sizes flushed member).2
    rw [List.flatMap_map, List.flatMap_congr each, ← List.map_flatMap, copyBatches_destinations, List.nil_append]

end SourceCopies

section Deliveries

/-- Every destination of every data task, with the task. -/
def deliveries (tasks : List TransferTask) : List (TransferTask × LogicalBufferRef) :=
  (tasks.filter fun task => movesData task).flatMap fun task => (destinationRefs task).map fun dst => (task, dst)

/-- Whether a delivery goes from one rank's buffer to another's. -/
def goes (srcRank dstRank : Int) (delivery : TransferTask × LogicalBufferRef) : Bool :=
  bufferOf delivery.1.src = rankBuffer srcRank && bufferOf delivery.2 = rankBuffer dstRank

theorem deliveries_append (left right : List TransferTask) :
    deliveries (left ++ right) = deliveries left ++ deliveries right := by
  simp [deliveries]

theorem deliveries_quiet (quiet : ∀ task ∈ tasks, ¬movesData task) : deliveries tasks = [] := by
  have none : (tasks.filter fun task => decide (movesData task)) = [] :=
    List.filter_eq_nil_iff.mpr fun task member => by simpa using quiet task member
  simp [deliveries, none]

theorem mem_deliveries : delivery ∈ deliveries tasks ↔
    delivery.1 ∈ tasks ∧ movesData delivery.1 ∧ delivery.2 ∈ destinationRefs delivery.1 := by
  obtain ⟨task, ref⟩ := delivery
  simp only [deliveries, List.mem_flatMap, List.mem_filter, List.mem_map, Prod.mk.injEq, decide_eq_true_eq]
  constructor
  · rintro ⟨_, ⟨member, moves⟩, _, reaches, rfl, rfl⟩
    exact ⟨member, moves, reaches⟩
  · rintro ⟨member, moves, reaches⟩
    exact ⟨task, ⟨member, moves⟩, ref, reaches, rfl, rfl⟩

/-- Deliveries do not depend on phases and terminal marks. -/
theorem deliveries_unmarked (tasks : List TransferTask) :
    deliveries (tasks.map TransferTask.unmarked) =
      (deliveries tasks).map fun delivery => (delivery.1.unmarked, delivery.2) := by
  have same : ((fun task => decide (movesData task)) ∘ TransferTask.unmarked) = fun task => decide (movesData task) :=
    rfl
  rw [deliveries, List.filter_map, List.flatMap_map, same, deliveries, List.map_flatMap]
  exact List.flatMap_congr fun task _ => by
    rw [List.map_map]
    rfl

/-- Tasks that cannot deliver from one rank to another leave its deliveries alone. -/
theorem deliveries_filter (tasks : List TransferTask) (relevant : TransferTask → Bool)
    (others : ∀ task ∈ tasks, relevant task = false → movesData task → bufferOf task.src ≠ rankBuffer srcRank) :
    (deliveries tasks).filter (goes srcRank dstRank) =
      (deliveries (tasks.filter relevant)).filter (goes srcRank dstRank) := by
  induction tasks with
  | nil => rfl
  | cons task rest ih =>
    have later := ih fun other member => others other (List.mem_cons_of_mem _ member)
    rw [← List.singleton_append, deliveries_append, List.filter_append, later, List.filter_append, deliveries_append,
      List.filter_append]
    congr 1
    cases keep : relevant task with
    | true => rw [List.filter_cons_of_pos keep, List.filter_nil]
    | false =>
      rw [List.filter_cons_of_neg (by simp [keep]), List.filter_nil]
      refine List.filter_eq_nil_iff.mpr fun delivery member => ?_
      obtain ⟨only, moves, _⟩ := mem_deliveries.mp member
      rw [List.mem_singleton.mp only] at moves
      have elsewhere := others task (List.mem_cons_self ..) keep moves
      simp [goes, List.mem_singleton.mp only, elsewhere]

theorem filter_key {items : List α} {key : α → β} [DecidableEq β] (distinct : (items.map key).Nodup) (member : wanted ∈ items.map key) :
    ∃ item, items.filter (fun item => key item = wanted) = [item] ∧ key item = wanted := by
  induction items with
  | nil => cases member
  | cons item rest ih =>
    obtain ⟨fresh, distinctRest⟩ := List.nodup_cons.mp distinct
    by_cases here : key item = wanted
    · refine ⟨item, ?_, here⟩
      have none : rest.filter (fun item => decide (key item = wanted)) = [] :=
        List.filter_eq_nil_iff.mpr fun other inRest => by
          have apart : key other ≠ wanted := fun same => fresh (here ▸ same ▸ List.mem_map_of_mem inRest)
          simpa using apart
      rw [List.filter_cons_of_pos (by simpa using here), none]
    · obtain ⟨found, only, same⟩ := ih distinctRest ((List.mem_cons.mp member).resolve_left fun same => here same.symm)
      exact ⟨found, by rw [List.filter_cons_of_neg (by simpa using here), only], same⟩

end Deliveries

/-- All-gather: every ordered pair of ranks gets one delivery of the whole slice, no run gets stuck
or races, and every finished run leaves all slices in every buffer. -/
structure GathersSlices (input : TransferPlanBuildInput) (plan : TransferPlan) : Prop where
  delivered : ∀ srcRank ∈ intRange input.worldSize, ∀ dstRank ∈ peersOf srcRank input.worldSize,
    ∃ task, (deliveries plan.tasks).filter (goes srcRank dstRank) =
        [(task, rankBufferRef dstRank (sliceStart input srcRank * input.dtypeSize))] ∧
      SourceCopy srcRank (sliceStart input srcRank * input.dtypeSize) (sliceLength input srcRank * input.dtypeSize) task
  raceFree : RaceFree input.dtypeSize plan
  gathered : ∀ (M : Type) [AddCommMonoid M] (mem : BufferId → Nat → M),
    let program := planProgram (M := M) input.dtypeSize plan
    Completes program.Step (Program.start (entryState mem)) program.Finished ∧
    ∀ state, program.Reachable (entryState mem) state → program.Finished state →
      ∀ rank ∈ intRange input.worldSize, ∀ index < input.count,
        ∃ owner ∈ intRange input.worldSize, OwnsElement input owner index ∧
          state.shared.mem (rankBuffer rank) index = mem (contribution input owner) index

section Direct

variable {input : TransferPlanBuildInput} {transports : TransportMatrix}

/-- The copies of every rank's slice, as the direct plan lists them. -/
def directCopies (input : TransferPlanBuildInput) (transports : TransportMatrix) (srcRank : Int) : List TransferTask :=
  sourceCopies input transports srcRank (intRange input.worldSize) (sliceBeginBytes input srcRank)
    (sliceBytes input srcRank) (sliceWindows input srcRank)

theorem SourceCopy.moves (copies : SourceCopy srcRank start bytes task) : movesData task := by
  rcases copies.op with op | op
  · exact Or.inl op
  · exact Or.inr (Or.inl op)

theorem directCopies_destinations (srcRank : Int) :
    (directCopies input transports srcRank).flatMap destinationRefs =
      (peersOf srcRank input.worldSize).map fun dstRank => rankBufferRef dstRank (sliceBeginBytes input srcRank) :=
  sourceCopies_destinations ..

variable (input) (transports) in
theorem directCopies_copies (srcRank : Int) : ∀ task ∈ directCopies input transports srcRank,
    SourceCopy srcRank (sliceBeginBytes input srcRank) (sliceBytes input srcRank) task :=
  sourceCopies_copies _ _ _ _

theorem directCopies_workload : SliceWorkload input (directCopies input transports) where
  executor rank _ task member := (directCopies_copies input transports rank task member).executor
  moves rank _ task member := (directCopies_copies input transports rank task member).moves
  within rank _ task member := by
    have copies := directCopies_copies input transports rank task member
    refine ⟨fun _ => copies.length, fun _ => by rw [copies.source]; rfl, fun _ dst isDestination => ?_⟩
    have reached : dst ∈ (directCopies input transports rank).flatMap destinationRefs :=
      List.mem_flatMap.mpr ⟨task, member, isDestination⟩
    rw [directCopies_destinations] at reached
    obtain ⟨_, _, rfl⟩ := List.mem_map.mp reached
    rfl

variable (transports) in
/-- Among a rank's own copies one delivery goes to each peer. -/
theorem directCopies_delivery (isPeer : dstRank ∈ peersOf srcRank input.worldSize) :
    ∃ task ∈ directCopies input transports srcRank,
      (deliveries (directCopies input transports srcRank)).filter (goes srcRank dstRank) =
        [(task, rankBufferRef dstRank (sliceBeginBytes input srcRank))] := by
  have copies := directCopies_copies input transports srcRank
  have all : ((directCopies input transports srcRank).filter fun task => decide (movesData task)) =
      directCopies input transports srcRank :=
    List.filter_eq_self.mpr fun task member => by simpa using (copies task member).moves
  have targets : (deliveries (directCopies input transports srcRank)).map (fun delivery => bufferOf delivery.2) =
      (peersOf srcRank input.worldSize).map rankBuffer := by
    have refs : (deliveries (directCopies input transports srcRank)).map Prod.snd =
        (directCopies input transports srcRank).flatMap destinationRefs := by
      rw [deliveries, all, List.map_flatMap]
      exact List.flatMap_congr fun task _ => by simp [Function.comp_def]
    calc
      _ = ((deliveries (directCopies input transports srcRank)).map Prod.snd).map bufferOf := List.map_map.symm
      _ = (peersOf srcRank input.worldSize).map rankBuffer := by
        rw [refs, directCopies_destinations, List.map_map]
        rfl
  have distinct : ((peersOf srcRank input.worldSize).map rankBuffer).Nodup :=
    (peersOf_nodup srcRank input.worldSize).map fun _ _ => rankBuffer_inj.mp
  rw [← targets] at distinct
  have wanted : rankBuffer dstRank ∈
      (deliveries (directCopies input transports srcRank)).map fun delivery => bufferOf delivery.2 := by
    rw [targets]
    exact List.mem_map_of_mem isPeer
  obtain ⟨⟨task, ref⟩, only, target⟩ := filter_key distinct wanted
  have sameFilter : (deliveries (directCopies input transports srcRank)).filter (goes srcRank dstRank) =
      (deliveries (directCopies input transports srcRank)).filter fun delivery =>
        bufferOf delivery.2 = rankBuffer dstRank :=
    List.filter_congr fun delivery member => by
      have source := (copies delivery.1 (mem_deliveries.mp member).1).source
      simp [goes, source, rankBuffer, bufferOf, rankBufferRef]
  have delivered : (task, ref) ∈ deliveries (directCopies input transports srcRank) :=
    (List.mem_filter.mp (only ▸ List.mem_singleton_self (task, ref))).1
  obtain ⟨member, _, isDestination⟩ := mem_deliveries.mp delivered
  have reached : ref ∈ (directCopies input transports srcRank).flatMap destinationRefs :=
    List.mem_flatMap.mpr ⟨task, member, isDestination⟩
  rw [directCopies_destinations] at reached
  obtain ⟨peer, _, rfl⟩ := List.mem_map.mp reached
  have samePeer : peer = dstRank := rankBuffer_inj.mp target
  exact ⟨task, member, by rw [sameFilter, only, samePeer]⟩

/-- The copies of a rank hand what it holds to every peer. -/
theorem runBuffers_copies {M : Type} [AddCommMonoid M] (tasks : List TransferTask)
    (copies : ∀ task ∈ tasks, SourceCopy srcRank start bytes task)
    (away : rankBuffer srcRank ∉ (tasks.flatMap destinationRefs).map bufferOf) (values : BufferId → M) :
    runBuffers tasks values = fun buffer =>
      if buffer ∈ (tasks.flatMap destinationRefs).map bufferOf then values (rankBuffer srcRank) else values buffer := by
  induction tasks generalizing values with
  | nil => simp [runBuffers]
  | cons task rest ih =>
    rw [List.flatMap_cons, List.map_append, List.mem_append, not_or] at away
    have copy := copies task (List.mem_cons_self ..)
    have effect : bufferEffect task values = fun buffer =>
        if buffer ∈ (destinationRefs task).map bufferOf then values (rankBuffer srcRank) else values buffer := by
      have sourceBuffer : bufferOf task.src = rankBuffer srcRank := by
        rw [copy.source]
        rfl
      funext buffer
      rcases copy.op with op | op <;> simp [bufferEffect, op, sourceBuffer]
    change runBuffers rest (bufferEffect task values) = _
    rw [effect, ih (fun other member => copies other (List.mem_cons_of_mem _ member)) away.2]
    funext buffer
    rw [List.flatMap_cons, List.map_append, if_neg away.1]
    by_cases later : buffer ∈ (rest.flatMap destinationRefs).map bufferOf
    · rw [if_pos later, if_pos (List.mem_append_right _ later)]
    · by_cases here : buffer ∈ (destinationRefs task).map bufferOf
      · rw [if_neg later, if_pos here, if_pos (List.mem_append_left _ here)]
      · rw [if_neg later, if_neg here, if_neg]
        exact fun either => (List.mem_append.mp either).elim here later

theorem exists_owns (nonempty : 0 < input.worldSize) (bound : index < input.count) :
    ∃ owner ∈ intRange input.worldSize, OwnsElement input owner index := by
  obtain ⟨position, small, inside⟩ := Split.exists_share (by omega : 0 < input.worldSize.toNat) bound
  exact ⟨position, mem_intRange.mpr ⟨by omega, by omega⟩, inside⟩

/-- In a direct all-gather plan the deliveries from one rank to another are those of its copies. -/
theorem deliveries_direct {plan : TransferPlan}
    (stagedPlan : StagedPlan input.dtypeSize input.worldSize plan (directStages input (directCopies input transports)))
    (inRange : srcRank ∈ intRange input.worldSize) (isPeer : dstRank ∈ peersOf srcRank input.worldSize) :
    ∃ task, (deliveries plan.tasks).filter (goes srcRank dstRank) =
        [(task, rankBufferRef dstRank (sliceBeginBytes input srcRank))] ∧
      SourceCopy srcRank (sliceBeginBytes input srcRank) (sliceBytes input srcRank) task := by
  have code : ∀ rank ∈ intRange input.worldSize, (rankTasks plan rank).map TransferTask.unmarked =
      inputCopies input rank ++ (entryPublishes input rank ++ entryWaits input rank ++
        directCopies input transports rank) := by
    intro rank rankInRange
    rw [stagedPlan.code, directStages_code rankInRange]
  have ownSource : ∀ task ∈ plan.tasks, decide (task.executorRank = srcRank) = false → movesData task →
      bufferOf task.src ≠ rankBuffer srcRank := by
    intro task member foreign moves same
    have inRank : task.unmarked ∈ (rankTasks plan task.executorRank).map TransferTask.unmarked :=
      List.mem_map_of_mem (List.mem_filter.mpr ⟨member, by simp⟩)
    by_cases executorInRange : task.executorRank ∈ intRange input.worldSize
    · rw [code _ executorInRange] at inRank
      rcases List.mem_append.mp inRank with ownCopy | rest
      · unfold inputCopies at ownCopy
        split at ownCopy
        · have source := congrArg TransferTask.src (List.mem_singleton.mp ownCopy)
          change task.src = rankInputRef task.executorRank (sliceBeginBytes input task.executorRank) at source
          rw [source] at same
          cases same
        · cases ownCopy
      · rcases List.mem_append.mp rest with entry | copy
        · exact entry_quiet _ entry moves
        · have source := (directCopies_copies input transports task.executorRank _ copy).source
          change task.src = rankBufferRef task.executorRank (sliceBeginBytes input task.executorRank) at source
          rw [source] at same
          have executor : task.executorRank = srcRank := rankBuffer_inj.mp same
          simp [executor] at foreign
    · rw [stagedPlan.code] at inRank
      obtain ⟨stage, _, inStage⟩ := List.mem_flatMap.mp inRank
      rw [stagedPlan.listed _ executorInRange] at inStage
      cases inStage
  have fromInput : (deliveries (inputCopies input srcRank)).filter (goes srcRank dstRank) = [] := by
    refine List.filter_eq_nil_iff.mpr fun delivery member => ?_
    obtain ⟨inCopies, _⟩ := mem_deliveries.mp member
    unfold inputCopies at inCopies
    split at inCopies
    · simp [goes, List.mem_singleton.mp inCopies, copyTask, makeCopyTransferTask, rankBuffer, bufferOf, rankInputRef,
        rankBufferRef]
    · cases inCopies
  obtain ⟨copy, inCopies, only⟩ := directCopies_delivery transports isPeer
  have unmarked : ((deliveries (rankTasks plan srcRank)).filter (goes srcRank dstRank)).map
      (fun delivery => (delivery.1.unmarked, delivery.2)) =
        [(copy, rankBufferRef dstRank (sliceBeginBytes input srcRank))] := by
    have alike : (goes srcRank dstRank ∘ fun delivery : TransferTask × LogicalBufferRef =>
        (delivery.1.unmarked, delivery.2)) = goes srcRank dstRank := rfl
    calc
      _ = (deliveries ((rankTasks plan srcRank).map TransferTask.unmarked)).filter (goes srcRank dstRank) := by
        rw [deliveries_unmarked, List.filter_map, alike]
      _ = _ := by
        rw [code srcRank inRange, deliveries_append, deliveries_append, deliveries_quiet entry_quiet,
          List.nil_append, List.filter_append, fromInput, List.nil_append, only]
  obtain ⟨⟨task, ref⟩, single, same⟩ := List.map_eq_singleton_iff.mp unmarked
  obtain ⟨rfl, rfl⟩ := Prod.mk.inj same
  have copies := directCopies_copies input transports srcRank _ inCopies
  refine ⟨task, ?_, copies.op, copies.executor, copies.source, copies.length⟩
  rw [deliveries_filter plan.tasks (fun task => decide (task.executorRank = srcRank)) ownSource]
  exact single

theorem allGather_column {plan : TransferPlan} {M : Type} [AddCommMonoid M] {mem : BufferId → Nat → M}
    {state : State Int (Shared M)} (positive : 0 < input.dtypeSize) (fits : input.count * input.dtypeSize < 2 ^ 64)
    (stagedPlan : StagedPlan input.dtypeSize input.worldSize plan (directStages input (directCopies input transports)))
    (reached : (planProgram input.dtypeSize plan).Reachable (entryState mem) state)
    (finished : (planProgram input.dtypeSize plan).Finished state)
    (ownerInRange : owner ∈ intRange input.worldSize) (owns : OwnsElement input owner index)
    (inRange : rank ∈ intRange input.worldSize) :
    state.shared.mem (rankBuffer rank) index = mem (contribution input owner) index := by
  have column := congrFun (directStages_column directCopies_workload positive fits stagedPlan reached finished
    ownerInRange owns) (rankBuffer rank)
  change state.shared.mem (rankBuffer rank) index = _ at column
  have destinations : ((directCopies input transports owner).flatMap destinationRefs).map bufferOf =
      (peersOf owner input.worldSize).map rankBuffer := by
    rw [directCopies_destinations, List.map_map]
    rfl
  have away : rankBuffer owner ∉ (peersOf owner input.worldSize).map rankBuffer := by
    simp [rankBuffer_inj]
  rw [column, runBuffers_inputCopies, runBuffers_copies _ (directCopies_copies input transports owner) (destinations ▸ away),
    destinations]
  dsimp only
  by_cases same : rank = owner
  · rw [same, if_neg away, Function.update_self]
  · rw [if_pos (List.mem_map_of_mem (mem_peersOf.mpr ⟨mem_intRange.mp inRange, same⟩)), Function.update_self]

end Direct

section Outcome

variable {input : TransferPlanBuildInput}

/-- The direct all-gather plan delivers every slice to every rank, in every interleaving. -/
theorem buildAllGatherTransferPlan_gathers (direct : AllDirect input.topo input.worldSize)
    (built : (buildAllGatherTransferPlan cap storage input).1 = true)
    (fits : input.count * input.dtypeSize < 2 ^ 64) :
    GathersSlices input (buildAllGatherTransferPlan cap storage input).2 := by
  obtain ⟨valid, _, transports, _, state, ran, same⟩ := buildAllGatherTransferPlan_direct direct built
  obtain ⟨⟨nonempty, _⟩, positive, _⟩ := (validBuildInput_iff input).mp valid
  have stagedPlan : StagedPlan input.dtypeSize input.worldSize state.plan
      (directStages input (directCopies input transports)) :=
    directBuild_staged fits (fun rank _ => emitAllGatherSourceCopies_lists cap input transports rank _ _ _ _)
      directCopies_workload ran
  rw [same]
  refine ⟨fun srcRank inRange dstRank isPeer => ?_, stagedPlan.raceFree, fun M _ mem => ⟨stagedPlan.completes mem, ?_⟩⟩
  · have delivery := deliveries_direct stagedPlan inRange isPeer
    rwa [sliceBeginBytes_eq fits inRange, sliceBytes_eq fits inRange] at delivery
  · intro final reached finished rank inRange index bound
    obtain ⟨owner, ownerInRange, owns⟩ := exists_owns nonempty bound
    exact ⟨owner, ownerInRange, owns,
      allGather_column positive fits stagedPlan reached finished ownerInRange owns inRange⟩

/-- Six ranks of 48 half-precision elements: every slice is aligned and goes out in two batches. -/
theorem buildAllGatherTransferPlan_gathers_six :
    GathersSlices { worldSize := 6, count := 48, dtypeSize := 2 }
      (buildAllGatherTransferPlan 256 {} { worldSize := 6, count := 48, dtypeSize := 2 }).2 :=
  buildAllGatherTransferPlan_gathers (allDirect_of_absent rfl) (by decide +kernel) (by decide)

end Outcome

end Ooverlap.Semantics
