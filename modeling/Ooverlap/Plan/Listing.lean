import Ooverlap.Plan.AllGather
import Ooverlap.Plan.Appends
import Ooverlap.Plan.ReduceScatter

/-! The tasks each planner step lists, up to local phases and terminal marks. -/

namespace Ooverlap.Plan

/-- What a task does and to whom: neither its local phase nor its terminal mark. -/
def TransferTask.unmarked (task : TransferTask) : TransferTask :=
  (task.setPhase 0).setTerminal false

/-- A step that succeeds appends exactly these tasks. -/
abbrev Lists (cap : Nat) (step : BuildM Unit) (tasks : List TransferTask) : Prop :=
  Appends cap step fun added => added.map TransferTask.unmarked = tasks

namespace Lists

theorem pure (cap : Nat) : Lists cap (Pure.pure ()) [] :=
  (Appends.pure cap).mono fun _ empty => by rw [empty]; rfl

theorem bind (first : Lists cap step tasks) (second : Lists cap next others) :
    Lists cap (step >>= fun _ => next) (tasks ++ others) := by
  refine (Appends.bind first second).mono ?_
  rintro _ ⟨left, right, rfl, rfl, rfl⟩
  exact List.map_append

theorem guarded (condition : Prop) [Decidable condition] (taken : Lists cap step tasks) :
    Lists cap (if condition then transferPlanAbortBuild else step) tasks :=
  Appends.guarded condition fun _ => taken

theorem push (cap : Nat) (rank : Int) (make : Int → TransferTask)
    (alike : ∀ phase, (make phase).unmarked = task) :
    Lists cap (nextTaskPhase rank >>= fun phase => pushTaskOrAbort cap (make phase)) [task] := by
  refine (Appends.of_emits (Emits.push cap rank make)).mono ?_
  rintro _ ⟨_, phases, rfl⟩
  simp [Emission.single, alike]

theorem forM (items : List α) (step : α → BuildM Unit) (block : α → List TransferTask)
    (each : ∀ item ∈ items, Lists cap (step item) (block item)) :
    Lists cap (items.forM step) (items.flatMap block) := by
  induction items with
  | nil => exact pure cap
  | cons item rest ih =>
    exact (each item (List.mem_cons_self ..)).bind (ih fun other member => each other (List.mem_cons_of_mem _ member))

/-- A loop that pushes one task for each item. -/
theorem forM_single (items : List α) (step : α → BuildM Unit) (task : α → TransferTask)
    (each : ∀ item ∈ items, Lists cap (step item) [task item]) :
    Lists cap (items.forM step) (items.map task) := by
  have listed := forM items step (fun item => [task item]) each
  rwa [← List.map_eq_flatMap] at listed

/-- What the builder leaves for each rank once the terminal tasks are marked. -/
theorem marked {step : BuildM Unit} (lists : Lists cap step tasks) (worldSize : Int)
    (ran : (step >>= fun _ => markLastTaskPerRankTerminal worldSize) { plan := { worldSize := size } } =
      .ok ((), state)) (rank : Int) :
    (rankTasks state.plan rank).map TransferTask.unmarked = tasks.filter fun task => task.executorRank = rank := by
  obtain ⟨_, added, rfl, same⟩ := Appends.marked lists worldSize ran
  have cleared := congrArg (List.map fun task => task.setPhase 0) (same rank)
  rw [List.map_map, List.map_map] at cleared
  rw [List.filter_map]
  exact cleared

/-- What does not look at phases and marks holds of the finished plan when it holds of the listed tasks. -/
theorem each {step : BuildM Unit} (lists : Lists cap step tasks) (worldSize : Int)
    (ran : (step >>= fun _ => markLastTaskPerRankTerminal worldSize) { plan := { worldSize := size } } =
      .ok ((), state)) (property : TransferTask → Prop) (blind : ∀ task, property task.unmarked ↔ property task) :
    (∀ task ∈ state.plan.tasks, property task) ↔ ∀ task ∈ tasks, property task := by
  have listed := lists.marked worldSize ran
  constructor
  · intro holds task member
    have own : task ∈ tasks.filter fun other => other.executorRank = task.executorRank :=
      List.mem_filter.mpr ⟨member, by simp⟩
    rw [← listed] at own
    obtain ⟨original, inRank, rfl⟩ := List.mem_map.mp own
    exact (blind original).mpr (holds original (List.mem_of_mem_filter inRank))
  · intro holds task member
    have own : task.unmarked ∈ (rankTasks state.plan task.executorRank).map TransferTask.unmarked :=
      List.mem_map_of_mem (List.mem_filter.mpr ⟨member, by simp⟩)
    rw [listed] at own
    exact (blind task).mp (holds _ (List.mem_of_mem_filter own))

end Lists

section Steps

variable (cap : Nat) (input : TransferPlanBuildInput) (transports : TransportMatrix)

/-- A copy as the plan describes it, before it gets its phase. -/
def copyTask (executorRank srcRank dstRank : Int) (src dst : LogicalBufferRef) (bytes : Nat)
    (numWindows : Int) (transport : TransportKind) : TransferTask :=
  makeCopyTransferTask executorRank srcRank dstRank src dst bytes numWindows input.launchConfig.windowChunks
    transport false 0

def reduceTask (executorRank srcRank dstRank : Int) (src dst : LogicalBufferRef) (bytes : Nat)
    (numWindows : Int) (transport : TransportKind) : TransferTask :=
  stagedReduceCapabilities (makeReduceTransferTask executorRank srcRank dstRank src dst bytes numWindows
    input.launchConfig.windowChunks transport false 0)

section Fields

variable (input : TransferPlanBuildInput) (executorRank srcRank dstRank : Int) (src dst : LogicalBufferRef) (bytes : Nat)
  (numWindows : Int) (transport : TransportKind)

@[simp] theorem reduceTask_op :
    (reduceTask input executorRank srcRank dstRank src dst bytes numWindows transport).op = .reduce := by
  unfold reduceTask stagedReduceCapabilities
  split <;> rfl

@[simp] theorem reduceTask_executorRank :
    (reduceTask input executorRank srcRank dstRank src dst bytes numWindows transport).executorRank = executorRank := by
  unfold reduceTask stagedReduceCapabilities
  split <;> rfl

@[simp] theorem reduceTask_src :
    (reduceTask input executorRank srcRank dstRank src dst bytes numWindows transport).src = src := by
  unfold reduceTask stagedReduceCapabilities
  split <;> rfl

@[simp] theorem reduceTask_dst :
    (reduceTask input executorRank srcRank dstRank src dst bytes numWindows transport).dst = dst := by
  unfold reduceTask stagedReduceCapabilities
  split <;> rfl

@[simp] theorem reduceTask_bytes :
    (reduceTask input executorRank srcRank dstRank src dst bytes numWindows transport).bytes = bytes := by
  unfold reduceTask stagedReduceCapabilities
  split <;> rfl

end Fields

theorem pushCopyTask_lists (executorRank srcRank dstRank : Int) (src dst : LogicalBufferRef) (bytes : Nat)
    (numWindows : Int) (transport : TransportKind) :
    Lists cap (pushCopyTask cap input executorRank srcRank dstRank src dst bytes numWindows transport)
      [copyTask input executorRank srcRank dstRank src dst bytes numWindows transport] :=
  Lists.guarded _ (Lists.push cap executorRank _ fun _ => rfl)

theorem stagedReduceCapabilities_unmarked (task : TransferTask) :
    (stagedReduceCapabilities task).unmarked = stagedReduceCapabilities task.unmarked := by
  unfold stagedReduceCapabilities
  split <;> rename_i staged
  · exact (if_pos staged).symm
  · exact (if_neg staged).symm

theorem pushReduceTask_lists (executorRank srcRank dstRank : Int) (src dst : LogicalBufferRef) (bytes : Nat)
    (numWindows : Int) (transport : TransportKind) :
    Lists cap (pushReduceTask cap input executorRank srcRank dstRank src dst bytes numWindows transport)
      [reduceTask input executorRank srcRank dstRank src dst bytes numWindows transport] :=
  Lists.guarded _ (Lists.push cap executorRank _ fun _ => stagedReduceCapabilities_unmarked _)

/-- The publishes by which a rank tells the listed waiters of a phase. -/
def publishTasks (publisherRank : Int) (waiters : List Int) (readyPhase : Int) : List TransferTask :=
  (publishChannels input.topo publisherRank waiters).map fun channel =>
    makeReadyPublishTransferTask publisherRank channel 0 readyPhase

def waitTask (waiterRank ownerRank readyPhase : Int) : TransferTask :=
  makeReadyWaitTransferTask waiterRank ownerRank (chooseReadySignalChannel input.topo waiterRank ownerRank) 0
    readyPhase

def listeners (publisherRank : Int) (waiters : List Int) : List Int :=
  waiters.filter fun waiter => validRank waiter input.worldSize && waiter != publisherRank

theorem pushReadyPublishForWaiters_lists (publisherRank : Int) (waiters : List Int) (readyPhase : Int) :
    Lists cap (pushReadyPublishForWaiters cap input publisherRank waiters readyPhase)
      (publishTasks input publisherRank (listeners input publisherRank waiters) readyPhase) :=
  Lists.forM_single _ _ _ fun _ _ => Lists.push cap publisherRank _ fun _ => rfl

theorem pushReadyWaitTask_lists (waiterRank ownerRank readyPhase : Int) :
    Lists cap (pushReadyWaitTask cap input waiterRank ownerRank readyPhase)
      [waitTask input waiterRank ownerRank readyPhase] :=
  Lists.push cap waiterRank _ fun _ => rfl

/-- The publishes of a rank's entry rendezvous; a group of one has none. -/
def entryPublishes (rank : Int) : List TransferTask :=
  publishTasks input rank (peersOf rank input.worldSize) 0

def entryWaits (rank : Int) : List TransferTask :=
  (peersOf rank input.worldSize).map fun peer => waitTask input rank peer 0

theorem peersOf_single (single : worldSize ≤ 1) (inRange : rank ∈ intRange worldSize) : peersOf rank worldSize = [] := by
  refine List.eq_nil_iff_forall_not_mem.mpr fun peer isPeer => ?_
  have bounds := mem_intRange.mp inRange
  have other := mem_peersOf.mp isPeer
  omega

theorem appendReadyRendezvousTasks_lists (inRange : rank ∈ intRange input.worldSize) :
    Lists cap (appendReadyRendezvousTasks cap input.topo rank input.worldSize)
      (entryPublishes input rank ++ entryWaits input rank) := by
  have bounds := mem_intRange.mp inRange
  unfold appendReadyRendezvousTasks
  split
  · rename_i none
    have alone := peersOf_single (by omega) inRange
    simpa [entryPublishes, entryWaits, publishTasks, publishChannels, alone] using Lists.pure cap
  · refine Lists.bind (Lists.forM_single _ _ _ fun channel _ => ?_) (Lists.forM_single _ _ _ fun peer _ => ?_)
    · exact Lists.push cap rank _ fun _ => rfl
    · exact Lists.push cap rank _ fun _ => rfl

theorem emitEntryRendezvous_lists :
    Lists cap (emitEntryRendezvous cap input)
      ((intRange input.worldSize).flatMap fun rank => entryPublishes input rank ++ entryWaits input rank) :=
  Lists.forM _ _ _ fun _ inRange => appendReadyRendezvousTasks_lists cap input inRange

/-- The copy that brings a rank's own input slice into its buffer. -/
def inputCopies (rank : Int) : List TransferTask :=
  if input.outOfPlace then
    [copyTask input rank rank rank (rankInputRef rank (sliceBeginBytes input rank))
      (rankBufferRef rank (sliceBeginBytes input rank)) (sliceBytes input rank) (sliceWindows input rank)
      .directNvlink]
  else []

theorem emitOptionalSliceCopies_lists :
    Lists cap (emitOptionalSliceCopies cap input) ((intRange input.worldSize).flatMap (inputCopies input)) := by
  unfold emitOptionalSliceCopies inputCopies
  cases input.outOfPlace with
  | false =>
    have none : ((intRange input.worldSize).flatMap fun _ => ([] : List TransferTask)) = [] :=
      List.flatMap_eq_nil_iff.mpr fun _ _ => rfl
    simpa [none] using Lists.pure cap
  | true => exact Lists.forM _ _ _ fun _ _ => pushCopyTask_lists ..

end Steps

namespace ReduceScatter

variable (cap : Nat) (input : TransferPlanBuildInput) (transports : TransportMatrix)

def sliceReductions (rank : Int) : List TransferTask :=
  (peersOf rank input.worldSize).map fun peer =>
    reduceTask input rank peer rank (rankBufferRef peer (sliceBeginBytes input rank))
      (rankBufferRef rank (sliceBeginBytes input rank)) (sliceBytes input rank) (sliceWindows input rank)
      (transports rank peer)

theorem emitSliceReductions_lists (rank : Int) :
    Lists cap (emitSliceReductions cap input transports rank) (sliceReductions input transports rank) :=
  Lists.forM_single _ _ _ fun _ _ => Lists.guarded _ (pushReduceTask_lists ..)

end ReduceScatter

namespace AllGather

variable (cap : Nat) (input : TransferPlanBuildInput) (transports : TransportMatrix)

/-- The task of one batch of destinations of a slice. -/
def batchTask (srcRank : Int) (sliceBeginBytes sliceBytes : Nat) (sliceWindows : Int) (batch : List Int)
    (transport : TransportKind) : TransferTask :=
  match batch with
  | [dstRank] =>
    copyTask input srcRank srcRank dstRank (rankBufferRef srcRank sliceBeginBytes)
      (rankBufferRef dstRank sliceBeginBytes) sliceBytes sliceWindows transport
  | _ =>
    makeCopyFanoutTransferTask srcRank srcRank batch (rankBufferRef srcRank sliceBeginBytes)
      (batch.map fun dstRank => rankBufferRef dstRank sliceBeginBytes) sliceBytes sliceWindows
      input.launchConfig.windowChunks transport false 0

/-- The batches of a destination list, in the order in which the loop flushes them. -/
def copyBatches (srcRank : Int) : List Int → TransportKind → List Int → List (List Int × TransportKind)
  | batch, batchTransport, [] => if batch.isEmpty then [] else [(batch, batchTransport)]
  | batch, batchTransport, dstRank :: rest =>
    if dstRank = srcRank then copyBatches srcRank batch batchTransport rest
    else if !batch.isEmpty &&
        (batch.length == tmaTwoGpuPeerMaxFanoutDsts || transports srcRank dstRank != batchTransport) then
      (batch, batchTransport) :: copyBatches srcRank [dstRank] (transports srcRank dstRank) rest
    else
      copyBatches srcRank (batch ++ [dstRank])
        (if batch.isEmpty then transports srcRank dstRank else batchTransport) rest

/-- One rank's copies of its slice to the candidates, batched when the slice is aligned. -/
def sourceCopies (srcRank : Int) (candidateRanks : List Int) (sliceBeginBytes sliceBytes : Nat)
    (sliceWindows : Int) : List TransferTask :=
  if !allGatherCopyFanoutCompatible sliceBeginBytes sliceBytes then
    (candidateRanks.filter (· ≠ srcRank)).map fun dstRank =>
      copyTask input srcRank srcRank dstRank (rankBufferRef srcRank sliceBeginBytes)
        (rankBufferRef dstRank sliceBeginBytes) sliceBytes sliceWindows (transports srcRank dstRank)
  else
    (copyBatches transports srcRank [] .directNvlink candidateRanks).map fun (batch, transport) =>
      batchTask input srcRank sliceBeginBytes sliceBytes sliceWindows batch transport

theorem pushCopyFanoutTask_lists (executorRank srcRank : Int) (dstRanks : List Int) (src : LogicalBufferRef)
    (fanoutDsts : List LogicalBufferRef) (bytes : Nat) (numWindows : Int) (transport : TransportKind) :
    Lists cap (pushCopyFanoutTask cap input executorRank srcRank dstRanks src fanoutDsts bytes numWindows transport)
      [makeCopyFanoutTransferTask executorRank srcRank dstRanks src fanoutDsts bytes numWindows
        input.launchConfig.windowChunks transport false 0] :=
  Lists.guarded _ (Lists.push cap executorRank _ fun _ => rfl)

theorem pushCopyBatchTask_lists (srcRank : Int) (sliceBeginBytes sliceBytes : Nat) (sliceWindows : Int)
    (batch : List Int) (transport : TransportKind) :
    Lists cap (pushCopyBatchTask cap input srcRank srcRank batch (rankBufferRef srcRank sliceBeginBytes)
        (batch.map fun dstRank => rankBufferRef dstRank sliceBeginBytes) sliceBytes sliceWindows transport)
      [batchTask input srcRank sliceBeginBytes sliceBytes sliceWindows batch transport] := by
  have fanout := fun fanoutDsts => pushCopyFanoutTask_lists cap input srcRank srcRank batch
    (rankBufferRef srcRank sliceBeginBytes) fanoutDsts sliceBytes sliceWindows transport
  rcases batch with _ | ⟨dstRank, _ | ⟨next, rest⟩⟩
  · exact fanout _
  · exact pushCopyTask_lists ..
  · exact fanout _

theorem emitCopyBatches_lists (srcRank : Int) (sliceBeginBytes sliceBytes : Nat) (sliceWindows : Int)
    (batch : List Int) (batchTransport : TransportKind) (pending : List Int) :
    Lists cap (emitCopyBatches cap input transports srcRank sliceBeginBytes sliceBytes sliceWindows batch
        batchTransport pending)
      ((copyBatches transports srcRank batch batchTransport pending).map fun (batch, transport) =>
        batchTask input srcRank sliceBeginBytes sliceBytes sliceWindows batch transport) := by
  induction pending generalizing batch batchTransport with
  | nil =>
    unfold emitCopyBatches copyBatches
    split
    · exact Lists.pure cap
    · exact pushCopyBatchTask_lists ..
  | cons dstRank rest ih =>
    unfold emitCopyBatches copyBatches
    split
    · exact ih batch batchTransport
    · refine Lists.guarded _ (Lists.guarded _ ?_)
      split
      · exact Lists.bind (pushCopyBatchTask_lists ..) (ih _ _)
      · exact ih _ _

theorem emitAllGatherSourceCopies_lists (srcRank : Int) (candidateRanks : List Int)
    (sliceBeginBytes sliceBytes : Nat) (sliceWindows : Int) :
    Lists cap (emitAllGatherSourceCopies cap input transports srcRank candidateRanks sliceBeginBytes sliceBytes
        sliceWindows)
      (sourceCopies input transports srcRank candidateRanks sliceBeginBytes sliceBytes sliceWindows) := by
  unfold emitAllGatherSourceCopies sourceCopies
  refine Lists.guarded _ ?_
  split
  · exact Lists.forM_single _ _ _ fun _ _ => Lists.guarded _ (pushCopyTask_lists ..)
  · exact emitCopyBatches_lists ..

section Batches

variable {input : TransferPlanBuildInput} {transports : TransportMatrix} {srcRank : Int}

/-- The batches partition the destinations other than the source, whatever makes the loop flush. -/
theorem copyBatches_destinations (batch : List Int) (batchTransport : TransportKind) (pending : List Int) :
    (copyBatches transports srcRank batch batchTransport pending).flatMap Prod.fst =
      batch ++ pending.filter (· ≠ srcRank) := by
  induction pending generalizing batch batchTransport with
  | nil =>
    unfold copyBatches
    cases batch <;> simp
  | cons dstRank rest ih =>
    unfold copyBatches
    by_cases own : dstRank = srcRank
    · rw [if_pos own, ih, List.filter_cons_of_neg (by simpa using own)]
    · rw [if_neg own, List.filter_cons_of_pos (by simpa using own)]
      split
      · rw [List.flatMap_cons, ih, List.singleton_append]
      · rw [ih, List.append_assoc, List.singleton_append]

variable (transports) (srcRank) in
/-- No batch is empty or exceeds the fanout limit. -/
theorem copyBatches_sizes (batch : List Int) (batchTransport : TransportKind) (pending : List Int)
    (few : batch.length ≤ tmaTwoGpuPeerMaxFanoutDsts) :
    ∀ flushed ∈ copyBatches transports srcRank batch batchTransport pending,
      0 < flushed.1.length ∧ flushed.1.length ≤ tmaTwoGpuPeerMaxFanoutDsts := by
  induction pending generalizing batch batchTransport with
  | nil =>
    unfold copyBatches
    intro flushed member
    split at member
    · cases member
    · rename_i some
      rw [List.mem_singleton.mp member]
      exact ⟨List.length_pos_iff.mpr (by simpa [List.isEmpty_iff] using some), few⟩
  | cons dstRank rest ih =>
    unfold copyBatches
    split
    · exact ih batch batchTransport few
    · split
      · rename_i full
        simp only [Bool.and_eq_true, Bool.not_eq_true', List.isEmpty_eq_false_iff] at full
        intro flushed member
        rcases List.mem_cons.mp member with rfl | later
        · exact ⟨List.length_pos_iff.mpr full.1, few⟩
        · exact ih [dstRank] _ (by decide : 1 ≤ tmaTwoGpuPeerMaxFanoutDsts) flushed later
      · rename_i room
        refine ih _ _ ?_
        rw [List.length_append, List.length_singleton]
        by_contra many
        have full : batch.length = tmaTwoGpuPeerMaxFanoutDsts := by omega
        have nonempty : batch.isEmpty = false := by
          rw [List.isEmpty_eq_false_iff]
          rintro rfl
          exact absurd full (by decide)
        exact room (by simp [full, nonempty])

/-- The destinations of a batch are reached by its transport. -/
theorem copyBatches_transports (batch : List Int) (batchTransport : TransportKind) (pending : List Int)
    (alike : ∀ dstRank ∈ batch, transports srcRank dstRank = batchTransport) :
    ∀ flushed ∈ copyBatches transports srcRank batch batchTransport pending,
      ∀ dstRank ∈ flushed.1, transports srcRank dstRank = flushed.2 := by
  induction pending generalizing batch batchTransport with
  | nil =>
    unfold copyBatches
    intro flushed member
    split at member
    · cases member
    · rw [List.mem_singleton.mp member]
      exact alike
  | cons dstRank rest ih =>
    have alone : ∀ other ∈ [dstRank], transports srcRank other = transports srcRank dstRank := by
      intro other member
      rw [List.mem_singleton.mp member]
    unfold copyBatches
    split
    · exact ih batch batchTransport alike
    · split
      · intro flushed member
        rcases List.mem_cons.mp member with rfl | later
        · exact alike
        · exact ih [dstRank] _ alone flushed later
      · rename_i stays
        cases batch with
        | nil => exact ih [dstRank] _ alone
        | cons first others =>
          have same : transports srcRank dstRank = batchTransport := by
            simp only [List.isEmpty_cons, Bool.not_false, Bool.true_and, Bool.or_eq_true, not_or, bne_iff_ne,
              not_not] at stays
            exact stays.2
          refine ih _ _ fun other member => ?_
          rcases List.mem_append.mp member with earlier | here
          · exact alike other earlier
          · rw [List.mem_singleton.mp here]
            exact same

end Batches

end AllGather

end Ooverlap.Plan
