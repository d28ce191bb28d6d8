import Ooverlap.Plan.AllGather
import Ooverlap.Plan.AllReduceDirect
import Ooverlap.Plan.Appends
import Ooverlap.Plan.ReduceScatter

/-! What the in-place direct plans of the three collectives hold for each rank. -/

namespace Ooverlap.Plan

section Shapes

variable (input : TransferPlanBuildInput) (rank : Int)

/-- A reference into the buffer of some rank of the group. -/
def OnRankBuffer (ref : LogicalBufferRef) : Prop :=
  ∃ owner ∈ intRange input.worldSize, ∃ byteOffset, ref = rankBufferRef owner byteOffset

/-- An entry ready task, which the kernel's own rendezvous stands for. -/
structure EntryReady (task : TransferTask) : Prop where
  executor : task.executorRank = rank
  op : task.op = .readyPublish ∨ task.op = .readyWait
  hasWork : transferTaskHasWork task = true
  phase : task.readyPhase = 0
  channel : task.readyChannel = ReadySignalChannel.deviceMemory.index

/-- A ready task of the entry phase, on whichever channel the two ranks use. -/
structure EntrySignal (task : TransferTask) : Prop where
  executor : task.executorRank = rank
  op : task.op = .readyPublish ∨ task.op = .readyWait
  hasWork : transferTaskHasWork task = true
  phase : task.readyPhase = 0
  owner : task.op = .readyWait → task.readyRank ∈ peersOf rank input.worldSize

/-- A data task over all windows of the rank's slice, between buffers of the group. -/
structure SliceWork (task : TransferTask) : Prop where
  executor : task.executorRank = rank
  bytes : task.bytes = sliceBytes input rank
  windows : task.beginWindow = 0 ∧ task.endWindow = sliceWindows input rank
  windowChunks : task.windowChunks = input.launchConfig.windowChunks
  direct : transportUsesDirectTma task.transport = true
  src : OnRankBuffer input task.src
  kind : (task.op = .copy ∧ OnRankBuffer input task.dst) ∨
    (task.op = .reduce ∧ OnRankBuffer input task.dst ∧ task.requiresTmaReduce = true) ∨
    (task.op = .copyFanout ∧ (0 < task.fanoutDsts.length ∧ task.fanoutDsts.length ≤ tmaTwoGpuPeerMaxFanoutDsts) ∧
      task.fanoutDstCount = task.fanoutDsts.length ∧ (∀ ref ∈ task.fanoutDsts, OnRankBuffer input ref) ∧
      task.requiresTmaLoad = true ∧ task.requiresTmaStore = true)

/-- A barrier over the rank's slice, or work on it. -/
def RankBody (task : TransferTask) : Prop :=
  (task.op = .barrier ∧ task.executorRank = rank ∧ task.bytes = sliceBytes input rank) ∨ SliceWork input rank task

/-- Ready tasks first, then a bounded body with some work on the slice. -/
def Working (tasks : List TransferTask) : Prop :=
  ∃ ready body, tasks = ready ++ body ∧ (∀ task ∈ ready, EntryReady rank task) ∧
    (∀ task ∈ body, RankBody input rank task) ∧ (∃ task ∈ body, SliceWork input rank task) ∧ body.length ≤ 3 * kPlannerMaxRanks

/-- A rank works exactly when the group has several ranks and its slice is planned. -/
structure RankShape (plan : TransferPlan) : Prop where
  idle : input.worldSize = 1 ∨ AllReduce.SliceSkipped input rank → rankTasks plan rank = []
  working : ¬(input.worldSize = 1 ∨ AllReduce.SliceSkipped input rank) → Working input rank (rankTasks plan rank)

end Shapes

section Cleared

variable {input : TransferPlanBuildInput} {rank : Int}

theorem EntryReady.of_cleared (ready : EntryReady rank (task.setTerminal false)) : EntryReady rank task := by
  obtain ⟨executor, op, hasWork, phase, channel⟩ := ready
  exact ⟨executor, op, hasWork, phase, channel⟩

theorem SliceWork.of_cleared (work : SliceWork input rank (task.setTerminal false)) : SliceWork input rank task := by
  obtain ⟨executor, bytes, windows, windowChunks, direct, src, kind⟩ := work
  exact ⟨executor, bytes, windows, windowChunks, direct, src, kind⟩

theorem SliceWork.cleared (work : SliceWork input rank task) : SliceWork input rank (task.setTerminal false) := by
  obtain ⟨executor, bytes, windows, windowChunks, direct, src, kind⟩ := work
  exact ⟨executor, bytes, windows, windowChunks, direct, src, kind⟩

theorem RankBody.of_cleared (body : RankBody input rank (task.setTerminal false)) : RankBody input rank task :=
  body.imp id SliceWork.of_cleared

theorem EntryReady.cleared (ready : EntryReady rank task) : EntryReady rank (task.setTerminal false) := by
  obtain ⟨executor, op, hasWork, phase, channel⟩ := ready
  exact ⟨executor, op, hasWork, phase, channel⟩

/-- Terminal marks do not change what a rank works on. -/
theorem Working.of_cleared (working : Working input rank added)
    (same : tasks.map (fun task => task.setTerminal false) = added.map fun task => task.setTerminal false) :
    Working input rank tasks := by
  obtain ⟨ready, body, rfl, readies, bodies, ⟨worker, inBody, works⟩, few⟩ := working
  rw [List.map_append] at same
  obtain ⟨left, right, rfl, sameLeft, sameRight⟩ := List.map_eq_append_iff.mp same
  have origin : ∀ {tasks others : List TransferTask},
      tasks.map (fun task => task.setTerminal false) = others.map (fun task => task.setTerminal false) →
      ∀ task ∈ tasks, ∃ other ∈ others, other.setTerminal false = task.setTerminal false := by
    intro tasks others same task member
    have mapped : task.setTerminal false ∈ tasks.map fun task => task.setTerminal false :=
      List.mem_map_of_mem member
    rw [same] at mapped
    exact List.mem_map.mp mapped
  refine ⟨left, right, rfl, ?_, ?_, ?_, ?_⟩
  · intro task member
    obtain ⟨other, inReady, cleared⟩ := origin sameLeft task member
    exact EntryReady.of_cleared (cleared ▸ (readies other inReady).cleared)
  · intro task member
    obtain ⟨other, inOther, cleared⟩ := origin sameRight task member
    exact RankBody.of_cleared (cleared ▸ (bodies other inOther).imp id SliceWork.cleared)
  · obtain ⟨other, inRight, cleared⟩ := origin sameRight.symm worker inBody
    exact ⟨other, inRight, SliceWork.of_cleared (cleared ▸ works.cleared)⟩
  · have lengths := congrArg List.length sameRight
    simp only [List.length_map] at lengths
    omega

end Cleared

section Entry

variable {input : TransferPlanBuildInput}

/-- The tasks of a rendezvous are entry signals, between the pair of ranks that a wait names. -/
theorem rendezvousMakers_signal (inRange : rank ∈ intRange input.worldSize)
    (maker : make ∈ rendezvousMakers input.topo rank input.worldSize) (phase : Int) :
    EntrySignal input rank (make phase) := by
  have bounds := mem_intRange.mp inRange
  unfold rendezvousMakers at maker
  split at maker
  · cases maker
  · rcases List.mem_append.mp maker with publish | wait
    · obtain ⟨channel, used, rfl⟩ := List.mem_map.mp publish
      refine ⟨rfl, Or.inl rfl, ?_, rfl, fun isWait => nomatch isWait⟩
      simp only [transferTaskHasWork, makeReadyPublishTransferTask, bounds.1, decide_true, Bool.true_and]
      cases channel <;> rfl
    · obtain ⟨peer, isPeer, rfl⟩ := List.mem_map.mp wait
      have inside := (mem_peersOf.mp isPeer).1
      refine ⟨rfl, Or.inr rfl, ?_, rfl, fun _ => isPeer⟩
      simp only [transferTaskHasWork, makeReadyWaitTransferTask, bounds.1, inside.1, decide_true, Bool.true_and]
      cases chooseReadySignalChannel input.topo rank peer <;> rfl

theorem rendezvousMakers_ready (direct : AllDirect input.topo input.worldSize)
    (inRange : rank ∈ intRange input.worldSize)
    (maker : make ∈ rendezvousMakers input.topo rank input.worldSize) (phase : Int) :
    EntryReady rank (make phase) := by
  have bounds := mem_intRange.mp inRange
  have rankValid : validRank rank input.worldSize = true := by simp [validRank, bounds]
  have listens : ∀ peer ∈ peersOf rank input.worldSize, validRank peer input.worldSize = true := by
    intro peer isPeer
    have inside := (mem_peersOf.mp isPeer).1
    simp [validRank, inside]
  obtain ⟨executor, op, hasWork, readyPhase, _⟩ := rendezvousMakers_signal inRange maker phase
  refine ⟨executor, op, hasWork, readyPhase, ?_⟩
  unfold rendezvousMakers at maker
  split at maker
  · cases maker
  · rcases List.mem_append.mp maker with publish | wait
    · obtain ⟨channel, used, rfl⟩ := List.mem_map.mp publish
      obtain ⟨_, heard⟩ := List.mem_filter.mp used
      obtain ⟨peer, isPeer, same⟩ := List.any_eq_true.mp heard
      rw [beq_iff_eq, chooseReadySignalChannel_direct direct (listens peer isPeer) rankValid] at same
      rw [← same]
      rfl
    · obtain ⟨peer, isPeer, rfl⟩ := List.mem_map.mp wait
      rw [chooseReadySignalChannel_direct direct rankValid (listens peer isPeer)]
      rfl

/-- The entry rendezvous gives every rank its ready tasks, and a group of one none. -/
theorem emitEntryRendezvous_appends (cap : Nat) (direct : AllDirect input.topo input.worldSize) :
    Appends cap (emitEntryRendezvous cap input) fun added =>
      ∃ block : Int → List TransferTask, added = (intRange input.worldSize).flatMap block ∧
        ∀ rank ∈ intRange input.worldSize,
          (∀ task ∈ block rank, EntryReady rank task) ∧ (input.worldSize = 1 → block rank = []) := by
  unfold emitEntryRendezvous
  refine Appends.forM _ (intRange_nodup _) _ (fun rank block =>
    (∀ task ∈ block, EntryReady rank task) ∧ (input.worldSize = 1 → block = [])) fun rank inRange => ?_
  refine (Appends.of_emits (appendReadyRendezvousTasks_emits cap input.topo rank input.worldSize)).mono ?_
  rintro _ ⟨_, phases, rfl⟩
  constructor
  · intro task member
    obtain ⟨index, bound, rfl⟩ := List.mem_mapIdx.mp member
    exact rendezvousMakers_ready direct inRange (List.getElem_mem bound) _
  · intro single
    have none : rendezvousMakers input.topo rank input.worldSize = [] := by
      rw [rendezvousMakers, if_pos (by omega)]
    simp [Emission.sequence, none]

end Entry

section Direct

variable {input : TransferPlanBuildInput}

/-- One rank's work in a direct plan: none in a group of one, some otherwise. -/
structure SliceBlock (input : TransferPlanBuildInput) (rank : Int) (block : List TransferTask) : Prop where
  work : ∀ task ∈ block, SliceWork input rank task
  alone : input.worldSize = 1 → block = []
  busy : 1 < input.worldSize → block ≠ []
  few : block.length ≤ kPlannerMaxRanks

/-- A direct build: the entry rendezvous, then every rank's work on its own slice, then terminal marks. -/
def directBuild (cap : Nat) (input : TransferPlanBuildInput) (step : Int → BuildM Unit) : BuildM Unit := do
  emitOptionalSliceCopies cap input
  emitEntryRendezvous cap input
  (intRange input.worldSize).forM step
  markLastTaskPerRankTerminal input.worldSize

theorem directBuild_shape (inPlace : input.outOfPlace = false) (direct : AllDirect input.topo input.worldSize)
    (nonempty : 0 < input.worldSize)
    (active : ∀ rank ∈ intRange input.worldSize, ¬AllReduce.SliceSkipped input rank)
    (step : Int → BuildM Unit)
    (each : ∀ rank ∈ intRange input.worldSize, Appends cap (step rank) (SliceBlock input rank))
    (ran : directBuild cap input step { plan := { worldSize := size } } = .ok ((), state)) :
    state.plan.tasks.length ≤ cap ∧ ∀ rank ∈ intRange input.worldSize, RankShape input rank state.plan := by
  have copies : Appends cap (emitOptionalSliceCopies cap input) fun added => added = [] := by
    rw [emitOptionalSliceCopies, inPlace]
    exact Appends.pure cap
  have entry := emitEntryRendezvous_appends cap direct
  have work := Appends.forM (intRange input.worldSize) (intRange_nodup _) step (SliceBlock input) each
  have regrouped : directBuild cap input step =
      (emitOptionalSliceCopies cap input >>= fun _ => emitEntryRendezvous cap input >>= fun _ =>
        (intRange input.worldSize).forM step) >>= fun _ => markLastTaskPerRankTerminal input.worldSize := by
    simp only [directBuild, bind_assoc]
  rw [regrouped] at ran
  obtain ⟨within, added, holds, same⟩ := (copies.bind (entry.bind work)).marked input.worldSize ran
  obtain ⟨_, _, rfl, rfl, _, _, rfl, ⟨readies, rfl, ready⟩, works, rfl, worked⟩ := holds
  refine ⟨within, fun rank inRange => ?_⟩
  have cleared := same rank
  have readyExecutor : ∀ other ∈ intRange input.worldSize, ∀ task ∈ readies other, task.executorRank = other :=
    fun other member task inBlock => ((ready other member).1 task inBlock).executor
  have workExecutor : ∀ other ∈ intRange input.worldSize, ∀ task ∈ works other, task.executorRank = other :=
    fun other member task inBlock => ((worked other member).work task inBlock).executor
  rw [List.nil_append, List.filter_append, filter_executor_flatMap _ (intRange_nodup _) _ readyExecutor,
    filter_executor_flatMap _ (intRange_nodup _) _ workExecutor, if_pos inRange, if_pos inRange] at cleared
  obtain ⟨isReady, noReady⟩ := ready rank inRange
  have block := worked rank inRange
  constructor
  · intro idle
    have single := idle.resolve_right (active rank inRange)
    rw [noReady single, block.alone single] at cleared
    exact List.map_eq_nil_iff.mp cleared
  · intro working
    have several : 1 < input.worldSize := by omega
    obtain ⟨task, member⟩ := List.exists_mem_of_ne_nil _ (block.busy several)
    have few := block.few
    refine Working.of_cleared ⟨readies rank, works rank, rfl, isReady, ?_, ⟨task, member, block.work task member⟩,
      by omega⟩ cleared
    exact fun task member => Or.inr (block.work task member)

theorem peersOf_few (small : input.worldSize ≤ 16) (rank : Int) : (peersOf rank input.worldSize).length ≤ kPlannerMaxRanks := by
  have limit : kPlannerMaxRanks = 16 := rfl
  have subset := List.length_filter_le (fun peer => decide (peer ≠ rank)) (intRange input.worldSize)
  rw [length_intRange] at subset
  exact le_trans subset (by omega)

theorem peersOf_busy {worldSize : Int} (several : 1 < worldSize) (rank : Int) : peersOf rank worldSize ≠ [] := by
  apply List.ne_nil_of_mem (a := if rank = 0 then 1 else 0)
  rw [mem_peersOf]
  split <;> omega

theorem peersOf_alone (single : input.worldSize = 1) (inRange : rank ∈ intRange input.worldSize) :
    peersOf rank input.worldSize = [] := by
  rw [List.eq_nil_iff_forall_not_mem]
  intro peer isPeer
  have bounds := mem_intRange.mp inRange
  have other := mem_peersOf.mp isPeer
  omega

/-- A rank that does one task for each of its peers. -/
theorem sliceBlock_peers (small : input.worldSize ≤ 16) (inRange : rank ∈ intRange input.worldSize)
    (length : block.length = (peersOf rank input.worldSize).length)
    (work : ∀ task ∈ block, SliceWork input rank task) : SliceBlock input rank block where
  work := work
  alone single := by
    rw [peersOf_alone single inRange] at length
    exact List.eq_nil_of_length_eq_zero length
  busy several := by
    have positive := List.length_pos_iff.mpr (peersOf_busy several rank)
    exact List.length_pos_iff.mp (by omega)
  few := by
    have few := peersOf_few small rank
    omega

end Direct

section Planners

variable {input : TransferPlanBuildInput} {transports : TransportMatrix}

theorem emitSliceReductions_appends (reaches : ∀ src dst, transportUsesDirectTma (transports src dst) = true)
    (small : input.worldSize ≤ 16) (inRange : rank ∈ intRange input.worldSize)
    (active : ¬AllReduce.SliceSkipped input rank) :
    Appends cap (ReduceScatter.emitSliceReductions cap input transports rank) (SliceBlock input rank) := by
  have reduces := emitPeers_emits cap (peersOf rank input.worldSize)
    (fun peer => !transportUsesDirectTma (transports rank peer)) _ rank
    (reduceMaker input transports rank) fun peer =>
      (pushReduceTask_emits cap input rank peer rank _ _ _ _ _).congr (iff_of_true active trivial) rfl
  refine (Appends.of_emits reduces).mono ?_
  rintro _ ⟨_, phases, rfl⟩
  apply sliceBlock_peers small inRange
  · simp [Emission.sequence]
  · intro task member
    obtain ⟨index, bound, rfl⟩ := List.mem_mapIdx.mp member
    rw [List.length_map] at bound
    have isPeer := (mem_peersOf.mp (List.getElem_mem bound)).1
    rw [List.getElem_map, AllReduce.reduceMaker_eq]
    refine ⟨rfl, rfl, ⟨rfl, rfl⟩, rfl, reaches _ _, ⟨_, mem_intRange.mpr isPeer, _, rfl⟩, Or.inr (Or.inl ?_)⟩
    exact ⟨rfl, ⟨rank, inRange, _, rfl⟩, reaches _ _⟩

/-- A copy of the rank's slice to a peer. -/
theorem copyTask_work (reaches : transportUsesDirectTma transport = true)
    (inRange : rank ∈ intRange input.worldSize) (isPeer : peer ∈ intRange input.worldSize) (phase : Int) :
    SliceWork input rank (makeCopyTransferTask rank rank peer (rankBufferRef rank (sliceBeginBytes input rank))
      (rankBufferRef peer (sliceBeginBytes input rank)) (sliceBytes input rank) (sliceWindows input rank)
      input.launchConfig.windowChunks transport false phase) :=
  ⟨rfl, rfl, ⟨rfl, rfl⟩, rfl, reaches, ⟨rank, inRange, _, rfl⟩, Or.inl ⟨rfl, peer, isPeer, _, rfl⟩⟩

theorem fanoutTask_work (reaches : transportUsesDirectTma transport = true)
    (inRange : rank ∈ intRange input.worldSize) (peers : List Int)
    (arePeers : ∀ peer ∈ peers, peer ∈ intRange input.worldSize)
    (some : peers ≠ []) (few : peers.length ≤ tmaTwoGpuPeerMaxFanoutDsts) (phase : Int) :
    SliceWork input rank (makeCopyFanoutTransferTask rank rank peers (rankBufferRef rank (sliceBeginBytes input rank))
      (peers.map fun peer => rankBufferRef peer (sliceBeginBytes input rank)) (sliceBytes input rank)
      (sliceWindows input rank) input.launchConfig.windowChunks transport false phase) := by
  have whole : (peers.map fun peer => rankBufferRef peer (sliceBeginBytes input rank)).take
      tmaTwoGpuPeerMaxFanoutDsts = peers.map fun peer => rankBufferRef peer (sliceBeginBytes input rank) :=
    List.take_of_length_le (by rwa [List.length_map])
  have positive := List.length_pos_iff.mpr some
  refine ⟨rfl, rfl, ⟨rfl, rfl⟩, rfl, reaches, ⟨rank, inRange, _, rfl⟩, Or.inr (Or.inr ⟨rfl, ?_, ?_, ?_, ?_, ?_⟩)⟩
  · simp only [makeCopyFanoutTransferTask, makeFanoutTransferTask, whole, List.length_map]
    exact ⟨positive, few⟩
  · simp only [makeCopyFanoutTransferTask, makeFanoutTransferTask, whole]
  · intro ref member
    simp only [makeCopyFanoutTransferTask, makeFanoutTransferTask, whole] at member
    obtain ⟨peer, isPeer, rfl⟩ := List.mem_map.mp member
    exact ⟨peer, arePeers peer isPeer, _, rfl⟩
  · exact reaches
  · simp [makeCopyFanoutTransferTask, makeFanoutTransferTask, reaches]

theorem pushCopyFanoutTask_appends (executorRank srcRank : Int) (dstRanks : List Int) (src : LogicalBufferRef)
    (fanoutDsts : List LogicalBufferRef) (bytes : Nat) (numWindows : Int) (transport : TransportKind) :
    Appends cap (AllGather.pushCopyFanoutTask cap input executorRank srcRank dstRanks src fanoutDsts bytes
      numWindows transport) fun added =>
        ∃ phase, added = [makeCopyFanoutTransferTask executorRank srcRank dstRanks src fanoutDsts bytes numWindows
          input.launchConfig.windowChunks transport false phase] := by
  refine Appends.guarded _ fun _ => (Appends.of_emits (Emits.push cap executorRank _)).mono ?_
  rintro _ ⟨_, phases, rfl⟩
  exact ⟨_, rfl⟩

theorem pushCopyTask_appends (executorRank srcRank dstRank : Int) (src dst : LogicalBufferRef) (bytes : Nat)
    (numWindows : Int) (transport : TransportKind) :
    Appends cap (pushCopyTask cap input executorRank srcRank dstRank src dst bytes numWindows transport) fun added =>
      ∃ phase, added = [makeCopyTransferTask executorRank srcRank dstRank src dst bytes numWindows
        input.launchConfig.windowChunks transport false phase] := by
  refine (Appends.of_emits (pushCopyTask_emits ..)).mono ?_
  rintro _ ⟨_, phases, rfl⟩
  exact ⟨_, rfl⟩

/-- One batch is one task on the slice. -/
theorem pushCopyBatchTask_appends (reaches : transportUsesDirectTma transport = true)
    (inRange : rank ∈ intRange input.worldSize) (peers : List Int)
    (arePeers : ∀ peer ∈ peers, peer ∈ intRange input.worldSize)
    (some : peers ≠ []) (few : peers.length ≤ tmaTwoGpuPeerMaxFanoutDsts) :
    Appends cap (AllGather.pushCopyBatchTask cap input rank rank peers
      (rankBufferRef rank (sliceBeginBytes input rank))
      (peers.map fun peer => rankBufferRef peer (sliceBeginBytes input rank)) (sliceBytes input rank)
      (sliceWindows input rank) transport) fun added =>
        ∃ task, added = [task] ∧ SliceWork input rank task := by
  rcases peers with _ | ⟨peer, _ | ⟨next, rest⟩⟩
  · exact absurd rfl some
  · refine (pushCopyTask_appends ..).mono ?_
    rintro _ ⟨phase, rfl⟩
    exact ⟨_, rfl, copyTask_work reaches inRange (arePeers peer (List.mem_singleton_self peer)) phase⟩
  · refine (pushCopyFanoutTask_appends ..).mono ?_
    rintro _ ⟨phase, rfl⟩
    exact ⟨_, rfl, fanoutTask_work reaches inRange _ arePeers some few phase⟩

/-- The batches of a destination list: at most one task for each destination, and at least one in all. -/
theorem emitCopyBatches_appends (reaches : ∀ src dst, transportUsesDirectTma (transports src dst) = true)
    (inRange : rank ∈ intRange input.worldSize) (pending : List Int) (batch : List Int) (batchTransport : TransportKind)
    (direct : transportUsesDirectTma batchTransport = true)
    (arePeers : ∀ peer ∈ batch, peer ∈ intRange input.worldSize)
    (few : batch.length ≤ tmaTwoGpuPeerMaxFanoutDsts) :
    Appends cap (AllGather.emitCopyBatches cap input transports rank (sliceBeginBytes input rank)
      (sliceBytes input rank) (sliceWindows input rank) batch batchTransport pending) fun added =>
        (∀ task ∈ added, SliceWork input rank task) ∧
          added.length ≤ (if batch = [] then 0 else 1) + (pending.filter (· ≠ rank)).length ∧
          (batch ≠ [] ∨ (∃ peer ∈ pending, peer ≠ rank) → added ≠ []) := by
  induction pending generalizing batch batchTransport with
  | nil =>
    unfold AllGather.emitCopyBatches
    by_cases empty : batch = []
    · subst empty
      exact (Appends.pure cap).mono fun added none => by simp [none]
    · rw [if_neg (by simpa [List.isEmpty_iff] using empty)]
      refine (pushCopyBatchTask_appends direct inRange batch arePeers empty few).mono ?_
      rintro _ ⟨task, rfl, work⟩
      exact ⟨by simpa using work, by simp [empty], fun _ => by simp⟩
  | cons dstRank rest ih =>
    unfold AllGather.emitCopyBatches
    by_cases own : dstRank = rank
    · rw [if_pos own]
      refine (ih batch batchTransport direct arePeers few).mono ?_
      rintro added ⟨work, length, busy⟩
      rw [List.filter_cons_of_neg (by simpa using own)]
      refine ⟨work, length, fun some => busy (some.imp id ?_)⟩
      rintro ⟨peer, member, other⟩
      rcases List.mem_cons.mp member with rfl | later
      · exact absurd own other
      · exact ⟨peer, later, other⟩
    · rw [if_neg own]
      refine Appends.guarded _ fun valid => Appends.guarded _ fun _ => ?_
      have isPeer : dstRank ∈ intRange input.worldSize := by
        rw [mem_intRange]
        simpa [validRank] using valid
      rw [List.filter_cons_of_pos (by simpa using own), List.length_cons]
      split
      · rename_i full
        simp only [Bool.and_eq_true, Bool.not_eq_true', List.isEmpty_eq_false_iff] at full
        have later := ih [dstRank] (transports rank dstRank) (reaches _ _) (by simpa using isPeer)
          (by decide : 1 ≤ tmaTwoGpuPeerMaxFanoutDsts)
        refine ((pushCopyBatchTask_appends direct inRange batch arePeers full.1 few).bind later).mono ?_
        rintro _ ⟨_, right, rfl, ⟨task, rfl, work⟩, workRest, length, busy⟩
        refine ⟨?_, ?_, fun _ => by simp⟩
        · intro other member
          rcases List.mem_append.mp member with here | there
          · rw [List.mem_singleton.mp here]
            exact work
          · exact workRest other there
        · simp only [List.cons_ne_nil, if_false] at length
          rw [List.length_append, List.length_singleton, if_neg full.1]
          omega
      · rename_i room
        have joined : (batch ++ [dstRank]).length ≤ tmaTwoGpuPeerMaxFanoutDsts := by
          rw [List.length_append, List.length_singleton]
          by_contra many
          have full : batch.length = tmaTwoGpuPeerMaxFanoutDsts := by omega
          have nonempty : batch.isEmpty = false := by
            rw [List.isEmpty_eq_false_iff]
            rintro rfl
            exact absurd full (by decide)
          exact room (by simp [full, nonempty])
        have joinedPeers : ∀ peer ∈ batch ++ [dstRank], peer ∈ intRange input.worldSize := by
          intro peer member
          rcases List.mem_append.mp member with earlier | last
          · exact arePeers peer earlier
          · rw [List.mem_singleton.mp last]
            exact isPeer
        have joinedDirect : transportUsesDirectTma
            (if batch.isEmpty then transports rank dstRank else batchTransport) = true := by
          split
          · exact reaches _ _
          · exact direct
        refine (ih _ _ joinedDirect joinedPeers joined).mono ?_
        rintro added ⟨work, length, busy⟩
        refine ⟨work, ?_, fun _ => busy (Or.inl (by simp))⟩
        rw [if_neg (by simp)] at length
        omega

theorem emitAllGatherSourceCopies_appends (reaches : ∀ src dst, transportUsesDirectTma (transports src dst) = true)
    (small : input.worldSize ≤ 16) (inRange : rank ∈ intRange input.worldSize) :
    Appends cap (AllGather.emitAllGatherSourceCopies cap input transports rank (intRange input.worldSize)
      (sliceBeginBytes input rank) (sliceBytes input rank) (sliceWindows input rank)) (SliceBlock input rank) := by
  unfold AllGather.emitAllGatherSourceCopies
  refine Appends.guarded _ fun _ => ?_
  split
  · have copies := Appends.forM (peersOf rank input.worldSize) (peersOf_nodup _ _)
      (fun dstRank => if !validRank dstRank input.worldSize || !transportUsesDirectTma (transports rank dstRank) then
          transferPlanAbortBuild
        else
          pushCopyTask cap input rank rank dstRank (rankBufferRef rank (sliceBeginBytes input rank))
            (rankBufferRef dstRank (sliceBeginBytes input rank)) (sliceBytes input rank) (sliceWindows input rank)
            (transports rank dstRank))
      (fun _ added => ∃ task, added = [task] ∧ SliceWork input rank task) fun peer isPeer => by
        refine Appends.guarded _ fun _ => (pushCopyTask_appends ..).mono ?_
        rintro _ ⟨phase, rfl⟩
        exact ⟨_, rfl, copyTask_work (reaches _ _) inRange (mem_intRange.mpr (mem_peersOf.mp isPeer).1) phase⟩
    refine copies.mono ?_
    rintro _ ⟨block, rfl, each⟩
    apply sliceBlock_peers small inRange
    · rw [List.length_flatMap, List.map_congr_left (g := fun _ => 1), List.map_const', List.sum_replicate]
      · simp
      · intro peer isPeer
        obtain ⟨task, same, _⟩ := each peer isPeer
        rw [same, List.length_singleton]
    · intro task member
      obtain ⟨peer, isPeer, inBlock⟩ := List.mem_flatMap.mp member
      obtain ⟨only, same, work⟩ := each peer isPeer
      rw [same, List.mem_singleton] at inBlock
      exact inBlock ▸ work
  · refine (emitCopyBatches_appends reaches inRange (intRange input.worldSize) [] .directNvlink rfl (by simp)
      (Nat.zero_le _)).mono ?_
    rintro added ⟨work, length, busy⟩
    rw [if_pos rfl, Nat.zero_add] at length
    change added.length ≤ (peersOf rank input.worldSize).length at length
    have few := peersOf_few small rank
    refine ⟨work, fun single => ?_, fun several => busy (Or.inr ?_), by omega⟩
    · rw [peersOf_alone single inRange] at length
      exact List.eq_nil_of_length_eq_zero (Nat.le_zero.mp length)
    · obtain ⟨peer, isPeer⟩ := List.exists_mem_of_ne_nil _ (peersOf_busy several rank)
      exact ⟨peer, List.mem_of_mem_filter isPeer, (mem_peersOf.mp isPeer).2⟩

end Planners

section TopLevel

variable {input : TransferPlanBuildInput}

/-- A plan of a directly reachable group within its capacity, with every rank's tasks in shape. -/
structure PlanShape (cap : Nat) (input : TransferPlanBuildInput) (plan : TransferPlan) : Prop where
  valid : validBuildInput input = true
  capacity : plan.tasks.length ≤ cap
  ranks : ∀ rank ∈ intRange input.worldSize, RankShape input rank plan

/-- Success on a directly reachable group is success of the direct build with every slice planned. -/
theorem buildReduceScatterTransferPlan_direct (direct : AllDirect input.topo input.worldSize)
    (built : (ReduceScatter.buildReduceScatterTransferPlan cap storage input).1 = true) :
    validBuildInput input = true ∧ (∀ rank ∈ intRange input.worldSize, ¬AllReduce.SliceSkipped input rank) ∧
      ∃ transports : TransportMatrix, (∀ src dst, transportUsesDirectTma (transports src dst) = true) ∧
        ∃ state, directBuild cap input (ReduceScatter.emitSliceReductions cap input transports)
            { plan := { worldSize := input.worldSize } } = .ok ((), state) ∧
          (ReduceScatter.buildReduceScatterTransferPlan cap storage input).2 = state.plan := by
  obtain ⟨valid, state, ran, left⟩ := runPlanner_ok built
  refine ⟨valid, ?_⟩
  rw [ReduceScatter.buildReduceScatterTransferPlan, left]
  cases matrix : buildTransportMatrix input.topo input.worldSize with
  | none => simp [ReduceScatter.planReduceScatter, matrix, transferPlanAbortBuild] at ran
  | some transports =>
    have reaches := buildTransportMatrix_direct direct matrix
    cases grouped : buildIslands input transports with
    | none => simp [ReduceScatter.planReduceScatter, matrix, grouped, transferPlanAbortBuild] at ran
    | some islands =>
      have single := buildIslands_direct input reaches grouped
      simp only [ReduceScatter.planReduceScatter, matrix, grouped, if_pos single,
        ReduceScatter.buildDirectReduceScatterPlan] at ran
      split at ran
      · cases ran
      · rename_i filled
        simp only [Bool.not_eq_true', Bool.not_eq_false, ReduceScatter.fillReduceScatterSliceMetadata,
          Bool.and_eq_true, List.all_eq_true] at filled
        refine ⟨fun rank inRange => ?_, transports, reaches, state, ran, rfl⟩
        simpa [AllReduce.SliceSkipped] using filled.2 rank inRange

theorem buildAllGatherTransferPlan_direct (direct : AllDirect input.topo input.worldSize)
    (built : (AllGather.buildAllGatherTransferPlan cap storage input).1 = true) :
    validBuildInput input = true ∧ (∀ rank ∈ intRange input.worldSize, ¬AllReduce.SliceSkipped input rank) ∧
      ∃ transports : TransportMatrix, (∀ src dst, transportUsesDirectTma (transports src dst) = true) ∧
        ∃ state, directBuild cap input (fun rank => AllGather.emitAllGatherSourceCopies cap input transports rank
              (intRange input.worldSize) (sliceBeginBytes input rank) (sliceBytes input rank) (sliceWindows input rank))
            { plan := { worldSize := input.worldSize } } = .ok ((), state) ∧
          (AllGather.buildAllGatherTransferPlan cap storage input).2 = state.plan := by
  obtain ⟨valid, state, ran, left⟩ := runPlanner_ok built
  refine ⟨valid, ?_⟩
  rw [AllGather.buildAllGatherTransferPlan, left]
  cases matrix : buildTransportMatrix input.topo input.worldSize with
  | none => simp [AllGather.planAllGather, matrix, transferPlanAbortBuild] at ran
  | some transports =>
    have reaches := buildTransportMatrix_direct direct matrix
    cases grouped : AllGather.buildAllGatherIslands input transports with
    | none => simp [AllGather.planAllGather, matrix, grouped, transferPlanAbortBuild] at ran
    | some islands =>
      obtain ⟨found, searched, kept⟩ := Option.bind_eq_some_iff.mp grouped
      have single : islands.islandCount ≤ 1 := by
        split at kept
        · cases kept
          exact buildIslands_direct input reaches searched
        · cases kept
      simp only [AllGather.planAllGather, matrix, grouped, if_pos single, AllGather.buildDirectAllGatherPlan] at ran
      split at ran
      · cases ran
      · rename_i filled
        simp only [Bool.not_eq_true', Bool.not_eq_false, AllGather.fillAllGatherSliceMetadata,
          Bool.and_eq_true, List.all_eq_true] at filled
        refine ⟨fun rank inRange => ?_, transports, reaches, state, ran, rfl⟩
        simpa [AllReduce.SliceSkipped] using filled.1 rank inRange

theorem buildReduceScatterTransferPlan_shape (inPlace : input.outOfPlace = false)
    (direct : AllDirect input.topo input.worldSize)
    (built : (ReduceScatter.buildReduceScatterTransferPlan cap storage input).1 = true) :
    PlanShape cap input (ReduceScatter.buildReduceScatterTransferPlan cap storage input).2 ∧
      ∀ rank ∈ intRange input.worldSize, ¬AllReduce.SliceSkipped input rank := by
  obtain ⟨valid, active, transports, reaches, state, ran, same⟩ := buildReduceScatterTransferPlan_direct direct built
  obtain ⟨⟨nonempty, small⟩, _⟩ := (validBuildInput_iff input).mp valid
  obtain ⟨within, ranks⟩ := directBuild_shape inPlace direct nonempty active _
    (fun rank inRange => emitSliceReductions_appends reaches small inRange (active rank inRange)) ran
  rw [same]
  exact ⟨⟨valid, within, ranks⟩, active⟩

theorem buildAllGatherTransferPlan_shape (inPlace : input.outOfPlace = false)
    (direct : AllDirect input.topo input.worldSize)
    (built : (AllGather.buildAllGatherTransferPlan cap storage input).1 = true) :
    PlanShape cap input (AllGather.buildAllGatherTransferPlan cap storage input).2 ∧
      ∀ rank ∈ intRange input.worldSize, ¬AllReduce.SliceSkipped input rank := by
  obtain ⟨valid, active, transports, reaches, state, ran, same⟩ := buildAllGatherTransferPlan_direct direct built
  obtain ⟨⟨nonempty, small⟩, _⟩ := (validBuildInput_iff input).mp valid
  obtain ⟨within, ranks⟩ := directBuild_shape inPlace direct nonempty active _
    (fun rank inRange => emitAllGatherSourceCopies_appends reaches small inRange) ran
  rw [same]
  exact ⟨⟨valid, within, ranks⟩, active⟩

end TopLevel

end Ooverlap.Plan
