import Ooverlap.Plan.AllReduceDirect
import Ooverlap.Plan.OneIsland
import Ooverlap.Plan.StagedAllGather
import Ooverlap.Plan.StagedAllReduce
import Ooverlap.Plan.StagingSlots
import Ooverlap.Plan.Transports

/-! When the tasks of a plan reach other ranks' buffers by transports that the topology lists. -/

namespace Ooverlap.Plan

section Accesses

/-- Buffers that a data task reads or writes. -/
def accessedRefs (task : TransferTask) : List LogicalBufferRef :=
  match task.op with
  | .copy | .reduce => [task.src, task.dst]
  | .copyFanout | .reduceFanout => task.src :: task.fanoutDsts.take task.fanoutDstCount.toNat
  | _ => []

/-- A buffer of the executor, a staging slot through shared memory, or a buffer whose owner's link lists the
transport. -/
def Reaches (input : TransferPlanBuildInput) (executor : Int) (transport : TransportKind) (ref : LogicalBufferRef) : Prop :=
  ref.ownerRank = executor ∨ ref.role = .shmStaging ∧ transport = .shm ∨
    LinkLists input.topo executor ref.ownerRank transport

instance (input : TransferPlanBuildInput) (executor : Int) (transport : TransportKind) (ref : LogicalBufferRef) :
    Decidable (Reaches input executor transport ref) :=
  inferInstanceAs (Decidable (_ ∨ _))

/-- A task reaches every buffer that it accesses. -/
def TransportSound (input : TransferPlanBuildInput) (task : TransferTask) : Prop :=
  ∀ ref ∈ accessedRefs task, Reaches input task.executorRank task.transport ref

/-- All tasks of a list do. -/
def Sound (input : TransferPlanBuildInput) (tasks : List TransferTask) : Prop :=
  ∀ task ∈ tasks, TransportSound input task

variable {input : TransferPlanBuildInput} {executor rank peer : Int} {transport : TransportKind}

@[simp] theorem reaches_own (byteOffset : Nat) : Reaches input rank transport (rankBufferRef rank byteOffset) ↔ True :=
  iff_true_intro (Or.inl rfl)

@[simp] theorem reaches_input (byteOffset : Nat) : Reaches input rank transport (rankInputRef rank byteOffset) ↔ True :=
  iff_true_intro (Or.inl rfl)

@[simp] theorem reaches_staging (slot : Int) (byteOffset : Nat) :
    Reaches input rank .shm (shmStagingRef slot byteOffset) ↔ True :=
  iff_true_intro (Or.inr (Or.inl ⟨rfl, rfl⟩))

/-- Another rank's buffer is reached exactly by the listed transports. -/
theorem reaches_remote (remote : ref.ownerRank ≠ executor) (buffer : ref.role ≠ .shmStaging) :
    Reaches input executor transport ref ↔ LinkLists input.topo executor ref.ownerRank transport := by
  simp [Reaches, remote, buffer]

theorem reaches_peer (remote : peer ≠ rank) (byteOffset : Nat) :
    Reaches input rank transport (rankBufferRef peer byteOffset) ↔ LinkLists input.topo rank peer transport :=
  reaches_remote remote LogicalBufferRole.noConfusion

@[simp] theorem sound_append : Sound input (first ++ second) ↔ Sound input first ∧ Sound input second :=
  List.forall_mem_append

@[simp] theorem sound_cons : Sound input (task :: rest) ↔ TransportSound input task ∧ Sound input rest :=
  List.forall_mem_cons

@[simp] theorem sound_nil : Sound input [] ↔ True :=
  iff_true_intro fun _ none => nomatch none

@[simp] theorem sound_flatMap {items : List α} {block : α → List TransferTask} :
    Sound input (items.flatMap block) ↔ ∀ item ∈ items, Sound input (block item) :=
  List.forall_mem_flatMap

@[simp] theorem sound_map {items : List α} {task : α → TransferTask} :
    Sound input (items.map task) ↔ ∀ item ∈ items, TransportSound input (task item) :=
  List.forall_mem_map

/-- Signals and barriers access no buffers. -/
theorem transportSound_idle (idle : accessedRefs task = []) : TransportSound input task := by
  intro ref accessed
  rw [idle] at accessed
  cases accessed

@[simp] theorem sound_publishes (waiters : List Int) (readyPhase : Int) :
    Sound input (publishTasks input rank waiters readyPhase) ↔ True := by
  refine iff_true_intro fun task member => ?_
  obtain ⟨channel, _, rfl⟩ := List.mem_map.mp member
  exact transportSound_idle rfl

@[simp] theorem transportSound_wait (owner readyPhase : Int) :
    TransportSound input (waitTask input rank owner readyPhase) ↔ True :=
  iff_true_intro (transportSound_idle rfl)

@[simp] theorem sound_entryPublishes : Sound input (entryPublishes input rank) ↔ True :=
  sound_publishes ..

@[simp] theorem sound_entryWaits : Sound input (entryWaits input rank) ↔ True := by
  simp [entryWaits]

theorem both_iff {p : α → Prop} : (∀ ref ∈ [first, second], p ref) ↔ p first ∧ p second := by
  rw [List.forall_mem_cons, List.forall_mem_singleton]

@[simp] theorem transportSound_copy (srcRank dstRank : Int) (src dst : LogicalBufferRef) (bytes : Nat) (numWindows : Int) :
    TransportSound input (copyTask input rank srcRank dstRank src dst bytes numWindows transport) ↔
      Reaches input rank transport src ∧ Reaches input rank transport dst :=
  both_iff

@[simp] theorem transportSound_reduce (srcRank dstRank : Int) (src dst : LogicalBufferRef) (bytes : Nat)
    (numWindows : Int) :
    TransportSound input (reduceTask input rank srcRank dstRank src dst bytes numWindows transport) ↔
      Reaches input rank transport src ∧ Reaches input rank transport dst := by
  unfold reduceTask stagedReduceCapabilities
  split
  · exact both_iff
  · exact both_iff

@[simp] theorem sound_inputCopies : Sound input (inputCopies input rank) ↔ True := by
  unfold inputCopies
  split <;> simp

end Accesses

section Passes

variable {input : TransferPlanBuildInput}

/-- A fanout reaches what the copies of its group reach. -/
theorem AllReduce.FanoutGroup.sound_iff (valid : AllReduce.FanoutGroup group) :
    Sound input (AllReduce.flushFanoutGroup group) ↔ Sound input group := by
  match group with
  | [] => exact Iff.rfl
  | [_] => exact Iff.rfl
  | first :: second :: rest =>
    have alike : ∀ task ∈ first :: second :: rest, task.op = .copy ∧ task.executorRank = first.executorRank ∧
        task.transport = first.transport ∧ task.src = first.src := by
      have opens : first.op = .copy := by
        obtain ⟨previous, shape⟩ := valid.shape first (second :: rest) rfl second (List.mem_cons_self ..)
        simp only [copyTasksShareFanoutShape, copyTaskIsFanoutEligible, Bool.and_eq_true, beq_iff_eq] at shape
        tauto
      intro task member
      rcases List.mem_cons.mp member with rfl | later
      · exact ⟨opens, rfl, rfl, rfl⟩
      · obtain ⟨previous, shape⟩ := valid.shape first (second :: rest) rfl task later
        simp only [copyTasksShareFanoutShape, copyTaskIsFanoutEligible, Bool.and_eq_true, beq_iff_eq] at shape
        tauto
    have members : Sound input (first :: second :: rest) ↔ ∀ task ∈ first :: second :: rest,
        Reaches input first.executorRank first.transport first.src ∧
          Reaches input first.executorRank first.transport task.dst := by
      refine forall₂_congr fun task member => ?_
      obtain ⟨copies, executor, transport, src⟩ := alike task member
      rw [TransportSound, accessedRefs, copies, both_iff, executor, transport, src]
    rw [members, flushFanoutGroup, sound_cons, sound_nil, and_true]
    simp only [TransportSound, accessedRefs, fanoutOfGroup, Int.toNat_natCast, List.forall_mem_cons]
    rw [List.take_of_length_le (by simp)]
    simp only [List.map_cons, List.forall_mem_cons, List.forall_mem_map]
    constructor
    · rintro ⟨src, here, next, later⟩
      exact ⟨⟨src, here⟩, ⟨src, next⟩, fun task member => ⟨src, later task member⟩⟩
    · rintro ⟨⟨src, here⟩, ⟨_, next⟩, later⟩
      exact ⟨src, here, next, fun task member => (later task member).2⟩

theorem AllReduce.coalesce_sound_iff (tasks : List TransferTask) :
    Sound input (coalesceAdjacentCopyTasksIntoFanout tasks) ↔ Sound input tasks := by
  obtain ⟨groups, covers, each, flushed⟩ := coalesceFrom_groups fanoutGroup_nil tasks
  rw [List.nil_append] at covers
  rw [coalesceAdjacentCopyTasksIntoFanout, flushed, ← covers, sound_flatMap]
  constructor
  · intro sound task member
    obtain ⟨group, inGroups, inGroup⟩ := List.mem_flatten.mp member
    exact (each group inGroups).sound_iff.mp (sound group inGroups) task inGroup
  · intro sound group inGroups
    exact (each group inGroups).sound_iff.mpr fun task inGroup =>
      sound task (List.mem_flatten.mpr ⟨group, inGroups, inGroup⟩)

theorem AllReduce.withBarriers_sound_iff (previous tasks : List TransferTask) :
    Sound input (withBarriers previous tasks) ↔ Sound input tasks := by
  induction tasks generalizing previous with
  | nil => exact Iff.rfl
  | cons consumer rest ih =>
    have barrier : TransportSound input (barrierFor consumer) := transportSound_idle rfl
    rw [withBarriers]
    split
    · rw [sound_cons, sound_cons, sound_cons, ih, and_iff_right barrier]
    · rw [sound_cons, sound_cons, ih]

/-- The passes change nothing of what the tasks reach. -/
theorem AllReduce.runAllreducePasses_sound_iff (passed : runAllreducePasses cap before = .ok ((), state)) :
    Sound input state.plan.tasks ↔ Sound input before.plan.tasks := by
  simp only [runAllreducePasses, insertLocalReduceCopyBarriers] at passed
  cases inserted : insertBarriersFrom cap [] (coalesceAdjacentCopyTasksIntoFanout before.plan.tasks) with
  | none =>
    rw [inserted] at passed
    cases passed
  | some result =>
    rw [inserted] at passed
    cases passed
    have whole := insertBarriersFrom_eq inserted
    rw [List.nil_append] at whole
    have view : ∀ tasks, Sound input tasks ↔ Sound input (tasks.map TransferTask.unmarked) := by
      intro tasks
      rw [sound_map]
      exact Iff.rfl
    have kept : (renumberPhases (fun _ => 0) result).map TransferTask.unmarked = result.map TransferTask.unmarked :=
      renumberPhases_unmarked _ _
    change Sound input (renumberPhases (fun _ => 0) result) ↔ _
    rw [view, kept, ← view, whole, withBarriers_sound_iff, coalesce_sound_iff]

end Passes

section Conditions

/-- The links between these ranks list some transport as available. -/
def LinksUsable (input : TransferPlanBuildInput) (between : Int → Int → Prop) : Prop :=
  ∀ rank ∈ intRange input.worldSize, ∀ peer ∈ peersOf rank input.worldSize, between rank peer →
    UsableLink input.topo rank peer

/-- Ranks between whose buffers a plan moves data directly: all where they are all together, else those that are
together with the smallest of them, and that one. -/
def Adjacent (input : TransferPlanBuildInput) (rank peer : Int) : Prop :=
  Together input rank peer ∧ (AllTogether input ∨ Foremost input rank ∨ Foremost input peer)

/-- All links of a rank list the direct transport that the link to its last peer prefers. -/
def FanoutListed (input : TransferPlanBuildInput) (rank : Int) : Prop :=
  (∀ peer ∈ peersOf rank input.worldSize, LinkLists input.topo rank peer .directNvlink) ∨
    (∀ last ∈ (peersOf rank input.worldSize).getLast?, ¬LinkLists input.topo rank last .directNvlink) ∧
      ∀ peer ∈ peersOf rank input.worldSize, LinkLists input.topo rank peer .directPcie

variable {input : TransferPlanBuildInput} {transports : TransportMatrix} {islands : IslandPlan}

/-- In a single island any two ranks are adjacent. -/
theorem AllTogether.adjacent (all : AllTogether input) (inRange : rank ∈ intRange input.worldSize)
    (isPeer : peer ∈ peersOf rank input.worldSize) : Adjacent input rank peer :=
  ⟨all rank inRange peer (mem_intRange.mpr (mem_peersOf.mp isPeer).1), Or.inl all⟩

theorem reaches_peer_iff (matrix : buildTransportMatrix input.topo input.worldSize = some transports)
    (inRange : rank ∈ intRange input.worldSize) (isPeer : peer ∈ peersOf rank input.worldSize) (byteOffset : Nat) :
    Reaches input rank (transports rank peer) (rankBufferRef peer byteOffset) ↔ UsableLink input.topo rank peer := by
  rw [reaches_peer (mem_peersOf.mp isPeer).2, transports_listed_iff matrix inRange isPeer]

end Conditions

/-- Marking the terminal tasks changes nothing of what the tasks reach. -/
theorem Lists.sound_iff {step : BuildM Unit} (lists : Lists cap step tasks) (worldSize : Int)
    (ran : (step >>= fun _ => markLastTaskPerRankTerminal worldSize) { plan := { worldSize := size } } =
      .ok ((), state)) : Sound input state.plan.tasks ↔ Sound input tasks :=
  lists.each worldSize ran (TransportSound input) fun _ => Iff.rfl

section Leaders

variable {input : TransferPlanBuildInput} {transports : TransportMatrix} {islands : IslandPlan}

/-- What leaders and members of several islands reach of each other. -/
theorem Grouped.leaders_iff (grouped : Grouped input islands) (several : 1 < islands.islandCount) :
    (∀ island ∈ intRange islands.islandCount, ∀ rank ∈ islandMembers islands island,
        UsableLink input.topo (islands.leaderRank island) rank ∧ UsableLink input.topo rank (islands.leaderRank island)) ↔
      LinksUsable input (Adjacent input) := by
  have apart : ¬AllTogether input := fun all => absurd (grouped.single_iff.mpr all) (not_le.mpr several)
  rw [grouped.members_iff (UsableLink input.topo)]
  simp only [LinksUsable, Adjacent, apart, false_or]

theorem Partition.member_peer (partition : Partition input.worldSize islands) (isMember : rank ∈ islandMembers islands island) :
    rank ∈ peersOf (islands.leaderRank island) input.worldSize := by
  obtain ⟨⟨inRange, _⟩, apart⟩ := partition.mem_members.mp isMember
  exact mem_peersOf.mpr ⟨mem_intRange.mp inRange, apart⟩

theorem Partition.leader_peer (partition : Partition input.worldSize islands)
    (islandInRange : island ∈ intRange islands.islandCount) (isMember : rank ∈ islandMembers islands island) :
    islands.leaderRank island ∈ peersOf rank input.worldSize := by
  obtain ⟨_, apart⟩ := partition.mem_members.mp isMember
  exact mem_peersOf.mpr ⟨mem_intRange.mp (partition.leader_inRange islandInRange), Ne.symm apart⟩

end Leaders

namespace ReduceScatter

variable {input : TransferPlanBuildInput} {transports : TransportMatrix} {islands : IslandPlan}

theorem sound_sliceReductions (matrix : buildTransportMatrix input.topo input.worldSize = some transports)
    (inRange : rank ∈ intRange input.worldSize) : Sound input (sliceReductions input transports rank) ↔
      ∀ peer ∈ peersOf rank input.worldSize, UsableLink input.topo rank peer := by
  rw [sliceReductions, sound_map]
  refine forall₂_congr fun peer isPeer => ?_
  rw [transportSound_reduce, reaches_own, and_true, reaches_peer_iff matrix inRange isPeer]

@[simp] theorem sound_fullCopies : Sound input (fullCopies input rank) ↔ True := by
  unfold fullCopies
  split <;> simp

theorem sound_islandReductions (matrix : buildTransportMatrix input.topo input.worldSize = some transports)
    (partition : Partition input.worldSize islands) (inRange : island ∈ intRange islands.islandCount) :
    Sound input (islandReductions input transports islands island (islands.leaderRank island)) ↔
      ∀ rank ∈ islandMembers islands island, UsableLink input.topo (islands.leaderRank island) rank := by
  rw [islandReductions, sound_map]
  refine forall₂_congr fun rank isMember => ?_
  rw [transportSound_reduce, reaches_own, and_true,
    reaches_peer_iff matrix (partition.leader_inRange inRange) (partition.member_peer isMember)]

theorem sound_stagedTasks (matrix : buildTransportMatrix input.topo input.worldSize = some transports)
    (grouped : Grouped input islands) (several : 1 < islands.islandCount) :
    Sound input (stagedTasks input transports islands) ↔ LinksUsable input (Adjacent input) := by
  have partition := grouped.partition
  rw [← grouped.leaders_iff several]
  simp only [stagedTasks, sound_append, sound_flatMap, sound_cons, sound_nil, sound_fullCopies,
    sound_entryPublishes, sound_entryWaits,
    partialPublishes, stagedPublishes, sound_publishes, partialWait, stagedWait, transportSound_wait, stagingCopy,
    remoteReduction, transportSound_copy, transportSound_reduce, reaches_own, reaches_staging, implies_true, true_and,
    and_true, and_self, ← forall₂_and]
  refine forall₂_congr fun island inRange => ?_
  rw [sound_islandReductions matrix partition inRange, ← forall₂_and]
  refine forall₂_congr fun rank isMember => and_congr_right' ?_
  have rankInRange := (partition.mem_members.mp isMember).1.1
  rw [partialCopy, transportSound_copy, reaches_own, and_true,
    reaches_peer_iff matrix rankInRange (partition.leader_peer inRange isMember)]

theorem buildDirectReduceScatterPlan_sound_iff
    (matrix : buildTransportMatrix input.topo input.worldSize = some transports) (all : AllTogether input)
    (ran : buildDirectReduceScatterPlan cap input transports { plan := { worldSize := input.worldSize } } =
      .ok ((), state)) : Sound input state.plan.tasks ↔ LinksUsable input (Adjacent input) := by
  unfold buildDirectReduceScatterPlan at ran
  split at ran
  · cases ran
  have lists := (emitOptionalSliceCopies_lists cap input).bind ((emitEntryRendezvous_lists cap input).bind
    (Lists.forM (intRange input.worldSize) _ _ fun rank _ => emitSliceReductions_lists cap input transports rank))
  rw [lists.sound_iff input.worldSize (by simpa only [bind_assoc] using ran)]
  simp only [sound_append, sound_flatMap, sound_inputCopies, sound_entryPublishes, sound_entryWaits, implies_true,
    true_and]
  refine forall₂_congr fun rank inRange => ?_
  rw [sound_sliceReductions matrix inRange]
  refine forall₂_congr fun peer isPeer => ?_
  rw [imp_iff_right (all.adjacent inRange isPeer)]

theorem buildStagedIslandReduceScatterPlan_sound_iff
    (matrix : buildTransportMatrix input.topo input.worldSize = some transports) (grouped : Grouped input islands)
    (several : 1 < islands.islandCount)
    (ran : buildStagedIslandReduceScatterPlan cap input transports islands { plan := { worldSize := input.worldSize } } =
      .ok ((), state)) : Sound input state.plan.tasks ↔ LinksUsable input (Adjacent input) := by
  unfold buildStagedIslandReduceScatterPlan at ran
  split at ran
  · cases ran
  cases assigned : assignStagingSlots input islands (totalBytes input) with
  | none =>
    rw [assigned] at ran
    cases ran
  | some slotted =>
    rw [assigned] at ran
    obtain ⟨_, same⟩ := assignStagingSlots_staged grouped.partition assigned
    have slottedGroups := grouped.of_slots same
    rw [← same] at several
    have lists := stagedSteps_lists cap input transports slotted
    rw [lists.sound_iff input.worldSize (by simpa only [bind_assoc] using ran)]
    exact sound_stagedTasks matrix slottedGroups several

theorem buildReduceScatterTransferPlan_sound_iff (built : (buildReduceScatterTransferPlan cap storage input).1 = true) :
    Sound input (buildReduceScatterTransferPlan cap storage input).2.tasks ↔ LinksUsable input (Adjacent input) := by
  obtain ⟨_, state, ran, left⟩ := runPlanner_ok built
  rw [buildReduceScatterTransferPlan, left]
  unfold planReduceScatter at ran
  cases matrix : buildTransportMatrix input.topo input.worldSize with
  | none =>
    rw [matrix] at ran
    cases ran
  | some transports =>
    cases found : buildIslands input transports with
    | none =>
      simp only [matrix, found] at ran
      cases ran
    | some islands =>
      simp only [matrix, found] at ran
      have grouped := buildIslands_grouped matrix found
      split at ran
      · rename_i single
        exact buildDirectReduceScatterPlan_sound_iff matrix (grouped.single_iff.mp single) ran
      · rename_i several
        exact buildStagedIslandReduceScatterPlan_sound_iff matrix grouped (not_le.mp several) ran

end ReduceScatter

namespace AllGather

variable {input : TransferPlanBuildInput} {transports : TransportMatrix} {islands : IslandPlan}

/-- A batch reaches its destinations, whether it is a copy or a fanout. -/
theorem transportSound_batch (few : batch.length ≤ tmaTwoGpuPeerMaxFanoutDsts) (sliceBeginBytes sliceBytes : Nat)
    (sliceWindows : Int) (transport : TransportKind) :
    TransportSound input (batchTask input srcRank sliceBeginBytes sliceBytes sliceWindows batch transport) ↔
      ∀ dstRank ∈ batch, Reaches input srcRank transport (rankBufferRef dstRank sliceBeginBytes) := by
  have short : (batch.map fun dstRank => rankBufferRef dstRank sliceBeginBytes).length ≤ tmaTwoGpuPeerMaxFanoutDsts := by
    simpa using few
  unfold batchTask
  split
  · simp
  · simp only [TransportSound, accessedRefs, makeCopyFanoutTransferTask, makeFanoutTransferTask, Int.toNat_natCast,
      List.take_of_length_le short, List.take_length, List.forall_mem_cons, reaches_own, true_and, List.forall_mem_map]

theorem sound_sourceCopies (matrix : buildTransportMatrix input.topo input.worldSize = some transports)
    (inRange : srcRank ∈ intRange input.worldSize) (listed : ∀ rank ∈ candidateRanks, rank ∈ intRange input.worldSize)
    (sliceBeginBytes sliceBytes : Nat) (sliceWindows : Int) :
    Sound input (sourceCopies input transports srcRank candidateRanks sliceBeginBytes sliceBytes sliceWindows) ↔
      ∀ dstRank ∈ candidateRanks, dstRank ≠ srcRank → UsableLink input.topo srcRank dstRank := by
  have reached : ∀ dstRank ∈ candidateRanks.filter (· ≠ srcRank),
      (Reaches input srcRank (transports srcRank dstRank) (rankBufferRef dstRank sliceBeginBytes) ↔
        UsableLink input.topo srcRank dstRank) := by
    intro dstRank member
    obtain ⟨candidate, apart⟩ := List.mem_filter.mp member
    have isPeer := mem_peersOf.mpr ⟨mem_intRange.mp (listed dstRank candidate), of_decide_eq_true apart⟩
    exact reaches_peer_iff matrix inRange isPeer _
  have others : (∀ dstRank ∈ candidateRanks, dstRank ≠ srcRank → UsableLink input.topo srcRank dstRank) ↔
      ∀ dstRank ∈ candidateRanks.filter (· ≠ srcRank), UsableLink input.topo srcRank dstRank := by
    simp [List.mem_filter]
  rw [others]
  unfold sourceCopies
  split
  · rw [sound_map]
    refine forall₂_congr fun dstRank member => ?_
    rw [transportSound_copy, reaches_own, true_and, reached dstRank member]
  · have whole : (copyBatches transports srcRank [] .directNvlink candidateRanks).flatMap Prod.fst =
        candidateRanks.filter (· ≠ srcRank) := copyBatches_destinations [] .directNvlink candidateRanks
    rw [sound_map, ← whole, List.forall_mem_flatMap]
    refine forall₂_congr fun flushed member => ?_
    have few := (copyBatches_sizes transports srcRank [] .directNvlink candidateRanks (Nat.zero_le _) flushed member).2
    rw [transportSound_batch few]
    refine forall₂_congr fun dstRank inBatch => ?_
    have destination : dstRank ∈ candidateRanks.filter (· ≠ srcRank) :=
      whole ▸ List.mem_flatMap.mpr ⟨flushed, member, inBatch⟩
    rw [← copyBatches_transports [] .directNvlink candidateRanks (fun _ none => nomatch none) flushed member dstRank inBatch,
      reached dstRank destination]

theorem sound_stagedTasks (matrix : buildTransportMatrix input.topo input.worldSize = some transports)
    (grouped : Grouped input islands) :
    Sound input (stagedTasks input transports islands) ↔ LinksUsable input (Together input) := by
  have partition := grouped.partition
  have listed : ∀ island, ∀ rank ∈ islands.islandRanks island, rank ∈ intRange input.worldSize := fun _ _ isRank =>
    (partition.mem_ranks.mp isRank).1
  have gathered : (∀ island ∈ intRange islands.islandCount, ∀ rank ∈ islands.islandRanks island,
      Sound input (islandCopies input transports islands island rank)) ↔ LinksUsable input (Together input) := by
    rw [LinksUsable, ← grouped.ranks_iff (UsableLink input.topo)]
    refine forall₂_congr fun island _ => forall₂_congr fun rank isRank => ?_
    rw [islandCopies, sound_sourceCopies matrix (listed island rank isRank) (listed island)]
  simp only [stagedTasks, sound_append, sound_flatMap, sound_cons, sound_nil, sound_inputCopies, sound_entryPublishes,
    sound_entryWaits, gatherPublishes, stagedPublishes, remotePublishes, sound_publishes, gatherWait, stagedWait,
    memberWait, transportSound_wait, blockCopy, remoteCopy, transportSound_copy, reaches_own, reaches_staging,
    implies_true, true_and, and_true, and_self, gathered]
  refine and_iff_left_of_imp fun usable dstIsland inRange srcIsland _ rank isMember => ?_
  obtain ⟨⟨rankInRange, home⟩, _⟩ := partition.mem_members.mp isMember
  obtain ⟨leaderInRange, leaderHome⟩ := partition.mem_ranks.mp (partition.leader_mem inRange)
  have isPeer := partition.leader_peer inRange isMember
  rw [memberCopy, transportSound_copy, reaches_own, and_true, reaches_peer_iff matrix rankInRange isPeer]
  exact usable rank rankInRange _ isPeer
    ((grouped.together rank rankInRange _ leaderInRange).mp (home.trans leaderHome.symm))

theorem buildDirectAllGatherPlan_sound_iff
    (matrix : buildTransportMatrix input.topo input.worldSize = some transports) (all : AllTogether input)
    (ran : buildDirectAllGatherPlan cap input transports { plan := { worldSize := input.worldSize } } =
      .ok ((), state)) : Sound input state.plan.tasks ↔ LinksUsable input (Together input) := by
  unfold buildDirectAllGatherPlan at ran
  split at ran
  · cases ran
  have lists := (emitOptionalSliceCopies_lists cap input).bind ((emitEntryRendezvous_lists cap input).bind
    (Lists.forM (intRange input.worldSize) _ _ fun rank _ =>
      emitAllGatherSourceCopies_lists cap input transports rank (intRange input.worldSize) (sliceBeginBytes input rank)
        (sliceBytes input rank) (sliceWindows input rank)))
  rw [lists.sound_iff input.worldSize (by simpa only [bind_assoc] using ran)]
  simp only [sound_append, sound_flatMap, sound_inputCopies, sound_entryPublishes, sound_entryWaits, implies_true,
    true_and]
  refine forall₂_congr fun rank inRange => ?_
  rw [sound_sourceCopies matrix inRange fun _ member => member]
  constructor
  · intro usable peer isPeer _
    exact usable peer (mem_intRange.mpr (mem_peersOf.mp isPeer).1) (mem_peersOf.mp isPeer).2
  · intro usable peer peerInRange apart
    exact usable peer (mem_peersOf.mpr ⟨mem_intRange.mp peerInRange, apart⟩) (all rank inRange peer peerInRange)

theorem buildStagedIslandAllGatherPlan_sound_iff
    (matrix : buildTransportMatrix input.topo input.worldSize = some transports) (grouped : Grouped input islands)
    (ran : buildStagedIslandAllGatherPlan cap input transports islands { plan := { worldSize := input.worldSize } } =
      .ok ((), state)) : Sound input state.plan.tasks ↔ LinksUsable input (Together input) := by
  unfold buildStagedIslandAllGatherPlan at ran
  split at ran
  · cases ran
  cases assigned : assignStagingSlots input islands with
  | none =>
    rw [assigned] at ran
    cases ran
  | some slotted =>
    rw [assigned] at ran
    obtain ⟨_, same⟩ := assignStagingSlotsFrom_staged input _ grouped.partition assigned
    have lists := stagedSteps_lists cap input transports slotted
    rw [lists.sound_iff input.worldSize (by simpa only [bind_assoc] using ran)]
    exact sound_stagedTasks matrix (grouped.of_slots same)

theorem buildAllGatherTransferPlan_sound_iff (built : (buildAllGatherTransferPlan cap storage input).1 = true) :
    Sound input (buildAllGatherTransferPlan cap storage input).2.tasks ↔ LinksUsable input (Together input) := by
  obtain ⟨_, state, ran, left⟩ := runPlanner_ok built
  rw [buildAllGatherTransferPlan, left]
  unfold planAllGather at ran
  cases matrix : buildTransportMatrix input.topo input.worldSize with
  | none =>
    rw [matrix] at ran
    cases ran
  | some transports =>
    cases found : buildAllGatherIslands input transports with
    | none =>
      simp only [matrix, found] at ran
      cases ran
    | some islands =>
      simp only [matrix, found] at ran
      have grouped := buildIslands_grouped matrix (buildAllGatherIslands_grouped found)
      split at ran
      · rename_i single
        exact buildDirectAllGatherPlan_sound_iff matrix (grouped.single_iff.mp single) ran
      · exact buildStagedIslandAllGatherPlan_sound_iff matrix grouped ran

end AllGather

namespace AllReduce

open ReduceScatter (totalWindows)

variable {input : TransferPlanBuildInput} {transports : TransportMatrix} {islands : IslandPlan}

/-- What an active rank does in a direct plan in place, in the order of the planner's loops. -/
def directRankTasks (input : TransferPlanBuildInput) (transports : TransportMatrix) (rank : Int) : List TransferTask :=
  entryPublishes input rank ++ entryWaits input rank ++
    ((peersOf rank input.worldSize).map (fun peer =>
      reduceTask input rank peer rank (rankBufferRef peer (sliceBeginBytes input rank))
        (rankBufferRef rank (sliceBeginBytes input rank)) (sliceBytes input rank) (sliceWindows input rank)
        (transports rank peer)) ++
    (peersOf rank input.worldSize).map fun peer =>
      copyTask input rank rank peer (rankBufferRef rank (sliceBeginBytes input rank))
        (rankBufferRef peer (sliceBeginBytes input rank)) (sliceBytes input rank) (sliceWindows input rank)
        (transports rank peer))

theorem emitDirectRankTasks_lists (cap : Nat) (inPlace : input.outOfPlace = false)
    (inRange : rank ∈ intRange input.worldSize) :
    Lists cap (emitDirectRankTasks cap input transports rank)
      (if SliceSkipped input rank then [] else directRankTasks input transports rank) := by
  by_cases skipped : SliceSkipped input rank
  · have body : emitDirectRankTasks cap input transports rank = pure () := if_pos skipped
    rw [body, if_pos skipped]
    exact Lists.pure cap
  · have noCopy : emitOptionalSliceCopy cap input rank (sliceBeginBytes input rank) (sliceBytes input rank)
        (sliceWindows input rank) = pure () := by
      simp [emitOptionalSliceCopy, inPlace]
    have body : emitDirectRankTasks cap input transports rank = _ := if_neg skipped
    rw [body, if_neg skipped]
    change Lists cap (emitOptionalSliceCopy cap input rank (sliceBeginBytes input rank) (sliceBytes input rank)
      (sliceWindows input rank) >>= _) _
    rw [noCopy, pure_bind]
    exact (appendReadyRendezvousTasks_lists cap input inRange).bind
      ((Lists.forM_single _ _ _ fun _ _ => Lists.guarded _ (pushReduceTask_lists ..)).bind
        (Lists.forM_single _ _ _ fun _ _ => Lists.guarded _ (pushCopyTask_lists ..)))

theorem sound_directRankTasks (matrix : buildTransportMatrix input.topo input.worldSize = some transports)
    (inRange : rank ∈ intRange input.worldSize) : Sound input (directRankTasks input transports rank) ↔
      ∀ peer ∈ peersOf rank input.worldSize, UsableLink input.topo rank peer := by
  simp only [directRankTasks, sound_append, sound_map, sound_entryPublishes, sound_entryWaits, true_and, ← forall₂_and]
  refine forall₂_congr fun peer isPeer => ?_
  simp only [transportSound_reduce, transportSound_copy, reaches_own, and_true, true_and,
    reaches_peer_iff matrix inRange isPeer, and_self]

/-- Direct plans in place move data between the active ranks and all their peers. -/
theorem buildDirectAllreducePlan_sound_iff
    (matrix : buildTransportMatrix input.topo input.worldSize = some transports) (all : AllTogether input)
    (inPlace : input.outOfPlace = false)
    (ran : buildDirectAllreducePlan cap input transports { plan := { worldSize := input.worldSize } } =
      .ok ((), state)) : Sound input state.plan.tasks ↔
      LinksUsable input fun rank peer => Adjacent input rank peer ∧ (AllTogether input → ¬SliceSkipped input rank) := by
  have lists := Lists.forM (intRange input.worldSize) _ _ fun rank inRange =>
    @emitDirectRankTasks_lists input transports rank cap inPlace inRange
  rw [lists.sound_iff input.worldSize ran, sound_flatMap]
  refine forall₂_congr fun rank inRange => ?_
  by_cases skipped : SliceSkipped input rank
  · rw [if_pos skipped, sound_nil, true_iff]
    intro peer _ between
    exact absurd skipped (between.2 all)
  · rw [if_neg skipped, sound_directRankTasks matrix inRange]
    refine forall₂_congr fun peer isPeer => ?_
    rw [imp_iff_right ⟨all.adjacent inRange isPeer, fun _ => skipped⟩]

/-- A fanout reaches all peers by one transport, so that their links must agree on it. -/
theorem reaches_peers_iff (matrix : buildTransportMatrix input.topo input.worldSize = some transports)
    (inRange : rank ∈ intRange input.worldSize)
    (direct : ∀ peer ∈ peersOf rank input.worldSize, transportUsesDirectTma (transports rank peer) = true) :
    (∀ peer ∈ peersOf rank input.worldSize,
        LinkLists input.topo rank peer (selectedFanoutTransport input transports rank)) ↔ FanoutListed input rank := by
  unfold selectedFanoutTransport FanoutListed
  rw [List.getLastD_eq_getLast?, List.getLast?_map]
  cases ends : (peersOf rank input.worldSize).getLast? with
  | none =>
    rw [List.getLast?_eq_none_iff.mp ends]
    simp
  | some last =>
    have isPeer := List.mem_of_getLast? ends
    have chosen := transports_eq matrix inRange isPeer
    have reached := direct last isPeer
    simp only [Option.map_some, Option.getD_some, Option.mem_def, Option.some.injEq, forall_eq']
    by_cases nvlink : LinkLists input.topo rank last .directNvlink
    · rw [chosen, if_pos nvlink]
      exact (or_iff_left fun pcie => pcie.1 nvlink).symm
    · have fallback : transports rank last = .directPcie := by
        rw [chosen, if_neg nvlink] at reached ⊢
        split
        · rfl
        · split
          · simp_all [transportUsesDirectTma]
          · rfl
      rw [fallback]
      refine ⟨fun pcie => Or.inr ⟨nvlink, pcie⟩, ?_⟩
      rintro (all | ⟨_, pcie⟩)
      · exact absurd (all last isPeer) nvlink
      · exact pcie

/-- The task by which a rank adds its input to all outputs. -/
def fanoutTask (input : TransferPlanBuildInput) (transports : TransportMatrix) (rank : Int) : TransferTask :=
  makeReduceFanoutTransferTask rank rank (intRange input.worldSize) (rankInputRef rank)
    ((intRange input.worldSize).map fun dstRank => rankOutputRef dstRank) (totalBytes input) (totalWindows input)
    input.launchConfig.windowChunks (selectedFanoutTransport input transports rank) false 0

theorem pushReduceFanoutTask_lists (cap : Nat) (input : TransferPlanBuildInput) (transports : TransportMatrix)
    (rank : Int) :
    Lists cap (pushReduceFanoutTask cap input rank rank (intRange input.worldSize) (rankInputRef rank)
        ((intRange input.worldSize).map fun dstRank => rankOutputRef dstRank) (totalBytes input) (totalWindows input)
        (selectedFanoutTransport input transports rank))
      [fanoutTask input transports rank] :=
  Lists.guarded _ (Lists.push cap rank _ fun _ => rfl)

theorem transportSound_fanoutTask (few : input.worldSize ≤ (tmaTwoGpuPeerMaxFanoutDsts : Int)) :
    TransportSound input (fanoutTask input transports rank) ↔ ∀ peer ∈ peersOf rank input.worldSize,
      LinkLists input.topo rank peer (selectedFanoutTransport input transports rank) := by
  have short : ((intRange input.worldSize).map fun dstRank => rankOutputRef dstRank).length ≤
      tmaTwoGpuPeerMaxFanoutDsts := by
    have count : ((intRange input.worldSize).map fun dstRank => rankOutputRef dstRank).length =
        input.worldSize.toNat := by simp
    omega
  simp only [TransportSound, accessedRefs, fanoutTask, makeReduceFanoutTransferTask, makeFanoutTransferTask,
    Int.toNat_natCast, List.take_of_length_le short, List.take_length, List.forall_mem_cons, reaches_input, true_and,
    List.forall_mem_map]
  constructor
  · intro reached peer isPeer
    obtain ⟨inRange, apart⟩ := mem_peersOf.mp isPeer
    exact (reaches_remote apart LogicalBufferRole.noConfusion).mp (reached peer (mem_intRange.mpr inRange))
  · intro listed dstRank inRange
    by_cases own : dstRank = rank
    · exact Or.inl own
    · exact Or.inr (Or.inr (listed dstRank (mem_peersOf.mpr ⟨mem_intRange.mp inRange, own⟩)))

theorem buildOutOfPlaceDirectAllreduceFanoutPlan_sound_iff
    (matrix : buildTransportMatrix input.topo input.worldSize = some transports)
    (ran : buildOutOfPlaceDirectAllreduceFanoutPlan cap input transports { plan := { worldSize := input.worldSize } } =
      .ok ((), state)) : Sound input state.plan.tasks ↔ ∀ rank ∈ intRange input.worldSize, FanoutListed input rank := by
  unfold buildOutOfPlaceDirectAllreduceFanoutPlan at ran
  obtain ⟨accepted, ran⟩ := unguarded ran
  obtain ⟨_, ran⟩ := unguarded ran
  have direct : ∀ rank ∈ intRange input.worldSize, ∀ peer ∈ peersOf rank input.worldSize,
      transportUsesDirectTma (transports rank peer) = true := by
    intro rank inRange peer isPeer
    obtain ⟨_, _, _, later⟩ := BuildM.bind_ok ran
    obtain ⟨_, _, looped, _⟩ := BuildM.bind_ok later
    obtain ⟨_, _, turn⟩ := forM_turn looped inRange
    have reached := (unguarded turn).1
    simp only [List.any_eq_true, not_exists, not_and, Bool.not_eq_true', Bool.not_eq_false] at reached
    exact reached peer (mem_intRange.mpr (mem_peersOf.mp isPeer).1)
  have lists := (emitEntryRendezvous_lists cap input).bind
    (Lists.forM_single (intRange input.worldSize) _ (fanoutTask input transports) fun rank _ =>
      Lists.guarded (((intRange input.worldSize).any fun dstRank => !transportUsesDirectTma (transports rank dstRank)) =
        true) (pushReduceFanoutTask_lists cap input transports rank))
  rw [lists.sound_iff input.worldSize (by simp only [bind_assoc]; exact ran)]
  simp only [sound_append, sound_flatMap, sound_entryPublishes, sound_entryWaits, implies_true, true_and, sound_map]
  refine forall₂_congr fun rank inRange => ?_
  rw [transportSound_fanoutTask (by omega), reaches_peers_iff matrix inRange (direct rank inRange)]

theorem sound_stagedTasks (matrix : buildTransportMatrix input.topo input.worldSize = some transports)
    (grouped : Grouped input islands) (several : 1 < islands.islandCount) :
    Sound input (stagedTasks input transports islands) ↔ LinksUsable input (Adjacent input) := by
  have partition := grouped.partition
  rw [← grouped.leaders_iff several]
  simp only [stagedTasks, sound_append, sound_flatMap, sound_cons, sound_nil, sound_entryPublishes, sound_entryWaits,
    stagedPublishes, finalPublishes, sound_publishes, stagedWait, finalWait, transportSound_wait,
    ReduceScatter.stagingCopy, remoteReduction, transportSound_copy, transportSound_reduce, reaches_own,
    reaches_staging, implies_true, true_and, and_true, and_self, ← forall₂_and]
  refine forall₂_congr fun island inRange => ?_
  rw [ReduceScatter.sound_islandReductions matrix partition inRange, ← forall₂_and]
  refine forall₂_congr fun rank isMember => and_congr_right' ?_
  have rankInRange := (partition.mem_members.mp isMember).1.1
  rw [finalCopy, transportSound_copy, reaches_own, and_true,
    reaches_peer_iff matrix rankInRange (partition.leader_peer inRange isMember)]

theorem buildStagedIslandAllreducePlan_sound_iff
    (matrix : buildTransportMatrix input.topo input.worldSize = some transports) (grouped : Grouped input islands)
    (several : 1 < islands.islandCount) (inPlace : input.outOfPlace = false)
    (ran : buildStagedIslandAllreducePlan cap input transports islands { plan := { worldSize := input.worldSize } } =
      .ok ((), state)) : Sound input state.plan.tasks ↔ LinksUsable input (Adjacent input) := by
  unfold buildStagedIslandAllreducePlan at ran
  split at ran
  · cases ran
  cases assigned : assignStagingSlots input islands (totalBytes input) with
  | none =>
    rw [assigned] at ran
    cases ran
  | some slotted =>
    rw [assigned] at ran
    obtain ⟨_, same⟩ := assignStagingSlots_staged grouped.partition assigned
    have slottedGroups := grouped.of_slots same
    rw [← same] at several
    have lists := stagedSteps_lists cap input transports slotted inPlace
    rw [lists.sound_iff input.worldSize (by simp only [bind_assoc]; exact ran)]
    exact sound_stagedTasks matrix slottedGroups several

/-- In place, what moves data between the buffers of two ranks; out of place, the fanouts of all ranks. -/
def LinksListed (input : TransferPlanBuildInput) : Prop :=
  if input.outOfPlace then ∀ rank ∈ intRange input.worldSize, FanoutListed input rank
  else
    LinksUsable input fun rank peer => Adjacent input rank peer ∧ (AllTogether input → ¬SliceSkipped input rank)

theorem buildAllreduceTransferPlan_sound_iff (built : (buildAllreduceTransferPlan cap storage input).1 = true) :
    Sound input (buildAllreduceTransferPlan cap storage input).2.tasks ↔ LinksListed input := by
  obtain ⟨_, state, ran, left⟩ := runPlanner_ok built
  rw [buildAllreduceTransferPlan, left]
  unfold planAllreduce at ran
  cases matrix : buildTransportMatrix input.topo input.worldSize with
  | none =>
    rw [matrix] at ran
    cases ran
  | some transports =>
    cases found : buildIslands input transports with
    | none =>
      simp only [matrix, found] at ran
      cases ran
    | some islands =>
      simp only [matrix, found] at ran
      have grouped := buildIslands_grouped matrix found
      split at ran
      · rename_i single
        have all := grouped.single_iff.mp single
        cases place : input.outOfPlace with
        | false =>
          simp only [place, Bool.false_eq_true, if_false] at ran
          obtain ⟨_, middle, emitted, passed⟩ := BuildM.bind_ok ran
          rw [runAllreducePasses_sound_iff passed, buildDirectAllreducePlan_sound_iff matrix all place emitted,
            LinksListed, if_neg (by simp [place])]
        | true =>
          simp only [place, if_true] at ran
          obtain ⟨_, middle, emitted, passed⟩ := BuildM.bind_ok ran
          rw [runAllreducePasses_sound_iff passed, buildOutOfPlaceDirectAllreduceFanoutPlan_sound_iff matrix emitted,
            LinksListed, if_pos place]
      · rename_i several
        obtain ⟨inPlace, ran⟩ := unguarded ran
        obtain ⟨_, middle, emitted, passed⟩ := BuildM.bind_ok ran
        have apart : ¬AllTogether input := fun all => several (grouped.single_iff.mpr all)
        rw [runAllreducePasses_sound_iff passed, buildStagedIslandAllreducePlan_sound_iff matrix grouped
          (not_le.mp several) (by simpa using inPlace) emitted, LinksListed, if_neg inPlace]
        simp only [apart, false_imp_iff, and_true]

end AllReduce

section Planners

/-- Every task reaches the buffers that it accesses exactly when the links between the ranks whose buffers the plan
connects list some transport as available; out of place, all links of a rank must list the one that its fanout takes. -/
theorem planners_reach_iff (cap : Nat) (storage : TransferPlan) (input : TransferPlanBuildInput) :
    ((AllReduce.buildAllreduceTransferPlan cap storage input).1 = true →
      (Sound input (AllReduce.buildAllreduceTransferPlan cap storage input).2.tasks ↔ AllReduce.LinksListed input)) ∧
    ((ReduceScatter.buildReduceScatterTransferPlan cap storage input).1 = true →
      (Sound input (ReduceScatter.buildReduceScatterTransferPlan cap storage input).2.tasks ↔
        LinksUsable input (Adjacent input))) ∧
    ((AllGather.buildAllGatherTransferPlan cap storage input).1 = true →
      (Sound input (AllGather.buildAllGatherTransferPlan cap storage input).2.tasks ↔
        LinksUsable input (Together input))) :=
  ⟨AllReduce.buildAllreduceTransferPlan_sound_iff, ReduceScatter.buildReduceScatterTransferPlan_sound_iff,
    AllGather.buildAllGatherTransferPlan_sound_iff⟩

/-- Two ranks that reach each other over NVLink. -/
def nvlinkPair : TransferPlanBuildInput where
  topo := {
    topology := some { links := [⟨0, 1, [⟨.directNvlink, true⟩]⟩, ⟨1, 0, [⟨.directNvlink, true⟩]⟩] }
    rankDevices := some id }
  worldSize := 2
  count := 8
  dtypeSize := 4

theorem nvlinkPair_usable (between : Int → Int → Prop) : LinksUsable nvlinkPair between := by
  have listed : ∀ rank ∈ intRange 2, ∀ peer ∈ peersOf rank 2, LinkLists nvlinkPair.topo rank peer .directNvlink := by
    decide +kernel
  exact fun rank inRange peer isPeer _ => ⟨_, listed rank inRange peer isPeer⟩

theorem nvlinkPair_reaches :
    Sound nvlinkPair (AllReduce.buildAllreduceTransferPlan 512 {} nvlinkPair).2.tasks ∧
      Sound nvlinkPair (ReduceScatter.buildReduceScatterTransferPlan 256 {} nvlinkPair).2.tasks ∧
      Sound nvlinkPair (AllGather.buildAllGatherTransferPlan 256 {} nvlinkPair).2.tasks :=
  ⟨((planners_reach_iff 512 {} nvlinkPair).1 (by decide +kernel)).mpr (nvlinkPair_usable _),
    ((planners_reach_iff 256 {} nvlinkPair).2.1 (by decide +kernel)).mpr (nvlinkPair_usable _),
    ((planners_reach_iff 256 {} nvlinkPair).2.2 (by decide +kernel)).mpr (nvlinkPair_usable _)⟩

/-- Two ranks whose links list two transports, neither of them available. -/
def unavailablePair : TransferPlanBuildInput where
  topo := {
    topology := some {
      links := [⟨0, 1, [⟨.directPcie, false⟩, ⟨.shm, false⟩]⟩, ⟨1, 0, [⟨.directPcie, false⟩, ⟨.shm, false⟩]⟩] }
    rankDevices := some id }
  worldSize := 2
  count := 8
  dtypeSize := 4

/-- A rank reads its peer's buffer over PCIe, which the link between them does not list as available. -/
theorem unavailablePair_unlisted :
    (ReduceScatter.buildReduceScatterTransferPlan 256 {} unavailablePair).1 = true ∧
      ∃ task ∈ (ReduceScatter.buildReduceScatterTransferPlan 256 {} unavailablePair).2.tasks,
        ∃ ref ∈ accessedRefs task, ref.role ≠ .shmStaging ∧ ref.ownerRank ≠ task.executorRank ∧
          ¬LinkLists unavailablePair.topo task.executorRank ref.ownerRank task.transport := by
  decide +kernel

end Planners

end Ooverlap.Plan
