import Ooverlap.Plan.Builder

/-! Planning helpers shared by the collective planners. -/

namespace Ooverlap.Plan

open Word

structure TransferPlanBuildInput where
  topo : RankTopologyView := {}
  launchConfig : LaunchConfig := {}
  worldSize : Int := 0
  count : Nat := 0
  dtypeSize : Nat := 0
  outOfPlace : Bool := false
  stagingSlotCount : Int := 0
  stagingBytes : Int → Nat := fun _ => 0
  stagingNumaNodes : Int → Int := fun _ => 0

def validBuildInput (input : TransferPlanBuildInput) : Bool :=
  input.worldSize > 0 && input.worldSize ≤ (kPlannerMaxRanks : Int) && input.dtypeSize != 0 &&
    input.launchConfig.windowChunks > 0 && input.launchConfig.chunkBytes > 0 &&
    input.stagingSlotCount ≥ 0 && input.stagingSlotCount ≤ (kPlannerMaxStagingSlots : Int)

theorem validBuildInput_iff (input : TransferPlanBuildInput) :
    validBuildInput input = true ↔
      (0 < input.worldSize ∧ input.worldSize ≤ 16) ∧ 0 < input.dtypeSize ∧
      0 < input.launchConfig.windowChunks ∧ 0 < input.launchConfig.chunkBytes ∧
      (0 ≤ input.stagingSlotCount ∧ input.stagingSlotCount ≤ 4) := by
  have ranks : (kPlannerMaxRanks : Int) = 16 := rfl
  have slots : (kPlannerMaxStagingSlots : Int) = 4 := rfl
  simp only [validBuildInput, ranks, slots, Bool.and_eq_true, decide_eq_true_eq, bne_iff_ne]
  omega

/-- A top-level planner: an invalid input leaves the caller's storage alone, a failed build clears it. -/
def runPlanner (planner : BuildM Unit) (storage : TransferPlan) (input : TransferPlanBuildInput) :
    Bool × TransferPlan :=
  if !validBuildInput input then (false, storage)
  else
    match planner { plan := { worldSize := input.worldSize } } with
    | .ok ((), state) => (true, state.plan)
    | .error plan => (false, plan)

theorem runPlanner_ok (ran : (runPlanner planner storage input).1 = true) :
    validBuildInput input = true ∧ ∃ state,
      planner { plan := { worldSize := input.worldSize } } = .ok ((), state) ∧
      (runPlanner planner storage input).2 = state.plan := by
  unfold runPlanner at ran ⊢
  split at ran
  · cases ran
  · rename_i valid
    rw [if_neg valid]
    simp only [Bool.not_eq_true', Bool.not_eq_false] at valid
    refine ⟨valid, ?_⟩
    cases run : planner { plan := { worldSize := input.worldSize } } with
    | error plan =>
      rw [run] at ran
      cases ran
    | ok result =>
      obtain ⟨_, state⟩ := result
      exact ⟨state, rfl, rfl⟩

/-- The values of a loop counter running from zero below `bound`. -/
def intRange (bound : Int) : List Int :=
  (List.range bound.toNat).map Int.ofNat

@[simp] theorem mem_intRange : index ∈ intRange bound ↔ 0 ≤ index ∧ index < bound := by
  simp only [intRange, List.mem_map, List.mem_range]
  constructor
  · rintro ⟨position, small, rfl⟩
    simp only [Int.ofNat_eq_natCast]
    omega
  · rintro ⟨lower, upper⟩
    exact ⟨index.toNat, by omega, by simpa using lower⟩

theorem intRange_nodup (bound : Int) : (intRange bound).Nodup := by
  refine List.Nodup.map ?_ List.nodup_range
  intro left right same
  exact Int.ofNat.inj same

@[simp] theorem length_intRange (bound : Int) : (intRange bound).length = bound.toNat := by
  simp [intRange]

/-- Ranks other than `rank`, in loop order. -/
def peersOf (rank worldSize : Int) : List Int :=
  (intRange worldSize).filter (· ≠ rank)

@[simp] theorem mem_peersOf :
    peer ∈ peersOf rank worldSize ↔ (0 ≤ peer ∧ peer < worldSize) ∧ peer ≠ rank := by
  simp [peersOf]

theorem peersOf_nodup (rank worldSize : Int) : (peersOf rank worldSize).Nodup :=
  (intRange_nodup worldSize).filter _

/-- The tasks one rank executes are exactly its own block. -/
theorem filter_executor_flatMap (items : List Int) (distinct : items.Nodup)
    (block : Int → List TransferTask)
    (executors : ∀ item ∈ items, ∀ task ∈ block item, task.executorRank = item) (rank : Int) :
    (items.flatMap block).filter (fun task => task.executorRank = rank) =
      if rank ∈ items then block rank else [] := by
  induction items with
  | nil => rfl
  | cons item rest ih =>
    obtain ⟨fresh, distinctRest⟩ := List.nodup_cons.mp distinct
    have here := executors item (List.mem_cons_self ..)
    rw [List.flatMap_cons, List.filter_append,
      ih distinctRest fun other member => executors other (List.mem_cons_of_mem _ member)]
    by_cases same : rank = item
    · subst same
      have whole : (block rank).filter (fun task => task.executorRank = rank) = block rank :=
        List.filter_eq_self.mpr fun task member => by simpa using here task member
      simp [whole, fresh]
    · have none : (block item).filter (fun task => task.executorRank = rank) = [] :=
        List.filter_eq_nil_iff.mpr fun task member => by
          rw [here task member]
          simpa using Ne.symm same
      simp [none, same]

/-- Byte offset and byte length of one rank's slice, in `size_t` arithmetic. -/
def computeRankSliceBytesFast (count dtypeSize : Nat) (rank worldSize : Int) : Nat × Nat :=
  let world := worldSize.toNat
  let r := rank.toNat
  let base := count / world
  let rem := count - base * world
  let beginElems := r * base + (if r < rem then r else rem)
  let sliceElems := base + (if r < rem then 1 else 0)
  (toUInt64 (beginElems * dtypeSize), toUInt64 (sliceElems * dtypeSize))

theorem computeRankSliceBytesFast_eq (count dtypeSize : Nat) (rank worldSize : Int) :
    computeRankSliceBytesFast count dtypeSize rank worldSize =
      (toUInt64 (Split.offset count worldSize.toNat rank.toNat * dtypeSize),
        toUInt64 (Split.share count worldSize.toNat rank.toNat * dtypeSize)) := by
  have remainder : count - count / worldSize.toNat * worldSize.toNat = count % worldSize.toNat := by
    have split := Nat.div_add_mod' count worldSize.toNat
    omega
  simp only [computeRankSliceBytesFast, remainder, Split.offset, Split.share, Prod.mk.injEq,
    and_true]
  split
  · rename_i early
    rw [Nat.min_eq_left (Nat.le_of_lt early)]
  · rename_i late
    rw [Nat.min_eq_right (Nat.not_lt.mp late)]

def windowCountForTransferBytes (bytes : Nat) (launchConfig : LaunchConfig) : Int :=
  windowCountForBytes bytes launchConfig.chunkBytes.toNat launchConfig.windowChunks

section Slices

variable (input : TransferPlanBuildInput)

def totalBytes : Nat :=
  toUInt64 (input.count * input.dtypeSize)

def sliceBeginBytes (rank : Int) : Nat :=
  (computeRankSliceBytesFast input.count input.dtypeSize rank input.worldSize).1

def sliceBytes (rank : Int) : Nat :=
  (computeRankSliceBytesFast input.count input.dtypeSize rank input.worldSize).2

def sliceWindows (rank : Int) : Int :=
  windowCountForTransferBytes (sliceBytes input rank) input.launchConfig

variable {input} {rank : Int}

theorem totalBytes_eq (fits : input.count * input.dtypeSize < 2 ^ 64) : totalBytes input = input.count * input.dtypeSize :=
  toUInt64_of_lt fits

theorem sliceBeginBytes_eq (fits : input.count * input.dtypeSize < 2 ^ 64)
    (inRange : rank ∈ intRange input.worldSize) :
    sliceBeginBytes input rank =
      Split.offset input.count input.worldSize.toNat rank.toNat * input.dtypeSize := by
  have bounds := mem_intRange.mp inRange
  have within := Split.offset_add_share_le
    (by omega : rank.toNat < input.worldSize.toNat) input.count
  rw [sliceBeginBytes, computeRankSliceBytesFast_eq]
  refine toUInt64_of_lt (lt_of_le_of_lt (Nat.mul_le_mul_right _ ?_) fits)
  omega

theorem sliceBytes_eq (fits : input.count * input.dtypeSize < 2 ^ 64)
    (inRange : rank ∈ intRange input.worldSize) :
    sliceBytes input rank =
      Split.share input.count input.worldSize.toNat rank.toNat * input.dtypeSize := by
  have bounds := mem_intRange.mp inRange
  have within := Split.offset_add_share_le
    (by omega : rank.toNat < input.worldSize.toNat) input.count
  rw [sliceBytes, computeRankSliceBytesFast_eq]
  refine toUInt64_of_lt (lt_of_le_of_lt (Nat.mul_le_mul_right _ ?_) fits)
  omega

end Slices

def makeCopyTransferTask (executorRank srcRank dstRank : Int) (src dst : LogicalBufferRef)
    (bytes : Nat) (numWindows windowChunks : Int) (transport : TransportKind) (terminal : Bool)
    (phase : Int) : TransferTask :=
  let directTma := transportUsesDirectTma transport
  { op := .copy, executorRank, srcRank, dstRank, src, dst, bytes, beginWindow := 0,
    endWindow := numWindows, windowChunks, transport, requiresTmaLoad := directTma,
    requiresTmaStore := directTma, requiresTmaReduce := false, requiresNativeAtomic := false,
    terminal, phase }

def makeReduceTransferTask (executorRank srcRank dstRank : Int) (src dst : LogicalBufferRef)
    (bytes : Nat) (numWindows windowChunks : Int) (transport : TransportKind) (terminal : Bool)
    (phase : Int) : TransferTask :=
  let directTma := transportUsesDirectTma transport
  { op := .reduce, executorRank, srcRank, dstRank, src, dst, bytes, beginWindow := 0,
    endWindow := numWindows, windowChunks, transport, requiresTmaLoad := directTma,
    requiresTmaStore := false, requiresTmaReduce := directTma, requiresNativeAtomic := directTma,
    terminal, phase }

/-- Fanout task with one destination buffer per destination rank, cut to the fanout limit. -/
def makeFanoutTransferTask (op : TransferOp) (requiresTmaStore requiresTmaReduce : Bool)
    (executorRank srcRank : Int) (dstRanks : List Int) (src : LogicalBufferRef)
    (fanoutDsts : List LogicalBufferRef) (bytes : Nat) (numWindows windowChunks : Int)
    (transport : TransportKind) (terminal : Bool) (phase : Int) : TransferTask :=
  let directTma := transportUsesDirectTma transport
  { op, executorRank, srcRank, dstRank := dstRanks.headD (-1), src, bytes, beginWindow := 0,
    endWindow := numWindows, windowChunks, transport, requiresTmaLoad := directTma,
    requiresTmaStore := requiresTmaStore && directTma,
    requiresTmaReduce := requiresTmaReduce && directTma,
    requiresNativeAtomic := requiresTmaReduce && directTma, terminal, phase,
    fanoutDstCount := fanoutDsts.length, fanoutDsts := fanoutDsts.take tmaTwoGpuPeerMaxFanoutDsts,
    fanoutDstRank := dstRanks.take tmaTwoGpuPeerMaxFanoutDsts,
    fanoutReduceScope := (fanoutDsts.take tmaTwoGpuPeerMaxFanoutDsts).map fun _ => 0 }

def makeCopyFanoutTransferTask (executorRank srcRank : Int) (dstRanks : List Int)
    (src : LogicalBufferRef) (fanoutDsts : List LogicalBufferRef) (bytes : Nat)
    (numWindows windowChunks : Int) (transport : TransportKind) (terminal : Bool) (phase : Int) :
    TransferTask :=
  makeFanoutTransferTask .copyFanout true false executorRank srcRank dstRanks src fanoutDsts bytes
    numWindows windowChunks transport terminal phase

def makeReduceFanoutTransferTask (executorRank srcRank : Int) (dstRanks : List Int)
    (src : LogicalBufferRef) (fanoutDsts : List LogicalBufferRef) (bytes : Nat)
    (numWindows windowChunks : Int) (transport : TransportKind) (terminal : Bool) (phase : Int) :
    TransferTask :=
  makeFanoutTransferTask .reduceFanout false true executorRank srcRank dstRanks src fanoutDsts bytes
    numWindows windowChunks transport terminal phase

def makeReadyPublishTransferTask (executorRank : Int) (channel : ReadySignalChannel)
    (phase : Int) (readyPhase : Int := 0) : TransferTask :=
  { op := .readyPublish, executorRank, readyRank := executorRank, readyChannel := channel.index,
    readyPhase, phase }

def makeReadyWaitTransferTask (executorRank readyRank : Int) (channel : ReadySignalChannel)
    (phase : Int) (readyPhase : Int := 0) : TransferTask :=
  { op := .readyWait, executorRank, readyRank, readyChannel := channel.index, readyPhase, phase }

/-- Channels some waiter of `rank` listens on, in enumerator order. -/
def publishChannels (topo : RankTopologyView) (rank : Int) (waiters : List Int) :
    List ReadySignalChannel :=
  [.deviceMemory, .hostMapped].filter fun channel =>
    waiters.any fun waiter => chooseReadySignalChannel topo waiter rank == channel

theorem mem_publishChannels (topo : RankTopologyView) (rank : Int) (isWaiter : waiter ∈ waiters) :
    chooseReadySignalChannel topo waiter rank ∈ publishChannels topo rank waiters := by
  refine List.mem_filter.mpr ⟨?_, List.any_eq_true.mpr ⟨waiter, isWaiter, by simp⟩⟩
  cases chooseReadySignalChannel topo waiter rank <;> simp

/-- Entry rendezvous of one rank: publish on every used channel, then wait for each peer. -/
def appendReadyRendezvousTasks (cap : Nat) (topo : RankTopologyView) (rank worldSize : Int) :
    BuildM Unit :=
  if rank < 0 ∨ rank ≥ worldSize ∨ worldSize ≤ 1 then pure ()
  else do
    (publishChannels topo rank (peersOf rank worldSize)).forM fun channel => do
      let phase ← nextTaskPhase rank
      pushTaskOrAbort cap (makeReadyPublishTransferTask rank channel phase)
    (peersOf rank worldSize).forM fun peer => do
      let phase ← nextTaskPhase rank
      pushTaskOrAbort cap
        (makeReadyWaitTransferTask rank peer (chooseReadySignalChannel topo rank peer) phase)

/-- Tasks of one rank's entry rendezvous, each waiting for its phase. -/
def rendezvousMakers (topo : RankTopologyView) (rank worldSize : Int) : List (Int → TransferTask) :=
  if rank < 0 ∨ rank ≥ worldSize ∨ worldSize ≤ 1 then []
  else
    (publishChannels topo rank (peersOf rank worldSize)).map
        (fun channel phase => makeReadyPublishTransferTask rank channel phase) ++
      (peersOf rank worldSize).map fun peer phase =>
        makeReadyWaitTransferTask rank peer (chooseReadySignalChannel topo rank peer) phase

theorem appendReadyRendezvousTasks_emits (cap : Nat) (topo : RankTopologyView) (rank worldSize : Int) :
    Emits cap (appendReadyRendezvousTasks cap topo rank worldSize) True
      (.sequence rank (rendezvousMakers topo rank worldSize)) := by
  unfold appendReadyRendezvousTasks rendezvousMakers
  split
  · simpa [Emission.sequence_nil] using Emits.pure cap
  · have publishes := Emits.forM cap (publishChannels topo rank (peersOf rank worldSize)) _ _ _
      fun channel _ => Emits.push cap rank (makeReadyPublishTransferTask rank channel)
    have waits := Emits.forM cap (peersOf rank worldSize) _ _ _ fun peer _ =>
      Emits.push cap rank (makeReadyWaitTransferTask rank peer (chooseReadySignalChannel topo rank peer))
    refine (publishes.bind waits).congr (by simp) ?_
    rw [Emission.concat_singles, Emission.concat_singles, Emission.sequence_append]

def stagingSliceValid (input : TransferPlanBuildInput) (stagingSlot : Int) (byteOffset bytes : Nat) :
    Bool :=
  if stagingSlot < 0 ∨ stagingSlot ≥ input.stagingSlotCount ∨
      stagingSlot ≥ (kPlannerMaxStagingSlots : Int) ∨ bytes = 0 then false
  else
    let slotBytes := input.stagingBytes stagingSlot
    if slotBytes = 0 ∨ byteOffset > slotBytes then false else bytes ≤ slotBytes - byteOffset

def stagingSlotNumaNode (input : TransferPlanBuildInput) (stagingSlot : Int) : Int :=
  if stagingSlot < 0 ∨ stagingSlot ≥ input.stagingSlotCount ∨
      stagingSlot ≥ (kPlannerMaxStagingSlots : Int) then -1
  else input.stagingNumaNodes stagingSlot

end Ooverlap.Plan
