import Ooverlap.Semantics.AllReduce

/-! When every interleaving of the direct in-place all-reduce plan leaves the sums everywhere. -/

namespace Ooverlap.Semantics

open Ooverlap.Plan Ooverlap.Plan.AllReduce Ooverlap.Interleaving

section Slices

variable {input : TransferPlanBuildInput} {transports : TransportMatrix} {rank : Int}

theorem SliceTask.of_phase (slice : SliceTask start bytes task) : SliceTask start bytes (task.setPhase phase) :=
  ⟨slice.length, slice.source, slice.destinations⟩

theorem sliceTask_quiet (quiet : ¬movesData task) : SliceTask start bytes task :=
  ⟨fun moves => absurd moves quiet, fun moves => absurd moves quiet, fun moves => absurd moves quiet⟩

theorem gatherEmission_slice (inPlace : input.outOfPlace = false)
    (member : task ∈ gatherEmission input transports rank) :
    SliceTask (sliceBeginBytes input rank) (sliceBytes input rank) task := by
  rcases gatherEmission_cases input transports rank inPlace member with
    ⟨_, _, rfl⟩ | ⟨_, _, _, rfl⟩ | ⟨peer, _, phase, rfl⟩
  · exact sliceTask_quiet (by simp [movesData, makeReadyPublishTransferTask])
  · exact sliceTask_quiet (by simp [movesData, makeReadyWaitTransferTask])
  · refine ⟨fun _ => rfl, fun _ => ⟨peer, rfl⟩, fun _ dst isDestination => ⟨rank, ?_⟩⟩
    exact List.mem_singleton.mp isDestination

theorem finishedCopies_slice (member : task ∈ finishedCopies input transports rank) :
    SliceTask (sliceBeginBytes input rank) (sliceBytes input rank) task := by
  have copy := finishedCopies_spec input transports rank task member
  refine ⟨fun _ => copy.bytes, fun _ => ⟨rank, copy.source⟩, fun _ dst isDestination => ?_⟩
  have delivered : dst ∈ (finishedCopies input transports rank).flatMap destinationRefs :=
    List.mem_flatMap.mpr ⟨task, member, isDestination⟩
  rw [finishedCopies_destinations] at delivered
  obtain ⟨peer, _, same⟩ := List.mem_map.mp delivered
  exact ⟨peer, same.symm⟩

/-- All data of a rank's tasks lies in the slice the rank owns. -/
theorem directRankBlock_slice (inPlace : input.outOfPlace = false)
    (inRange : rank ∈ intRange input.worldSize) :
    ∀ task ∈ directRankBlock input transports rank,
      SliceTask (sliceBeginBytes input rank) (sliceBytes input rank) task := by
  by_cases idle : SliceSkipped input rank ∨ peersOf rank input.worldSize = []
  · simp [directRankBlock_idle inPlace idle]
  · obtain ⟨active, hasPeers⟩ := not_or.mp idle
    obtain ⟨first, rest, copies, block⟩ :=
      directRankBlock_active transports inPlace active inRange hasPeers
    rw [block]
    intro task member
    obtain ⟨original, inBlock, phase, rfl⟩ := mem_numberFrom member
    apply SliceTask.of_phase
    rcases List.mem_append.mp inBlock with inGather | inCopies
    · exact gatherEmission_slice inPlace inGather
    · rcases List.mem_cons.mp inCopies with rfl | isCopy
      · exact sliceTask_quiet (by simp [movesData, barrierFor])
      · exact finishedCopies_slice (copies ▸ isCopy)

theorem inSlice_iff (positive : 0 < input.dtypeSize) (fits : input.count * input.dtypeSize < 2 ^ 64)
    (inRange : rank ∈ intRange input.worldSize) (index : Nat) :
    InSlice input.dtypeSize (sliceBeginBytes input rank) (sliceBytes input rank) index ↔
      Split.offset input.count input.worldSize.toNat rank.toNat ≤ index ∧
        index < Split.offset input.count input.worldSize.toNat rank.toNat +
          Split.share input.count input.worldSize.toNat rank.toNat := by
  unfold InSlice
  rw [sliceBeginBytes_eq fits inRange, sliceBytes_eq fits inRange, ← Nat.add_mul,
    Nat.mul_le_mul_right_iff positive, Nat.mul_lt_mul_right positive]

/-- Every element lies in the slice of exactly one rank. -/
theorem exists_owner (positive : 0 < input.dtypeSize) (fits : input.count * input.dtypeSize < 2 ^ 64)
    (nonempty : 0 < input.worldSize) (bound : index < input.count) :
    ∃ owner ∈ intRange input.worldSize, ∀ rank ∈ intRange input.worldSize,
      InSlice input.dtypeSize (sliceBeginBytes input rank) (sliceBytes input rank) index ↔ rank = owner := by
  obtain ⟨position, small, inside⟩ := Split.exists_share (by omega : 0 < input.worldSize.toNat) bound
  have inRange : (position : Int) ∈ intRange input.worldSize := mem_intRange.mpr ⟨by omega, by omega⟩
  refine ⟨position, inRange, fun rank member => ?_⟩
  rw [inSlice_iff positive fits member]
  constructor
  · rintro ⟨lower, upper⟩
    have bounds := mem_intRange.mp member
    rcases lt_trichotomy rank.toNat position with before | same | after
    · have apart := Split.offset_share_disjoint before input.count input.worldSize.toNat
      omega
    · omega
    · have apart := Split.offset_share_disjoint after input.count input.worldSize.toNat
      omega
  · rintro rfl
    exact inside

end Slices

section Rendezvous

variable {input : TransferPlanBuildInput} {transports : TransportMatrix} {rank : Int}

/-- The finished direct plan as the concatenation of its rank blocks. -/
def directPlan (input : TransferPlanBuildInput) (transports : TransportMatrix) : TransferPlan :=
  ⟨input.worldSize, (intRange input.worldSize).flatMap (directRankBlock input transports)⟩

variable (transports) in
theorem rankTasks_directPlan (inPlace : input.outOfPlace = false) (rank : Int) :
    rankTasks (directPlan input transports) rank =
      if rank ∈ intRange input.worldSize then directRankBlock input transports rank else [] :=
  filter_executor_flatMap _ (intRange_nodup _) _
    (fun _ inRange => directRankBlock_executor inPlace inRange) rank

variable (transports) in
/-- Up to phases, an active rank publishes, waits, reduces, synchronises and copies. -/
theorem directRankBlock_erased (inPlace : input.outOfPlace = false) (active : ¬SliceSkipped input rank)
    (inRange : rank ∈ intRange input.worldSize) (hasPeers : peersOf rank input.worldSize ≠ []) :
    ∃ rest, (directRankBlock input transports rank).map (fun task => task.setPhase 0) =
      (publishChannels input.topo rank (peersOf rank input.worldSize)).map
          (fun channel => makeReadyPublishTransferTask rank channel 0) ++
        (peersOf rank input.worldSize).map (fun peer =>
          makeReadyWaitTransferTask rank peer (chooseReadySignalChannel input.topo rank peer) 0) ++
        rest := by
  obtain ⟨first, copies, _, block⟩ :=
    directRankBlock_active transports inPlace active inRange hasPeers
  obtain ⟨peer, isPeer⟩ := List.exists_mem_of_ne_nil _ hasPeers
  have bounds := mem_intRange.mp inRange
  have peerBounds := mem_peersOf.mp isPeer
  have guard : ¬(rank < 0 ∨ rank ≥ input.worldSize ∨ input.worldSize ≤ 1) := by omega
  rw [block, map_numberFrom _ fun _ _ => rfl]
  rw [List.map_append, gatherEmission_erased input transports rank inPlace, rendezvousMakers, if_neg guard]
  exact ⟨_, by simp only [List.map_append, List.map_map, List.append_assoc]; rfl⟩

variable (transports) in
/-- The publishes of an active rank come first. -/
theorem directRankBlock_publish {channel : ReadySignalChannel} {position : Nat}
    (inPlace : input.outOfPlace = false) (active : ¬SliceSkipped input rank)
    (inRange : rank ∈ intRange input.worldSize) (hasPeers : peersOf rank input.worldSize ≠ [])
    (listed : (publishChannels input.topo rank (peersOf rank input.worldSize))[position]? = some channel) :
    ∃ task : TransferTask, (directRankBlock input transports rank)[position]? = some task ∧
      task.op = .readyPublish ∧ task.readyRank = rank ∧ task.readyChannel = channel.index ∧
      task.readyPhase = 0 := by
  obtain ⟨rest, erased⟩ := directRankBlock_erased transports inPlace active inRange hasPeers
  obtain ⟨within, _⟩ := List.getElem?_eq_some_iff.mp listed
  have here : ((directRankBlock input transports rank).map fun task => task.setPhase 0)[position]? =
      some (makeReadyPublishTransferTask rank channel 0) := by
    rw [erased, List.append_assoc, List.getElem?_append_left (by simpa using within),
      List.getElem?_map, listed]
    rfl
  rw [List.getElem?_map] at here
  obtain ⟨task, found, same⟩ := Option.map_eq_some_iff.mp here
  refine ⟨task, found, ?_⟩
  have op := congrArg TransferTask.op same
  have owner := congrArg TransferTask.readyRank same
  have channels := congrArg TransferTask.readyChannel same
  have phase := congrArg TransferTask.readyPhase same
  exact ⟨op, owner, channels, phase⟩

variable (transports) in
/-- An active rank waits for every peer. -/
theorem directRankBlock_awaits (inPlace : input.outOfPlace = false) (active : ¬SliceSkipped input rank)
    (inRange : rank ∈ intRange input.worldSize) (isPeer : peer ∈ peersOf rank input.worldSize) :
    ∃ task ∈ directRankBlock input transports rank,
      task.op = .readyWait ∧ task.readyRank = peer ∧ task.readyPhase = 0 := by
  have hasPeers := List.ne_nil_of_mem isPeer
  obtain ⟨rest, erased⟩ := directRankBlock_erased transports inPlace active inRange hasPeers
  have member : makeReadyWaitTransferTask rank peer (chooseReadySignalChannel input.topo rank peer) 0 ∈
      (directRankBlock input transports rank).map fun task => task.setPhase 0 := by
    rw [erased]
    exact List.mem_append_left _ (List.mem_append_right _ (List.mem_map.mpr ⟨peer, isPeer, rfl⟩))
  obtain ⟨task, inBlock, same⟩ := List.mem_map.mp member
  have op := congrArg TransferTask.op same
  have owner := congrArg TransferTask.readyRank same
  have phase := congrArg TransferTask.readyPhase same
  exact ⟨task, inBlock, op, owner, phase⟩

/-- Every signal task of a block is one of its entry rendezvous. -/
theorem directRankBlock_signals (inPlace : input.outOfPlace = false)
    (inRange : rank ∈ intRange input.worldSize) (member : task ∈ directRankBlock input transports rank) :
    (task.op = .readyPublish → task.readyRank = rank) ∧
    (task.op = .readyWait → ∃ peer ∈ peersOf rank input.worldSize, task.readyRank = peer ∧
      task.readyChannel = (chooseReadySignalChannel input.topo rank peer).index ∧ task.readyPhase = 0) := by
  by_cases idle : SliceSkipped input rank ∨ peersOf rank input.worldSize = []
  · rw [directRankBlock_idle inPlace idle] at member
    cases member
  · obtain ⟨active, hasPeers⟩ := not_or.mp idle
    obtain ⟨first, rest, copies, block⟩ :=
      directRankBlock_active transports inPlace active inRange hasPeers
    have spec := finishedCopies_spec input transports rank
    rw [copies] at spec
    rw [block] at member
    obtain ⟨original, inBlock, phase, rfl⟩ := mem_numberFrom member
    change (original.op = .readyPublish → original.readyRank = rank) ∧
      (original.op = .readyWait → ∃ peer ∈ peersOf rank input.worldSize, original.readyRank = peer ∧
        original.readyChannel = (chooseReadySignalChannel input.topo rank peer).index ∧
        original.readyPhase = 0)
    rcases List.mem_append.mp inBlock with inGather | inCopies
    · rcases gatherEmission_cases input transports rank inPlace inGather with
        ⟨channel, _, rfl⟩ | ⟨peer, isPeer, _, rfl⟩ | ⟨peer, _, _, rfl⟩
      · exact ⟨fun _ => rfl, by rintro ⟨⟩⟩
      · exact ⟨by rintro ⟨⟩, fun _ => ⟨peer, isPeer, rfl, rfl, rfl⟩⟩
      · exact ⟨by rintro ⟨⟩, by rintro ⟨⟩⟩
    · rcases List.mem_cons.mp inCopies with rfl | isCopy
      · exact ⟨by rintro ⟨⟩, by rintro ⟨⟩⟩
      · rcases (spec original isCopy).op with op | op <;> simp [op]

end Rendezvous

section Runs

variable {input : TransferPlanBuildInput} {transports : TransportMatrix}
variable {M : Type} [AddCommMonoid M]

/-- With every rank active no reachable state is stuck: publishes never wait, and once all ranks
have published every wait is satisfied. -/
theorem directPlan_progress (inPlace : input.outOfPlace = false)
    (active : ∀ rank ∈ intRange input.worldSize, ¬SliceSkipped input rank)
    {mem : BufferId → Nat → M} {state : State Int (Shared M)}
    (reached : (planProgram input.dtypeSize (directPlan input transports)).Reachable (entryState mem) state) :
    (planProgram input.dtypeSize (directPlan input transports)).Finished state ∨
      ∃ next, (planProgram input.dtypeSize (directPlan input transports)).Step state next := by
  by_cases finished : (planProgram (M := M) input.dtypeSize (directPlan input transports)).Finished state
  · exact Or.inl finished
  right
  have code := fun rank => rankTasks_directPlan transports inPlace rank
  have block : ∀ rank ∈ intRange input.worldSize,
      rankTasks (directPlan input transports) rank = directRankBlock input transports rank :=
    fun rank inRange => by rw [code, if_pos inRange]
  by_cases allPublished : ∀ rank ∈ intRange input.worldSize,
      (publishChannels input.topo rank (peersOf rank input.worldSize)).length ≤ state.pc rank
  · obtain ⟨actor, unfinished⟩ := not_forall.mp finished
    have within := lt_of_le_of_ne (Program.pc_le_length reached actor) unfinished
    have inRange : actor ∈ intRange input.worldSize := by
      by_contra outside
      change state.pc actor < (rankTasks (directPlan input transports) actor).length at within
      rw [code, if_neg outside] at within
      exact absurd within (Nat.not_lt_zero _)
    generalize found : (rankTasks (directPlan input transports) actor)[state.pc actor] = task
    have next : (rankTasks (directPlan input transports) actor)[state.pc actor]? = some task :=
      List.getElem?_eq_some_iff.mpr ⟨within, found⟩
    refine ⟨_, .perform actor task next ?_⟩
    change taskEnabled task state.shared
    unfold taskEnabled
    split
    · rename_i wait
      have member := List.mem_of_getElem? next
      rw [block actor inRange] at member
      obtain ⟨peer, isPeer, owner, channel, phase⟩ :=
        (directRankBlock_signals inPlace inRange member).2 wait
      have peerBounds := mem_peersOf.mp isPeer
      have peerInRange : peer ∈ intRange input.worldSize := mem_intRange.mpr peerBounds.1
      have actorIsPeer : actor ∈ peersOf peer input.worldSize :=
        mem_peersOf.mpr ⟨mem_intRange.mp inRange, Ne.symm peerBounds.2⟩
      obtain ⟨position, bound, listed⟩ := List.getElem_of_mem
        (mem_publishChannels input.topo peer actorIsPeer)
      obtain ⟨publish, publishFound, op, publisher, publishChannel, publishPhase⟩ :=
        directRankBlock_publish transports inPlace (active peer peerInRange) peerInRange
          (List.ne_nil_of_mem actorIsPeer) (List.getElem?_eq_some_iff.mpr ⟨bound, listed⟩)
      rw [← block peer peerInRange] at publishFound
      have performed : position < state.pc peer := lt_of_lt_of_le bound (allPublished peer peerInRange)
      have seen := performed_signal reached performed publishFound (Or.inl op)
      rw [owner, channel, phase]
      rwa [publisher, publishChannel, publishPhase] at seen
    · trivial
  · simp only [not_forall, not_le] at allPublished
    obtain ⟨actor, inRange, early⟩ := allPublished
    obtain ⟨channel, listed⟩ : ∃ channel, (publishChannels input.topo actor
        (peersOf actor input.worldSize))[state.pc actor]? = some channel :=
      ⟨_, List.getElem?_eq_getElem early⟩
    have hasPeers : peersOf actor input.worldSize ≠ [] := by
      intro alone
      simp [alone, publishChannels] at early
    obtain ⟨task, found, op, _⟩ :=
      directRankBlock_publish transports inPlace (active actor inRange) inRange hasPeers listed
    rw [← block actor inRange] at found
    refine ⟨_, .perform actor task found ?_⟩
    change taskEnabled task state.shared
    simp [taskEnabled, op]

/-- Every finished run leaves the sum over all ranks in every element. -/
theorem directPlan_finished_sums (inPlace : input.outOfPlace = false)
    (positive : 0 < input.dtypeSize) (fits : input.count * input.dtypeSize < 2 ^ 64)
    (several : 1 < input.worldSize)
    (active : ∀ rank ∈ intRange input.worldSize, ¬SliceSkipped input rank)
    {mem : BufferId → Nat → M} {state : State Int (Shared M)}
    (reached : (planProgram input.dtypeSize (directPlan input transports)).Reachable (entryState mem) state)
    (finished : (planProgram (M := M) input.dtypeSize (directPlan input transports)).Finished state)
    (rank : Int) (inRange : rank ∈ intRange input.worldSize) (bound : index < input.count) :
    state.shared.mem (rankBuffer rank) index =
      ((intRange input.worldSize).map fun peer => mem (rankBuffer peer) index).sum := by
  obtain ⟨owner, ownerInRange, owns⟩ :=
    exists_owner positive fits (by omega : 0 < input.worldSize) bound
  have code := fun rank => rankTasks_directPlan transports inPlace rank
  have hasPeers : peersOf owner input.worldSize ≠ [] := by
    have bounds := mem_intRange.mp ownerInRange
    by_cases first : owner = 0
    · exact List.ne_nil_of_mem (mem_peersOf.mpr ⟨⟨by omega, several⟩, by omega⟩ : (1 : Int) ∈ _)
    · exact List.ne_nil_of_mem (mem_peersOf.mpr ⟨⟨by omega, by omega⟩, by omega⟩ : (0 : Int) ∈ _)
  have sequential := Program.view_sequential (column index) columnEffect owner
    (fun task member shared => by
      change task ∈ rankTasks (directPlan input transports) owner at member
      rw [code, if_pos ownerInRange] at member
      exact column_inside positive ((owns owner ownerInRange).mpr rfl)
        (directRankBlock_slice inPlace ownerInRange task member) shared)
    (fun other apart task member shared => by
      change task ∈ rankTasks (directPlan input transports) other at member
      rw [code] at member
      split at member
      · rename_i otherInRange
        exact column_outside (mt (owns other otherInRange).mp apart)
          (directRankBlock_slice inPlace otherInRange task member) shared
      · cases member) reached
  rw [finished owner, List.take_length] at sequential
  have final := congrFun sequential rank
  change _ = runColumn (rankTasks (directPlan input transports) owner)
    (fun peer => mem (rankBuffer peer) index) rank at final
  rw [code, if_pos ownerInRange, runColumn_block inPlace (active owner ownerInRange) ownerInRange hasPeers _ rank
    inRange] at final
  exact final

/-- A rank whose slice the planner skipped leaves some run without its sum: its peers wait for a
signal it never publishes, or no rank does anything at all. -/
theorem directPlan_skipped (inPlace : input.outOfPlace = false) (nonempty : 0 < input.count)
    (inRange : skipped ∈ intRange input.worldSize) (several : 1 < input.worldSize)
    (isSkipped : SliceSkipped input skipped) :
    ¬SumsEverywhere input (directPlan input transports) := by
  intro sums
  let mem : BufferId → Nat → Nat := fun buffer _ => if buffer = rankBuffer 1 then 1 else 0
  obtain ⟨completes, correct⟩ := sums Nat mem
  have code := fun rank => rankTasks_directPlan transports inPlace rank
  by_cases someActive : ∃ rank ∈ intRange input.worldSize, ¬SliceSkipped input rank
  · obtain ⟨waiter, waiterInRange, active⟩ := someActive
    obtain ⟨final, reached, finished⟩ := completes _ .refl
    have isPeer : skipped ∈ peersOf waiter input.worldSize := by
      refine mem_peersOf.mpr ⟨mem_intRange.mp inRange, ?_⟩
      rintro rfl
      exact active isSkipped
    obtain ⟨wait, member, op, owner, phase⟩ :=
      directRankBlock_awaits transports inPlace active waiterInRange isPeer
    obtain ⟨position, bound, found⟩ := List.getElem_of_mem member
    have inCode : (rankTasks (directPlan input transports) waiter)[position]? = some wait := by
      rw [code, if_pos waiterInRange]
      exact List.getElem?_eq_some_iff.mpr ⟨bound, found⟩
    have performed : position < final.pc waiter := by
      rw [finished waiter]
      exact (List.getElem?_eq_some_iff.mp inCode).1
    have seen := performed_signal reached performed inCode (Or.inr op)
    have silent : ∀ task ∈ (directPlan input transports).tasks, task.op = .readyPublish →
        task.readyRank ≠ skipped := by
      intro task inPlan publish
      obtain ⟨rank, rankInRange, inBlock⟩ := List.mem_flatMap.mp inPlan
      rw [(directRankBlock_signals inPlace rankInRange inBlock).1 publish]
      rintro rfl
      rw [directRankBlock_idle inPlace (Or.inl isSkipped)] at inBlock
      cases inBlock
    rw [owner, phase, never_published silent reached] at seen
    exact absurd seen (by decide)
  · have allSkipped : ∀ rank ∈ intRange input.worldSize, SliceSkipped input rank := by
      intro rank rankInRange
      by_contra active
      exact someActive ⟨rank, rankInRange, active⟩
    have finished : (planProgram input.dtypeSize (directPlan input transports)).Finished
        (Program.start (entryState mem)) := by
      intro rank
      change 0 = (rankTasks (directPlan input transports) rank).length
      rw [code]
      split
      · rename_i rankInRange
        rw [directRankBlock_idle inPlace (Or.inl (allSkipped rank rankInRange))]
        rfl
      · rfl
    have first : (0 : Int) ∈ intRange input.worldSize := mem_intRange.mpr ⟨by omega, by omega⟩
    have second : (1 : Int) ∈ intRange input.worldSize := mem_intRange.mpr ⟨by omega, by omega⟩
    have wrong := correct _ .refl finished 0 first 0 nonempty
    have contributes : mem (rankBuffer 1) 0 ≤
        ((intRange input.worldSize).map fun peer => mem (rankBuffer peer) 0).sum :=
      List.single_le_sum (fun _ _ => Nat.zero_le _) _ (List.mem_map.mpr ⟨1, second, rfl⟩)
    rw [← wrong] at contributes
    exact absurd contributes (by decide)

/-- One rank alone has nothing to do. -/
theorem directPlan_single (inPlace : input.outOfPlace = false) (single : input.worldSize = 1) :
    SumsEverywhere input (directPlan input transports) := by
  intro M _ mem
  have alone : ∀ rank ∈ intRange input.worldSize, peersOf rank input.worldSize = [] := by
    intro rank inRange
    refine List.eq_nil_iff_forall_not_mem.mpr fun peer isPeer => ?_
    have bounds := mem_intRange.mp inRange
    have peerBounds := mem_peersOf.mp isPeer
    omega
  have idle : ∀ rank, rankTasks (directPlan input transports) rank = [] := by
    intro rank
    rw [rankTasks_directPlan _ inPlace]
    split
    · rename_i inRange
      exact directRankBlock_idle inPlace (Or.inr (alone rank inRange))
    · rfl
  refine ⟨?_, ?_⟩
  · refine Program.completes ∅ (fun rank busy => absurd (idle rank) busy) _ fun state reached => Or.inl fun rank => ?_
    have bound := Program.pc_le_length reached rank
    change state.pc rank ≤ (rankTasks (directPlan input transports) rank).length at bound
    change state.pc rank = (rankTasks (directPlan input transports) rank).length
    rw [idle] at bound ⊢
    exact Nat.le_zero.mp bound
  · intro state reached _ rank inRange index _
    have unchanged := Program.view_sequential (fun shared : Shared M => shared) (fun _ seen => seen) 0
      (fun task member => absurd member (by change task ∉ rankTasks _ 0; rw [idle]; simp))
      (fun other _ task member => absurd member (by change task ∉ rankTasks _ other; rw [idle]; simp))
      reached
    have noCode : (planProgram (M := M) input.dtypeSize (directPlan input transports)).code 0 = [] := idle 0
    rw [noCode, List.take_nil] at unchanged
    have only : rank = 0 := by
      have bounds := mem_intRange.mp inRange
      omega
    rw [unchanged, only, single]
    change mem (rankBuffer 0) index = ([0].map fun peer => mem (rankBuffer peer) index).sum
    simp

theorem directPlan_sums (inPlace : input.outOfPlace = false) (positive : 0 < input.dtypeSize)
    (fits : input.count * input.dtypeSize < 2 ^ 64) (several : 1 < input.worldSize)
    (active : ∀ rank ∈ intRange input.worldSize, ¬SliceSkipped input rank) :
    SumsEverywhere input (directPlan input transports) := by
  intro M _ mem
  refine ⟨?_, fun state reached finished rank inRange index bound =>
    directPlan_finished_sums inPlace positive fits several active reached finished rank inRange bound⟩
  refine Program.completes (intRange input.worldSize).toFinset (fun rank busy => ?_) _ fun state reached =>
    directPlan_progress inPlace active reached
  rw [List.mem_toFinset]
  by_contra outside
  change rankTasks (directPlan input transports) rank ≠ [] at busy
  rw [rankTasks_directPlan _ inPlace, if_neg outside] at busy
  exact busy rfl

theorem sliceSkipped_iff (rank : Int) (positive : 0 < input.dtypeSize) (fits : input.count * input.dtypeSize < 2 ^ 64)
    (nonempty : 0 < input.worldSize) (enough : input.worldSize ≤ input.count)
    (inRange : rank ∈ intRange input.worldSize) :
    SliceSkipped input rank ↔ sliceWindows input rank ≤ 0 := by
  have slicePositive := Split.share_pos_of_parts_le
    (by omega : 0 < input.worldSize.toNat) (by omega : input.worldSize.toNat ≤ input.count) rank.toNat
  have someBytes : sliceBytes input rank ≠ 0 := by
    rw [sliceBytes_eq fits inRange]
    exact Nat.ne_of_gt (Nat.mul_pos slicePositive positive)
  simp [SliceSkipped, someBytes]

end Runs

/-- The in-place all-reduce plan of a directly reachable group leaves the element-wise sum on every
rank, in every interleaving, exactly when no rank's slice has lost its `int` window count. -/
theorem buildAllreduceTransferPlan_sums_iff (inPlace : input.outOfPlace = false)
    (direct : AllDirect input.topo input.worldSize)
    (built : (buildAllreduceTransferPlan cap storage input).1 = true)
    (enough : input.worldSize ≤ input.count) (fits : input.count * input.dtypeSize < 2 ^ 64) :
    SumsEverywhere input (buildAllreduceTransferPlan cap storage input).2 ↔
      input.worldSize = 1 ∨ ∀ rank ∈ intRange input.worldSize, 0 < sliceWindows input rank := by
  obtain ⟨valid, transports, _, same⟩ := buildAllreduceTransferPlan_direct inPlace direct built
  obtain ⟨⟨nonempty, _⟩, positive, _⟩ := (validBuildInput_iff input).mp valid
  have isDirect : (buildAllreduceTransferPlan cap storage input).2 = directPlan input transports := same
  rw [isDirect]
  by_cases single : input.worldSize = 1
  · exact iff_of_true (directPlan_single inPlace single) (Or.inl single)
  have several : 1 < input.worldSize := by omega
  have skips := fun rank inRange => sliceSkipped_iff rank positive fits nonempty enough inRange
  constructor
  · intro sums
    refine Or.inr fun rank inRange => ?_
    by_contra none
    exact directPlan_skipped inPlace (by omega) inRange several
      ((skips rank inRange).mpr (not_lt.mp none)) sums
  · intro holds
    have windows := holds.resolve_left single
    refine directPlan_sums inPlace positive fits several fun rank inRange skipped => ?_
    exact absurd ((skips rank inRange).mp skipped) (not_le.mpr (windows rank inRange))

/-- Three ranks with an uneven split of seven half-precision elements. -/
theorem buildAllreduceTransferPlan_sums_three :
    SumsEverywhere { worldSize := 3, count := 7, dtypeSize := 2 }
      (buildAllreduceTransferPlan 512 {} { worldSize := 3, count := 7, dtypeSize := 2 }).2 :=
  (buildAllreduceTransferPlan_sums_iff rfl (allDirect_of_absent rfl)
    (by decide +kernel) (by decide) (by decide)).mpr (Or.inr (by decide))

/-- A slice of `2 ^ 35` bytes has `2 ^ 31` chunks of 16 bytes, one more than an `int` holds: the
planner skips both ranks and reports success with an empty plan. -/
theorem buildAllreduceTransferPlan_skips_all :
    let input : TransferPlanBuildInput :=
      { worldSize := 2, count := 2 ^ 35, dtypeSize := 2, launchConfig := { chunkBytes := 16 } }
    (buildAllreduceTransferPlan 512 {} input).1 = true ∧ AllDirect input.topo input.worldSize ∧
      ¬SumsEverywhere input (buildAllreduceTransferPlan 512 {} input).2 := by
  intro input
  refine ⟨by decide +kernel, allDirect_of_absent rfl, ?_⟩
  have empty : (buildAllreduceTransferPlan 512 {} input).2 =
      directPlan input fun _ _ => .directPcie := by
    decide +kernel
  rw [empty]
  exact directPlan_skipped rfl (by decide) (by decide : (0 : Int) ∈ intRange 2) (by decide) (by decide)

end Ooverlap.Semantics
