import Ooverlap.Plan.AllReduceShape

/-! Tasks of the direct all-reduce plan, rank by rank. -/

namespace Ooverlap.Plan.AllReduce

section Makers

variable (input : TransferPlanBuildInput) (transports : TransportMatrix) (rank : Int)

/-- The test on which the direct planner leaves a rank out. -/
def SliceSkipped : Prop :=
  sliceBytes input rank = 0 ∨ sliceWindows input rank ≤ 0

instance : Decidable (SliceSkipped input rank) :=
  inferInstanceAs (Decidable (_ ∨ _))

/-- Everything a rank does before its slice is complete. -/
def gatherMakers : List (Int → TransferTask) :=
  localCopyMakers input rank ++ rendezvousMakers input.topo rank input.worldSize ++
    (peersOf rank input.worldSize).map (reduceMaker input transports rank)

def directRankMakers : List (Int → TransferTask) :=
  if SliceSkipped input rank then []
  else gatherMakers input transports rank ++
    (peersOf rank input.worldSize).map (copyMaker input transports rank)

end Makers

theorem emitDirectRankTasks_emits (cap : Nat) (input : TransferPlanBuildInput)
    (transports : TransportMatrix) (rank : Int) :
    Emits cap (emitDirectRankTasks cap input transports rank)
      (SliceSkipped input rank ∨ PeersDirect input transports rank)
      (.sequence rank (directRankMakers input transports rank)) := by
  by_cases skipped : SliceSkipped input rank
  · have body : emitDirectRankTasks cap input transports rank = pure () := by
      unfold emitDirectRankTasks
      exact if_pos skipped
    rw [body, directRankMakers, if_pos skipped, Emission.sequence_nil]
    exact (Emits.pure cap).congr (by simp [skipped]) rfl
  · have windows : (¬(sliceBytes input rank = 0 ∨ sliceWindows input rank ≤ 0)) = True :=
      eq_true skipped
    have localCopies : Emits cap
        (emitOptionalSliceCopy cap input rank (sliceBeginBytes input rank) (sliceBytes input rank)
          (sliceWindows input rank)) True (.sequence rank (localCopyMakers input rank)) := by
      unfold emitOptionalSliceCopy localCopyMakers
      split
      · refine (pushCopyTask_emits ..).congr (by rw [windows]) ?_
        exact (Emission.sequence_singleton rank _).symm
      · simpa [Emission.sequence_nil] using Emits.pure cap
    have reduces := emitPeers_emits cap (peersOf rank input.worldSize)
      (fun peer => !transportUsesDirectTma (transports rank peer)) _ rank
      (reduceMaker input transports rank) fun peer =>
        (pushReduceTask_emits cap input rank peer rank _ _ _ _ _).congr (by rw [windows]) rfl
    have copies := emitPeers_emits cap (peersOf rank input.worldSize)
      (fun peer => !transportUsesDirectTma (transports rank peer)) _ rank
      (copyMaker input transports rank) fun peer =>
        (pushCopyTask_emits cap input rank rank peer _ _ _ _ _).congr (by rw [windows]) rfl
    have whole := localCopies.bind
      ((appendReadyRendezvousTasks_emits cap input.topo rank input.worldSize).bind (reduces.bind copies))
    refine Emits.otherwise skipped (whole.congr ?_ ?_)
    · simp [PeersDirect, skipped]
    · simp only [Emission.sequence_append, directRankMakers, if_neg skipped, gatherMakers,
        List.append_assoc]

section Blocks

variable (input : TransferPlanBuildInput) (transports : TransportMatrix) (rank : Int)

/-- Tasks of one rank as the emission loop leaves them. -/
def directRankEmission : List TransferTask :=
  (directRankMakers input transports rank).mapIdx fun index make => make index

/-- Tasks of one rank in the finished plan. -/
def directRankBlock : List TransferTask :=
  numberFrom 0 (withBarriers [] (coalesceFrom []
    (markedTerminal (intRange input.worldSize) (directRankEmission input transports rank))))

theorem makers_executor : ∀ make ∈ directRankMakers input transports rank, ∀ phase,
    (make phase).executorRank = rank ∧ (make phase).terminal = false := by
  intro make member phase
  unfold directRankMakers at member
  split at member
  · cases member
  · simp only [gatherMakers, localCopyMakers, rendezvousMakers, List.mem_append] at member
    rcases member with ((isLocal | isReady) | isReduce) | isCopy
    · split at isLocal
      · simp only [List.mem_singleton] at isLocal
        subst isLocal
        exact ⟨rfl, rfl⟩
      · cases isLocal
    · split at isReady
      · cases isReady
      · simp only [List.mem_append, List.mem_map] at isReady
        rcases isReady with ⟨_, _, rfl⟩ | ⟨_, _, rfl⟩ <;> exact ⟨rfl, rfl⟩
    · obtain ⟨peer, _, rfl⟩ := List.mem_map.mp isReduce
      exact ⟨rfl, rfl⟩
    · obtain ⟨peer, _, rfl⟩ := List.mem_map.mp isCopy
      exact ⟨rfl, rfl⟩

theorem directRankEmission_executor : ∀ task ∈ directRankEmission input transports rank,
    task.executorRank = rank ∧ task.terminal = false := by
  intro task member
  obtain ⟨index, bound, rfl⟩ := List.mem_mapIdx.mp member
  exact makers_executor input transports rank _ (List.getElem_mem bound) _

/-- Ready tasks and reductions of one rank, before any of its copies. -/
def gatherEmission : List TransferTask :=
  (gatherMakers input transports rank).mapIdx fun index make => make index

/-- Copies of one rank's finished slice, as emitted. -/
def copyEmission : List TransferTask :=
  (peersOf rank input.worldSize).mapIdx fun index peer =>
    copyMaker input transports rank peer (index + (gatherMakers input transports rank).length : Nat)

theorem directRankEmission_active (active : ¬SliceSkipped input rank) :
    directRankEmission input transports rank =
      gatherEmission input transports rank ++ copyEmission input transports rank := by
  rw [directRankEmission, directRankMakers, if_neg active, List.mapIdx_append, gatherEmission,
    copyEmission]
  congr 1
  apply List.ext_getElem <;> simp

/-- In-place, a rank's gather phase holds publishes, waits and reductions of its own slice. -/
theorem gatherEmission_cases (inPlace : input.outOfPlace = false)
    (member : task ∈ gatherEmission input transports rank) :
    (∃ channel phase, task = makeReadyPublishTransferTask rank channel phase) ∨
    (∃ peer ∈ peersOf rank input.worldSize, ∃ phase, task = makeReadyWaitTransferTask rank peer
      (chooseReadySignalChannel input.topo rank peer) phase) ∨
    ∃ peer ∈ peersOf rank input.worldSize, ∃ phase, task = reduceMaker input transports rank peer phase := by
  obtain ⟨index, bound, rfl⟩ := List.mem_mapIdx.mp member
  generalize makes : (gatherMakers input transports rank)[index] = make
  have maker : make ∈ gatherMakers input transports rank := makes ▸ List.getElem_mem bound
  simp only [gatherMakers, localCopyMakers, inPlace, rendezvousMakers, List.mem_append] at maker
  rcases maker with (isLocal | isReady) | isReduce
  · cases isLocal
  · split at isReady
    · cases isReady
    · simp only [List.mem_append, List.mem_map] at isReady
      rcases isReady with ⟨channel, _, rfl⟩ | ⟨peer, isPeer, rfl⟩
      · exact Or.inl ⟨channel, _, rfl⟩
      · exact Or.inr (Or.inl ⟨peer, isPeer, _, rfl⟩)
  · obtain ⟨peer, isPeer, rfl⟩ := List.mem_map.mp isReduce
    exact Or.inr (Or.inr ⟨peer, isPeer, _, rfl⟩)

/-- Up to their phases, the gather tasks are what the makers say. -/
theorem gatherEmission_erased (inPlace : input.outOfPlace = false) :
    (gatherEmission input transports rank).map (fun task => task.setPhase 0) =
      (rendezvousMakers input.topo rank input.worldSize).map (fun make => make 0) ++
        (peersOf rank input.worldSize).map fun peer => reduceMaker input transports rank peer 0 := by
  have erases : ∀ make ∈ gatherMakers input transports rank, ∀ phase,
      (make phase).setPhase 0 = make 0 := by
    intro make maker phase
    simp only [gatherMakers, localCopyMakers, inPlace, rendezvousMakers, List.mem_append] at maker
    rcases maker with (isLocal | isReady) | isReduce
    · cases isLocal
    · split at isReady
      · cases isReady
      · simp only [List.mem_append, List.mem_map] at isReady
        rcases isReady with ⟨channel, _, rfl⟩ | ⟨peer, isPeer, rfl⟩ <;> rfl
    · obtain ⟨peer, isPeer, rfl⟩ := List.mem_map.mp isReduce
      rfl
  have whole : (gatherEmission input transports rank).map (fun task => task.setPhase 0) =
      (gatherMakers input transports rank).map fun make => make 0 := by
    apply List.ext_getElem
    · simp [gatherEmission]
    · intro index _ bound
      simp only [gatherEmission, List.getElem_map, List.getElem_mapIdx]
      exact erases _ (List.getElem_mem _) index
  rw [whole, gatherMakers, localCopyMakers, inPlace]
  simp

theorem gatherEmission_noCopies (inPlace : input.outOfPlace = false) :
    ∀ task ∈ gatherEmission input transports rank, isCopyTask task = false := by
  intro task member
  rcases gatherEmission_cases input transports rank inPlace member with
    ⟨_, _, rfl⟩ | ⟨_, _, _, rfl⟩ | ⟨_, _, _, rfl⟩ <;> rfl

/-- What every copy of a rank's slice has in common. -/
structure SliceCopy (task : TransferTask) : Prop where
  op : task.op = .copy ∨ task.op = .copyFanout
  executor : task.executorRank = rank
  source : task.src = rankBufferRef rank (sliceBeginBytes input rank)
  bytes : task.bytes = sliceBytes input rank
  windows : task.beginWindow = 0 ∧ task.endWindow = sliceWindows input rank
  windowChunks : task.windowChunks = input.launchConfig.windowChunks

theorem copyEmission_spec : ∀ task ∈ copyEmission input transports rank,
    task.op = .copy ∧ ∃ peer ∈ peersOf rank input.worldSize, ∃ phase,
      task = copyMaker input transports rank peer phase := by
  intro task member
  obtain ⟨index, bound, rfl⟩ := List.mem_mapIdx.mp member
  exact ⟨rfl, _, List.getElem_mem bound, _, rfl⟩

end Blocks

section Shape

variable {input : TransferPlanBuildInput} {transports : TransportMatrix} {rank : Int}

/-- A copy of the plan before coalescing, up to its terminal mark. -/
def IsSliceCopyMake (input : TransferPlanBuildInput) (transports : TransportMatrix) (rank : Int)
    (task : TransferTask) : Prop :=
  ∃ peer ∈ peersOf rank input.worldSize, ∃ phase terminal,
    task = (copyMaker input transports rank peer phase).setTerminal terminal

theorem IsSliceCopyMake.spec (made : IsSliceCopyMake input transports rank task) :
    task.op = .copy ∧ SliceCopy input rank task := by
  obtain ⟨peer, _, phase, terminal, rfl⟩ := made
  exact ⟨rfl, Or.inl rfl, rfl, rfl, rfl, ⟨rfl, rfl⟩, rfl⟩

theorem sliceCopy_of_flush (made : ∀ member ∈ group, IsSliceCopyMake input transports rank member) :
    ∀ task ∈ flushFanoutGroup group, SliceCopy input rank task := by
  intro task member
  rcases mem_flushFanoutGroup member with rfl | ⟨first, second, rest, rfl, rfl⟩
  · exact (made task (by simp)).spec.2
  · have shape := (made first (by simp)).spec.2
    exact ⟨Or.inr rfl, shape.executor, shape.source, shape.bytes, shape.windows, shape.windowChunks⟩

theorem coalesceFrom_sliceCopy (made : ∀ task ∈ copies, IsSliceCopyMake input transports rank task) :
    ∀ task ∈ coalesceFrom [] copies, SliceCopy input rank task := by
  obtain ⟨groups, covers, _, flushed⟩ := coalesceFrom_groups fanoutGroup_nil copies
  rw [List.nil_append] at covers
  rw [flushed]
  intro task member
  obtain ⟨group, inGroups, inFlush⟩ := List.mem_flatMap.mp member
  refine sliceCopy_of_flush (fun other inGroup => made other ?_) task inFlush
  rw [← covers]
  exact List.mem_flatten.mpr ⟨group, inGroups, inGroup⟩

theorem reduceMaker_eq (peer phase : Int) : reduceMaker input transports rank peer phase =
    makeReduceTransferTask rank peer rank (rankBufferRef peer (sliceBeginBytes input rank))
      (rankBufferRef rank (sliceBeginBytes input rank)) (sliceBytes input rank)
      (sliceWindows input rank) input.launchConfig.windowChunks (transports rank peer) false phase :=
  rfl

/-- Copies of one rank in the finished plan. -/
def finishedCopies (input : TransferPlanBuildInput) (transports : TransportMatrix) (rank : Int) :
    List TransferTask :=
  coalesceFrom [] (markedTerminal (intRange input.worldSize) (copyEmission input transports rank))

theorem copyEmission_made (member : task ∈ markedTerminal ranks (copyEmission input transports rank)) :
    IsSliceCopyMake input transports rank task := by
  have made : ∀ tasks, (∀ task ∈ tasks, ∃ peer ∈ peersOf rank input.worldSize, ∃ phase,
      task = copyMaker input transports rank peer phase) → ∀ task ∈ markedTerminal ranks tasks,
      IsSliceCopyMake input transports rank task := by
    intro tasks
    induction tasks with
    | nil => simp [markedTerminal]
    | cons head rest ih =>
      intro each task member
      rcases List.mem_cons.mp member with rfl | later
      · obtain ⟨peer, isPeer, phase, same⟩ := each head (List.mem_cons_self ..)
        exact ⟨peer, isPeer, phase, _, by rw [same]⟩
      · exact ih (fun other inRest => each other (List.mem_cons_of_mem _ inRest)) task later
  exact made _ (fun task member => (copyEmission_spec input transports rank task member).2) task member

variable (input transports rank) in
theorem finishedCopies_spec : ∀ task ∈ finishedCopies input transports rank, SliceCopy input rank task :=
  coalesceFrom_sliceCopy fun _ member => copyEmission_made member

variable (transports) in
theorem copyEmission_eq_nil : copyEmission input transports rank = [] ↔ peersOf rank input.worldSize = [] := by
  simp [copyEmission]

theorem copyEmission_marked (inRange : rank ∈ intRange input.worldSize)
    (emission : copyEmission input transports rank = init ++ [last]) :
    markedTerminal (intRange input.worldSize) (copyEmission input transports rank) =
      init ++ [last.setTerminal true] := by
  have each : ∀ task ∈ init ++ [last], task.executorRank = rank ∧ task.terminal = false := by
    intro task member
    rw [← emission] at member
    obtain ⟨_, peer, _, phase, rfl⟩ := copyEmission_spec input transports rank task member
    exact ⟨rfl, rfl⟩
  rw [emission]
  exact markedTerminal_block inRange init last (fun task member => (each task member).1)
    fun task member => (each task member).2

variable (transports) in
theorem finishedCopies_terminalLast (inRange : rank ∈ intRange input.worldSize)
    (hasPeers : peersOf rank input.worldSize ≠ []) :
    TerminalLast (finishedCopies input transports rank) := by
  have nonempty := mt (copyEmission_eq_nil transports).mp hasPeers
  obtain ⟨init, last, emission⟩ := (List.eq_nil_or_concat' _).resolve_left nonempty
  apply coalesceFrom_terminalLast
  rw [List.nil_append, copyEmission_marked inRange emission]
  refine ⟨init, _, rfl, fun task member => ?_, rfl⟩
  have inEmission : task ∈ copyEmission input transports rank := by
    rw [emission]
    exact List.mem_append_left _ member
  obtain ⟨_, peer, _, phase, rfl⟩ := copyEmission_spec input transports rank task inEmission
  rfl

/-- The finished copies deliver the slice to every peer exactly once, in rank order. -/
theorem finishedCopies_destinations :
    (finishedCopies input transports rank).flatMap destinationRefs =
      (peersOf rank input.worldSize).map fun peer => rankBufferRef peer (sliceBeginBytes input rank) := by
  have unchanged : ∀ tasks, (markedTerminal (intRange input.worldSize) tasks).map TransferTask.dst =
      tasks.map TransferTask.dst := by
    intro tasks
    induction tasks with
    | nil => rfl
    | cons task rest ih => simp [markedTerminal, ih]
  rw [finishedCopies, coalesceFrom_destinations fun task member => (copyEmission_made member).spec.1,
    unchanged, copyEmission]
  apply List.ext_getElem
  · simp
  · intro index _ _
    simp only [List.getElem_map, List.getElem_mapIdx]
    rfl

theorem gather_needsBarrier (inPlace : input.outOfPlace = false) (active : ¬SliceSkipped input rank)
    (inRange : rank ∈ intRange input.worldSize) (hasPeers : peersOf rank input.worldSize ≠ [])
    (copy : SliceCopy input rank task) :
    needsBarrier (gatherEmission input transports rank) task = true := by
  have isCopy : isCopyTask task = true := by
    rcases copy.op with op | op <;> simp [isCopyTask, op]
  have someBytes : sliceBytes input rank ≠ 0 := fun none => active (Or.inl none)
  have isLocal : logicalBufferIsLocalDeviceBuffer (rankBufferRef rank (sliceBeginBytes input rank)) rank =
      true := by
    simp [logicalBufferIsLocalDeviceBuffer, rankBufferRef, (mem_intRange.mp inRange).1]
  have produced : (gatherEmission input transports rank).any (fun earlier =>
      reduceTaskWritesRange earlier rank (rankBufferRef rank (sliceBeginBytes input rank))
        (sliceBytes input rank)) = true := by
    obtain ⟨peer, isPeer⟩ := List.exists_mem_of_ne_nil _ hasPeers
    have made : reduceMaker input transports rank peer ∈ gatherMakers input transports rank :=
      List.mem_append_right _ (List.mem_map_of_mem isPeer)
    obtain ⟨index, bound, same⟩ := List.getElem_of_mem made
    refine List.any_eq_true.mpr ⟨reduceMaker input transports rank peer index, ?_, ?_⟩
    · exact List.mem_mapIdx.mpr ⟨index, bound, by rw [same]⟩
    · simp [reduceMaker_eq, makeReduceTransferTask, reduceTaskWritesRange]
  have unseparated : (gatherEmission input transports rank).any (fun earlier =>
      barrierMatchesRange earlier rank (rankBufferRef rank (sliceBeginBytes input rank))
        (sliceBytes input rank)) = false := by
    rw [List.any_eq_false]
    intro earlier member
    rcases gatherEmission_cases input transports rank inPlace member with
      ⟨_, _, rfl⟩ | ⟨_, _, _, rfl⟩ | ⟨_, _, _, rfl⟩ <;>
      simp [barrierMatchesRange, makeReadyPublishTransferTask, makeReadyWaitTransferTask,
        reduceMaker_eq, makeReduceTransferTask]
  simp [needsBarrier, isCopy, copy.source, copy.bytes, copy.executor, someBytes, isLocal, produced,
    unseparated]

variable (transports) in
/-- Finished tasks of an active rank: gather its slice, one barrier, then the copies. -/
theorem directRankBlock_active (inPlace : input.outOfPlace = false) (active : ¬SliceSkipped input rank)
    (inRange : rank ∈ intRange input.worldSize) (hasPeers : peersOf rank input.worldSize ≠ []) :
    ∃ first rest, finishedCopies input transports rank = first :: rest ∧
      directRankBlock input transports rank = numberFrom 0
        (gatherEmission input transports rank ++ barrierFor first :: first :: rest) := by
  have nonempty := mt (copyEmission_eq_nil transports).mp hasPeers
  obtain ⟨init, last, emission⟩ := (List.eq_nil_or_concat' _).resolve_left nonempty
  have marked : markedTerminal (intRange input.worldSize) (directRankEmission input transports rank) =
      gatherEmission input transports rank ++
        markedTerminal (intRange input.worldSize) (copyEmission input transports rank) := by
    have each := directRankEmission_executor input transports rank
    rw [copyEmission_marked inRange emission]
    rw [directRankEmission_active input transports rank active, emission, ← List.append_assoc] at each ⊢
    rw [markedTerminal_block inRange _ last (fun task member => (each task member).1)
      fun task member => (each task member).2, List.append_assoc]
  have ineligible : ∀ task ∈ gatherEmission input transports rank,
      copyTaskIsFanoutEligible task = false := by
    intro task member
    rcases gatherEmission_cases input transports rank inPlace member with
      ⟨_, _, rfl⟩ | ⟨_, _, _, rfl⟩ | ⟨_, _, _, rfl⟩ <;> rfl
  have spec := finishedCopies_spec input transports rank
  have last := finishedCopies_terminalLast transports inRange hasPeers
  cases copies : finishedCopies input transports rank with
  | nil =>
    obtain ⟨_, _, empty, _⟩ := last
    simp [copies] at empty
  | cons first rest =>
    rw [copies] at spec
    have firstCopy := spec first (List.mem_cons_self ..)
    have settled : withBarriers (gatherEmission input transports rank ++ [barrierFor first, first]) rest =
        rest := by
      apply withBarriers_settled (barrierFor first) (by simp)
      intro task member
      have other := spec task (List.mem_cons_of_mem _ member)
      simp [barrierMatchesRange, barrierFor, firstCopy.executor, firstCopy.source, firstCopy.bytes,
        other.executor, other.source, other.bytes]
    refine ⟨first, rest, rfl, ?_⟩
    rw [directRankBlock, marked, coalesceFrom_ineligible ineligible, ← finishedCopies, copies,
      withBarriers_append, withBarriers_quiet (gatherEmission_noCopies input transports rank inPlace),
      List.nil_append, withBarriers,
      if_pos (gather_needsBarrier inPlace active inRange hasPeers firstCopy), settled]

/-- A rank without a planned slice or without peers has no tasks. -/
theorem directRankBlock_idle (inPlace : input.outOfPlace = false)
    (idle : SliceSkipped input rank ∨ peersOf rank input.worldSize = []) :
    directRankBlock input transports rank = [] := by
  have noMakers : directRankMakers input transports rank = [] := by
    unfold directRankMakers
    split
    · rfl
    · rename_i active
      have alone := idle.resolve_left active
      simp [gatherMakers, localCopyMakers, inPlace, rendezvousMakers, alone, publishChannels]
  simp [directRankBlock, directRankEmission, noMakers, markedTerminal, coalesceFrom, flushFanoutGroup,
    withBarriers, numberFrom]

theorem directRankBlock_executor (inPlace : input.outOfPlace = false)
    (inRange : rank ∈ intRange input.worldSize) :
    ∀ task ∈ directRankBlock input transports rank, task.executorRank = rank := by
  by_cases idle : SliceSkipped input rank ∨ peersOf rank input.worldSize = []
  · simp [directRankBlock_idle inPlace idle]
  · obtain ⟨active, hasPeers⟩ := not_or.mp idle
    obtain ⟨first, rest, copies, block⟩ :=
      directRankBlock_active transports inPlace active inRange hasPeers
    have spec := finishedCopies_spec input transports rank
    rw [copies] at spec
    rw [block]
    intro task member
    obtain ⟨original, inBlock, phase, rfl⟩ := mem_numberFrom member
    rw [TransferTask.setPhase_executorRank]
    rcases List.mem_append.mp inBlock with inGather | inCopies
    · rcases gatherEmission_cases input transports rank inPlace inGather with
        ⟨_, _, rfl⟩ | ⟨_, _, _, rfl⟩ | ⟨_, _, _, rfl⟩ <;> rfl
    · rcases List.mem_cons.mp inCopies with rfl | isCopy
      · exact (spec first (List.mem_cons_self ..)).executor
      · exact (spec original isCopy).executor

end Shape

section Plan

variable {cap : Nat} {input : TransferPlanBuildInput} {transports : TransportMatrix}

/-- The direct builder emits the blocks of all ranks in rank order and marks them terminal. -/
theorem buildDirectAllreducePlan_tasks
    (built : buildDirectAllreducePlan cap input transports { plan := { worldSize := size } } =
      .ok ((), state)) :
    state.plan = TransferPlan.mk size (markedTerminal (intRange input.worldSize)
      ((intRange input.worldSize).flatMap (directRankEmission input transports))) ∧
    ∀ rank ∈ intRange input.worldSize, SliceSkipped input rank ∨ PeersDirect input transports rank := by
  obtain ⟨_, middle, emitted, marked⟩ := BuildM.bind_ok built
  have loop := Emits.forM cap (intRange input.worldSize) _ _ _ fun rank _ =>
    emitDirectRankTasks_emits cap input transports rank
  obtain ⟨guards, _, rfl⟩ := loop.inversion (Nat.zero_le _) emitted
  rw [markLastTaskPerRankTerminal_run] at marked
  cases marked
  refine ⟨?_, guards⟩
  simp only [Emission.apply, List.nil_append]
  rw [Emission.concat_sequences_tasks _ (intRange_nodup _)]
  have quiet : (((intRange input.worldSize).flatMap fun rank =>
      (directRankMakers input transports rank).mapIdx fun index make => make ((0 : Int) + index)).map
        fun task => task.setTerminal false) =
      (intRange input.worldSize).flatMap (directRankEmission input transports) := by
    rw [List.map_flatMap]
    refine List.flatMap_congr fun rank _ => ?_
    simp only [Int.zero_add]
    refine (List.map_congr_left ?_).trans (List.map_id _)
    intro task member
    have silent := (directRankEmission_executor input transports rank task member).2
    rw [← silent, task.setTerminal_self]
    rfl
  rw [quiet]

theorem directRankEmission_opens (inPlace : input.outOfPlace = false) (rank : Int) :
    ∀ task ∈ (markedTerminal (intRange input.worldSize)
      (directRankEmission input transports rank)).head?, copyTaskIsFanoutEligible task = false := by
  intro task opening
  have sameHead : ∃ original ∈ (directRankEmission input transports rank).head?,
      copyTaskIsFanoutEligible task = copyTaskIsFanoutEligible original := by
    cases emission : directRankEmission input transports rank with
    | nil => simp [emission, markedTerminal] at opening
    | cons head rest =>
      simp only [emission, markedTerminal, List.head?_cons, Option.mem_def, Option.some.injEq] at opening
      subst opening
      exact ⟨head, rfl, rfl⟩
  obtain ⟨original, isHead, same⟩ := sameHead
  rw [same]
  have active : ¬SliceSkipped input rank := by
    intro skipped
    simp [directRankEmission, directRankMakers, skipped] at isHead
  rw [directRankEmission_active input transports rank active] at isHead
  have inGather : original ∈ gatherEmission input transports rank := by
    cases gather : gatherEmission input transports rank with
    | nil =>
      -- Without reductions there is no peer to copy to either.
      have alone : peersOf rank input.worldSize = [] := by
        have none : (gatherMakers input transports rank).length = 0 := by
          rw [← List.length_mapIdx, ← gatherEmission, gather, List.length_nil]
        simp only [gatherMakers, List.length_append, List.length_map] at none
        exact List.length_eq_zero_iff.mp (by omega)
      rw [gather, (copyEmission_eq_nil transports).mpr alone] at isHead
      cases isHead
    | cons head rest =>
      rw [gather] at isHead
      cases isHead
      exact List.mem_cons_self ..
  rcases gatherEmission_cases input transports rank inPlace inGather with
    ⟨_, _, rfl⟩ | ⟨_, _, _, rfl⟩ | ⟨_, _, _, rfl⟩ <;> rfl

/-- The direct builder followed by the two passes, as the planner runs them on one island. -/
def directPlanner (cap : Nat) (input : TransferPlanBuildInput) (transports : TransportMatrix) :
    BuildM Unit := do
  buildDirectAllreducePlan cap input transports
  runAllreducePasses cap

section Passes

variable (input transports)

/-- Tasks of all ranks as the builder marks them. -/
def directTasks : List TransferTask :=
  markedTerminal (intRange input.worldSize) ((intRange input.worldSize).flatMap (directRankEmission input transports))

/-- Tasks of one rank after coalescing. -/
def coalescedRankTasks (rank : Int) : List TransferTask :=
  coalesceFrom [] (markedTerminal (intRange input.worldSize) (directRankEmission input transports rank))

variable {input transports}

theorem coalescedRankTasks_executor (rank : Int) :
    ∀ task ∈ coalescedRankTasks input transports rank, task.executorRank = rank := by
  apply coalesceFrom_executor
  intro task member
  have executors := List.mem_map_of_mem (f := TransferTask.executorRank) member
  rw [markedTerminal_executors] at executors
  obtain ⟨original, inEmission, same⟩ := List.mem_map.mp executors
  rw [← same]
  exact (directRankEmission_executor input transports rank original inEmission).1

theorem directTasks_coalesced (inPlace : input.outOfPlace = false) :
    coalesceAdjacentCopyTasksIntoFanout (directTasks input transports) =
      (intRange input.worldSize).flatMap (coalescedRankTasks input transports) := by
  have blocks := markedTerminal_flatMap (intRange input.worldSize) (intRange input.worldSize) (intRange_nodup _)
    (directRankEmission input transports) fun rank _ task member =>
      (directRankEmission_executor input transports rank task member).1
  rw [directTasks, blocks]
  exact coalesceFrom_flatMap _ _ fun rank _ => directRankEmission_opens inPlace rank

theorem directTasks_barriers (inPlace : input.outOfPlace = false) :
    withBarriers [] (coalesceAdjacentCopyTasksIntoFanout (directTasks input transports)) =
      (intRange input.worldSize).flatMap fun rank => withBarriers [] (coalescedRankTasks input transports rank) := by
  rw [directTasks_coalesced inPlace]
  exact withBarriers_flatMap _ (intRange_nodup _) _ fun rank _ => coalescedRankTasks_executor rank

end Passes

/-- The finished direct plan is the concatenation of the ranks' blocks in rank order. -/
theorem directPlanner_tasks (inPlace : input.outOfPlace = false)
    (valid : 0 < input.worldSize ∧ input.worldSize ≤ 16)
    (built : directPlanner cap input transports { plan := { worldSize := size } } = .ok ((), state)) :
    state.plan = ⟨size, (intRange input.worldSize).flatMap (directRankBlock input transports)⟩ ∧
      ∀ rank ∈ intRange input.worldSize, SliceSkipped input rank ∨ PeersDirect input transports rank := by
  obtain ⟨_, middle, emitted, passed⟩ := BuildM.bind_ok built
  obtain ⟨emittedPlan, guards⟩ := buildDirectAllreducePlan_tasks emitted
  refine ⟨?_, guards⟩
  have emittedTasks : middle.plan.tasks = directTasks input transports := by rw [emittedPlan, directTasks]
  simp only [runAllreducePasses, insertLocalReduceCopyBarriers] at passed
  cases inserted : insertBarriersFrom cap [] (coalesceAdjacentCopyTasksIntoFanout middle.plan.tasks) with
  | none =>
    rw [inserted] at passed
    cases passed
  | some result =>
    rw [inserted] at passed
    cases passed
    have whole := insertBarriersFrom_eq inserted
    rw [List.nil_append, emittedTasks, directTasks_barriers inPlace] at whole
    have numbered := renumberPhases_flatMap (intRange input.worldSize) (intRange_nodup _)
      (fun rank member => by have bounds := mem_intRange.mp member; omega)
      (fun rank => withBarriers [] (coalescedRankTasks input transports rank))
      fun rank _ => withBarriers_executor (coalescedRankTasks_executor rank) []
    simp only [whole, numbered, emittedPlan]
    rfl

/-- On a directly reachable group the in-place planner is the direct planner. -/
theorem buildAllreduceTransferPlan_direct (inPlace : input.outOfPlace = false)
    (direct : AllDirect input.topo input.worldSize)
    (built : (buildAllreduceTransferPlan cap storage input).1 = true) :
    validBuildInput input = true ∧ ∃ transports,
      (∀ src dst, transportUsesDirectTma (transports src dst) = true) ∧
      (buildAllreduceTransferPlan cap storage input).2 =
        ⟨input.worldSize, (intRange input.worldSize).flatMap (directRankBlock input transports)⟩ := by
  obtain ⟨valid, state, ran, left⟩ := runPlanner_ok built
  have size := ((validBuildInput_iff input).mp valid).1
  refine ⟨valid, ?_⟩
  rw [buildAllreduceTransferPlan, left]
  cases matrix : buildTransportMatrix input.topo input.worldSize with
  | none => simp [planAllreduce, matrix, transferPlanAbortBuild] at ran
  | some transports =>
    have reaches := buildTransportMatrix_direct direct matrix
    cases grouped : buildIslands input transports with
    | none => simp [planAllreduce, matrix, grouped, transferPlanAbortBuild] at ran
    | some islands =>
      have single := buildIslands_direct input reaches grouped
      have planned : planAllreduce cap input = directPlanner cap input transports := by
        simp only [planAllreduce, matrix, grouped, if_pos single, inPlace]
        rfl
      rw [planned] at ran
      exact ⟨transports, reaches, (directPlanner_tasks inPlace size ran).1⟩

end Plan

end Ooverlap.Plan.AllReduce
