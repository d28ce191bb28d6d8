import Ooverlap.Plan.RankShape

/-! Capacity and rank shape of the direct all-reduce plan. -/

namespace Ooverlap.Plan.AllReduce

section Capacity

theorem flushFanoutGroup_length (group : List TransferTask) : (flushFanoutGroup group).length ≤ group.length := by
  match group with
  | [] => simp [flushFanoutGroup]
  | [only] => simp [flushFanoutGroup]
  | first :: second :: rest => simp [flushFanoutGroup]

theorem coalesce_length (tasks : List TransferTask) :
    (coalesceAdjacentCopyTasksIntoFanout tasks).length ≤ tasks.length := by
  obtain ⟨groups, covers, _, flushed⟩ := coalesceFrom_groups fanoutGroup_nil tasks
  have shrink : ∀ groups : List (List TransferTask),
      (groups.flatMap flushFanoutGroup).length ≤ groups.flatten.length := by
    intro groups
    induction groups with
    | nil => exact le_refl _
    | cons group rest ih =>
      have here := flushFanoutGroup_length group
      rw [List.flatMap_cons, List.flatten_cons, List.length_append, List.length_append]
      omega
  have bound := shrink groups
  rw [covers, List.nil_append, ← flushed] at bound
  exact bound

theorem insertBarriersFrom_length (inserted : insertBarriersFrom cap previous tasks = some result)
    (bounded : previous.length + tasks.length ≤ cap) : result.length ≤ cap := by
  induction tasks generalizing previous with
  | nil =>
    cases inserted
    simpa using bounded
  | cons consumer rest ih =>
    rw [List.length_cons] at bounded
    simp only [insertBarriersFrom] at inserted
    split at inserted
    · split at inserted
      · cases inserted
      · rename_i room
        rw [List.length_cons] at room
        refine ih inserted ?_
        rw [List.length_append, List.length_cons, List.length_singleton]
        omega
    · refine ih inserted ?_
      rw [List.length_append, List.length_singleton]
      omega

theorem renumberPhases_length (phases : Int → Int) (tasks : List TransferTask) :
    (renumberPhases phases tasks).length = tasks.length := by
  induction tasks generalizing phases with
  | nil => rfl
  | cons task rest ih =>
    unfold renumberPhases
    split <;> simp [ih]

theorem runAllreducePasses_length (ran : runAllreducePasses cap state = .ok ((), state'))
    (bounded : state.plan.tasks.length ≤ cap) : state'.plan.tasks.length ≤ cap := by
  unfold runAllreducePasses at ran
  split at ran
  · rename_i tasks inserted
    cases ran
    obtain ⟨result, barriers, rfl⟩ := Option.map_eq_some_iff.mp inserted
    have shorter := coalesce_length state.plan.tasks
    simp only [renumberPhases_length]
    exact insertBarriersFrom_length barriers (by simp only [List.length_nil]; omega)
  · cases ran

variable {cap : Nat} {input : TransferPlanBuildInput} {transports : TransportMatrix}

theorem directPlanner_length
    (built : directPlanner cap input transports { plan := { worldSize := size } } = .ok ((), state)) :
    state.plan.tasks.length ≤ cap := by
  obtain ⟨_, middle, emitted, passed⟩ := BuildM.bind_ok built
  have loop := Emits.forM cap (intRange input.worldSize) _ _ _ fun rank _ =>
    emitDirectRankTasks_emits cap input transports rank
  exact runAllreducePasses_length passed ((Appends.of_emits loop).marked input.worldSize emitted).1

end Capacity

section Ranks

variable {input : TransferPlanBuildInput} {transports : TransportMatrix} {rank : Int}

theorem entryReady_phase (ready : EntryReady rank task) (phase : Int) : EntryReady rank (task.setPhase phase) := by
  obtain ⟨executor, op, hasWork, readyPhase, channel⟩ := ready
  exact ⟨executor, op, hasWork, readyPhase, channel⟩

theorem entrySignal_phase (signal : EntrySignal input rank task) (phase : Int) :
    EntrySignal input rank (task.setPhase phase) := by
  obtain ⟨executor, op, hasWork, readyPhase, owner⟩ := signal
  exact ⟨executor, op, hasWork, readyPhase, owner⟩

theorem sliceWork_phase (work : SliceWork input rank task) (phase : Int) :
    SliceWork input rank (task.setPhase phase) := by
  obtain ⟨executor, bytes, windows, windowChunks, direct, src, kind⟩ := work
  exact ⟨executor, bytes, windows, windowChunks, direct, src, kind⟩

theorem rankBody_phase (body : RankBody input rank task) (phase : Int) :
    RankBody input rank (task.setPhase phase) :=
  body.imp id fun work => sliceWork_phase work phase

theorem reduceMaker_work (reaches : transportUsesDirectTma (transports rank peer) = true)
    (inRange : rank ∈ intRange input.worldSize) (isPeer : peer ∈ intRange input.worldSize) (phase : Int) :
    SliceWork input rank (reduceMaker input transports rank peer phase) := by
  rw [reduceMaker_eq]
  refine ⟨rfl, rfl, ⟨rfl, rfl⟩, rfl, reaches, ⟨peer, isPeer, _, rfl⟩, Or.inr (Or.inl ?_)⟩
  exact ⟨rfl, ⟨rank, inRange, _, rfl⟩, reaches⟩

/-- Finished copies, fanned out or not, are work on the slice. -/
theorem finishedCopies_work (reaches : PeersDirect input transports rank)
    (inRange : rank ∈ intRange input.worldSize) :
    ∀ task ∈ finishedCopies input transports rank, SliceWork input rank task := by
  have makes : ∀ task, IsSliceCopyMake input transports rank task → SliceWork input rank task ∧
      task.op = .copy ∧ OnRankBuffer input task.dst ∧ task.requiresTmaLoad = true ∧ task.requiresTmaStore = true := by
    rintro _ ⟨peer, isPeer, phase, terminal, rfl⟩
    have member := mem_intRange.mpr (mem_peersOf.mp isPeer).1
    have direct := reaches peer isPeer
    have work := copyTask_work direct inRange member phase
    exact ⟨⟨rfl, rfl, ⟨rfl, rfl⟩, rfl, work.direct, work.src, work.kind⟩, rfl, ⟨peer, member, _, rfl⟩, direct, direct⟩
  intro task member
  obtain ⟨groups, covers, valid, flushed⟩ := coalesceFrom_groups fanoutGroup_nil
    (markedTerminal (intRange input.worldSize) (copyEmission input transports rank))
  rw [List.nil_append] at covers
  rw [finishedCopies, flushed] at member
  obtain ⟨group, inGroups, inFlush⟩ := List.mem_flatMap.mp member
  have made : ∀ copy ∈ group, IsSliceCopyMake input transports rank copy := by
    intro copy inGroup
    have marked : copy ∈ markedTerminal (intRange input.worldSize) (copyEmission input transports rank) := by
      rw [← covers]
      exact List.mem_flatten.mpr ⟨group, inGroups, inGroup⟩
    exact copyEmission_made marked
  rcases mem_flushFanoutGroup inFlush with rfl | ⟨first, second, rest, same, rfl⟩
  · exact (makes task (made task (List.mem_singleton_self task))).1
  · obtain ⟨work, _, _, load, store⟩ := makes first (made first (by simp [same]))
    have size := (valid group inGroups).size
    refine ⟨work.executor, work.bytes, work.windows, work.windowChunks, work.direct, work.src,
      Or.inr (Or.inr ⟨rfl, ?_, ?_, ?_, load, store⟩)⟩
    · simp only [fanoutOfGroup, List.length_map]
      exact ⟨by simp [same], size⟩
    · simp [fanoutOfGroup]
    · intro ref inRefs
      obtain ⟨copy, inGroup, rfl⟩ := List.mem_map.mp inRefs
      exact (makes copy (made copy inGroup)).2.2.1

/-- The rank gathers after its entry rendezvous: signals, then one reduction for each peer. -/
theorem gatherEmission_split (reaches : PeersDirect input transports rank) (inPlace : input.outOfPlace = false)
    (inRange : rank ∈ intRange input.worldSize) :
    ∃ signals reduces, gatherEmission input transports rank = signals ++ reduces ∧
      (∀ task ∈ signals, (∃ make ∈ rendezvousMakers input.topo rank input.worldSize, ∃ phase, task = make phase) ∧
        EntrySignal input rank task) ∧
      (∀ task ∈ reduces, SliceWork input rank task) ∧ reduces.length = (peersOf rank input.worldSize).length := by
  have makers : gatherMakers input transports rank = rendezvousMakers input.topo rank input.worldSize ++
      (peersOf rank input.worldSize).map (reduceMaker input transports rank) := by
    rw [gatherMakers, localCopyMakers, inPlace]
    rfl
  rw [gatherEmission, makers, List.mapIdx_append]
  refine ⟨_, _, rfl, ?_, ?_, by simp⟩
  · intro task member
    obtain ⟨index, bound, rfl⟩ := List.mem_mapIdx.mp member
    exact ⟨⟨_, List.getElem_mem bound, _, rfl⟩, rendezvousMakers_signal inRange (List.getElem_mem bound) _⟩
  · intro task member
    obtain ⟨index, bound, rfl⟩ := List.mem_mapIdx.mp member
    rw [List.length_map] at bound
    rw [List.getElem_map]
    have isPeer := List.getElem_mem bound
    exact reduceMaker_work (reaches _ isPeer) inRange (mem_intRange.mpr (mem_peersOf.mp isPeer).1) _

theorem finishedCopies_length : (finishedCopies input transports rank).length ≤
    (peersOf rank input.worldSize).length := by
  have shorter := coalesce_length (markedTerminal (intRange input.worldSize) (copyEmission input transports rank))
  rw [markedTerminal_length] at shorter
  simpa [finishedCopies, coalesceAdjacentCopyTasksIntoFanout, copyEmission] using shorter

/-- The block of a rank that reaches its peers opens with signals and goes on with work on its slice. -/
theorem directRankBlock_opening (inPlace : input.outOfPlace = false) (reaches : PeersDirect input transports rank)
    (small : input.worldSize ≤ 16) (several : 1 < input.worldSize)
    (active : ¬SliceSkipped input rank) (inRange : rank ∈ intRange input.worldSize) :
    ∃ signals body, directRankBlock input transports rank = signals ++ body ∧
      (∀ task ∈ signals, (∃ make ∈ rendezvousMakers input.topo rank input.worldSize, ∃ phase again,
        task = (make phase).setPhase again) ∧ EntrySignal input rank task) ∧
      (∀ task ∈ body, RankBody input rank task) ∧ (∃ task ∈ body, SliceWork input rank task) ∧
      body.length ≤ 3 * kPlannerMaxRanks := by
  obtain ⟨first, rest, copies, block⟩ :=
    directRankBlock_active transports inPlace active inRange (peersOf_busy several rank)
  obtain ⟨signals, reduces, gather, isSignal, isReduce, count⟩ := gatherEmission_split reaches inPlace inRange
  have works : ∀ task ∈ finishedCopies input transports rank, SliceWork input rank task :=
    finishedCopies_work reaches inRange
  have few := peersOf_few small rank
  have copyCount : (finishedCopies input transports rank).length ≤ (peersOf rank input.worldSize).length :=
    finishedCopies_length
  rw [copies] at works copyCount
  have firstWork := works first (List.mem_cons_self ..)
  have bodies : ∀ task ∈ reduces ++ barrierFor first :: first :: rest, RankBody input rank task := by
    intro task member
    rcases List.mem_append.mp member with isGather | isLater
    · exact Or.inr (isReduce task isGather)
    · rcases List.mem_cons.mp isLater with rfl | isCopy
      · exact Or.inl ⟨rfl, firstWork.executor, firstWork.bytes⟩
      · exact Or.inr (works task isCopy)
  rw [block, gather, List.append_assoc, numberFrom_append]
  refine ⟨_, _, rfl, ?_, ?_, ?_, ?_⟩
  · intro task member
    obtain ⟨original, inSignals, again, rfl⟩ := mem_numberFrom member
    obtain ⟨⟨make, maker, phase, rfl⟩, signal⟩ := isSignal original inSignals
    exact ⟨⟨make, maker, phase, again, rfl⟩, entrySignal_phase signal again⟩
  · intro task member
    obtain ⟨original, inBody, phase, rfl⟩ := mem_numberFrom member
    exact rankBody_phase (bodies original inBody) phase
  · rw [numberFrom_append]
    refine ⟨_, List.mem_append_right _ (List.mem_cons_of_mem _ (List.mem_cons_self ..)), ?_⟩
    exact sliceWork_phase firstWork _
  · have limit : kPlannerMaxRanks = 16 := rfl
    rw [length_numberFrom, List.length_append, List.length_cons]
    omega

theorem directRankBlock_working (inPlace : input.outOfPlace = false)
    (direct : AllDirect input.topo input.worldSize)
    (reaches : ∀ src dst, transportUsesDirectTma (transports src dst) = true)
    (small : input.worldSize ≤ 16) (several : 1 < input.worldSize)
    (active : ¬SliceSkipped input rank) (inRange : rank ∈ intRange input.worldSize) :
    Working input rank (directRankBlock input transports rank) := by
  obtain ⟨signals, body, block, isSignal, bodies, worker, few⟩ :=
    directRankBlock_opening inPlace (fun peer _ => reaches rank peer) small several active inRange
  refine ⟨signals, body, block, fun task member => ?_, bodies, worker, few⟩
  obtain ⟨⟨make, maker, phase, again, rfl⟩, _⟩ := isSignal task member
  exact entryReady_phase (rendezvousMakers_ready direct inRange maker phase) again

/-- On a directly reachable group the in-place all-reduce plan has every rank's tasks in shape. -/
theorem buildAllreduceTransferPlan_shape (inPlace : input.outOfPlace = false)
    (direct : AllDirect input.topo input.worldSize)
    (built : (buildAllreduceTransferPlan cap storage input).1 = true) :
    PlanShape cap input (buildAllreduceTransferPlan cap storage input).2 := by
  obtain ⟨valid, state, ran, left⟩ := runPlanner_ok built
  have size := ((validBuildInput_iff input).mp valid).1
  rw [buildAllreduceTransferPlan, left]
  cases matrix : buildTransportMatrix input.topo input.worldSize with
  | none => simp [planAllreduce, matrix, transferPlanAbortBuild] at ran
  | some transports =>
    have reaches := buildTransportMatrix_direct direct matrix
    cases grouped : buildIslands input transports with
    | none => simp [planAllreduce, matrix, grouped, transferPlanAbortBuild] at ran
    | some islands =>
      have single := buildIslands_direct input reaches grouped
      have planned : planAllreduce cap input = directPlanner cap input transports := by
        simp only [planAllreduce, matrix, grouped, if_pos single, inPlace]
        rfl
      rw [planned] at ran
      have tasks := (directPlanner_tasks inPlace size ran).1
      refine ⟨valid, directPlanner_length ran, fun rank inRange => ?_⟩
      have own : rankTasks state.plan rank = directRankBlock input transports rank := by
        rw [tasks]
        refine (filter_executor_flatMap _ (intRange_nodup _) _ (fun other member =>
          directRankBlock_executor inPlace member) rank).trans ?_
        rw [if_pos inRange]
      constructor
      · intro idle
        rw [own]
        refine directRankBlock_idle inPlace (idle.symm.imp id fun alone => peersOf_alone alone inRange)
      · intro busy
        rw [own]
        obtain ⟨notAlone, active⟩ := not_or.mp busy
        exact directRankBlock_working inPlace direct reaches size.2 (by omega) active inRange

end Ranks

section Order

/-- A group that forms one island, for which the planner does not stage. -/
def OneIsland (input : TransferPlanBuildInput) : Prop :=
  ∀ transports islands, buildTransportMatrix input.topo input.worldSize = some transports →
    buildIslands input transports = some islands → islands.islandCount ≤ 1

theorem oneIsland_of_allDirect (direct : AllDirect input.topo input.worldSize) : OneIsland input :=
  fun _ _ matrix grouped => buildIslands_direct input (buildTransportMatrix_direct direct matrix) grouped

/-- The in-place plan of one island holds for each rank the block of the direct planner. -/
theorem buildAllreduceTransferPlan_ranks (inPlace : input.outOfPlace = false) (single : OneIsland input)
    (built : (buildAllreduceTransferPlan cap storage input).1 = true) :
    (buildAllreduceTransferPlan cap storage input).2.tasks.length ≤ cap ∧ ∃ transports,
      (∀ rank ∈ intRange input.worldSize, SliceSkipped input rank ∨ PeersDirect input transports rank) ∧
      ∀ rank, rankTasks (buildAllreduceTransferPlan cap storage input).2 rank =
        if rank ∈ intRange input.worldSize then directRankBlock input transports rank else [] := by
  obtain ⟨valid, state, ran, left⟩ := runPlanner_ok built
  have size := ((validBuildInput_iff input).mp valid).1
  rw [buildAllreduceTransferPlan, left]
  cases matrix : buildTransportMatrix input.topo input.worldSize with
  | none => simp [planAllreduce, matrix, transferPlanAbortBuild] at ran
  | some transports =>
    cases grouped : buildIslands input transports with
    | none => simp [planAllreduce, matrix, grouped, transferPlanAbortBuild] at ran
    | some islands =>
      have planned : planAllreduce cap input = directPlanner cap input transports := by
        simp only [planAllreduce, matrix, grouped, if_pos (single transports islands matrix grouped), inPlace]
        rfl
      rw [planned] at ran
      obtain ⟨tasks, reaches⟩ := directPlanner_tasks inPlace size ran
      refine ⟨directPlanner_length ran, transports, reaches, fun rank => ?_⟩
      rw [tasks]
      exact filter_executor_flatMap _ (intRange_nodup _) _ (fun other member =>
        directRankBlock_executor inPlace member) rank

variable (input : TransferPlanBuildInput) (rank : Int)

/-- Reductions into the rank's slice, one barrier, then copies of the slice, all over the same windows. -/
structure ReducesThenCopies (reduces : List TransferTask) (barrier : TransferTask) (copies : List TransferTask) :
    Prop where
  several : reduces ≠ []
  reduce : ∀ task ∈ reduces, task.op = .reduce ∧ task.dst = rankBufferRef rank (sliceBeginBytes input rank) ∧
    task.beginWindow = 0 ∧ task.endWindow = sliceWindows input rank
  isBarrier : barrier.op = .barrier
  copy : ∀ task ∈ copies, isCopyTask task = true ∧ task.src = rankBufferRef rank (sliceBeginBytes input rank) ∧
    task.beginWindow = 0 ∧ task.endWindow = sliceWindows input rank

variable {input rank} {transports : TransportMatrix}

variable (transports) in
theorem directRankBlock_order (inPlace : input.outOfPlace = false) (active : ¬SliceSkipped input rank)
    (inRange : rank ∈ intRange input.worldSize) (hasPeers : peersOf rank input.worldSize ≠ []) :
    ∃ ready reduces barrier copies, directRankBlock input transports rank = ready ++ (reduces ++ barrier :: copies) ∧
      (∀ task ∈ ready, task.op = .readyPublish ∨ task.op = .readyWait) ∧
      ReducesThenCopies input rank reduces barrier copies := by
  obtain ⟨first, rest, copies, block⟩ := directRankBlock_active transports inPlace active inRange hasPeers
  have spec := finishedCopies_spec input transports rank
  rw [copies] at spec
  have makers : gatherMakers input transports rank = rendezvousMakers input.topo rank input.worldSize ++
      (peersOf rank input.worldSize).map (reduceMaker input transports rank) := by
    rw [gatherMakers, localCopyMakers, inPlace]
    rfl
  rw [block, gatherEmission, makers, List.mapIdx_append, List.append_assoc, numberFrom_append, numberFrom_append,
    numberFrom]
  refine ⟨_, _, _, _, rfl, ?_, ?_, ?_, rfl, ?_⟩
  · intro task member
    obtain ⟨original, inReady, phase, rfl⟩ := mem_numberFrom member
    obtain ⟨index, bound, rfl⟩ := List.mem_mapIdx.mp inReady
    have maker := List.getElem_mem bound
    generalize (rendezvousMakers input.topo rank input.worldSize)[index] = make at maker
    unfold rendezvousMakers at maker
    split at maker
    · cases maker
    · rcases List.mem_append.mp maker with publish | wait
      · obtain ⟨channel, _, rfl⟩ := List.mem_map.mp publish
        exact Or.inl rfl
      · obtain ⟨peer, _, rfl⟩ := List.mem_map.mp wait
        exact Or.inr rfl
  · intro none
    have lengths := congrArg List.length none
    simp only [length_numberFrom, List.length_mapIdx, List.length_map, List.length_nil] at lengths
    exact hasPeers (List.eq_nil_of_length_eq_zero lengths)
  · intro task member
    obtain ⟨original, inReduces, phase, rfl⟩ := mem_numberFrom member
    obtain ⟨index, bound, rfl⟩ := List.mem_mapIdx.mp inReduces
    rw [List.getElem_map]
    exact ⟨rfl, rfl, rfl, rfl⟩
  · intro task member
    obtain ⟨original, inCopies, phase, rfl⟩ := mem_numberFrom member
    have copy := spec original inCopies
    refine ⟨?_, copy.source, copy.windows⟩
    rcases copy.op with op | op <;> simp [isCopyTask, op]

end Order

end Ooverlap.Plan.AllReduce
