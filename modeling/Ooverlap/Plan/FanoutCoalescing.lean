import Ooverlap.Plan.AllReduceShape

/-! Coalescing of copies into fanouts: the in-place compaction of the source, and what expanding the fanouts gives. -/

namespace Ooverlap.Plan.AllReduce

section InPlace

/-- The array with its two cursors. -/
structure Compaction where
  tasks : List TransferTask
  write : Nat := 0
  read : Nat := 0
  deriving DecidableEq, Repr

/-- The inner loop: how many tasks from `read` on form a group, `count` of them found so far. -/
def growGroup (tasks : List TransferTask) (read : Nat) : Nat → Nat → Nat
  | 0, count => count
  | fuel + 1, count =>
    if h : read + count < tasks.length ∧ 0 < count then
      if count < tmaTwoGpuPeerMaxFanoutDsts &&
          copyTasksShareFanoutShape tasks[read] tasks[read + count - 1] tasks[read + count] &&
          copyDestinationIsDistinct ((tasks.drop read).take count) tasks[read + count] then
        growGroup tasks read fuel (count + 1)
      else count
    else count

/-- One turn of the outer loop. -/
def Compaction.step (state : Compaction) : Compaction :=
  match state.tasks.drop state.read with
  | [] => state
  | first :: rest =>
    let count := if copyTaskIsFanoutEligible first then growGroup state.tasks state.read tmaTwoGpuPeerMaxFanoutDsts 1 else 1
    if count < 2 then
      { tasks := state.tasks.set state.write first, write := state.write + 1, read := state.read + 1 }
    else
      { tasks := state.tasks.set state.write
          (fanoutOfGroup first ((rest.take (count - 1)).getLastD first) (first :: rest.take (count - 1)))
        write := state.write + 1
        read := state.read + count }

/-- The outer loop, at most one turn for each task. -/
def compact : Nat → Compaction → Compaction
  | 0, state => state
  | fuel + 1, state => if state.read < state.tasks.length then compact fuel state.step else state

/-- The array keeps its old entries beyond `total_tasks`. -/
def coalesceInPlace (tasks : List TransferTask) : List TransferTask :=
  let done := compact tasks.length { tasks }
  done.tasks.take done.write

end InPlace

section Expansion

/-- What the copies of one fanout share. -/
def fanoutShape (task : TransferTask) : TransferTask :=
  { task with
    dst := {}
    dstRank := -1
    fanoutDsts := []
    fanoutDstCount := 0
    fanoutDstRank := []
    fanoutReduceScope := []
    terminal := false
    phase := 0
    readyRank := -1
    readyChannel := 0
    readyPhase := 0 }

/-- A task without the fields that mean nothing for its kind: a copy has no fanout and no signal. -/
def meaning (task : TransferTask) : TransferTask :=
  if task.op = .copy then
    { fanoutShape task with dst := task.dst, dstRank := task.dstRank, terminal := task.terminal, phase := task.phase }
  else task

/-- One copy of a fanout; the copies follow each other in phase, and the last one ends where the fanout does. -/
def copyOfFanout (task : TransferTask) (index : Nat) (destination : LogicalBufferRef × Int) : TransferTask :=
  { task with
    op := .copy
    dst := destination.1
    dstRank := destination.2
    terminal := task.terminal && (index + 1 : Nat) == task.fanoutDstCount
    phase := task.phase + index }

def expandFanout (task : TransferTask) : List TransferTask :=
  if task.op = .copyFanout then
    ((task.fanoutDsts.zip task.fanoutDstRank).take task.fanoutDstCount.toNat).mapIdx (copyOfFanout task)
  else [task]

/-- A fanout task that stands for a group of copies. -/
structure FanoutOf (group : List TransferTask) (task : TransferTask) : Prop where
  op : task.op = .copyFanout
  size : 2 ≤ group.length ∧ group.length ≤ tmaTwoGpuPeerMaxFanoutDsts
  count : task.fanoutDstCount = group.length
  expands : (expandFanout task).map meaning = group.map meaning
  copies : ∀ copy ∈ group, copy.op = .copy
  shape : ∀ copy ∈ group, fanoutShape copy = { fanoutShape task with op := .copy }
  layout : ∀ copy ∈ group, ∀ other ∈ group, logicalBufferRefSameFanoutLayout copy.dst other.dst = true
  destinations : (group.map TransferTask.dst).Nodup
  ranks : (group.map TransferTask.dstRank).Nodup

/-- A task that was alone stays as it is. -/
def Merges (group : List TransferTask) (task : TransferTask) : Prop := group = [task] ∨ FanoutOf group task

end Expansion

section Groups

/-- Every task of the group but the first was admitted to those before it. -/
def Joined (group : List TransferTask) : Prop :=
  ∀ before candidate after, group = before ++ candidate :: after → before ≠ [] →
    joinsFanoutGroup before candidate = true

theorem Joined.single (task : TransferTask) : Joined [task] := by
  intro before candidate after split nonempty
  cases before with
  | nil => exact absurd rfl nonempty
  | cons first rest => simp at split

theorem Joined.front (joined : Joined (group ++ tasks)) : Joined group := by
  intro before candidate after split nonempty
  exact joined before candidate (after ++ tasks) (by rw [split]; simp) nonempty

theorem Joined.snoc (joined : Joined group) (joins : joinsFanoutGroup group task = true) : Joined (group ++ [task]) := by
  intro before candidate after split nonempty
  rcases List.eq_nil_or_concat after with rfl | ⟨rest, last, rfl⟩
  · obtain ⟨rfl, same⟩ := List.append_inj' split (by simp)
    obtain rfl := List.singleton_inj.mp same
    exact joins
  · rw [List.concat_eq_append, ← List.cons_append, ← List.append_assoc] at split
    obtain ⟨same, _⟩ := List.append_inj' split (by simp)
    exact joined before candidate rest same nonempty

theorem Joined.last (joined : Joined (group ++ [task])) (nonempty : group ≠ []) :
    joinsFanoutGroup group task = true :=
  joined group task [] rfl nonempty

theorem copyTask_of_eligible (eligible : copyTaskIsFanoutEligible task = true) : task.op = .copy := by
  simp only [copyTaskIsFanoutEligible, Bool.and_eq_true, beq_iff_eq, and_assoc] at eligible
  exact eligible.1

/-- What admission to a group says. -/
theorem joins_spec (joins : joinsFanoutGroup (first :: rest) candidate = true) :
    (first :: rest).length < tmaTwoGpuPeerMaxFanoutDsts ∧
      (first.op = .copy ∧ candidate.op = .copy ∧ fanoutShape candidate = fanoutShape first) ∧
      ((rest.getLastD first).terminal = false ∧ candidate.phase = (rest.getLastD first).phase + 1) ∧
      ∀ existing ∈ first :: rest, existing.dstRank ≠ candidate.dstRank ∧ existing.dst ≠ candidate.dst := by
  simp only [joinsFanoutGroup, copyTasksShareFanoutShape, copyDestinationIsDistinct, Bool.and_eq_true, decide_eq_true_eq,
    List.all_eq_true, beq_iff_eq, bne_iff_ne, Bool.not_eq_true', and_assoc] at joins
  obtain ⟨room, firstEligible, eligible, quiet, follows, executor, srcRank, src, bytes, beginWindow, endWindow,
    windowChunks, transport, load, store, reduce, atomic, _, distinct⟩ := joins
  have firstCopy := copyTask_of_eligible firstEligible
  have copy := copyTask_of_eligible eligible
  refine ⟨room, ⟨firstCopy, copy, ?_⟩, ⟨quiet, follows⟩, distinct⟩
  simp only [fanoutShape, firstCopy, copy, executor, srcRank, src, bytes, beginWindow, endWindow, windowChunks, transport,
    load, store, reduce, atomic]

/-- In a group of several copies all look alike, follow each other in phase, and only the last may be terminal. -/
theorem Joined.alike (joined : Joined (first :: rest)) :
    ∀ (index : Nat) (task : TransferTask), (first :: rest)[index]? = some task →
      fanoutShape task = fanoutShape first ∧ task.phase = first.phase + index ∧
        (index + 1 < (first :: rest).length → task.terminal = false) := by
  induction rest using List.reverseRecOn with
  | nil =>
    intro index task found
    cases index with
    | zero =>
      obtain rfl := Option.some.inj found
      simp
    | succ index => simp at found
  | append_singleton rest last ih =>
    have earlier := ih (@Joined.front _ [last] joined)
    obtain ⟨_, ⟨_, _, shape⟩, ⟨quiet, follows⟩, _⟩ := joins_spec (@Joined.last (first :: rest) last joined (by simp))
    have previous : (first :: rest)[rest.length]? = some (rest.getLastD first) := by
      rw [List.getLastD_eq_getLast?]
      cases rest using List.reverseRecOn with
      | nil => rfl
      | append_singleton others previous => simp
    intro index task found
    rw [← List.cons_append] at found
    rcases Nat.lt_or_ge index (first :: rest).length with within | beyond
    · rw [List.getElem?_append_left within] at found
      obtain ⟨alike, phase, nonterminal⟩ := earlier index task found
      refine ⟨alike, phase, fun _ => ?_⟩
      rcases Nat.lt_or_ge (index + 1) (first :: rest).length with inner | final
      · exact nonterminal inner
      · have same : index = rest.length := by
          rw [List.length_cons] at within final
          omega
        rw [same, previous] at found
        rw [← Option.some.inj found]
        exact quiet
    · rw [List.getElem?_append_right beyond] at found
      have same : index = (first :: rest).length := by
        have bound := (List.getElem?_eq_some_iff.mp found).1
        simp only [List.length_singleton] at bound
        omega
      rw [same, Nat.sub_self] at found
      obtain rfl := Option.some.inj found
      obtain ⟨_, phase, _⟩ := earlier rest.length _ previous
      refine ⟨shape, ?_, fun less => ?_⟩
      · rw [follows, phase, same, List.length_cons]
        push_cast
        omega
      · rw [same] at less
        simp at less

/-- Members of a group differ in their destinations. -/
theorem Joined.distinct (joined : Joined group) :
    (group.map TransferTask.dst).Nodup ∧ (group.map TransferTask.dstRank).Nodup := by
  induction group using List.reverseRecOn with
  | nil => exact ⟨List.nodup_nil, List.nodup_nil⟩
  | append_singleton group last ih =>
    obtain ⟨destinations, ranks⟩ := ih joined.front
    cases group with
    | nil => exact ⟨List.nodup_singleton _, List.nodup_singleton _⟩
    | cons first rest =>
      obtain ⟨_, _, _, apart⟩ := joins_spec (joined.last (by simp))
      rw [List.map_append, List.map_append]
      refine ⟨destinations.append (List.nodup_singleton _) ?_, ranks.append (List.nodup_singleton _) ?_⟩
      · intro ref member here
        obtain ⟨existing, inGroup, rfl⟩ := List.mem_map.mp member
        exact (apart existing inGroup).2 (List.mem_singleton.mp here)
      · intro rank member here
        obtain ⟨existing, inGroup, rfl⟩ := List.mem_map.mp member
        exact (apart existing inGroup).1 (List.mem_singleton.mp here)

theorem Joined.size (joined : Joined (first :: second :: rest)) :
    (first :: second :: rest).length ≤ tmaTwoGpuPeerMaxFanoutDsts := by
  rcases List.eq_nil_or_concat (second :: rest) with none | ⟨before, last, same⟩
  · cases none
  · rw [List.concat_eq_append] at same
    rw [same, ← List.cons_append] at joined ⊢
    obtain ⟨room, _⟩ := joins_spec (joined.last (by simp))
    rw [List.length_append, List.length_singleton]
    exact room

theorem Joined.copies (joined : Joined (first :: second :: rest)) : ∀ copy ∈ first :: second :: rest, copy.op = .copy := by
  have opens := joins_spec (joined [first] second rest rfl (by simp))
  intro copy member
  obtain ⟨index, found⟩ := List.mem_iff_getElem?.mp member
  have alike := congrArg TransferTask.op (joined.alike index copy found).1
  exact alike.trans opens.2.1.1

theorem Joined.layout (joined : Joined (first :: rest)) (member : copy ∈ first :: rest) :
    copy.dst.role = first.dst.role ∧ copy.dst.stagingSlot = first.dst.stagingSlot ∧
      copy.dst.byteOffset = first.dst.byteOffset := by
  obtain ⟨before, after, split⟩ := List.append_of_mem member
  cases before with
  | nil =>
    obtain ⟨rfl, _⟩ := List.cons.inj split
    exact ⟨rfl, rfl, rfl⟩
  | cons head before =>
    obtain ⟨rfl, _⟩ := List.cons.inj split
    have joins := joined (first :: before) copy after split (by simp)
    simp only [joinsFanoutGroup, copyTasksShareFanoutShape, logicalBufferRefSameFanoutLayout, Bool.and_eq_true,
      beq_iff_eq, and_assoc] at joins
    exact ⟨by simp [joins], by simp [joins], by simp [joins]⟩

theorem getLastD_position (first second : TransferTask) (rest : List TransferTask) :
    (first :: second :: rest)[rest.length + 1]? = some (rest.getLastD second) := by
  rw [List.getElem?_cons_succ, List.getLastD_eq_getLast?]
  cases rest using List.reverseRecOn with
  | nil => rfl
  | append_singleton others last => simp

/-- A group of several copies is what its fanout expands to. -/
theorem Joined.fanout (joined : Joined (first :: second :: rest)) :
    FanoutOf (first :: second :: rest) (fanoutOfGroup first (rest.getLastD second) (first :: second :: rest)) where
  op := rfl
  size := ⟨by simp, joined.size⟩
  count := rfl
  expands := by
    have copies := joined.copies
    have alike := joined.alike
    have last := getLastD_position first second rest
    have count : (first :: second :: rest).length = rest.length + 2 := rfl
    generalize first :: second :: rest = group at copies alike last count ⊢
    have isFanout : (fanoutOfGroup first (rest.getLastD second) group).op = .copyFanout := rfl
    rw [expandFanout, if_pos isFanout]
    simp only [fanoutOfGroup, List.zip_map', Int.toNat_natCast]
    rw [List.take_of_length_le (by simp)]
    refine List.ext_getElem? fun index => ?_
    simp only [List.getElem?_map, List.getElem?_mapIdx, Option.map_map]
    cases found : group[index]? with
    | none => rfl
    | some task =>
      obtain ⟨shape, phase, quiet⟩ := alike index task found
      have isCopy := copies task (List.mem_of_getElem? found)
      have bound := (List.getElem?_eq_some_iff.mp found).1
      have terminal : task.terminal =
          ((rest.getLastD second).terminal && ((index + 1 : Nat) : Int) == (group.length : Int)) := by
        by_cases final : index + 1 = group.length
        · have here : index = rest.length + 1 := by omega
          rw [here, last] at found
          obtain rfl := Option.some.inj found
          simp [final]
        · rw [quiet (by omega)]
          have apart : (((index + 1 : Nat) : Int) == (group.length : Int)) = false := by
            rw [beq_eq_false_iff_ne]
            exact_mod_cast final
          rw [apart, Bool.and_false]
      simp only [Option.map_some, Function.comp_apply, meaning, copyOfFanout, if_pos, isCopy, terminal, phase, shape]
      have ops : fanoutShape first = { fanoutShape first with op := .copy } := by
        rw [← shape]
        simp [fanoutShape, isCopy]
      rw [ops]
      rfl
  copies := joined.copies
  shape copy member := by
    obtain ⟨index, found⟩ := List.mem_iff_getElem?.mp member
    obtain ⟨shape, _⟩ := joined.alike index copy found
    have isCopy := joined.copies first (List.mem_cons_self ..)
    rw [shape]
    simp [fanoutShape, fanoutOfGroup, isCopy]
  layout copy member other also := by
    obtain ⟨role, slot, offset⟩ := joined.layout member
    obtain ⟨role', slot', offset'⟩ := joined.layout also
    simp [logicalBufferRefSameFanoutLayout, role, slot, offset, role', slot', offset']
  destinations := joined.distinct.1
  ranks := joined.distinct.2

theorem flushFanoutGroup_merges (joined : Joined (first :: rest)) :
    ∃ task, flushFanoutGroup (first :: rest) = [task] ∧ Merges (first :: rest) task := by
  cases rest with
  | nil => exact ⟨first, rfl, Or.inl rfl⟩
  | cons second rest => exact ⟨_, rfl, Or.inr joined.fanout⟩

/-- The scan cuts the list into groups, each of which becomes one task. -/
theorem coalesceFrom_merges (joined : Joined (first :: rest)) (tasks : List TransferTask) :
    ∃ groups : List (List TransferTask), groups.flatten = first :: rest ++ tasks ∧
      List.Forall₂ Merges groups (coalesceFrom (first :: rest) tasks) := by
  induction tasks generalizing first rest with
  | nil =>
    obtain ⟨task, flushed, merges⟩ := flushFanoutGroup_merges joined
    exact ⟨[first :: rest], by simp, by simpa [coalesceFrom, flushed] using merges⟩
  | cons task tasks ih =>
    by_cases joins : joinsFanoutGroup (first :: rest) task = true
    · obtain ⟨groups, covers, merged⟩ := ih (joined.snoc joins)
      exact ⟨groups, by simpa using covers, by rw [coalesceFrom, if_pos joins]; exact merged⟩
    · obtain ⟨groups, covers, merged⟩ := ih (Joined.single task)
      obtain ⟨made, flushed, merges⟩ := flushFanoutGroup_merges joined
      refine ⟨(first :: rest) :: groups, by simp [covers], ?_⟩
      rw [coalesceFrom, if_neg joins, flushed]
      exact .cons merges merged

theorem coalesce_merges (tasks : List TransferTask) :
    ∃ groups : List (List TransferTask), groups.flatten = tasks ∧
      List.Forall₂ Merges groups (coalesceAdjacentCopyTasksIntoFanout tasks) := by
  cases tasks with
  | nil => exact ⟨[], rfl, .nil⟩
  | cons first rest => exact coalesceFrom_merges (Joined.single first) rest

theorem Merges.expands (merges : Merges group task) :
    (expandFanout task).map meaning = (group.flatMap expandFanout).map meaning := by
  rcases merges with rfl | fanout
  · simp
  · have plain : group.flatMap expandFanout = group := by
      have each : ∀ copies : List TransferTask, (∀ copy ∈ copies, copy.op = .copy) → copies.flatMap expandFanout = copies := by
        intro copies isCopy
        induction copies with
        | nil => rfl
        | cons copy rest ih =>
          rw [List.flatMap_cons, ih fun other member => isCopy other (List.mem_cons_of_mem _ member), expandFanout,
            if_neg (by simp [isCopy copy (List.mem_cons_self ..)]), List.singleton_append]
      exact each group fanout.copies
    rw [plain, fanout.expands]

theorem merges_expand (merged : List.Forall₂ Merges groups tasks) :
    (tasks.flatMap expandFanout).map meaning = (groups.flatten.flatMap expandFanout).map meaning := by
  induction merged with
  | nil => rfl
  | cons merges _ ih =>
    simp only [List.flatMap_cons, List.map_append, List.flatten_cons, List.flatMap_append, merges.expands, ih]

end Groups

section Refinement

theorem coalesceFrom_nil_nil : coalesceFrom [] [] = [] := rfl

theorem coalesceFrom_nil (tasks : List TransferTask) :
    coalesceFrom [] (first :: tasks) = coalesceFrom [first] tasks := by
  have apart : joinsFanoutGroup [] first = false := rfl
  simp [coalesceFrom, apart, flushFanoutGroup]

/-- The group that the inner loop has found so far, as the scan sees it. -/
theorem joins_taken (tasks : List TransferTask) (read count : Nat) (positive : 0 < count)
    (within : read + count < tasks.length) :
    joinsFanoutGroup ((tasks.drop read).take count) tasks[read + count] =
      (count < tmaTwoGpuPeerMaxFanoutDsts &&
        copyTasksShareFanoutShape tasks[read] tasks[read + count - 1] tasks[read + count] &&
        copyDestinationIsDistinct ((tasks.drop read).take count) tasks[read + count]) := by
  have length : ((tasks.drop read).take count).length = count := by
    rw [List.length_take, List.length_drop]
    omega
  have head : ((tasks.drop read).take count)[0]? = some tasks[read] := by
    rw [List.getElem?_take_of_lt positive, List.getElem?_drop, Nat.add_zero, List.getElem?_eq_getElem]
  have last : ((tasks.drop read).take count).getLast? = some tasks[read + count - 1] := by
    rw [List.getLast?_eq_getElem?, length, List.getElem?_take_of_lt (by omega), List.getElem?_drop,
      ← Nat.add_sub_assoc positive, List.getElem?_eq_getElem]
  cases group : (tasks.drop read).take count with
  | nil => simp [group] at head
  | cons first rest =>
    rw [group] at length head last
    have opens : first = tasks[read] := Option.some.inj head
    have ends : rest.getLastD first = tasks[read + count - 1] := by
      rw [List.getLast?_cons, List.getLast?_eq_getElem?] at last
      rw [List.getLastD_eq_getLast?, List.getLast?_eq_getElem?]
      exact Option.some.inj last
    rw [joinsFanoutGroup, length, ends, opens]

/-- The inner loop stops where the scan closes its group. -/
theorem growGroup_spec (tasks : List TransferTask) (read : Nat) :
    ∀ fuel count, tmaTwoGpuPeerMaxFanoutDsts ≤ fuel + count → 0 < count → read + count ≤ tasks.length →
      (count ≤ growGroup tasks read fuel count ∧ read + growGroup tasks read fuel count ≤ tasks.length) ∧
        coalesceFrom ((tasks.drop read).take count) (tasks.drop (read + count)) =
          flushFanoutGroup ((tasks.drop read).take (growGroup tasks read fuel count)) ++
            coalesceFrom [] (tasks.drop (read + growGroup tasks read fuel count)) := by
  intro fuel
  induction fuel with
  | zero =>
    intro count enough positive within
    refine ⟨⟨le_rfl, within⟩, ?_⟩
    change _ = flushFanoutGroup ((tasks.drop read).take count) ++ coalesceFrom [] (tasks.drop (read + count))
    rcases within.eq_or_lt with all | more
    · rw [all, List.drop_length, coalesceFrom, coalesceFrom_nil_nil, List.append_nil]
    · have full : ¬ count < tmaTwoGpuPeerMaxFanoutDsts := by omega
      rw [List.drop_eq_getElem_cons more, coalesceFrom, coalesceFrom_nil, joins_taken tasks read count positive more]
      simp [full]
  | succ fuel ih =>
    intro count enough positive within
    have grow : growGroup tasks read (fuel + 1) count =
        if h : read + count < tasks.length ∧ 0 < count then
          if count < tmaTwoGpuPeerMaxFanoutDsts &&
              copyTasksShareFanoutShape tasks[read] tasks[read + count - 1] tasks[read + count] &&
              copyDestinationIsDistinct ((tasks.drop read).take count) tasks[read + count] then
            growGroup tasks read fuel (count + 1)
          else count
        else count := rfl
    rw [grow]
    split
    · next more =>
      rw [List.drop_eq_getElem_cons more.1, coalesceFrom, joins_taken tasks read count positive more.1]
      split
      · have taken : (tasks.drop read).take count ++ [tasks[read + count]] = (tasks.drop read).take (count + 1) := by
          rw [List.take_add_one, List.getElem?_drop, List.getElem?_eq_getElem more.1]
          rfl
        obtain ⟨⟨grows, bounded⟩, rest⟩ := ih (count + 1) (by omega) (by omega) (by omega)
        rw [taken]
        exact ⟨⟨by omega, bounded⟩, rest⟩
      · rw [← coalesceFrom_nil, ← List.drop_eq_getElem_cons more.1]
        exact ⟨⟨le_rfl, within⟩, rfl⟩
    · next all =>
      have ended : read + count = tasks.length := by omega
      refine ⟨⟨le_rfl, within⟩, ?_⟩
      rw [ended, List.drop_length, coalesceFrom, coalesceFrom_nil_nil, List.append_nil]

/-- The written prefix is the scan of what was read; everything from the read cursor on is as it came. -/
structure Compaction.Follows (original : List TransferTask) (state : Compaction) : Prop where
  behind : state.write ≤ state.read
  within : state.read ≤ original.length
  length : state.tasks.length = original.length
  unread : state.tasks.drop state.read = original.drop state.read
  output : state.tasks.take state.write ++ coalesceFrom [] (original.drop state.read) = coalesceFrom [] original

theorem Compaction.Follows.start (original : List TransferTask) : Compaction.Follows original { tasks := original } where
  behind := le_rfl
  within := Nat.zero_le _
  length := rfl
  unread := rfl
  output := rfl

/-- How many tasks a turn reads. -/
def Compaction.groupSize (state : Compaction) (first : TransferTask) : Nat :=
  if copyTaskIsFanoutEligible first then growGroup state.tasks state.read tmaTwoGpuPeerMaxFanoutDsts 1 else 1

/-- One turn writes one task, the fanout of the group it read. -/
theorem Compaction.step_spec (state : Compaction) (next : state.tasks.drop state.read = first :: rest) :
    1 ≤ state.groupSize first ∧ state.read + state.groupSize first ≤ state.tasks.length ∧ ∃ made,
      state.step = ⟨state.tasks.set state.write made, state.write + 1, state.read + state.groupSize first⟩ ∧
        coalesceFrom [] (state.tasks.drop state.read) =
          made :: coalesceFrom [] (state.tasks.drop (state.read + state.groupSize first)) := by
  have within : state.read < state.tasks.length := by
    by_contra beyond
    rw [List.drop_eq_nil_of_le (by omega)] at next
    cases next
  have scan : coalesceFrom [] (state.tasks.drop state.read) =
      coalesceFrom ((state.tasks.drop state.read).take 1) (state.tasks.drop (state.read + 1)) := by
    rw [List.drop_eq_getElem_cons within, coalesceFrom_nil]
    rfl
  have group : (1 ≤ state.groupSize first ∧ state.read + state.groupSize first ≤ state.tasks.length) ∧
      coalesceFrom [] (state.tasks.drop state.read) =
        flushFanoutGroup ((state.tasks.drop state.read).take (state.groupSize first)) ++
          coalesceFrom [] (state.tasks.drop (state.read + state.groupSize first)) := by
    rw [Compaction.groupSize]
    split
    · rw [scan]
      exact growGroup_spec state.tasks state.read tmaTwoGpuPeerMaxFanoutDsts 1 (by omega) Nat.one_pos within
    · next ineligible =>
      refine ⟨⟨le_rfl, within⟩, ?_⟩
      have apart := joinsFanoutGroup_after_ineligible (eq_false_of_ne_true ineligible)
      rw [← List.drop_drop, next, coalesceFrom_nil, coalesceFrom_fresh apart]
      rfl
  obtain ⟨⟨some, bounded⟩, scanned⟩ := group
  refine ⟨some, bounded, ?_⟩
  have written : state.step = if state.groupSize first < 2 then
      ⟨state.tasks.set state.write first, state.write + 1, state.read + 1⟩
    else ⟨state.tasks.set state.write (fanoutOfGroup first ((rest.take (state.groupSize first - 1)).getLastD first)
      (first :: rest.take (state.groupSize first - 1))), state.write + 1, state.read + state.groupSize first⟩ := by
    rw [Compaction.step, next]
    rfl
  rw [written]
  split
  · next few =>
    have one : state.groupSize first = 1 := by omega
    refine ⟨first, by rw [one], ?_⟩
    rw [scanned, one, next]
    rfl
  · next several =>
    refine ⟨_, rfl, ?_⟩
    rw [scanned, next]
    obtain ⟨more, size⟩ : ∃ more, state.groupSize first = more + 2 := ⟨state.groupSize first - 2, by omega⟩
    have room : more + 1 ≤ rest.length := by
      have length := congrArg List.length next
      rw [List.length_drop, List.length_cons] at length
      omega
    cases rest with
    | nil => simp at room
    | cons second rest =>
      rw [size]
      simp only [List.take_succ_cons, Nat.reduceSubDiff, flushFanoutGroup, List.getLastD_cons, List.cons_append,
        List.nil_append]

theorem Compaction.Follows.step (follows : Compaction.Follows original state) (more : state.read < original.length) :
    Compaction.Follows original state.step ∧ state.write < state.step.read ∧ state.read < state.step.read := by
  obtain ⟨behind, within, length, unread, output⟩ := follows
  obtain ⟨first, rest, next⟩ : ∃ first rest, state.tasks.drop state.read = first :: rest := by
    rw [List.drop_eq_getElem_cons (by omega)]
    exact ⟨_, _, rfl⟩
  obtain ⟨some, bounded, made, written, scanned⟩ := state.step_spec next
  rw [written]
  have ahead : ∀ further, state.tasks.drop (state.read + further) = original.drop (state.read + further) := by
    intro further
    rw [← List.drop_drop, unread, List.drop_drop]
  refine ⟨⟨by dsimp only; omega, by dsimp only; omega, by simpa using length, ?_, ?_⟩, by dsimp only; omega, by dsimp only; omega⟩
  · rw [List.drop_set_of_lt (by dsimp only; omega), ahead]
  · have prefixed : (state.tasks.set state.write made).take (state.write + 1) = state.tasks.take state.write ++ [made] := by
      rw [List.take_add_one, List.take_set_of_le le_rfl, List.getElem?_set_self (by omega)]
      rfl
    rw [prefixed, ← output, ← unread, scanned, ahead]
    simp

theorem Compaction.Follows.compact (follows : Compaction.Follows original state) (turns : Nat) :
    Compaction.Follows original (compact turns state) ∧
      (original.length ≤ state.read + turns → (AllReduce.compact turns state).read = original.length) := by
  induction turns generalizing state with
  | zero => exact ⟨follows, fun enough => le_antisymm follows.within enough⟩
  | succ turns ih =>
    rw [AllReduce.compact, follows.length]
    split
    · next more =>
      obtain ⟨after, _, reads⟩ := follows.step more
      obtain ⟨kept, finishes⟩ := ih after
      exact ⟨kept, fun enough => finishes (by omega)⟩
    · next ended => exact ⟨follows, fun _ => le_antisymm follows.within (by omega)⟩

/-- The in-place compaction computes the scan. -/
theorem coalesceInPlace_eq (tasks : List TransferTask) :
    coalesceInPlace tasks = coalesceAdjacentCopyTasksIntoFanout tasks := by
  obtain ⟨follows, finishes⟩ := (Compaction.Follows.start tasks).compact tasks.length
  have output := follows.output
  rw [finishes (by dsimp only; omega), List.drop_length, coalesceFrom_nil_nil, List.append_nil] at output
  exact output

end Refinement

/-- Coalescing only merges runs of like copies into fanouts that expand to them, and never writes over an unread task. -/
theorem coalesceInPlace_preserves (tasks : List TransferTask) :
    (∃ groups : List (List TransferTask), groups.flatten = tasks ∧
      List.Forall₂ Merges groups (coalesceInPlace tasks)) ∧
    ((coalesceInPlace tasks).flatMap expandFanout).map meaning = (tasks.flatMap expandFanout).map meaning ∧
    coalesceInPlace tasks = coalesceAdjacentCopyTasksIntoFanout tasks ∧
    ∀ turns, (compact turns { tasks }).tasks.drop (compact turns { tasks }).read =
        tasks.drop (compact turns { tasks }).read ∧
      ((compact turns { tasks }).read < tasks.length →
        (compact turns { tasks }).write < (compact turns { tasks }).step.read) := by
  obtain ⟨groups, covers, merged⟩ := coalesce_merges tasks
  rw [← coalesceInPlace_eq] at merged
  refine ⟨⟨groups, covers, merged⟩, ?_, coalesceInPlace_eq tasks, fun turns => ?_⟩
  · have same := merges_expand merged
    rwa [covers] at same
  · obtain ⟨follows, _⟩ := (Compaction.Follows.start tasks).compact turns
    exact ⟨follows.unread, fun more => (follows.step more).2.1⟩

end Ooverlap.Plan.AllReduce
