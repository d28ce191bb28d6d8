import Ooverlap.Plan.AllReduce

/-! Closed form of the plans that the direct all-reduce planner produces. -/

namespace Ooverlap.Plan.AllReduce

section Coalescing

theorem joinsFanoutGroup_ineligible (ineligible : copyTaskIsFanoutEligible candidate = false)
    (group : List TransferTask) : joinsFanoutGroup group candidate = false := by
  cases group with
  | nil => rfl
  | cons first rest => simp [joinsFanoutGroup, copyTasksShareFanoutShape, ineligible]

theorem joinsFanoutGroup_after_ineligible (ineligible : copyTaskIsFanoutEligible first = false)
    (candidate : TransferTask) : joinsFanoutGroup [first] candidate = false := by
  simp [joinsFanoutGroup, copyTasksShareFanoutShape, ineligible]

theorem coalesceFrom_fresh (noJoin : ∀ candidate, joinsFanoutGroup [task] candidate = false)
    (rest : List TransferTask) : coalesceFrom [task] rest = task :: coalesceFrom [] rest := by
  cases rest with
  | nil => simp [coalesceFrom, flushFanoutGroup]
  | cons candidate rest =>
    have apart : joinsFanoutGroup [] candidate = false := rfl
    simp [coalesceFrom, noJoin candidate, apart, flushFanoutGroup]

/-- A task that is no eligible copy closes the open group and passes through unchanged. -/
theorem coalesceFrom_separator (separator : copyTaskIsFanoutEligible task = false)
    (group before after : List TransferTask) :
    coalesceFrom group (before ++ task :: after) =
      coalesceFrom group before ++ task :: coalesceFrom [] after := by
  induction before generalizing group with
  | nil =>
    simp only [List.nil_append, coalesceFrom, joinsFanoutGroup_ineligible separator]
    simp [coalesceFrom_fresh (joinsFanoutGroup_after_ineligible separator)]
  | cons candidate before ih =>
    simp only [List.cons_append, coalesceFrom]
    split
    · exact ih _
    · rw [ih, List.append_assoc]

theorem coalesceFrom_ineligible (ineligible : ∀ task ∈ before, copyTaskIsFanoutEligible task = false)
    (after : List TransferTask) :
    coalesceFrom [] (before ++ after) = before ++ coalesceFrom [] after := by
  induction before with
  | nil => rfl
  | cons task before ih =>
    have split := coalesceFrom_separator (ineligible task (List.mem_cons_self ..)) [] [] (before ++ after)
    rw [List.cons_append, ← List.nil_append (task :: (before ++ after)), split,
      ih fun other member => ineligible other (List.mem_cons_of_mem _ member)]
    rfl

/-- Blocks that open with a separator are coalesced independently. -/
theorem coalesceFrom_flatMap (blocks : List α) (block : α → List TransferTask)
    (opens : ∀ item ∈ blocks, ∀ task ∈ (block item).head?, copyTaskIsFanoutEligible task = false) :
    coalesceFrom [] (blocks.flatMap block) =
      blocks.flatMap fun item => coalesceFrom [] (block item) := by
  have joined : ∀ before, coalesceFrom [] (before ++ blocks.flatMap block) =
      coalesceFrom [] before ++ blocks.flatMap fun item => coalesceFrom [] (block item) := by
    induction blocks with
    | nil => simp
    | cons item rest ih =>
      have ihRest := ih fun other member => opens other (List.mem_cons_of_mem _ member)
      intro before
      cases shape : block item with
      | nil => simpa [shape, coalesceFrom, flushFanoutGroup] using ihRest before
      | cons task tasks =>
        have separator := opens item (List.mem_cons_self ..) task (by simp [shape])
        have alone := coalesceFrom_separator separator [] [] tasks
        have flattened : before ++ (item :: rest).flatMap block =
            before ++ task :: (tasks ++ rest.flatMap block) := by
          simp [shape]
        rw [flattened, coalesceFrom_separator separator, ihRest tasks, List.flatMap_cons, shape,
          ← List.nil_append (task :: tasks), alone]
        simp [coalesceFrom, flushFanoutGroup]
  simpa [coalesceFrom, flushFanoutGroup] using joined []

end Coalescing

section Grouping

/-- Consecutive copies that the scan may hold in its open group. -/
structure FanoutGroup (group : List TransferTask) : Prop where
  size : group.length ≤ tmaTwoGpuPeerMaxFanoutDsts
  shape : ∀ first rest, group = first :: rest →
    ∀ candidate ∈ rest, ∃ previous, copyTasksShareFanoutShape first previous candidate = true

theorem FanoutGroup.singleton (task : TransferTask) : FanoutGroup [task] where
  size := by simp [tmaTwoGpuPeerMaxFanoutDsts]
  shape first rest same := by
    cases same
    simp

theorem FanoutGroup.join (valid : FanoutGroup group) (joins : joinsFanoutGroup group task = true) :
    FanoutGroup (group ++ [task]) := by
  cases group with
  | nil => cases joins
  | cons first rest =>
    simp only [joinsFanoutGroup, Bool.and_eq_true, decide_eq_true_eq] at joins
    obtain ⟨⟨room, shape⟩, _⟩ := joins
    refine ⟨by simp only [List.length_append, List.length_singleton]; omega, ?_⟩
    intro head tail same candidate member
    cases same
    rcases List.mem_append.mp member with earlier | here
    · exact valid.shape first rest rfl candidate earlier
    · rw [List.mem_singleton.mp here]
      exact ⟨_, shape⟩

/-- The scan cuts the task list into consecutive groups and flushes each of them. -/
theorem coalesceFrom_groups (valid : FanoutGroup group) (tasks : List TransferTask) :
    ∃ groups : List (List TransferTask), groups.flatten = group ++ tasks ∧
      (∀ members ∈ groups, FanoutGroup members) ∧
      coalesceFrom group tasks = groups.flatMap flushFanoutGroup := by
  induction tasks generalizing group with
  | nil => exact ⟨[group], by simp, by simpa using valid, by simp [coalesceFrom]⟩
  | cons task rest ih =>
    by_cases joins : joinsFanoutGroup group task = true
    · obtain ⟨groups, covers, each, flushed⟩ := ih (valid.join joins)
      exact ⟨groups, by simpa using covers, each, by rw [coalesceFrom, if_pos joins, flushed]⟩
    · obtain ⟨groups, covers, each, flushed⟩ := ih (FanoutGroup.singleton task)
      refine ⟨group :: groups, by simp [covers], ?_, ?_⟩
      · intro members member
        rcases List.mem_cons.mp member with rfl | later
        · exact valid
        · exact each members later
      · rw [coalesceFrom, if_neg joins, flushed, List.flatMap_cons]

theorem fanoutGroup_nil : FanoutGroup [] where
  size := Nat.zero_le _
  shape first rest same := by cases same

theorem mem_flushFanoutGroup (member : task ∈ flushFanoutGroup group) :
    group = [task] ∨ ∃ first second rest, group = first :: second :: rest ∧
      task = fanoutOfGroup first (rest.getLastD second) group := by
  match group with
  | [] => cases member
  | [only] =>
    simp only [flushFanoutGroup, List.mem_singleton] at member
    exact Or.inl (by rw [member])
  | first :: second :: rest =>
    exact Or.inr ⟨first, second, rest, rfl, List.mem_singleton.mp member⟩

theorem coalesceFrom_executor (uniform : ∀ task ∈ tasks, task.executorRank = rank) :
    ∀ task ∈ coalesceFrom [] tasks, task.executorRank = rank := by
  obtain ⟨groups, covers, _, flushed⟩ := coalesceFrom_groups fanoutGroup_nil tasks
  rw [List.nil_append] at covers
  rw [flushed]
  intro task member
  obtain ⟨group, inGroups, inFlush⟩ := List.mem_flatMap.mp member
  have inTasks : ∀ other ∈ group, other.executorRank = rank := fun other inGroup =>
    uniform other (covers ▸ List.mem_flatten.mpr ⟨group, inGroups, inGroup⟩)
  rcases mem_flushFanoutGroup inFlush with rfl | ⟨first, second, rest, rfl, rfl⟩
  · exact inTasks task (by simp)
  · exact inTasks first (by simp)

/-- Buffers a data task writes. -/
def destinationRefs (task : TransferTask) : List LogicalBufferRef :=
  match task.op with
  | .copyFanout | .reduceFanout => task.fanoutDsts.take task.fanoutDstCount.toNat
  | _ => [task.dst]

/-- Flushing a group of copies keeps their destinations, in order. -/
theorem flushFanoutGroup_destinations (copies : ∀ task ∈ group, task.op = .copy) :
    (flushFanoutGroup group).flatMap destinationRefs = group.map TransferTask.dst := by
  match group with
  | [] => rfl
  | [task] => simp [flushFanoutGroup, destinationRefs, copies task (by simp)]
  | first :: second :: rest =>
    simp only [flushFanoutGroup, List.flatMap_singleton, destinationRefs, fanoutOfGroup]
    rw [Int.toNat_natCast, ← List.length_map TransferTask.dst, List.take_length]

theorem coalesceFrom_destinations (copies : ∀ task ∈ tasks, task.op = .copy) :
    (coalesceFrom [] tasks).flatMap destinationRefs = tasks.map TransferTask.dst := by
  obtain ⟨groups, covers, _, flushed⟩ := coalesceFrom_groups fanoutGroup_nil tasks
  rw [List.nil_append] at covers
  have each : ∀ members ∈ groups, (flushFanoutGroup members).flatMap destinationRefs =
      members.map TransferTask.dst := fun members member =>
    flushFanoutGroup_destinations fun task inGroup =>
      copies task (covers ▸ List.mem_flatten.mpr ⟨members, member, inGroup⟩)
  rw [flushed, List.flatMap_assoc, List.flatMap_congr each, ← covers, List.map_flatten,
    List.flatMap_def]

/-- The last task of a list, and only that one, is terminal. -/
def TerminalLast (tasks : List TransferTask) : Prop :=
  ∃ init last, tasks = init ++ [last] ∧ (∀ task ∈ init, task.terminal = false) ∧ last.terminal = true

theorem flushFanoutGroup_nonterminal (quiet : ∀ task ∈ group, task.terminal = false) :
    ∀ task ∈ flushFanoutGroup group, task.terminal = false := by
  match group with
  | [] => simp [flushFanoutGroup]
  | [task] => simpa [flushFanoutGroup] using quiet
  | first :: second :: rest =>
    have last : rest.getLastD second ∈ first :: second :: rest := by
      apply List.mem_cons_of_mem
      rcases List.eq_nil_or_concat rest with rfl | ⟨init, final, rfl⟩ <;> simp
    simpa [flushFanoutGroup, fanoutOfGroup] using quiet _ last

theorem flushFanoutGroup_terminalLast (marked : TerminalLast group) :
    TerminalLast (flushFanoutGroup group) := by
  match group with
  | [] => simpa [flushFanoutGroup] using marked
  | [task] => simpa [flushFanoutGroup] using marked
  | first :: second :: rest =>
    obtain ⟨init, last, same, _, final⟩ := marked
    have lastEq : rest.getLastD second = last := by
      have ends : (first :: second :: rest).getLast? = some last := by simp [same]
      simpa [List.getLastD_eq_getLast?, List.getLast?_cons] using ends
    refine ⟨[], fanoutOfGroup first (rest.getLastD second) (first :: second :: rest), ?_, ?_, ?_⟩
    · simp [flushFanoutGroup]
    · simp
    · rw [fanoutOfGroup, lastEq]
      exact final

theorem TerminalLast.append_right (marked : TerminalLast (left ++ right)) (nonempty : right ≠ []) :
    (∀ task ∈ left, task.terminal = false) ∧ TerminalLast right := by
  obtain ⟨init, last, same, quiet, final⟩ := marked
  obtain ⟨rightInit, rightLast, rfl⟩ := List.eq_nil_or_concat right |>.resolve_left nonempty
  rw [List.concat_eq_append, ← List.append_assoc] at same
  obtain ⟨initEq, lastEq⟩ := List.append_inj' same rfl
  cases lastEq
  subst initEq
  exact ⟨fun task member => quiet task (List.mem_append_left _ member), rightInit, last,
    List.concat_eq_append, fun task member => quiet task (List.mem_append_right _ member), final⟩

theorem TerminalLast.append_left (quiet : ∀ task ∈ left, task.terminal = false)
    (marked : TerminalLast right) : TerminalLast (left ++ right) := by
  obtain ⟨init, last, rfl, quietRight, final⟩ := marked
  refine ⟨left ++ init, last, by simp, ?_, final⟩
  intro task member
  exact (List.mem_append.mp member).elim (quiet task) (quietRight task)

/-- Coalescing keeps the terminal mark on the last task. -/
theorem coalesceFrom_terminalLast (marked : TerminalLast (group ++ tasks)) :
    TerminalLast (coalesceFrom group tasks) := by
  induction tasks generalizing group with
  | nil => exact flushFanoutGroup_terminalLast (by simpa using marked)
  | cons task rest ih =>
    by_cases joins : joinsFanoutGroup group task = true
    · rw [coalesceFrom, if_pos joins]
      exact ih (by simpa using marked)
    · rw [coalesceFrom, if_neg joins]
      obtain ⟨quiet, later⟩ := marked.append_right (List.cons_ne_nil task rest)
      exact TerminalLast.append_left (flushFanoutGroup_nonterminal quiet) (ih later)

end Grouping

section Barriers

/-- Result of the insertion scan when the plan has room. -/
def withBarriers : List TransferTask → List TransferTask → List TransferTask
  | _, [] => []
  | previous, consumer :: rest =>
    if needsBarrier previous consumer then
      barrierFor consumer :: consumer :: withBarriers (previous ++ [barrierFor consumer, consumer]) rest
    else consumer :: withBarriers (previous ++ [consumer]) rest

theorem insertBarriersFrom_eq (inserted : insertBarriersFrom cap previous tasks = some result) :
    result = previous ++ withBarriers previous tasks := by
  induction tasks generalizing previous with
  | nil =>
    cases inserted
    simp [withBarriers]
  | cons consumer rest ih =>
    simp only [insertBarriersFrom] at inserted
    simp only [withBarriers]
    split at inserted
    · rename_i needed
      split at inserted
      · cases inserted
      · rw [if_pos needed, ih inserted]
        simp
    · rename_i free
      rw [if_neg free, ih inserted]
      simp

theorem withBarriers_append (previous left right : List TransferTask) :
    withBarriers previous (left ++ right) =
      withBarriers previous left ++ withBarriers (previous ++ withBarriers previous left) right := by
  induction left generalizing previous with
  | nil => simp [withBarriers]
  | cons consumer rest ih =>
    simp only [List.cons_append, withBarriers]
    split <;> simp [ih]

theorem needsBarrier_foreign (previous foreign : List TransferTask) (consumer : TransferTask)
    (apart : ∀ task ∈ foreign, task.executorRank ≠ consumer.executorRank) :
    needsBarrier (foreign ++ previous) consumer = needsBarrier previous consumer := by
  have writesNothing : foreign.any (fun task =>
      reduceTaskWritesRange task consumer.executorRank consumer.src consumer.bytes) = false := by
    rw [List.any_eq_false]
    intro task member
    simp [reduceTaskWritesRange, apart task member]
  have matchesNothing : foreign.any (fun task =>
      barrierMatchesRange task consumer.executorRank consumer.src consumer.bytes) = false := by
    rw [List.any_eq_false]
    intro task member
    simp [barrierMatchesRange, apart task member]
  simp only [needsBarrier, List.any_append, writesNothing, matchesNothing, Bool.false_or]

/-- Tasks of other executors have no influence on where barriers go. -/
theorem withBarriers_foreign (foreign previous tasks : List TransferTask)
    (apart : ∀ task ∈ foreign, ∀ consumer ∈ tasks, task.executorRank ≠ consumer.executorRank) :
    withBarriers (foreign ++ previous) tasks = withBarriers previous tasks := by
  induction tasks generalizing previous with
  | nil => rfl
  | cons consumer rest ih =>
    have apartRest : ∀ task ∈ foreign, ∀ other ∈ rest, task.executorRank ≠ other.executorRank :=
      fun task member other inRest => apart task member other (List.mem_cons_of_mem _ inRest)
    have here := needsBarrier_foreign previous foreign consumer fun task member =>
      apart task member consumer (List.mem_cons_self ..)
    simp only [withBarriers, here, List.append_assoc, ih _ apartRest]

/-- Tasks that are no copies are left where they are. -/
theorem withBarriers_quiet (noCopies : ∀ task ∈ tasks, isCopyTask task = false)
    (previous : List TransferTask) : withBarriers previous tasks = tasks := by
  induction tasks generalizing previous with
  | nil => rfl
  | cons task rest ih =>
    have free : needsBarrier previous task = false := by
      simp [needsBarrier, noCopies task (List.mem_cons_self ..)]
    simp [withBarriers, free, ih fun other member => noCopies other (List.mem_cons_of_mem _ member)]

/-- Once a range has its barrier, further copies out of it get none. -/
theorem withBarriers_settled (needed : TransferTask) (barrier : needed ∈ previous)
    (matching : ∀ task ∈ tasks,
      barrierMatchesRange needed task.executorRank task.src task.bytes = true) :
    withBarriers previous tasks = tasks := by
  induction tasks generalizing previous with
  | nil => rfl
  | cons task rest ih =>
    have found : previous.any (fun earlier =>
        barrierMatchesRange earlier task.executorRank task.src task.bytes) = true :=
      List.any_eq_true.mpr ⟨needed, barrier, matching task (List.mem_cons_self ..)⟩
    have free : needsBarrier previous task = false := by
      simp [needsBarrier, found]
    have later := @ih (previous ++ [task]) (List.mem_append_left _ barrier)
      fun other member => matching other (List.mem_cons_of_mem _ member)
    simp [withBarriers, free, later]

theorem withBarriers_executor (uniform : ∀ task ∈ tasks, task.executorRank = rank)
    (previous : List TransferTask) : ∀ task ∈ withBarriers previous tasks, task.executorRank = rank := by
  induction tasks generalizing previous with
  | nil => simp [withBarriers]
  | cons consumer rest ih =>
    have here := uniform consumer (List.mem_cons_self ..)
    have later := fun previous => ih (fun task member => uniform task (List.mem_cons_of_mem _ member)) previous
    simp only [withBarriers]
    split
    · intro task member
      simp only [List.mem_cons] at member
      rcases member with rfl | rfl | member
      · exact here
      · exact here
      · exact later _ task member
    · intro task member
      simp only [List.mem_cons] at member
      rcases member with rfl | member
      · exact here
      · exact later _ task member

/-- Blocks of distinct ranks receive their barriers independently. -/
theorem withBarriers_flatMap (ranks : List Int) (distinct : ranks.Nodup)
    (block : Int → List TransferTask)
    (executors : ∀ rank ∈ ranks, ∀ task ∈ block rank, task.executorRank = rank) :
    withBarriers [] (ranks.flatMap block) = ranks.flatMap fun rank => withBarriers [] (block rank) := by
  have joined : ∀ foreign : List TransferTask, (∀ task ∈ foreign, task.executorRank ∉ ranks) →
      withBarriers foreign (ranks.flatMap block) =
        ranks.flatMap fun rank => withBarriers [] (block rank) := by
    induction ranks with
    | nil => simp [withBarriers]
    | cons rank rest ih =>
      obtain ⟨fresh, distinctRest⟩ := List.nodup_cons.mp distinct
      have ihRest := ih distinctRest fun other member =>
        executors other (List.mem_cons_of_mem _ member)
      have here := executors rank (List.mem_cons_self ..)
      intro foreign absent
      have local_ : withBarriers foreign (block rank) = withBarriers [] (block rank) := by
        have apart := withBarriers_foreign foreign [] (block rank) fun task member consumer inBlock same =>
          absent task member (by rw [same, here consumer inBlock]; exact List.mem_cons_self ..)
        rwa [List.append_nil] at apart
      rw [List.flatMap_cons, withBarriers_append, local_, ihRest, List.flatMap_cons]
      intro task member
      rcases List.mem_append.mp member with outside | inside
      · exact fun inRest => absent task outside (List.mem_cons_of_mem _ inRest)
      · rw [withBarriers_executor here [] task inside]
        exact fresh
  exact joined [] (by simp)

end Barriers

section Renumbering

/-- Local phases counted on from `start`. -/
def numberFrom (start : Int) : List TransferTask → List TransferTask
  | [] => []
  | task :: rest => task.setPhase start :: numberFrom (start + 1) rest

theorem mem_numberFrom (member : task ∈ numberFrom start tasks) :
    ∃ original ∈ tasks, ∃ phase, task = original.setPhase phase := by
  induction tasks generalizing start with
  | nil => cases member
  | cons head rest ih =>
    rcases List.mem_cons.mp member with rfl | later
    · exact ⟨head, List.mem_cons_self .., start, rfl⟩
    · obtain ⟨original, inRest, phase, same⟩ := ih later
      exact ⟨original, List.mem_cons_of_mem _ inRest, phase, same⟩

/-- Numbering changes nothing that does not look at phases. -/
theorem map_numberFrom (view : TransferTask → α) (blind : ∀ task phase, view (task.setPhase phase) = view task)
    (start : Int) (tasks : List TransferTask) : (numberFrom start tasks).map view = tasks.map view := by
  induction tasks generalizing start with
  | nil => rfl
  | cons task rest ih => simp [numberFrom, blind, ih]

theorem numberFrom_append (start : Int) (left right : List TransferTask) :
    numberFrom start (left ++ right) = numberFrom start left ++ numberFrom (start + left.length) right := by
  induction left generalizing start with
  | nil => simp [numberFrom]
  | cons task rest ih =>
    simp only [List.cons_append, numberFrom, ih, List.length_cons, Nat.cast_succ]
    rw [Int.add_assoc, Int.add_comm 1]

@[simp] theorem length_numberFrom (start : Int) (tasks : List TransferTask) :
    (numberFrom start tasks).length = tasks.length := by
  induction tasks generalizing start with
  | nil => rfl
  | cons task rest ih => simp [numberFrom, ih]

theorem renumberPhases_block (uniform : ∀ task ∈ block, task.executorRank = rank)
    (valid : 0 ≤ rank ∧ rank < 16) (phases : Int → Int) (rest : List TransferTask) :
    renumberPhases phases (block ++ rest) =
      numberFrom (phases rank) block ++
        renumberPhases (Function.update phases rank (phases rank + block.length)) rest := by
  induction block generalizing phases with
  | nil => simp [numberFrom]
  | cons task block ih =>
    have here : task.executorRank = rank := uniform task (List.mem_cons_self ..)
    have ihRest := ih (fun other member => uniform other (List.mem_cons_of_mem _ member))
    have inRange : task.executorRank ≥ 0 ∧ task.executorRank < (kPlannerMaxRanks : Int) := by
      rw [here]
      exact valid
    simp only [List.cons_append, renumberPhases, if_pos inRange, numberFrom]
    rw [here, ihRest]
    simp only [Function.update_self, Function.update_idem, List.length_cons, Nat.cast_succ]
    rw [Int.add_assoc, Int.add_comm 1]

/-- Every rank's block is numbered from zero. -/
theorem renumberPhases_flatMap (ranks : List Int) (distinct : ranks.Nodup)
    (valid : ∀ rank ∈ ranks, 0 ≤ rank ∧ rank < 16) (block : Int → List TransferTask)
    (executors : ∀ rank ∈ ranks, ∀ task ∈ block rank, task.executorRank = rank) :
    renumberPhases (fun _ => 0) (ranks.flatMap block) =
      ranks.flatMap fun rank => numberFrom 0 (block rank) := by
  have joined : ∀ phases : Int → Int, (∀ rank ∈ ranks, phases rank = 0) →
      renumberPhases phases (ranks.flatMap block) =
        ranks.flatMap fun rank => numberFrom 0 (block rank) := by
    induction ranks with
    | nil => intro phases _; rfl
    | cons rank rest ih =>
      obtain ⟨fresh, distinctRest⟩ := List.nodup_cons.mp distinct
      intro phases zero
      rw [List.flatMap_cons, renumberPhases_block (executors rank (List.mem_cons_self ..))
        (valid rank (List.mem_cons_self ..)), zero rank (List.mem_cons_self ..), List.flatMap_cons]
      congr 1
      apply ih distinctRest (fun other member => valid other (List.mem_cons_of_mem _ member))
        fun other member => executors other (List.mem_cons_of_mem _ member)
      intro other member
      have apart : other ≠ rank := fun same => fresh (same ▸ member)
      rw [Function.update_of_ne apart]
      exact zero other (List.mem_cons_of_mem _ member)
  exact joined (fun _ => 0) fun _ _ => rfl

end Renumbering

end Ooverlap.Plan.AllReduce
