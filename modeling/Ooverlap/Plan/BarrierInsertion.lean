import Ooverlap.Plan.AllReduceCapacity
import Ooverlap.Plan.StagedAllReduce

/-! What the barriers between local reductions and copies separate. -/

namespace Ooverlap.Plan.AllReduce

section Separation

/-- A copy out of a range of the executor's own buffer that a reduction of the same executor wrote. -/
def ReadsReduced (producer consumer : TransferTask) : Prop :=
  isCopyTask consumer = true ∧ consumer.bytes ≠ 0 ∧
    logicalBufferIsLocalDeviceBuffer consumer.src consumer.executorRank = true ∧
    reduceTaskWritesRange producer consumer.executorRank consumer.src consumer.bytes = true

/-- A barrier of the copy's executor. -/
def BarrierIn (middle : List TransferTask) (consumer : TransferTask) : Prop :=
  ∃ barrier ∈ middle, barrier.op = .barrier ∧ barrier.executorRank = consumer.executorRank

/-- Between a reduction and every later copy of its range lies a barrier of their executor. -/
def Separated (tasks : List TransferTask) : Prop :=
  ∀ before producer middle consumer after, tasks = before ++ producer :: (middle ++ consumer :: after) →
    ReadsReduced producer consumer → BarrierIn middle consumer

/-- Two copies of one executor out of one range. -/
def SameRead (first second : TransferTask) : Prop :=
  first.executorRank = second.executorRank ∧ first.src = second.src ∧ first.bytes = second.bytes

/-- The executor of a copy already reduced and copied the copy's range. -/
def ReadBefore (before : List TransferTask) (consumer : TransferTask) : Prop :=
  ∃ producer first, [producer, first].Sublist before ∧ ReadsReduced producer first ∧ SameRead first consumer

/-- Every copy is separated from every earlier reduction of its range before which the range was not reduced and
copied already. -/
def SeparatedFromFirst (tasks : List TransferTask) : Prop :=
  ∀ before producer middle consumer after, tasks = before ++ producer :: (middle ++ consumer :: after) →
    ReadsReduced producer consumer → ¬ReadBefore before consumer → BarrierIn middle consumer

/-- Every barrier stands right before the copy it was made for, and a reduction of the copy's range before both. -/
def BarriersPlaced (tasks : List TransferTask) : Prop :=
  ∀ before barrier after, tasks = before ++ barrier :: after → barrier.op = .barrier →
    ∃ consumer rest, after = consumer :: rest ∧ barrier = barrierFor consumer ∧
      ∃ producer ∈ before, ReadsReduced producer consumer

theorem ReadsReduced.copy (reads : ReadsReduced producer consumer) : consumer.op ≠ .barrier := by
  have copies := reads.1
  intro same
  simp [isCopyTask, same] at copies

theorem ReadsReduced.reduce (reads : ReadsReduced producer consumer) :
    producer.op ≠ .barrier ∧ isCopyTask producer = false := by
  have writes := reads.2.2.2
  unfold reduceTaskWritesRange at writes
  split at writes
  · cases writes
  · split at writes
    · rename_i reduces
      simp [isCopyTask, reduces]
    · rename_i reduces
      simp [isCopyTask, reduces]
    · cases writes

theorem needsBarrier_iff (previous : List TransferTask) (consumer : TransferTask) :
    needsBarrier previous consumer = true ↔
      (∃ producer ∈ previous, ReadsReduced producer consumer) ∧
        ¬∃ barrier ∈ previous, barrierMatchesRange barrier consumer.executorRank consumer.src consumer.bytes = true := by
  simp only [needsBarrier, Bool.and_eq_true, bne_iff_ne, List.any_eq_true, Bool.not_eq_true', List.any_eq_false,
    ReadsReduced]
  constructor
  · rintro ⟨⟨⟨⟨copies, some⟩, here⟩, producer, member, writes⟩, none⟩
    refine ⟨⟨producer, member, copies, some, here, writes⟩, ?_⟩
    rintro ⟨barrier, member, found⟩
    exact none barrier member found
  · rintro ⟨⟨producer, member, copies, some, here, writes⟩, none⟩
    exact ⟨⟨⟨⟨copies, some⟩, here⟩, producer, member, writes⟩, fun barrier member found => none ⟨barrier, member, found⟩⟩

/-- A list that ends in a further task: the task is new, or it belonged to the list before. -/
theorem append_singleton_split {tasks before after : List TransferTask}
    (split : tasks ++ [last] = before ++ task :: after) :
    (before = tasks ∧ task = last ∧ after = []) ∨ ∃ rest, after = rest ++ [last] ∧ tasks = before ++ task :: rest := by
  rcases List.eq_nil_or_concat after with rfl | ⟨rest, other, rfl⟩
  · obtain ⟨same, last⟩ := List.append_inj' split (by simp)
    obtain rfl := List.singleton_inj.mp last
    exact Or.inl ⟨same.symm, rfl, rfl⟩
  · right
    rw [List.concat_eq_append, ← List.cons_append, ← List.append_assoc] at split
    obtain ⟨same, last⟩ := List.append_inj' split (by simp)
    obtain rfl := List.singleton_inj.mp last
    exact ⟨rest, by rw [List.concat_eq_append], same⟩

theorem BarriersPlaced.snoc (placed : BarriersPlaced tasks) (plain : task.op ≠ .barrier) :
    BarriersPlaced (tasks ++ [task]) := by
  intro before barrier after split isBarrier
  rcases append_singleton_split split with ⟨_, rfl, _⟩ | ⟨rest, rfl, same⟩
  · exact absurd isBarrier plain
  · obtain ⟨consumer, others, rfl, made, producer⟩ := placed before barrier rest same isBarrier
    exact ⟨consumer, others ++ [task], rfl, made, producer⟩

theorem BarriersPlaced.barrier (placed : BarriersPlaced tasks) (plain : consumer.op ≠ .barrier)
    (producer : ∃ producer ∈ tasks, ReadsReduced producer consumer) :
    BarriersPlaced (tasks ++ [barrierFor consumer] ++ [consumer]) := by
  intro before barrier after split isBarrier
  rcases append_singleton_split split with ⟨_, rfl, _⟩ | ⟨rest, rfl, same⟩
  · exact absurd isBarrier plain
  · rcases append_singleton_split same with ⟨rfl, rfl, rfl⟩ | ⟨others, rfl, earlier⟩
    · exact ⟨consumer, [], rfl, rfl, producer⟩
    · obtain ⟨other, more, rfl, made, first⟩ := placed before barrier others earlier isBarrier
      exact ⟨other, more ++ [barrierFor consumer] ++ [consumer], by simp, made, first⟩

/-- One more task keeps what is separated, if a barrier already follows the reductions it reads from. -/
theorem SeparatedFromFirst.snoc (separated : SeparatedFromFirst tasks)
    (last : ∀ before producer middle, tasks = before ++ producer :: middle → ReadsReduced producer task →
      ¬ReadBefore before task → BarrierIn middle task) :
    SeparatedFromFirst (tasks ++ [task]) := by
  intro before producer middle consumer after split reads once
  have regrouped : tasks ++ [task] = (before ++ producer :: middle) ++ consumer :: after := by
    rw [split, List.append_assoc, List.cons_append]
  rcases append_singleton_split regrouped with ⟨same, rfl, _⟩ | ⟨rest, _, same⟩
  · exact last before producer middle same.symm reads once
  · refine separated before producer middle consumer rest ?_ reads once
    rw [same, List.append_assoc, List.cons_append]

/-- The barrier already there, when a copy gets none of its own, and the reduction and the copy it was made for. -/
theorem BarriersPlaced.settled (placed : BarriersPlaced previous) (settled : needsBarrier previous consumer = false)
    (member : producer ∈ previous) (reads : ReadsReduced producer consumer) :
    ∃ start first rest, previous = start ++ barrierFor first :: first :: rest ∧ SameRead first consumer ∧
      ∃ origin ∈ start, ReadsReduced origin first := by
  have present : ∃ barrier ∈ previous,
      barrierMatchesRange barrier consumer.executorRank consumer.src consumer.bytes = true := by
    by_contra absent
    have needed := (needsBarrier_iff previous consumer).mpr ⟨⟨producer, member, reads⟩, absent⟩
    rw [settled] at needed
    cases needed
  obtain ⟨barrier, inside, matching⟩ := present
  simp only [barrierMatchesRange, Bool.and_eq_true, beq_iff_eq] at matching
  obtain ⟨⟨⟨isBarrier, executor⟩, bytes⟩, range⟩ := matching
  obtain ⟨start, finish, located⟩ := List.append_of_mem inside
  obtain ⟨first, rest, rfl, rfl, origin⟩ := placed start barrier finish located isBarrier
  exact ⟨start, first, rest, located, ⟨executor, range, bytes⟩, origin⟩

/-- Without a new barrier the one already there follows the reduction, unless the range was reduced and copied before
the reduction. -/
theorem settled_separates (placed : BarriersPlaced previous) (settled : needsBarrier previous consumer = false)
    (split : previous = before ++ producer :: middle) (reads : ReadsReduced producer consumer)
    (once : ¬ReadBefore before consumer) : BarrierIn middle consumer := by
  have member : producer ∈ previous := split ▸ List.mem_append_right _ (List.mem_cons_self ..)
  obtain ⟨start, first, rest, located, alike, origin, earlier, firstReads⟩ := placed.settled settled member reads
  -- The barrier stands after the reduction, or else the copy it was made for stands before it.
  rcases List.append_eq_append_iff.mp (split.symm.trans located) with ⟨between, shifted, tail⟩ | ⟨between, shifted, tail⟩
  · cases between with
    | nil =>
      rw [List.nil_append] at tail
      obtain ⟨rfl, _⟩ := List.cons.inj tail
      exact absurd rfl reads.reduce.1
    | cons head others =>
      obtain ⟨rfl, inMiddle⟩ := List.cons.inj tail
      exact ⟨barrierFor first, inMiddle ▸ List.mem_append_right _ (List.mem_cons_self ..), rfl, alike.1⟩
  · exfalso
    cases between with
    | nil =>
      rw [List.nil_append] at tail
      obtain ⟨rfl, _⟩ := List.cons.inj tail
      exact reads.reduce.1 rfl
    | cons head others =>
      rw [List.cons_append] at tail
      obtain ⟨rfl, after⟩ := List.cons.inj tail
      cases others with
      | nil =>
        obtain ⟨rfl, _⟩ := List.cons.inj after
        have copies := firstReads.1
        rw [reads.reduce.2] at copies
        cases copies
      | cons next others =>
        rw [List.cons_append] at after
        obtain ⟨rfl, _⟩ := List.cons.inj after
        have back : [first].Sublist (barrierFor first :: first :: others) :=
          List.singleton_sublist.mpr (List.mem_cons_of_mem _ (List.mem_cons_self ..))
        have found : [origin, first].Sublist before :=
          shifted ▸ (List.singleton_sublist.mpr earlier).append back
        exact once ⟨origin, first, found, firstReads, alike⟩

theorem withBarriers_separated (tasks previous : List TransferTask) (plain : ∀ task ∈ tasks, task.op ≠ .barrier)
    (placed : BarriersPlaced previous) (separated : SeparatedFromFirst previous) :
    SeparatedFromFirst (previous ++ withBarriers previous tasks) := by
  induction tasks generalizing previous with
  | nil => simpa [withBarriers] using separated
  | cons consumer rest ih =>
    have here := plain consumer (List.mem_cons_self ..)
    have later := fun task member => plain task (List.mem_cons_of_mem _ member)
    rw [withBarriers]
    by_cases needed : needsBarrier previous consumer = true
    · rw [if_pos needed]
      have producers := ((needsBarrier_iff previous consumer).mp needed).1
      have withBarrier : SeparatedFromFirst (previous ++ [barrierFor consumer]) :=
        separated.snoc fun _ _ _ _ reads => absurd reads.1 (by simp [isCopyTask, barrierFor])
      have both : SeparatedFromFirst (previous ++ [barrierFor consumer] ++ [consumer]) := by
        refine withBarrier.snoc fun before producer middle split reads _ => ?_
        rcases append_singleton_split split with ⟨_, rfl, _⟩ | ⟨others, rfl, _⟩
        · exact absurd rfl reads.reduce.1
        · exact ⟨barrierFor consumer, List.mem_append_right _ (List.mem_singleton_self _), rfl, rfl⟩
      have grown := ih (previous ++ [barrierFor consumer] ++ [consumer]) later (placed.barrier here producers) both
      simpa only [List.append_assoc, List.cons_append, List.nil_append] using grown
    · rw [if_neg needed]
      have settled : needsBarrier previous consumer = false := by simpa using needed
      have grown := ih (previous ++ [consumer]) later (placed.snoc here)
        (separated.snoc fun _ _ _ split reads once => settled_separates placed settled split reads once)
      simpa only [List.append_assoc, List.cons_append, List.nil_append] using grown

end Separation

section Phases

/-- Renumbering changes nothing that does not look at phases. -/
theorem map_renumberPhases (view : TransferTask → α) (blind : ∀ task phase, view (task.setPhase phase) = view task)
    (phases : Int → Int) (tasks : List TransferTask) : (renumberPhases phases tasks).map view = tasks.map view := by
  induction tasks generalizing phases with
  | nil => rfl
  | cons task rest ih =>
    simp only [renumberPhases]
    split
    · rw [List.map_cons, List.map_cons, ih, blind]
    · rw [List.map_cons, List.map_cons, ih]

theorem ReadBefore.map (view : TransferTask → TransferTask) (readBefore : ReadBefore before consumer)
    (reads : ∀ producer consumer, ReadsReduced producer consumer → ReadsReduced (view producer) (view consumer))
    (alike : ∀ first second, SameRead first second → SameRead (view first) (view second)) :
    ReadBefore (before.map view) (view consumer) := by
  obtain ⟨producer, first, found, readsFirst, same⟩ := readBefore
  exact ⟨view producer, view first, found.map view, reads _ _ readsFirst, alike _ _ same⟩

/-- Separation does not look at the phases of tasks. -/
theorem SeparatedFromFirst.renumber (separated : SeparatedFromFirst tasks) (phases : Int → Int) :
    SeparatedFromFirst (renumberPhases phases tasks) := by
  have same := map_renumberPhases (fun task => task.setPhase 0) (fun _ _ => rfl) phases tasks
  intro before producer middle consumer after split readsHere once
  rw [split, List.map_append, List.map_cons, List.map_append, List.map_cons] at same
  obtain ⟨before', rest, rfl, sameBefore, tail⟩ := List.map_eq_append_iff.mp same.symm
  obtain ⟨producer', rest, rfl, sameProducer, tail⟩ := List.map_eq_cons_iff.mp tail
  obtain ⟨middle', rest, rfl, sameMiddle, tail⟩ := List.map_eq_append_iff.mp tail
  obtain ⟨consumer', after', rfl, sameConsumer, _⟩ := List.map_eq_cons_iff.mp tail
  have reads' : ReadsReduced (producer'.setPhase 0) (consumer'.setPhase 0) := by
    rw [sameProducer, sameConsumer]
    exact readsHere
  have once' : ¬ReadBefore before' consumer' := fun readBefore => by
    have viewed := readBefore.map (fun task => task.setPhase 0) (fun _ _ reads => reads) (fun _ _ alike => alike)
    obtain ⟨earlier, first, found, readsFirst, alike⟩ := sameConsumer ▸ sameBefore ▸ viewed
    obtain ⟨originals, found, shape⟩ := List.sublist_map_iff.mp found
    obtain ⟨earlier', rest, rfl, rfl, tail⟩ := List.map_eq_cons_iff.mp shape.symm
    obtain ⟨first', rest, rfl, rfl, none⟩ := List.map_eq_cons_iff.mp tail
    obtain rfl := List.map_eq_nil_iff.mp none
    exact once ⟨earlier', first', found, readsFirst, alike⟩
  obtain ⟨barrier, member, isBarrier, here⟩ := separated before' producer' middle' consumer' after' rfl reads' once'
  have inMiddle : barrier.setPhase 0 ∈ middle.map fun task => task.setPhase 0 := sameMiddle ▸ List.mem_map_of_mem member
  obtain ⟨renumbered, inMiddle, viewed⟩ := List.mem_map.mp inMiddle
  have op := congrArg TransferTask.op viewed
  have executor := congrArg TransferTask.executorRank viewed
  have reader := congrArg TransferTask.executorRank sameConsumer
  exact ⟨renumbered, inMiddle, op.trans isBarrier, executor.trans (here.trans reader)⟩

theorem renumberPhases_phase (valid : 0 ≤ executor ∧ executor < 16) (phases : Int → Int) (tasks : List TransferTask)
    (index : Nat)
    (found : ((renumberPhases phases tasks).filter fun task => task.executorRank = executor)[index]? = some task) :
    task.phase = phases executor + index := by
  induction tasks generalizing phases index with
  | nil => cases found
  | cons first rest ih =>
    have limit : (kPlannerMaxRanks : Int) = 16 := rfl
    rw [renumberPhases] at found
    by_cases here : first.executorRank = executor
    · rw [if_pos (by omega), List.filter_cons_of_pos (by simp [here])] at found
      cases index with
      | zero =>
        obtain rfl := Option.some.inj found
        simp [TransferTask.setPhase, here]
      | succ index =>
        have later := ih _ index found
        rw [here, Function.update_self] at later
        push_cast
        omega
    · split at found
      · rw [List.filter_cons_of_neg (by simp [here])] at found
        have later := ih _ index found
        rwa [Function.update_of_ne (Ne.symm here)] at later
      · rw [List.filter_cons_of_neg (by simp [here])] at found
        exact ih phases index found

end Phases

section Insertion

/-- The pass over a list without barriers: it fails exactly when the barriers do not fit, and then nothing of it is
used; otherwise it puts in barriers only, numbers the tasks of each executor in order, and separates every copy from
every reduction before it, except where the executor reduced and copied the range before that reduction already. -/
theorem insertLocalReduceCopyBarriers_separates (plain : ∀ task ∈ tasks, task.op ≠ .barrier) (bounded : tasks.length ≤ cap) :
    (insertLocalReduceCopyBarriers cap tasks = none ↔ cap < (withBarriers [] tasks).length) ∧
      (∀ state : BuildState, coalesceAdjacentCopyTasksIntoFanout state.plan.tasks = tasks →
        insertLocalReduceCopyBarriers cap tasks = none → runAllreducePasses cap state = .error {}) ∧
      ∀ result, insertLocalReduceCopyBarriers cap tasks = some result →
        SeparatedFromFirst result ∧
        ((result.filter fun task => task.op ≠ .barrier).map fun task => task.setPhase 0) =
          (tasks.map fun task => task.setPhase 0) ∧
        ∀ executor, 0 ≤ executor ∧ executor < 16 → ∀ (index : Nat) (task : TransferTask),
          (result.filter fun task => task.executorRank = executor)[index]? = some task → task.phase = index := by
  have room : (insertBarriersFrom cap [] tasks).isSome = true ↔ _ :=
    insertBarriersFrom_isSome_iff (by simpa using bounded)
  rw [List.length_nil, Nat.zero_add] at room
  refine ⟨?_, fun state same failed => ?_, fun result inserted => ?_⟩
  · rw [insertLocalReduceCopyBarriers, Option.map_eq_none_iff, ← Nat.not_le, ← room]
    cases insertBarriersFrom cap [] tasks <;> simp
  · rw [runAllreducePasses, same, failed]
  · obtain ⟨whole, scanned, rfl⟩ := Option.map_eq_some_iff.mp inserted
    have filled := insertBarriersFrom_eq scanned
    rw [List.nil_append] at filled
    subst filled
    refine ⟨?_, ?_, fun executor valid index task found => ?_⟩
    · have separated := withBarriers_separated tasks [] plain (fun before barrier after none => by simp at none)
        (fun before producer middle consumer after none => by simp at none)
      exact separated.renumber _
    · have kept := map_renumberPhases (fun task => task.setPhase 0) (fun _ _ => rfl) (fun _ => 0) (withBarriers [] tasks)
      have erased := congrArg (List.filter fun task : TransferTask => task.op ≠ .barrier) kept
      rw [List.filter_map, List.filter_map] at erased
      refine erased.trans ?_
      congr 1
      exact withBarriers_filter plain []
    · have phase := renumberPhases_phase valid _ _ index found
      simpa using phase

/-- A range of 16 bytes that executor 0 reduces and copies twice. -/
def rewrittenRange : List TransferTask :=
  let reduce : TransferTask := { op := .reduce, executorRank := 0, dst := rankBufferRef 0, bytes := 16 }
  let copy : TransferTask := { op := .copy, executorRank := 0, src := rankBufferRef 0, bytes := 16 }
  [reduce, copy, reduce, copy]

theorem insertLocalReduceCopyBarriers_separates_rewritten :
    ∃ result, insertLocalReduceCopyBarriers 8 rewrittenRange = some result ∧ SeparatedFromFirst result := by
  have spec := @insertLocalReduceCopyBarriers_separates rewrittenRange 8 (by decide) (by decide)
  obtain ⟨result, inserted⟩ : ∃ result, insertLocalReduceCopyBarriers 8 rewrittenRange = some result := ⟨_, rfl⟩
  exact ⟨result, inserted, (spec.2.2 result inserted).1⟩

/-- The barrier before the first copy passes for one before the second, and its phase is its place among the tasks. -/
theorem rewrittenRange_unseparated :
    ∃ result, insertLocalReduceCopyBarriers 8 rewrittenRange = some result ∧ ¬Separated result ∧
      ((result.filter fun task => task.op = .barrier).map TransferTask.phase) = [1] := by
  refine ⟨_, rfl, fun separated => ?_, rfl⟩
  obtain ⟨barrier, member, _⟩ := separated [_, _, _] _ [] _ [] rfl ⟨rfl, by decide, rfl, rfl⟩
  cases member

end Insertion

end Ooverlap.Plan.AllReduce
