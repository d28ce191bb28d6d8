import Ooverlap.Plan.StagedListing
import Ooverlap.Semantics.DirectPlan

/-! What the staged plans share: task lists by island, signals, and the buffers they touch. -/

namespace Ooverlap.Semantics

open Ooverlap.Plan Ooverlap.Plan.AllReduce Ooverlap.Interleaving

section Lists

/-- Among blocks of disjoint groups of executors a rank finds its tasks in the block of its group. -/
theorem filter_home (items : List Int) (distinct : items.Nodup) (home : Int → Int) (block : Int → List TransferTask)
    (homes : ∀ item ∈ items, ∀ task ∈ block item, home task.executorRank = item) (inItems : home rank ∈ items) :
    (items.flatMap block).filter (fun task => task.executorRank = rank) =
      (block (home rank)).filter fun task => task.executorRank = rank := by
  induction items with
  | nil => cases inItems
  | cons item rest ih =>
    obtain ⟨fresh, distinctRest⟩ := List.nodup_cons.mp distinct
    have later := fun inRest => ih distinctRest (fun other member => homes other (List.mem_cons_of_mem _ member)) inRest
    rw [List.flatMap_cons, List.filter_append]
    by_cases here : home rank = item
    · have none : (rest.flatMap block).filter (fun task => task.executorRank = rank) = [] := by
        refine List.filter_eq_nil_iff.mpr fun task member own => ?_
        obtain ⟨other, inRest, inBlock⟩ := List.mem_flatMap.mp member
        have same := homes other (List.mem_cons_of_mem _ inRest) task inBlock
        rw [of_decide_eq_true own, here] at same
        exact fresh (same ▸ inRest)
      rw [none, List.append_nil, here]
    · have none : (block item).filter (fun task => task.executorRank = rank) = [] := by
        refine List.filter_eq_nil_iff.mpr fun task member own => here ?_
        rw [← homes item (List.mem_cons_self ..) task member, of_decide_eq_true own]
      rw [none, List.nil_append, later ((List.mem_cons.mp inItems).resolve_left here)]

/-- Tasks of one executor. -/
theorem filter_uniform (uniform : ∀ task ∈ tasks, task.executorRank = owner) (rank : Int) :
    tasks.filter (fun task : TransferTask => task.executorRank = rank) = if rank = owner then tasks else [] := by
  split
  · rename_i same
    exact List.filter_eq_self.mpr fun task member => by simpa [same] using uniform task member
  · rename_i apart
    refine List.filter_eq_nil_iff.mpr fun task member own => apart ?_
    rw [← of_decide_eq_true own, uniform task member]

theorem flatMap_filter (items : List α) (keep : α → Bool) (block : α → List β) :
    (items.filter keep).flatMap block = items.flatMap fun item => if keep item then block item else [] := by
  induction items with
  | nil => rfl
  | cons item rest ih =>
    rw [List.flatMap_cons]
    cases kept : keep item with
    | true => rw [List.filter_cons_of_pos kept, List.flatMap_cons, ih, if_pos rfl]
    | false => rw [List.filter_cons_of_neg (by simp [kept]), ih, if_neg (by simp), List.nil_append]

theorem flatMap_intRange (bound : Int) (block : Int → List α) :
    (intRange bound).flatMap block = (List.range bound.toNat).flatMap fun index : Nat => block index := by
  rw [intRange, List.flatMap_map]
  rfl

/-- Blocks for all islands but one, as blocks for all islands of which one is empty. -/
theorem flatMap_peersOf (rank bound : Int) (block : Int → List α) :
    (peersOf rank bound).flatMap block =
      (List.range bound.toNat).flatMap fun index : Nat => if (index : Int) = rank then [] else block index := by
  rw [peersOf, flatMap_filter, flatMap_intRange]
  refine List.flatMap_congr fun index _ => ?_
  by_cases same : (index : Int) = rank <;> simp [same]

theorem peersOf_succ (rank : Int) (bound : Nat) :
    peersOf rank (bound + 1 : Nat) = peersOf rank bound ++ if (bound : Int) = rank then [] else [(bound : Int)] := by
  simp only [peersOf, intRange, Int.toNat_natCast, List.range_succ, List.map_append, List.filter_append]
  by_cases same : (bound : Int) = rank <;> simp [same]

theorem upTo_add (staged : Staged Int TransferTask) (first more : Nat) (rank : Int) :
    staged.upTo (first + more) rank =
      staged.upTo first rank ++ (List.range more).flatMap fun index => staged.stage (index + first) rank := by
  rw [Staged.upTo, List.range_add, List.flatMap_append, List.flatMap_map]
  simp only [Nat.add_comm first]
  rfl

end Lists

section Signals

variable {input : TransferPlanBuildInput}

/-- Whoever a publish is meant for finds it on the channel where it waits. -/
theorem mem_publishTasks (listed : waiter ∈ listeners input publisher waiters) (phase : Int) :
    makeReadyPublishTransferTask publisher (chooseReadySignalChannel input.topo waiter publisher) 0 phase ∈
      publishTasks input publisher (listeners input publisher waiters) phase :=
  List.mem_map_of_mem (mem_publishChannels input.topo publisher listed)

theorem mem_listeners (inRange : waiter ∈ intRange input.worldSize) (apart : waiter ≠ publisher)
    (listed : waiter ∈ waiters) : waiter ∈ listeners input publisher waiters := by
  have bounds := mem_intRange.mp inRange
  refine List.mem_filter.mpr ⟨listed, ?_⟩
  simp [validRank, bounds, apart]

theorem publishTasks_facts (member : task ∈ publishTasks input publisher waiters phase) :
    task.op = .readyPublish ∧ task.executorRank = publisher ∧ task.readyRank = publisher ∧ task.readyPhase = phase := by
  obtain ⟨_, _, rfl⟩ := List.mem_map.mp member
  exact ⟨rfl, rfl, rfl, rfl⟩

theorem entryPublishes_facts (member : task ∈ entryPublishes input rank) :
    task.op = .readyPublish ∧ task.executorRank = rank ∧ task.readyRank = rank ∧ task.readyPhase = 0 :=
  publishTasks_facts member

theorem mem_entryPublishes (isPeer : peer ∈ peersOf rank input.worldSize) :
    makeReadyPublishTransferTask rank (chooseReadySignalChannel input.topo peer rank) 0 0 ∈ entryPublishes input rank :=
  List.mem_map_of_mem (mem_publishChannels input.topo rank isPeer)

end Signals

section Executors

variable {input : TransferPlanBuildInput} {transports : TransportMatrix} {islands : IslandPlan} {rank : Int}

theorem islandReductions_executor (island leader : Int) :
    ∀ task ∈ ReduceScatter.islandReductions input transports islands island leader, task.executorRank = leader := by
  intro task member
  obtain ⟨_, _, rfl⟩ := List.mem_map.mp member
  exact reduceTask_executorRank ..

theorem publishes_executor : ∀ task ∈ publishTasks input leader waiters phase, task.executorRank = leader :=
  fun _ member => (publishTasks_facts member).2.1

/-- A list one leader executes, as the tasks of whoever leads. -/
theorem filter_leads (island : Int) (tasks : Int → List TransferTask)
    (uniform : ∀ leader, ∀ task ∈ tasks leader, task.executorRank = leader)
    (same : island = islands.islandOfRank rank) :
    (tasks (islands.leaderRank island)).filter (fun task => task.executorRank = rank) =
      if Leads islands rank then tasks rank else [] := by
  rw [filter_uniform (uniform _), same]
  by_cases leads : Leads islands rank
  · rw [if_pos leads, if_pos leads.symm, leads]
  · rw [if_neg leads, if_neg fun eq => leads eq.symm]

end Executors

section Buffers

def inputBuffer (rank : Int) : BufferId :=
  bufferOf (rankInputRef rank)

def stagingBuffer (slot : Int) : BufferId :=
  bufferOf (shmStagingRef slot)

theorem stagingBuffer_inj : stagingBuffer left = stagingBuffer right ↔ left = right := by
  simp [stagingBuffer, bufferOf, shmStagingRef]

theorem rankBuffer_ne_staging (rank slot : Int) : rankBuffer rank ≠ stagingBuffer slot := by
  simp [rankBuffer, stagingBuffer, bufferOf, shmStagingRef, rankBufferRef]

theorem rankBuffer_ne_input (rank other : Int) : rankBuffer rank ≠ inputBuffer other := by
  simp [rankBuffer, inputBuffer, bufferOf, rankInputRef, rankBufferRef]

theorem stagingBuffer_ne_input (slot rank : Int) : stagingBuffer slot ≠ inputBuffer rank := by
  simp [inputBuffer, stagingBuffer, bufferOf, shmStagingRef, rankInputRef]

/-- A byte of a rank's slice. -/
def inSliceOf (input : TransferPlanBuildInput) (rank : Int) (byte : Nat) : Prop :=
  sliceBeginBytes input rank ≤ byte ∧ byte < sliceBeginBytes input rank + sliceBytes input rank

variable {input : TransferPlanBuildInput}

/-- The bytes a task with one destination touches. -/
theorem copyTask_accesses
    (accessed : accessesByte (copyTask input executorRank srcRank dstRank src dst bytes numWindows transport) buffer byte) :
    buffer = bufferOf src ∧ (src.byteOffset ≤ byte ∧ byte < src.byteOffset + bytes) ∨
      buffer = bufferOf dst ∧ (dst.byteOffset ≤ byte ∧ byte < dst.byteOffset + bytes) := by
  rcases accessed with ⟨_, same, inside⟩ | ⟨_, ref, member, same, inside⟩
  · exact Or.inl ⟨same.symm, inside⟩
  · have isDst : ref = dst := List.mem_singleton.mp member
    subst isDst
    exact Or.inr ⟨same.symm, inside⟩

theorem copyTask_writes
    (written : writesByte (copyTask input executorRank srcRank dstRank src dst bytes numWindows transport) buffer byte) :
    buffer = bufferOf dst ∧ (dst.byteOffset ≤ byte ∧ byte < dst.byteOffset + bytes) := by
  obtain ⟨_, ref, member, same, inside⟩ := written
  have isDst : ref = dst := List.mem_singleton.mp member
  subst isDst
  exact ⟨same.symm, inside⟩

theorem reduceTask_destinations :
    destinationRefs (reduceTask input executorRank srcRank dstRank src dst bytes numWindows transport) = [dst] := by
  simp [destinationRefs]

theorem reduceTask_accesses
    (accessed : accessesByte (reduceTask input executorRank srcRank dstRank src dst bytes numWindows transport) buffer byte) :
    buffer = bufferOf src ∧ (src.byteOffset ≤ byte ∧ byte < src.byteOffset + bytes) ∨
      buffer = bufferOf dst ∧ (dst.byteOffset ≤ byte ∧ byte < dst.byteOffset + bytes) := by
  rcases accessed with ⟨_, same, inside⟩ | ⟨_, ref, member, same, inside⟩
  · simp only [reduceTask_src, reduceTask_bytes] at same inside
    exact Or.inl ⟨same.symm, inside⟩
  · rw [reduceTask_destinations] at member
    have isDst : ref = dst := List.mem_singleton.mp member
    subst isDst
    rw [reduceTask_bytes] at inside
    exact Or.inr ⟨same.symm, inside⟩

theorem reduceTask_writes
    (written : writesByte (reduceTask input executorRank srcRank dstRank src dst bytes numWindows transport) buffer byte) :
    buffer = bufferOf dst ∧ (dst.byteOffset ≤ byte ∧ byte < dst.byteOffset + bytes) := by
  obtain ⟨_, ref, member, same, inside⟩ := written
  rw [reduceTask_destinations] at member
  have isDst : ref = dst := List.mem_singleton.mp member
  subst isDst
  rw [reduceTask_bytes] at inside
  exact ⟨same.symm, inside⟩

/-- Staging slots are read only once their data is there, and are not written while anyone may still read them. -/
def StagingSettled (dtypeSize : Nat) (plan : TransferPlan) : Prop :=
  ReadsSettled dtypeSize plan fun _ buffer _ => ∃ slot, buffer = stagingBuffer slot

end Buffers

end Ooverlap.Semantics
