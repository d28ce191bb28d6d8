import Ooverlap.Semantics.AllReduce

/-! The bytes a task touches, and why tasks on disjoint bytes commute. -/

namespace Ooverlap.Semantics

open Ooverlap.Plan Ooverlap.Plan.AllReduce Ooverlap.Interleaving

/-- A byte of a buffer among the `bytes` bytes that start at a reference. -/
def touches (ref : LogicalBufferRef) (bytes : Nat) (buffer : BufferId) (byte : Nat) : Prop :=
  bufferOf ref = buffer ∧ ref.byteOffset ≤ byte ∧ byte < ref.byteOffset + bytes

def writesByte (task : TransferTask) (buffer : BufferId) (byte : Nat) : Prop :=
  movesData task ∧ ∃ dst ∈ destinationRefs task, touches dst task.bytes buffer byte

def readsByte (task : TransferTask) (buffer : BufferId) (byte : Nat) : Prop :=
  movesData task ∧ touches task.src task.bytes buffer byte

/-- A task reads its source; it may also read back what it writes, as reductions do. -/
def accessesByte (task : TransferTask) (buffer : BufferId) (byte : Nat) : Prop :=
  readsByte task buffer byte ∨ writesByte task buffer byte

/-- Neither task writes a byte that the other one touches. -/
def NoConflict (task other : TransferTask) : Prop :=
  ∀ buffer byte, ¬(writesByte task buffer byte ∧ accessesByte other buffer byte) ∧
    ¬(writesByte other buffer byte ∧ accessesByte task buffer byte)

theorem NoConflict.symm (free : NoConflict task other) : NoConflict other task :=
  fun buffer byte => (free buffer byte).symm

/-- No rank is ever about to touch a byte that another rank is about to write. -/
def RaceFree (dtypeSize : Nat) (plan : TransferPlan) : Prop :=
  ∀ (M : Type) [AddCommMonoid M] (mem : BufferId → Nat → M) (state : State Int (Shared M)),
    (planProgram dtypeSize plan).Reachable (entryState mem) state →
    ∀ first second, first ≠ second → ∀ task other,
      (rankTasks plan first)[state.pc first]? = some task →
      (rankTasks plan second)[state.pc second]? = some other → NoConflict task other

/-- All references of a task start at whole elements. -/
structure Aligned (dtypeSize : Nat) (task : TransferTask) : Prop where
  source : movesData task → dtypeSize ∣ task.src.byteOffset
  destinations : movesData task → ∀ dst ∈ destinationRefs task, dtypeSize ∣ dst.byteOffset

section Data

variable {M : Type} [AddCommMonoid M] {dtypeSize : Nat}

theorem quiet_noConflict (quiet : ¬movesData task) (other : TransferTask) : NoConflict task other := by
  intro buffer byte
  constructor
  · exact fun both => quiet both.1.1
  · rintro ⟨_, ⟨moves, _⟩ | writes⟩
    · exact quiet moves
    · exact quiet writes.1

/-- The destination through which a task writes an element. -/
def target (dtypeSize : Nat) (task : TransferTask) (buffer : BufferId) (index : Nat) : Option LogicalBufferRef :=
  (destinationRefs task).find? fun dst => covered dtypeSize dst task.bytes buffer index

omit [AddCommMonoid M] in
theorem transferElements_eq (combine : M → M → M) (task : TransferTask) (mem : BufferId → Nat → M)
    (buffer : BufferId) (index : Nat) :
    transferElements dtypeSize combine task mem buffer index =
      match target dtypeSize task buffer index with
      | some dst => combine (mem buffer index) (mem (bufferOf task.src) (sourceElement dtypeSize task.src dst index))
      | none => mem buffer index := rfl

theorem target_touches (hit : target dtypeSize task buffer index = some dst) :
    dst ∈ destinationRefs task ∧ touches dst task.bytes buffer (index * dtypeSize) := by
  refine ⟨List.mem_of_find?_eq_some hit, ?_⟩
  have inside := List.find?_some hit
  simp only [covered, Bool.and_eq_true, beq_iff_eq, decide_eq_true_eq] at inside
  exact ⟨inside.1.1, inside.1.2, inside.2⟩

/-- The source element of a covered element lies among the source bytes. -/
theorem source_touches (positive : 0 < dtypeSize) (aligned : Aligned dtypeSize task) (moves : movesData task)
    (hit : target dtypeSize task buffer index = some dst) :
    touches task.src task.bytes (bufferOf task.src) (sourceElement dtypeSize task.src dst index * dtypeSize) := by
  obtain ⟨member, _, lower, upper⟩ := target_touches hit
  obtain ⟨start, sourceStart⟩ := aligned.source moves
  obtain ⟨first, targetStart⟩ := aligned.destinations moves dst member
  have whole : task.src.byteOffset + (index * dtypeSize - dst.byteOffset) = (start + (index - first)) * dtypeSize := by
    rw [sourceStart, targetStart, Nat.mul_comm index, ← Nat.mul_sub, ← Nat.mul_add, Nat.mul_comm]
  have element : sourceElement dtypeSize task.src dst index * dtypeSize =
      task.src.byteOffset + (index * dtypeSize - dst.byteOffset) := by
    rw [sourceElement, whole, Nat.mul_div_cancel _ positive]
  refine ⟨rfl, ?_, ?_⟩ <;> rw [element] <;> omega

theorem taskEffect_unwritten (untouched : ¬writesByte task buffer (index * dtypeSize)) (shared : Shared M) :
    (taskEffect dtypeSize task shared).mem buffer index = shared.mem buffer index := by
  have missed : ∀ combine : M → M → M, movesData task →
      transferElements dtypeSize combine task shared.mem buffer index = shared.mem buffer index := by
    intro combine moves
    cases hit : target dtypeSize task buffer index with
    | none => rw [transferElements_eq, hit]
    | some dst => exact absurd ⟨moves, dst, target_touches hit⟩ untouched
  unfold taskEffect
  split
  case h_1 op => exact missed (fun _ new => new) (Or.inl op)
  case h_2 op => exact missed (fun _ new => new) (Or.inr (Or.inl op))
  case h_3 op => exact missed (· + ·) (Or.inr (Or.inr (Or.inl op)))
  case h_4 op => exact missed (· + ·) (Or.inr (Or.inr (Or.inr op)))
  all_goals rfl

/-- What a task leaves in a written element depends on that element and its source alone. -/
theorem taskEffect_local (hit : target dtypeSize task buffer index = some dst) {left right : Shared M}
    (sameTarget : left.mem buffer index = right.mem buffer index)
    (sameSource : left.mem (bufferOf task.src) (sourceElement dtypeSize task.src dst index) =
      right.mem (bufferOf task.src) (sourceElement dtypeSize task.src dst index)) :
    (taskEffect dtypeSize task left).mem buffer index = (taskEffect dtypeSize task right).mem buffer index := by
  have same : ∀ combine : M → M → M, transferElements dtypeSize combine task left.mem buffer index =
      transferElements dtypeSize combine task right.mem buffer index := fun combine => by
    simp only [transferElements_eq, hit, sameTarget, sameSource]
  unfold taskEffect
  split
  case h_1 => exact same fun _ new => new
  case h_2 => exact same fun _ new => new
  case h_3 => exact same (· + ·)
  case h_4 => exact same (· + ·)
  all_goals exact sameTarget

theorem quiet_mem (quiet : ¬movesData task) (shared : Shared M) : (taskEffect dtypeSize task shared).mem = shared.mem := by
  funext buffer index
  exact taskEffect_unwritten (fun writes => quiet writes.1) shared

/-- A task's writes and the effect of a task that does not conflict with it. -/
private theorem commute_written (positive : 0 < dtypeSize) (aligned : Aligned dtypeSize task)
    (free : NoConflict task other) (writes : writesByte task buffer (index * dtypeSize)) (shared : Shared M) :
    (taskEffect dtypeSize task (taskEffect dtypeSize other shared)).mem buffer index =
      (taskEffect dtypeSize other (taskEffect dtypeSize task shared)).mem buffer index := by
  have untouched : ∀ before : Shared M, (taskEffect dtypeSize other before).mem buffer index = before.mem buffer index :=
    taskEffect_unwritten fun otherWrites =>
      (free buffer (index * dtypeSize)).1 ⟨writes, Or.inr otherWrites⟩
  rw [untouched]
  cases hit : target dtypeSize task buffer index with
  | none =>
    obtain ⟨_, dst, member, same, lower, upper⟩ := writes
    have absent := List.find?_eq_none.mp hit dst member
    simp [covered, same, lower, upper] at absent
  | some dst =>
    refine taskEffect_local hit (untouched shared) (taskEffect_unwritten (fun otherWrites => ?_) shared)
    exact (free _ _).2 ⟨otherWrites, Or.inl ⟨writes.1, source_touches positive aligned writes.1 hit⟩⟩

theorem taskEffect_published (task : TransferTask) (shared : Shared M) :
    (taskEffect dtypeSize task shared).published =
      if task.op = .readyPublish then
        publishPhase task.readyRank task.readyChannel task.readyPhase shared.published
      else shared.published := by
  cases op : task.op <;> simp [taskEffect, op]

theorem publishPhase_comm (rank channel phase other otherChannel otherPhase : Int) (published : Int → Int → Int) :
    publishPhase rank channel phase (publishPhase other otherChannel otherPhase published) =
      publishPhase other otherChannel otherPhase (publishPhase rank channel phase published) := by
  funext owner line
  simp only [publishPhase, Function.update_apply]
  grind

/-- Tasks that touch disjoint bytes commute. -/
theorem taskEffect_comm (positive : 0 < dtypeSize) (aligned : Aligned dtypeSize task)
    (alignedOther : Aligned dtypeSize other) (free : NoConflict task other) (shared : Shared M) :
    taskEffect dtypeSize task (taskEffect dtypeSize other shared) =
      taskEffect dtypeSize other (taskEffect dtypeSize task shared) := by
  have sameMemory : (taskEffect dtypeSize task (taskEffect dtypeSize other shared)).mem =
      (taskEffect dtypeSize other (taskEffect dtypeSize task shared)).mem := by
    funext buffer index
    by_cases writes : writesByte task buffer (index * dtypeSize)
    · exact commute_written positive aligned free writes shared
    · by_cases otherWrites : writesByte other buffer (index * dtypeSize)
      · exact (commute_written positive alignedOther free.symm otherWrites shared).symm
      · simp only [taskEffect_unwritten writes, taskEffect_unwritten otherWrites]
  have samePhases : (taskEffect dtypeSize task (taskEffect dtypeSize other shared)).published =
      (taskEffect dtypeSize other (taskEffect dtypeSize task shared)).published := by
    simp only [taskEffect_published]
    by_cases publishes : task.op = .readyPublish <;> by_cases otherPublishes : other.op = .readyPublish
    · simp only [publishes, otherPublishes, if_true]
      exact publishPhase_comm ..
    all_goals simp only [publishes, otherPublishes, if_true, if_false]
  calc
    _ = (⟨_, _⟩ : Shared M) := congrArg₂ Shared.mk sameMemory samePhases
    _ = _ := rfl

end Data

end Ooverlap.Semantics
