import Ooverlap.Semantics.Footprint

/-! One element of the tensor in all buffers at once, and what tasks do to it. -/

namespace Ooverlap.Semantics

open Ooverlap.Plan Ooverlap.Plan.AllReduce Ooverlap.Interleaving

section Effects

variable {M : Type} [AddCommMonoid M]

/-- What a task that acts on an element does to it in every buffer. -/
def bufferEffect (task : TransferTask) (values : BufferId → M) : BufferId → M := fun buffer =>
  if buffer ∈ (destinationRefs task).map bufferOf then
    match task.op with
    | .copy | .copyFanout => values (bufferOf task.src)
    | .reduce | .reduceFanout => values buffer + values (bufferOf task.src)
    | _ => values buffer
  else values buffer

/-- A list of tasks acting on an element one after the other. -/
def runBuffers (tasks : List TransferTask) (values : BufferId → M) : BufferId → M :=
  tasks.foldl (fun seen task => bufferEffect task seen) values

theorem runBuffers_single (task : TransferTask) (values : BufferId → M) :
    runBuffers [task] values = bufferEffect task values := rfl

theorem runBuffers_append (left right : List TransferTask) (values : BufferId → M) :
    runBuffers (left ++ right) values = runBuffers right (runBuffers left values) :=
  List.foldl_append

theorem bufferEffect_quiet (quiet : ¬movesData task) (values : BufferId → M) : bufferEffect task values = values := by
  funext buffer
  simp only [movesData, not_or] at quiet
  unfold bufferEffect
  cases op : task.op <;> simp_all

theorem runBuffers_quiet (quiet : ∀ task ∈ tasks, ¬movesData task) (values : BufferId → M) :
    runBuffers tasks values = values := by
  induction tasks with
  | nil => rfl
  | cons task rest ih =>
    change runBuffers rest (bufferEffect task values) = values
    rw [bufferEffect_quiet (quiet task (List.mem_cons_self ..))]
    exact ih fun other member => quiet other (List.mem_cons_of_mem _ member)

/-- Only the tasks that move data matter. -/
theorem runBuffers_filter (keep : TransferTask → Bool) (quiet : ∀ task ∈ tasks, keep task = false → ¬movesData task)
    (values : BufferId → M) : runBuffers (tasks.filter keep) values = runBuffers tasks values := by
  induction tasks generalizing values with
  | nil => rfl
  | cons task rest ih =>
    have later := ih fun other member => quiet other (List.mem_cons_of_mem _ member)
    change _ = runBuffers rest (bufferEffect task values)
    cases kept : keep task with
    | true =>
      rw [List.filter_cons_of_pos kept, ← later]
      rfl
    | false =>
      rw [List.filter_cons_of_neg (by simp [kept]), later,
        bufferEffect_quiet (quiet task (List.mem_cons_self ..) kept)]

theorem bufferEffect_copy (copies : task.op = .copy) (values : BufferId → M) :
    bufferEffect task values = Function.update values (bufferOf task.dst) (values (bufferOf task.src)) := by
  funext buffer
  simp [bufferEffect, destinationRefs, copies, Function.update_apply]

theorem bufferEffect_reduce (reduces : task.op = .reduce) (values : BufferId → M) :
    bufferEffect task values =
      Function.update values (bufferOf task.dst) (values (bufferOf task.dst) + values (bufferOf task.src)) := by
  funext buffer
  by_cases here : buffer = bufferOf task.dst
  · subst here
    simp [bufferEffect, destinationRefs, reduces]
  · simp [bufferEffect, destinationRefs, reduces, here]

/-- Tasks leave a buffer alone that none of them writes. -/
theorem runBuffers_unwritten (unwritten : ∀ task ∈ tasks, buffer ∉ (destinationRefs task).map bufferOf)
    (values : BufferId → M) : runBuffers tasks values buffer = values buffer := by
  induction tasks generalizing values with
  | nil => rfl
  | cons task rest ih =>
    change runBuffers rest (bufferEffect task values) buffer = values buffer
    rw [ih fun other member => unwritten other (List.mem_cons_of_mem _ member)]
    exact if_neg (unwritten task (List.mem_cons_self ..))

/-- Tasks that read only some buffers do the same wherever those buffers agree. -/
theorem runBuffers_congr (visible : BufferId → Prop) (reads : ∀ task ∈ tasks, visible (bufferOf task.src))
    {values others : BufferId → M} (agree : ∀ buffer, visible buffer → values buffer = others buffer)
    (buffer : BufferId) (here : visible buffer) : runBuffers tasks values buffer = runBuffers tasks others buffer := by
  induction tasks generalizing values others with
  | nil => exact agree buffer here
  | cons task rest ih =>
    refine ih (fun other member => reads other (List.mem_cons_of_mem _ member)) fun seen isVisible => ?_
    simp only [bufferEffect, agree seen isVisible, agree _ (reads task (List.mem_cons_self ..))]

/-- Reductions into one buffer add up what their sources hold. -/
theorem runBuffers_reduces (items : List Int) (task : Int → TransferTask) (source : Int → BufferId)
    (reduces : ∀ item ∈ items, (task item).op = .reduce) (into : ∀ item ∈ items, bufferOf (task item).dst = buffer)
    (reads : ∀ item ∈ items, bufferOf (task item).src = source item) (apart : ∀ item ∈ items, source item ≠ buffer)
    (values : BufferId → M) :
    runBuffers (items.map task) values buffer =
      values buffer + (items.map fun item => values (source item)).sum := by
  induction items generalizing values with
  | nil => simp [runBuffers]
  | cons item rest ih =>
    have here : item ∈ item :: rest := List.mem_cons_self ..
    have later : ∀ other ∈ rest, other ∈ item :: rest := fun other member => List.mem_cons_of_mem _ member
    rw [List.map_cons, List.map_cons, List.sum_cons, ← add_assoc]
    change runBuffers _ (bufferEffect _ values) _ = _
    rw [ih (fun other member => reduces other (later other member)) (fun other member => into other (later other member))
      (fun other member => reads other (later other member)) (fun other member => apart other (later other member)),
      bufferEffect_reduce (reduces item here), into item here, reads item here, Function.update_self]
    congr 2
    exact List.map_congr_left fun other member => Function.update_of_ne (apart other (later other member)) _ _

/-- Blocks that write a buffer each, and read none that another block writes, act independently. -/
theorem runBuffers_flatMap (items : List Int) (distinct : items.Nodup) (block : Int → List TransferTask)
    (written : Int → BufferId) (apart : ∀ item ∈ items, ∀ other ∈ items, item ≠ other → written item ≠ written other)
    (writes : ∀ item ∈ items, ∀ task ∈ block item, (destinationRefs task).map bufferOf ⊆ [written item])
    (reads : ∀ item ∈ items, ∀ task ∈ block item, ∀ other ∈ items, other ≠ item → block other ≠ [] →
      bufferOf task.src ≠ written other)
    (values : BufferId → M) :
    (∀ item ∈ items, runBuffers (items.flatMap block) values (written item) =
      runBuffers (block item) values (written item)) ∧
    ∀ buffer, (∀ item ∈ items, block item ≠ [] → buffer ≠ written item) →
      runBuffers (items.flatMap block) values buffer = values buffer := by
  induction items generalizing values with
  | nil => exact ⟨by simp, fun _ _ => rfl⟩
  | cons first rest ih =>
    obtain ⟨fresh, distinctRest⟩ := List.nodup_cons.mp distinct
    have inRest : ∀ item ∈ rest, item ∈ first :: rest := fun item member => List.mem_cons_of_mem _ member
    have here : first ∈ first :: rest := List.mem_cons_self ..
    obtain ⟨later, others⟩ := ih distinctRest
      (fun item member other otherMember => apart item (inRest item member) other (inRest other otherMember))
      (fun item member => writes item (inRest item member))
      (fun item member task inBlock other otherMember => reads item (inRest item member) task inBlock other
        (inRest other otherMember))
      (runBuffers (block first) values)
    have elsewhere : ∀ buffer, (block first ≠ [] → buffer ≠ written first) →
        runBuffers (block first) values buffer = values buffer := by
      intro buffer differs
      refine runBuffers_unwritten (fun task inBlock reached => ?_) values
      exact differs (List.ne_nil_of_mem inBlock) (List.mem_singleton.mp (writes first here task inBlock reached))
    rw [List.flatMap_cons]
    simp only [runBuffers_append]
    refine ⟨fun item member => ?_, fun buffer untouched => ?_⟩
    · rcases List.mem_cons.mp member with rfl | member
      · refine others _ fun other otherMember _ same => ?_
        exact apart item here other (inRest other otherMember) (fun eq => fresh (eq ▸ otherMember)) same
      · rw [later item member]
        have differs : item ≠ first := fun eq => fresh (eq ▸ member)
        refine runBuffers_congr (fun buffer => block first ≠ [] → buffer ≠ written first)
          (fun task inBlock => reads item (inRest item member) task inBlock first here differs.symm)
          (fun buffer seen => elsewhere buffer seen) _ fun _ => ?_
        exact apart item (inRest item member) first here differs
    · rw [others buffer fun item member => untouched item (inRest item member)]
      exact elsewhere buffer (untouched first here)

end Effects

section Columns

variable {M : Type} [AddCommMonoid M] {dtypeSize index : Nat} {shift : BufferId → Nat}

/-- One element of the tensor in every buffer; a buffer that starts `shift` elements into the
tensor holds it that much earlier, or not at all. -/
def columnOf (shift : BufferId → Nat) (index : Nat) (shared : Shared M) : BufferId → M := fun buffer =>
  if shift buffer ≤ index then shared.mem buffer (index - shift buffer) else 0

/-- Where in the tensor the data of a task starts, in bytes. -/
def taskStart (dtypeSize : Nat) (shift : BufferId → Nat) (task : TransferTask) : Nat :=
  task.src.byteOffset + shift (bufferOf task.src) * dtypeSize

/-- A task that moves data between the same places of the tensor. -/
def Level (dtypeSize : Nat) (shift : BufferId → Nat) (task : TransferTask) : Prop :=
  movesData task → ∀ dst ∈ destinationRefs task,
    dst.byteOffset + shift (bufferOf dst) * dtypeSize = taskStart dtypeSize shift task

def actsOn (dtypeSize : Nat) (shift : BufferId → Nat) (index : Nat) (task : TransferTask) : Prop :=
  InSlice dtypeSize (taskStart dtypeSize shift task) task.bytes index

instance (task : TransferTask) : Decidable (actsOn dtypeSize shift index task) :=
  inferInstanceAs (Decidable (_ ∧ _))

theorem columnOf_acted (positive : 0 < dtypeSize) (level : Level dtypeSize shift task)
    (acts : actsOn dtypeSize shift index task) (shared : Shared M) :
    columnOf shift index (taskEffect dtypeSize task shared) = bufferEffect task (columnOf shift index shared) := by
  by_cases moves : movesData task
  · obtain ⟨lower, upper⟩ := acts
    have lined := level moves
    unfold taskStart at lower upper lined
    funext buffer
    by_cases reached : buffer ∈ (destinationRefs task).map bufferOf
    · obtain ⟨dst, member, same⟩ := List.mem_map.mp reached
      have placed := lined dst member
      rw [same] at placed
      have sourceLow : shift (bufferOf task.src) ≤ index := by
        refine (Nat.mul_le_mul_right_iff positive).mp ?_
        omega
      have targetLow : shift buffer ≤ index := by
        refine (Nat.mul_le_mul_right_iff positive).mp ?_
        omega
      have element : (index - shift buffer) * dtypeSize = index * dtypeSize - shift buffer * dtypeSize := Nat.sub_mul ..
      have sourceAt : (index - shift (bufferOf task.src)) * dtypeSize =
          index * dtypeSize - shift (bufferOf task.src) * dtypeSize := Nat.sub_mul ..
      have grown := Nat.mul_le_mul_right dtypeSize targetLow
      cases hit : target dtypeSize task buffer (index - shift buffer) with
      | none =>
        have absent := List.find?_eq_none.mp hit dst member
        simp only [covered, same, beq_self_eq_true, Bool.true_and, Bool.and_eq_true, decide_eq_true_eq, element] at absent
        omega
      | some found =>
        obtain ⟨foundMember, foundSame, foundLow, foundHigh⟩ := target_touches hit
        have foundPlaced := lined found foundMember
        rw [foundSame] at foundPlaced
        have source : sourceElement dtypeSize task.src found (index - shift buffer) =
            index - shift (bufferOf task.src) := by
          have total : task.src.byteOffset + ((index - shift buffer) * dtypeSize - found.byteOffset) =
              (index - shift (bufferOf task.src)) * dtypeSize := by
            rw [element] at foundLow ⊢
            rw [sourceAt]
            omega
          rw [sourceElement, total, Nat.mul_div_cancel _ positive]
        have combined : ∀ combine : M → M → M,
            transferElements dtypeSize combine task shared.mem buffer (index - shift buffer) =
              combine (shared.mem buffer (index - shift buffer))
                (shared.mem (bufferOf task.src) (index - shift (bufferOf task.src))) := fun combine => by
          simp only [transferElements_eq, hit, source]
        rcases moves with op | op | op | op <;>
          simp [columnOf, bufferEffect, taskEffect, op, combined, reached, targetLow, sourceLow]
    · have unwritten : ¬writesByte task buffer ((index - shift buffer) * dtypeSize) := by
        rintro ⟨_, dst, member, same, _⟩
        exact reached (List.mem_map.mpr ⟨dst, member, same⟩)
      simp only [columnOf, bufferEffect, if_neg reached, taskEffect_unwritten unwritten]
  · rw [bufferEffect_quiet moves]
    funext buffer
    simp only [columnOf, quiet_mem moves]

theorem columnOf_idle (level : Level dtypeSize shift task) (idle : ¬actsOn dtypeSize shift index task)
    (shared : Shared M) :
    columnOf shift index (taskEffect dtypeSize task shared) = columnOf shift index shared := by
  funext buffer
  unfold columnOf
  split
  · rename_i low
    refine taskEffect_unwritten ?_ shared
    rintro ⟨moves, dst, member, same, lower, upper⟩
    have placed := level moves dst member
    rw [same] at placed
    have grown := Nat.mul_le_mul_right dtypeSize low
    rw [Nat.sub_mul] at lower upper
    refine idle ⟨?_, ?_⟩ <;> omega
  · rfl

/-- An element after a list of tasks: those that act on it, one after the other. -/
theorem columnOf_run {tasks : List TransferTask} (positive : 0 < dtypeSize) (level : ∀ task ∈ tasks, Level dtypeSize shift task) (shared : Shared M) :
    columnOf shift index (tasks.foldl (fun seen task => taskEffect dtypeSize task seen) shared) =
      runBuffers (tasks.filter fun task => actsOn dtypeSize shift index task) (columnOf shift index shared) := by
  induction tasks generalizing shared with
  | nil => rfl
  | cons task rest ih =>
    have here := level task (List.mem_cons_self ..)
    rw [List.foldl_cons, ih fun other member => level other (List.mem_cons_of_mem _ member)]
    by_cases acts : actsOn dtypeSize shift index task
    · rw [List.filter_cons_of_pos (by simpa using acts), columnOf_acted positive here acts]
      rfl
    · rw [List.filter_cons_of_neg (by simpa using acts), columnOf_idle here acts]

end Columns

end Ooverlap.Semantics
