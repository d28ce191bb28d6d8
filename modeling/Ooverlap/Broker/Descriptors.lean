import Ooverlap.Broker.Results

/-! The rounds of the broker that pass descriptors: every datagram of a call is consumed in that call. -/

namespace Ooverlap.Broker

open BrokerState

variable {world : LocalWorld} {call : Nat} {srcFd : Rank world → File}

/-- What a rank sends of its own. -/
def datagramOf (call : Nat) (srcFd : Rank world → File) (rank : Rank world) : Datagram :=
  { file := srcFd rank, payload := rank, call }

/-- Sources that rank 0 has still to forward to a destination. -/
def pending (destination : Rank world) (works : List (Work world)) : List (Rank world) :=
  works.filterMap fun
    | .forward _ source target => if target = destination then some source else none
    | _ => none

/-- The way up: every rank's descriptor is unsent, in flight or gathered. -/
structure Upward (call : Nat) (srcFd : Rank world → File) (left : Rank world → List (Work world))
    (shared : BrokerState world) (gathered : Finset (Rank world)) : Prop where
  counted : (left world.rank0).count (.gather call) + gathered.card + 1 = world.size
  notRoot : world.rank0 ∉ gathered
  held : .startGather call (srcFd world.rank0) ∉ left world.rank0 → ∀ source, source = world.rank0 ∨ source ∈ gathered →
    shared.gathered call source = some (srcFd source)
  unsent : ∀ source ≠ world.rank0, .sendFd call (srcFd source) world.rank0 ∈ left source →
    shared.inbox source world.rank0 = [] ∧ source ∉ gathered
  sent : ∀ source ≠ world.rank0, .sendFd call (srcFd source) world.rank0 ∉ left source →
    shared.inbox source world.rank0 = [datagramOf call srcFd source] ∧ source ∉ gathered ∨
      shared.inbox source world.rank0 = [] ∧ source ∈ gathered

/-- The way down: received, in flight and not yet forwarded make up what a destination is owed, in order. -/
structure Downward (call : Nat) (srcFd : Rank world → File) (left : Rank world → List (Work world))
    (shared : BrokerState world) (received queued : Rank world → List (Rank world)) : Prop where
  owed : ∀ destination ≠ world.rank0,
    received destination ++ queued destination ++ pending destination (left world.rank0) = world.others destination
  flying : ∀ destination ≠ world.rank0,
    shared.inbox world.rank0 destination = (queued destination).map (datagramOf call srcFd)
  counted : ∀ destination ≠ world.rank0,
    (left destination).count (.receive call) + (received destination).length + 1 = world.size
  kept : ∀ destination ≠ world.rank0, ∀ source ∈ received destination,
    shared.dstFds destination call source = some (srcFd source)

/-- What is already in its place. -/
structure Placed (call : Nat) (srcFd : Rank world → File) (left : Rank world → List (Work world))
    (shared : BrokerState world) : Prop where
  root : .keepGathered call ∉ left world.rank0 → ∀ source ≠ world.rank0,
    shared.dstFds world.rank0 call source = some (srcFd source)
  own : ∀ rank, .clearOwn call ∉ left rank → shared.dstFds rank call rank = none

/-- Nothing flies but between rank 0 and the others. -/
def Star (shared : BrokerState world) : Prop :=
  ∀ sender receiver, (sender = world.rank0 ↔ receiver = world.rank0) → shared.inbox sender receiver = []

/-- No call has failed, and every datagram was consumed by the call that sent it. -/
structure Sound (shared : BrokerState world) : Prop where
  quiet : ∀ rank, shared.thrown rank = none
  matched : ∀ rank, ∀ entry ∈ shared.consumed rank, entry.2.call = entry.1

structure Transfer (call : Nat) (srcFd : Rank world → File) (left : Rank world → List (Work world))
    (shared : BrokerState world) (gathered : Finset (Rank world)) (received queued : Rank world → List (Rank world)) :
    Prop where
  upward : Upward call srcFd left shared gathered
  downward : Downward call srcFd left shared received queued
  placed : Placed call srcFd left shared
  star : Star shared

def Transferring (call : Nat) (srcFd : Rank world → File) (left : Rank world → List (Work world))
    (shared : BrokerState world) : Prop :=
  ∃ gathered received queued, Transfer call srcFd left shared gathered received queued

section Lists

variable {Item : Type*}

/-- A suffix that starts outside the first part is one of the second. -/
theorem suffix_past {first second rest : List Item} (suffix : item :: rest <:+ first ++ second) (absent : item ∉ first) :
    item :: rest <:+ second := by
  induction first with
  | nil => exact suffix
  | cons head tail ih =>
    rcases List.suffix_cons_iff.mp suffix with whole | later
    · exact absurd (List.mem_cons.mpr (Or.inl (List.cons.inj whole).1)) absent
    · exact ih later fun member => absent (List.mem_cons_of_mem _ member)

/-- A suffix that starts with the head is everything. -/
theorem suffix_whole {tail rest : List Item} (suffix : item :: rest <:+ item :: tail) (once : item ∉ tail) :
    rest = tail := by
  rcases List.suffix_cons_iff.mp suffix with whole | later
  · exact (List.cons.inj whole).2
  · exact absurd (later.subset (List.mem_cons_self ..)) once

/-- Only one member contributes to a list put together from parts. -/
theorem flatMap_single {Part : Type*} [DecidableEq Item] (parts : Item → List Part) (items : List Item)
    (distinct : items.Nodup) (member : chosen ∈ items) :
    (items.flatMap fun item => if item = chosen then parts item else []) = parts chosen := by
  induction items with
  | nil => cases member
  | cons head tail ih =>
    obtain ⟨fresh, distinctTail⟩ := List.nodup_cons.mp distinct
    rw [List.flatMap_cons]
    rcases List.mem_cons.mp member with rfl | inTail
    · have none : (tail.flatMap fun item => if item = chosen then parts item else []) = [] :=
        List.flatMap_eq_nil_iff.mpr fun item inside => if_neg fun (same : item = chosen) => fresh (same ▸ inside)
      rw [if_pos rfl, none, List.append_nil]
    · rw [if_neg fun (same : head = chosen) => fresh (same ▸ inTail), ih distinctTail inTail, List.nil_append]

end Lists

section Start

variable {shared : BrokerState world}

theorem pending_forwards (call : Nat) (destination : Rank world) (apart : destination ≠ world.rank0) :
    pending destination ((world.others world.rank0).flatMap fun target =>
      (world.others target).map fun source => Work.forward call source target) = world.others destination := by
  have each : ∀ target : Rank world, pending destination ((world.others target).map fun source =>
      Work.forward call source target) = if target = destination then world.others target else [] := by
    intro target
    unfold pending
    rw [List.filterMap_map]
    by_cases same : target = destination
    · simp [same]
    · simp [same]
  have parts : pending destination ((world.others world.rank0).flatMap fun target =>
      (world.others target).map fun source => Work.forward call source target) =
        (world.others world.rank0).flatMap fun target => if target = destination then world.others target else [] := by
    unfold pending
    rw [List.filterMap_flatMap]
    exact List.flatMap_congr fun target _ => each target
  rw [parts]
  exact flatMap_single world.others _ (others_nodup _) (mem_others.mpr apart)

theorem pending_append (destination : Rank world) (first second : List (Work world)) :
    pending destination (first ++ second) = pending destination first ++ pending destination second :=
  List.filterMap_append

theorem pending_gatherWork (call : Nat) (file : File) (destination : Rank world) (apart : destination ≠ world.rank0) :
    pending destination (gatherWork call file) = world.others destination := by
  have gathers : pending destination (List.replicate (world.size - 1) (Work.gather call)) = [] :=
    List.filterMap_eq_nil_iff.mpr fun work member => by rw [List.eq_of_mem_replicate member]
  have whole : pending destination (gatherWork call file) =
      pending destination (List.replicate (world.size - 1) (.gather call) ++
        ((world.others world.rank0).flatMap (fun target =>
          (world.others target).map fun source => .forward call source target) ++
            [.keepGathered call, .clearOwn call])) := rfl
  rw [whole, pending_append, pending_append, gathers, pending_forwards call destination apart]
  simp [pending]

theorem transferring_start (silent : Silent shared) :
    Transferring call srcFd (fun rank => Round.work rank (.transfer call srcFd)) shared := by
  have positive := world.positive
  have root : Round.work world.rank0 (.transfer call srcFd) = gatherWork call (srcFd world.rank0) := by
    rw [Round.work, if_pos rfl]
  have other : ∀ rank ≠ world.rank0, Round.work rank (.transfer call srcFd) = transferWork call (srcFd rank) :=
    fun rank apart => by rw [Round.work, if_neg apart]
  have noForward : Work.gather call ∉ (world.others world.rank0).flatMap fun target =>
      (world.others target).map fun source => Work.forward call source target := by
    simp
  refine ⟨∅, fun _ => [], fun _ => [], ⟨?_, Finset.notMem_empty _, ?_, ?_, ?_⟩, ⟨?_, ?_, ?_, ?_⟩, ⟨?_, ?_⟩, ?_⟩
  · rw [root, gatherWork, List.count_cons, List.count_append, List.count_replicate_self, List.count_append,
      List.count_eq_zero.mpr noForward]
    simp
    omega
  · intro started
    rw [root] at started
    exact absurd (List.mem_cons_self ..) started
  · exact fun source apart _ => ⟨silent _ _, Finset.notMem_empty _⟩
  · intro source apart sent
    rw [other source apart] at sent
    exact absurd (List.mem_cons_self ..) sent
  · intro destination apart
    rw [root, pending_gatherWork call _ destination apart]
    rfl
  · exact fun destination _ => silent _ _
  · intro destination apart
    rw [other destination apart, transferWork, List.count_cons, List.count_append, List.count_replicate_self]
    simp
    omega
  · exact fun _ _ _ member => by cases member
  · intro kept
    rw [root] at kept
    exact absurd (by simp [gatherWork]) kept
  · intro rank cleared
    refine absurd ?_ cleared
    by_cases same : rank = world.rank0
    · rw [same, root]
      simp [gatherWork]
    · rw [other rank same]
      simp [transferWork]
  · exact fun sender receiver _ => silent sender receiver

end Start

section Popped

variable {left : Rank world → List (Work world)} {rank : Rank world} {item other : Work world} {rest : List (Work world)}

theorem mem_popped (next : left rank = item :: rest) (apart : other ≠ item) (agent : Rank world) :
    other ∈ Function.update left rank rest agent ↔ other ∈ left agent := by
  by_cases same : agent = rank
  · subst same
    rw [Function.update_self, next, List.mem_cons]
    simp [apart]
  · rw [Function.update_of_ne same]

theorem count_popped (next : left rank = item :: rest) (apart : other ≠ item) (agent : Rank world) :
    (Function.update left rank rest agent).count other = (left agent).count other := by
  by_cases same : agent = rank
  · subst same
    rw [Function.update_self, next, List.count_cons_of_ne (Ne.symm apart)]
  · rw [Function.update_of_ne same]

theorem pending_popped (next : left rank = item :: rest) (idle : pending destination [item] = []) (agent : Rank world) :
    pending destination (Function.update left rank rest agent) = pending destination (left agent) := by
  by_cases same : agent = rank
  · subst same
    have split : left agent = [item] ++ rest := next
    rw [Function.update_self, split, pending_append, idle, List.nil_append]
  · rw [Function.update_of_ne same]

end Popped

section Unaffected

variable {left left' : Rank world → List (Work world)} {shared shared' : BrokerState world}
  {gathered : Finset (Rank world)} {received queued : Rank world → List (Rank world)}

theorem Upward.congr (upward : Upward call srcFd left shared gathered)
    (counts : (left' world.rank0).count (.gather call) = (left world.rank0).count (.gather call))
    (starts : .startGather call (srcFd world.rank0) ∈ left world.rank0 →
      .startGather call (srcFd world.rank0) ∈ left' world.rank0)
    (sends : ∀ source ≠ world.rank0, .sendFd call (srcFd source) world.rank0 ∈ left' source ↔
      .sendFd call (srcFd source) world.rank0 ∈ left source)
    (memory : shared'.gathered call = shared.gathered call)
    (arriving : ∀ source ≠ world.rank0, shared'.inbox source world.rank0 = shared.inbox source world.rank0) :
    Upward call srcFd left' shared' gathered where
  counted := by
    rw [counts]
    exact upward.counted
  notRoot := upward.notRoot
  held started source present := by
    rw [memory]
    exact upward.held (fun before => started (starts before)) source present
  unsent source apart waiting := by
    rw [arriving source apart]
    exact upward.unsent source apart ((sends source apart).mp waiting)
  sent source apart gone := by
    rw [arriving source apart]
    exact upward.sent source apart fun waiting => gone ((sends source apart).mpr waiting)

theorem Downward.congr (downward : Downward call srcFd left shared received queued)
    (pend : ∀ destination ≠ world.rank0,
      pending destination (left' world.rank0) = pending destination (left world.rank0))
    (flying : ∀ destination ≠ world.rank0, shared'.inbox world.rank0 destination = shared.inbox world.rank0 destination)
    (counts : ∀ destination ≠ world.rank0, (left' destination).count (.receive call) =
      (left destination).count (.receive call))
    (memory : ∀ destination ≠ world.rank0, ∀ source ≠ destination,
      shared'.dstFds destination call source = shared.dstFds destination call source) :
    Downward call srcFd left' shared' received queued where
  owed destination apart := by
    rw [pend destination apart]
    exact downward.owed destination apart
  flying destination apart := by
    rw [flying destination apart]
    exact downward.flying destination apart
  counted destination apart := by
    rw [counts destination apart]
    exact downward.counted destination apart
  kept destination apart source member := by
    have foreign : source ≠ destination := by
      apply mem_others.mp
      rw [← downward.owed destination apart]
      exact List.mem_append_left _ (List.mem_append_left _ member)
    rw [memory destination apart source foreign]
    exact downward.kept destination apart source member

theorem Placed.congr (placed : Placed call srcFd left shared)
    (keeps : .keepGathered call ∈ left world.rank0 → .keepGathered call ∈ left' world.rank0)
    (clears : ∀ rank, .clearOwn call ∈ left rank → .clearOwn call ∈ left' rank)
    (memory : ∀ rank, .clearOwn call ∉ left rank ∨ rank = world.rank0 → shared'.dstFds rank call = shared.dstFds rank call) :
    Placed call srcFd left' shared' where
  root kept source apart := by
    rw [memory world.rank0 (Or.inr rfl)]
    exact placed.root (fun before => kept (keeps before)) source apart
  own rank cleared := by
    have before : .clearOwn call ∉ left rank := fun waiting => cleared (clears rank waiting)
    rw [memory rank (Or.inl before)]
    exact placed.own rank before

end Unaffected

section Steps

variable {left : Rank world → List (Work world)} {rest : List (Work world)} {shared shared' : BrokerState world}

theorem Transferring.startGather (transferring : Transferring call srcFd left shared)
    (next : left world.rank0 = .startGather call (srcFd world.rank0) :: rest)
    (suffix : left world.rank0 <:+ gatherWork call (srcFd world.rank0)) :
    Transferring call srcFd (Function.update left world.rank0 rest)
      (shared.act world.rank0 (.startGather call (srcFd world.rank0))) := by
  obtain ⟨gathered, received, queued, upward, downward, placed, star⟩ := transferring
  have none : gathered = ∅ := by
    have counted := upward.counted
    rw [next] at suffix counted
    have whole := suffix_whole suffix (by simp)
    have many : world.size - 1 ≤ (Work.startGather call (srcFd world.rank0) :: rest).count (.gather call) := by
      rw [whole, List.count_cons, List.count_append, List.count_replicate_self]
      omega
    exact Finset.card_eq_zero.mp (by omega)
  refine ⟨gathered, received, queued, ⟨?_, upward.notRoot, ?_, ?_, ?_⟩, ?_, ?_, star⟩
  · rw [count_popped next (by simp)]
    exact upward.counted
  · rintro _ source (rfl | member)
    · simp [BrokerState.act]
    · rw [none] at member
      exact absurd member (Finset.notMem_empty _)
  · intro source apart waiting
    exact upward.unsent source apart ((mem_popped next (by simp) source).mp waiting)
  · intro source apart gone
    exact upward.sent source apart fun waiting => gone ((mem_popped next (by simp) source).mpr waiting)
  · exact downward.congr (fun destination _ => pending_popped next rfl _) (fun _ _ => rfl)
      (fun destination _ => count_popped next (by simp) _) fun _ _ _ _ => rfl
  · exact placed.congr (fun waiting => (mem_popped next (by simp) _).mpr waiting)
      (fun rank waiting => (mem_popped next (by simp) _).mpr waiting) fun _ _ => rfl

theorem Sound.congr (sound : Sound shared) (thrown : shared'.thrown = shared.thrown)
    (consumed : shared'.consumed = shared.consumed) : Sound shared' where
  quiet rank := by
    rw [thrown]
    exact sound.quiet rank
  matched rank := by
    rw [consumed]
    exact sound.matched rank

theorem Sound.received (sound : Sound shared) (same : datagram.call = call) (thrown : shared'.thrown = shared.thrown)
    (consumed : shared'.consumed =
      Function.update shared.consumed rank (shared.consumed rank ++ [(call, datagram)])) : Sound shared' where
  quiet other := by
    rw [thrown]
    exact sound.quiet other
  matched other entry member := by
    rw [consumed] at member
    by_cases here : other = rank
    · subst here
      rw [Function.update_self] at member
      rcases List.mem_append.mp member with before | new
      · exact sound.matched other entry before
      · rw [List.mem_singleton.mp new]
        exact same
    · rw [Function.update_of_ne here] at member
      exact sound.matched other entry member

theorem positive_of_ne (apart : rank ≠ world.rank0) : 0 < rank.val :=
  Nat.pos_of_ne_zero fun zero => apart (Fin.ext zero)

/-- Once rank 0 forwards, it has gathered from everybody. -/
theorem Upward.complete {gathered : Finset (Rank world)} (upward : Upward call srcFd left shared gathered)
    (none : (left world.rank0).count (.gather call) = 0) (source : Rank world) :
    source = world.rank0 ∨ source ∈ gathered := by
  by_cases root : source = world.rank0
  · exact Or.inl root
  · right
    have counted := upward.counted
    rw [none] at counted
    have all : gathered = Finset.univ.erase world.rank0 := by
      refine Finset.eq_of_subset_of_card_le (fun rank member => ?_) ?_
      · refine Finset.mem_erase.mpr ⟨fun same => upward.notRoot (same ▸ member), Finset.mem_univ _⟩
      · rw [Finset.card_erase_of_mem (Finset.mem_univ _), Finset.card_univ, Fintype.card_fin]
        omega
    rw [all]
    exact Finset.mem_erase.mpr ⟨root, Finset.mem_univ _⟩

theorem gatherWork_past {work : Work world} (suffix : work :: rest <:+ gatherWork call file)
    (notStart : work ≠ .startGather call file) (notGather : work ≠ .gather call) :
    (work :: rest).count (.gather call) = 0 ∧ .startGather call file ∉ work :: rest := by
  have split : gatherWork call file = (.startGather call file :: List.replicate (world.size - 1) (.gather call)) ++
      ((world.others world.rank0).flatMap (fun destination =>
        (world.others destination).map fun source => .forward call source destination) ++
          [.keepGathered call, .clearOwn call]) := rfl
  rw [split] at suffix
  have later := suffix_past suffix (by
    intro member
    rcases List.mem_cons.mp member with start | gathers
    · exact notStart start
    · exact notGather (List.eq_of_mem_replicate gathers))
  constructor
  · refine List.count_eq_zero.mpr fun member => ?_
    have := later.subset member
    simp at this
  · intro member
    have := later.subset member
    simp at this

theorem Transferring.gather (transferring : Transferring call srcFd left shared) (sound : Sound shared)
    (next : left world.rank0 = .gather call :: rest)
    (performed : Performs world.rank0 (.gather call) shared shared') :
    Transferring call srcFd (Function.update left world.rank0 rest) shared' ∧ Sound shared' := by
  obtain ⟨gathered, received, queued, upward, downward, placed, star⟩ := transferring
  obtain ⟨sender, datagram, more, arrived, rfl⟩ := performed.receive_eq rfl
  have apart : sender ≠ world.rank0 := by
    rintro rfl
    rw [star _ _ Iff.rfl] at arrived
    cases arrived
  obtain ⟨flying, fresh⟩ : shared.inbox sender world.rank0 = [datagramOf call srcFd sender] ∧ sender ∉ gathered := by
    by_cases waiting : .sendFd call (srcFd sender) world.rank0 ∈ left sender
    · rw [(upward.unsent sender apart waiting).1] at arrived
      cases arrived
    · refine (upward.sent sender apart waiting).resolve_right fun gone => ?_
      rw [gone.1] at arrived
      cases arrived
  rw [flying, List.cons.injEq] at arrived
  obtain ⟨rfl, rfl⟩ := arrived
  have inside : 0 < sender.val ∧ sender.val < world.size := ⟨positive_of_ne apart, sender.isLt⟩
  have accepted := fun state : BrokerState world =>
    show state.accept world.rank0 (datagramOf call srcFd sender) (.gather call) =
      { state with gathered := writeAt state.gathered call sender (some (srcFd sender)) } from dif_pos inside
  rw [accepted]
  have counted := upward.counted
  rw [next, List.count_cons_self] at counted
  refine ⟨⟨insert sender gathered, received, queued, ⟨?_, ?_, ?_, ?_, ?_⟩, ?_, ?_, ?_⟩, ?_⟩
  · rw [Function.update_self, Finset.card_insert_of_notMem fresh]
    omega
  · intro member
    rcases Finset.mem_insert.mp member with same | before
    · exact apart same.symm
    · exact upward.notRoot before
  · intro started source present
    have before : .startGather call (srcFd world.rank0) ∉ left world.rank0 :=
      fun waiting => started ((mem_popped next (by simp) _).mpr waiting)
    simp only [writeAt_apply, true_and]
    by_cases here : source = sender
    · rw [if_pos here, here]
    · rw [if_neg here]
      refine upward.held before source (present.imp_right fun member => ?_)
      exact (Finset.mem_insert.mp member).resolve_left here
  · intro source root waiting
    have before := (mem_popped next (by simp) source).mp waiting
    obtain ⟨empty, absent⟩ := upward.unsent source root before
    have here : source ≠ sender := by
      rintro rfl
      rw [flying] at empty
      cases empty
    refine ⟨?_, fun member => absent ((Finset.mem_insert.mp member).resolve_left here)⟩
    simp only [writeAt_apply]
    rw [if_neg fun both => here both.1]
    exact empty
  · intro source root gone
    simp only [writeAt_apply, and_true]
    by_cases here : source = sender
    · rw [if_pos here, here]
      exact Or.inr ⟨rfl, Finset.mem_insert_self ..⟩
    · rw [if_neg here]
      have before := upward.sent source root fun waiting => gone ((mem_popped next (by simp) source).mpr waiting)
      refine before.imp (fun flies => ⟨flies.1, fun member => ?_⟩) fun done => ⟨done.1, Finset.mem_insert_of_mem done.2⟩
      exact flies.2 ((Finset.mem_insert.mp member).resolve_left here)
  · refine downward.congr (fun destination _ => pending_popped next rfl _) (fun destination _ => ?_)
      (fun destination _ => count_popped next (by simp) _) fun _ _ _ _ => rfl
    simp only [writeAt_apply]
    rw [if_neg fun both => apart both.1.symm]
  · exact placed.congr (fun waiting => (mem_popped next (by simp) _).mpr waiting)
      (fun rank waiting => (mem_popped next (by simp) _).mpr waiting) fun _ _ => rfl
  · intro origin receiver same
    have elsewhere : ¬(origin = sender ∧ receiver = world.rank0) := by
      rintro ⟨rfl, rfl⟩
      exact apart (same.mpr rfl)
    simp only [writeAt_apply, if_neg elsewhere]
    exact star origin receiver same
  · have same : (datagramOf call srcFd sender).call = call := rfl
    exact sound.received same rfl rfl

theorem send_bound_eq (bound : shared.bound destination = true) (datagram : Datagram) :
    shared.send rank destination datagram =
      { shared with
        inbox := writeAt shared.inbox rank destination (shared.inbox rank destination ++ [datagram]) } := by
  rw [BrokerState.send, if_pos bound]

theorem Transferring.sendFd {rank : Rank world} (transferring : Transferring call srcFd left shared)
    (bound : shared.bound world.rank0 = true) (apart : rank ≠ world.rank0)
    (next : left rank = .sendFd call (srcFd rank) world.rank0 :: rest)
    (suffix : left rank <:+ transferWork call (srcFd rank)) :
    Transferring call srcFd (Function.update left rank rest)
      (shared.act rank (.sendFd call (srcFd rank) world.rank0)) := by
  obtain ⟨gathered, received, queued, upward, downward, placed, star⟩ := transferring
  have acted : shared.act rank (.sendFd call (srcFd rank) world.rank0) =
      { shared with
        inbox := writeAt shared.inbox rank world.rank0
          (shared.inbox rank world.rank0 ++ [datagramOf call srcFd rank]) } := send_bound_eq bound _
  have gone : .sendFd call (srcFd rank) world.rank0 ∉ rest := by
    rw [next] at suffix
    rw [suffix_whole suffix (by simp)]
    simp
  have other : ∀ agent ≠ rank, Function.update left rank rest agent = left agent :=
    fun agent different => Function.update_of_ne different ..
  obtain ⟨empty, absent⟩ := upward.unsent rank apart (by rw [next]; exact List.mem_cons_self ..)
  rw [acted]
  refine ⟨gathered, received, queued, ⟨?_, upward.notRoot, ?_, ?_, ?_⟩, ?_, ?_, ?_⟩
  · rw [other _ apart.symm]
    exact upward.counted
  · rw [other _ apart.symm]
    exact upward.held
  · intro source root waiting
    by_cases here : source = rank
    · subst here
      rw [Function.update_self] at waiting
      exact absurd waiting gone
    · rw [other source here] at waiting
      simp only [writeAt_apply]
      rw [if_neg fun both => here both.1]
      exact upward.unsent source root waiting
  · intro source root sent
    by_cases here : source = rank
    · subst here
      simp only [writeAt_apply, and_self, if_true]
      rw [empty]
      exact Or.inl ⟨rfl, absent⟩
    · rw [other source here] at sent
      simp only [writeAt_apply]
      rw [if_neg fun both => here both.1]
      exact upward.sent source root sent
  · refine downward.congr (fun destination _ => by rw [other _ apart.symm]) (fun destination down => ?_)
      (fun destination _ => count_popped next (by simp) _) fun _ _ _ _ => rfl
    simp only [writeAt_apply]
    rw [if_neg fun both => down both.2]
  · exact placed.congr (fun waiting => (mem_popped next (by simp) _).mpr waiting)
      (fun rank waiting => (mem_popped next (by simp) _).mpr waiting) fun _ _ => rfl
  · intro sender receiver same
    have elsewhere : ¬(sender = rank ∧ receiver = world.rank0) := by
      rintro ⟨rfl, rfl⟩
      exact apart (same.mpr rfl)
    simp only [writeAt_apply, if_neg elsewhere]
    exact star sender receiver same

theorem Transferring.forward (transferring : Transferring call srcFd left shared)
    (bound : shared.bound destination = true) (apart : destination ≠ world.rank0)
    (next : left world.rank0 = .forward call source destination :: rest)
    (suffix : left world.rank0 <:+ gatherWork call (srcFd world.rank0)) :
    Transferring call srcFd (Function.update left world.rank0 rest)
        (shared.act world.rank0 (.forward call source destination)) ∧
      (shared.act world.rank0 (.forward call source destination)).thrown = shared.thrown ∧
      (shared.act world.rank0 (.forward call source destination)).consumed = shared.consumed := by
  obtain ⟨gathered, received, queued, upward, downward, placed, star⟩ := transferring
  rw [next] at suffix
  obtain ⟨none, started⟩ := gatherWork_past suffix (by simp) (by simp)
  rw [← next] at none started
  have held := upward.held started source (upward.complete none source)
  have acted : shared.act world.rank0 (.forward call source destination) =
      { shared with
        inbox := writeAt shared.inbox world.rank0 destination
          (shared.inbox world.rank0 destination ++ [datagramOf call srcFd source]) } := by
    simp only [BrokerState.act, held]
    exact send_bound_eq bound _
  rw [acted]
  refine ⟨⟨gathered, received, Function.update queued destination (queued destination ++ [source]), ?_, ⟨?_, ?_, ?_, ?_⟩,
    ?_, ?_⟩, rfl, rfl⟩
  · refine upward.congr (count_popped next (by simp) _) (fun waiting => (mem_popped next (by simp) _).mpr waiting)
      (fun sender _ => mem_popped next (by simp) sender) rfl fun sender _ => ?_
    simp only [writeAt_apply]
    rw [if_neg fun both => apart both.2.symm]
  · intro target down
    have owed := downward.owed target down
    rw [Function.update_self]
    rw [next] at owed
    by_cases here : target = destination
    · subst here
      have first : pending target (Work.forward call source target :: rest) = source :: pending target rest := by
        simp [pending]
      rw [first] at owed
      rw [Function.update_self, ← owed]
      simp
    · have skip : pending target (Work.forward call source destination :: rest) = pending target rest := by
        simp [pending, Ne.symm here]
      rw [skip] at owed
      rw [Function.update_of_ne here, owed]
  · intro target down
    by_cases here : target = destination
    · subst here
      simp only [writeAt_apply, and_self, if_true, Function.update_self, List.map_append, downward.flying target down]
      rfl
    · simp only [writeAt_apply, Function.update_of_ne here]
      rw [if_neg fun both => here both.2]
      exact downward.flying target down
  · intro target down
    rw [count_popped next (by simp)]
    exact downward.counted target down
  · exact downward.kept
  · exact placed.congr (fun waiting => (mem_popped next (by simp) _).mpr waiting)
      (fun rank waiting => (mem_popped next (by simp) _).mpr waiting) fun _ _ => rfl
  · intro sender receiver same
    have elsewhere : ¬(sender = world.rank0 ∧ receiver = destination) := by
      rintro ⟨rfl, rfl⟩
      exact apart (same.mp rfl)
    simp only [writeAt_apply, if_neg elsewhere]
    exact star sender receiver same

theorem Transferring.receive {rank : Rank world} (transferring : Transferring call srcFd left shared)
    (sound : Sound shared) (apart : rank ≠ world.rank0) (next : left rank = .receive call :: rest)
    (suffix : left rank <:+ transferWork call (srcFd rank))
    (performed : Performs rank (.receive call) shared shared') :
    Transferring call srcFd (Function.update left rank rest) shared' ∧ Sound shared' := by
  obtain ⟨gathered, received, queued, upward, downward, placed, star⟩ := transferring
  obtain ⟨sender, datagram, more, arrived, rfl⟩ := performed.receive_eq rfl
  have root : sender = world.rank0 := by
    by_contra other
    rw [star _ _ ⟨fun same => absurd same other, fun same => absurd same apart⟩] at arrived
    cases arrived
  subst root
  rw [downward.flying rank apart] at arrived
  obtain ⟨source, later, split, rfl, rfl⟩ := List.map_eq_cons_iff.mp arrived
  have foreign : source ≠ rank := by
    apply mem_others.mp
    rw [← downward.owed rank apart, split]
    simp
  have inside : (datagramOf call srcFd source).payload < world.size ∧ (datagramOf call srcFd source).payload ≠ rank :=
    ⟨source.isLt, fun same => foreign (Fin.ext same)⟩
  have accepted := fun state : BrokerState world =>
    show state.accept rank (datagramOf call srcFd source) (.receive call) =
      { state with
        dstFds := writeAt state.dstFds rank call
          (Function.update (state.dstFds rank call) source (some (srcFd source))) } from dif_pos inside
  rw [accepted]
  have other : ∀ agent ≠ rank, Function.update left rank rest agent = left agent :=
    fun agent different => Function.update_of_ne different ..
  have last : .clearOwn call ∈ left rank := by
    rw [next] at suffix ⊢
    rw [transferWork, ← List.cons_append] at suffix
    rcases List.suffix_concat_iff.mp suffix with none | ⟨before, whole, _⟩
    · cases none
    · rw [whole]
      exact List.mem_append_right _ (List.mem_singleton_self _)
  refine ⟨⟨gathered, Function.update received rank (received rank ++ [source]), Function.update queued rank later, ?_,
    ⟨?_, ?_, ?_, ?_⟩, ?_, ?_⟩, ?_⟩
  · refine upward.congr (by rw [other _ apart.symm]) (fun waiting => by rwa [other _ apart.symm])
      (fun origin _ => mem_popped next (by simp) origin) rfl fun origin up => ?_
    simp only [writeAt_apply]
    rw [if_neg fun both => up both.1]
  · intro target down
    rw [other _ apart.symm]
    have owed := downward.owed target down
    by_cases here : target = rank
    · subst here
      rw [split] at owed
      rw [Function.update_self, Function.update_self, ← owed]
      simp
    · rw [Function.update_of_ne here, Function.update_of_ne here]
      exact owed
  · intro target down
    simp only [writeAt_apply]
    by_cases here : target = rank
    · subst here
      simp
    · rw [if_neg fun both => here both.2, Function.update_of_ne here]
      exact downward.flying target down
  · intro target down
    have counted := downward.counted target down
    by_cases here : target = rank
    · subst here
      rw [next, List.count_cons_self] at counted
      rw [Function.update_self, Function.update_self, List.length_append, List.length_singleton]
      omega
    · rw [Function.update_of_ne here, Function.update_of_ne here]
      exact counted
  · intro target down origin member
    simp only [writeAt_apply]
    by_cases here : target = rank
    · subst here
      rw [Function.update_self] at member
      rw [if_pos ⟨rfl, trivial⟩]
      by_cases same : origin = source
      · rw [same, Function.update_self]
      · rw [Function.update_of_ne same]
        refine downward.kept target down origin ?_
        exact (List.mem_append.mp member).resolve_right fun new => same (List.mem_singleton.mp new)
    · rw [Function.update_of_ne here] at member
      rw [if_neg fun both => here both.1]
      exact downward.kept target down origin member
  · refine placed.congr (fun waiting => (mem_popped next (by simp) _).mpr waiting)
      (fun agent waiting => (mem_popped next (by simp) _).mpr waiting) fun agent either => ?_
    have different : agent ≠ rank := by
      rintro rfl
      exact either.elim (fun cleared => cleared last) apart
    simp only [writeAt_apply]
    rw [if_neg fun both => different both.1]
  · intro origin receiver same
    have elsewhere : ¬(origin = world.rank0 ∧ receiver = rank) := by
      rintro ⟨rfl, rfl⟩
      exact apart (same.mp rfl)
    simp only [writeAt_apply, if_neg elsewhere]
    exact star origin receiver same
  · have same : (datagramOf call srcFd source).call = call := rfl
    exact sound.received same rfl rfl

theorem Transferring.keepGathered (transferring : Transferring call srcFd left shared)
    (next : left world.rank0 = .keepGathered call :: rest)
    (suffix : left world.rank0 <:+ gatherWork call (srcFd world.rank0)) :
    Transferring call srcFd (Function.update left world.rank0 rest)
      (shared.act world.rank0 (.keepGathered call)) := by
  obtain ⟨gathered, received, queued, upward, downward, placed, star⟩ := transferring
  rw [next] at suffix
  obtain ⟨none, started⟩ := gatherWork_past suffix (by simp) (by simp)
  rw [← next] at none started
  refine ⟨gathered, received, queued, ?_, ?_, ⟨fun _ source apart => ?_, fun rank cleared => ?_⟩, star⟩
  · exact upward.congr (count_popped next (by simp) _) (fun waiting => (mem_popped next (by simp) _).mpr waiting)
      (fun sender _ => mem_popped next (by simp) sender) rfl fun _ _ => rfl
  · refine downward.congr (fun destination _ => pending_popped next rfl _) (fun _ _ => rfl)
      (fun destination _ => count_popped next (by simp) _) fun destination down source _ => ?_
    simp only [BrokerState.act, writeAt_apply]
    rw [if_neg fun both => down both.1]
  · simp only [BrokerState.act, writeAt_apply, and_self, if_true, if_neg apart]
    exact upward.held started source (upward.complete none source)
  · have before : shared.dstFds rank call rank = Option.none :=
      placed.own rank fun waiting => cleared ((mem_popped next (by simp) _).mpr waiting)
    simp only [BrokerState.act, writeAt_apply, and_true]
    by_cases here : rank = world.rank0
    · subst here
      simpa using before
    · rw [if_neg here]
      exact before

theorem Transferring.clearOwn {rank : Rank world} (transferring : Transferring call srcFd left shared)
    (next : left rank = .clearOwn call :: rest) :
    Transferring call srcFd (Function.update left rank rest) (shared.act rank (.clearOwn call)) := by
  obtain ⟨gathered, received, queued, upward, downward, placed, star⟩ := transferring
  have foreign : ∀ agent source, source ≠ agent →
      (shared.act rank (.clearOwn call)).dstFds agent call source = shared.dstFds agent call source := by
    intro agent source apart
    simp only [BrokerState.act, writeAt_apply, and_true]
    by_cases here : agent = rank
    · subst here
      rw [if_pos rfl, Function.update_of_ne apart]
    · rw [if_neg here]
  refine ⟨gathered, received, queued, ?_, ?_, ⟨fun kept source apart => ?_, fun agent cleared => ?_⟩, star⟩
  · exact upward.congr (count_popped next (by simp) _) (fun waiting => (mem_popped next (by simp) _).mpr waiting)
      (fun sender _ => mem_popped next (by simp) sender) rfl fun _ _ => rfl
  · exact downward.congr (fun destination _ => pending_popped next rfl _) (fun _ _ => rfl)
      (fun destination _ => count_popped next (by simp) _) fun destination _ source apart => foreign destination source apart
  · rw [foreign world.rank0 source apart]
    exact placed.root (fun waiting => kept ((mem_popped next (by simp) _).mpr waiting)) source apart
  · by_cases here : agent = rank
    · subst here
      simp [BrokerState.act, writeAt_apply]
    · have before := placed.own agent fun waiting => cleared (by rwa [Function.update_of_ne here])
      simp only [BrokerState.act, writeAt_apply]
      rw [if_neg fun both => here both.1]
      exact before

end Steps

section Round

variable {left : Rank world → List (Work world)} {rest : List (Work world)} {shared shared' : BrokerState world}

/-- No action of the round loses, duplicates or misplaces a descriptor, whichever datagram comes first. -/
theorem Transferring.step {rank : Rank world} (transferring : Transferring call srcFd left shared) (sound : Sound shared)
    (bound : ∀ rank, shared.bound rank = true) (next : left rank = item :: rest)
    (suffix : left rank <:+ Round.work rank (.transfer call srcFd)) (performed : Performs rank item shared shared') :
    Transferring call srcFd (Function.update left rank rest) shared' ∧ Sound shared' := by
  have listed : item ∈ Round.work rank (.transfer call srcFd) :=
    suffix.subset (by rw [next]; exact List.mem_cons_self ..)
  by_cases root : rank = world.rank0
  · subst root
    rw [Round.work, if_pos rfl] at suffix listed
    simp only [gatherWork, List.mem_cons, List.mem_append, List.mem_replicate, List.mem_flatMap, List.mem_map,
      List.not_mem_nil, or_false] at listed
    rcases listed with rfl | ⟨_, rfl⟩ | ⟨destination, down, source, _, rfl⟩ | rfl | rfl
    · rw [performed.act_eq rfl]
      exact ⟨transferring.startGather next suffix, sound.congr rfl rfl⟩
    · exact transferring.gather sound next performed
    · rw [performed.act_eq rfl]
      obtain ⟨after, thrown, consumed⟩ :=
        transferring.forward (bound destination) (mem_others.mp down) next suffix
      exact ⟨after, sound.congr thrown consumed⟩
    · rw [performed.act_eq rfl]
      exact ⟨transferring.keepGathered next suffix, sound.congr rfl rfl⟩
    · rw [performed.act_eq rfl]
      exact ⟨transferring.clearOwn next, sound.congr rfl rfl⟩
  · rw [Round.work, if_neg root] at suffix listed
    simp only [transferWork, List.mem_cons, List.mem_append, List.mem_replicate, List.not_mem_nil, or_false] at listed
    rcases listed with rfl | ⟨_, rfl⟩ | rfl
    · rw [performed.act_eq rfl]
      have acted : shared.act rank (.sendFd call (srcFd rank) world.rank0) = _ := send_bound_eq (bound world.rank0) _
      refine ⟨transferring.sendFd (bound world.rank0) root next suffix, ?_⟩
      rw [acted]
      exact sound.congr rfl rfl
    · exact transferring.receive sound root next suffix performed
    · rw [performed.act_eq rfl]
      exact ⟨transferring.clearOwn next, sound.congr rfl rfl⟩

/-- When everybody is through, every descriptor is in its place and no datagram is left. -/
theorem Transferring.finished (transferring : Transferring call srcFd (fun _ => []) shared) :
    Settled shared (.transfer call srcFd) ∧ Silent shared := by
  obtain ⟨gathered, received, queued, upward, downward, placed, star⟩ := transferring
  have drained : ∀ destination ≠ world.rank0, received destination = world.others destination ∧ queued destination = [] := by
    intro destination down
    have owed := downward.owed destination down
    have counted := downward.counted destination down
    have size := others_length destination
    rw [List.count_nil] at counted
    have lengths := congrArg List.length owed
    rw [List.length_append, List.length_append] at lengths
    have none : queued destination = [] := List.length_eq_zero_iff.mp (by omega)
    rw [none] at owed
    exact ⟨by simpa [pending] using owed, none⟩
  constructor
  · intro rank position
    by_cases own : position = rank
    · rw [if_pos own, own]
      exact placed.own rank List.not_mem_nil
    · rw [if_neg own]
      by_cases root : rank = world.rank0
      · subst root
        exact placed.root List.not_mem_nil position own
      · refine downward.kept rank root position ?_
        rw [(drained rank root).1]
        exact mem_others.mpr own
  · intro sender receiver
    by_cases down : sender = world.rank0
    · by_cases loop : receiver = world.rank0
      · exact star sender receiver (iff_of_true down loop)
      · rw [down, downward.flying receiver loop, (drained receiver loop).2]
        rfl
    · by_cases up : receiver = world.rank0
      · subst up
        have member := (upward.complete List.count_nil sender).resolve_left down
        refine ((upward.sent sender down List.not_mem_nil).resolve_left fun flies => flies.2 member).1
      · exact star sender receiver (iff_of_false down up)

/-- Somebody with work left can go on: whoever waits for a datagram is owed one that is on its way or can be sent. -/
theorem Transferring.moves (transferring : Transferring call srcFd left shared)
    (suffix : ∀ rank, left rank <:+ Round.work rank (.transfer call srcFd)) (busy : ∃ rank, left rank ≠ []) :
    ∃ rank item rest shared', left rank = item :: rest ∧ Performs rank item shared shared' := by
  obtain ⟨gathered, received, queued, upward, downward, placed, star⟩ := transferring
  have acts : ∀ rank item rest, left rank = item :: rest → item.receives? = none →
      ∃ rank item rest shared', left rank = item :: rest ∧ Performs rank item shared shared' :=
    fun rank item rest next own => ⟨rank, item, rest, _, next, .act own⟩
  cases rootLeft : left world.rank0 with
  | cons item rest =>
    have listed : item ∈ gatherWork call (srcFd world.rank0) := by
      have whole := suffix world.rank0
      rw [Round.work, if_pos rfl] at whole
      exact whole.subset (by rw [rootLeft]; exact List.mem_cons_self ..)
    simp only [gatherWork, List.mem_cons, List.mem_append, List.mem_replicate, List.mem_flatMap, List.mem_map,
      List.not_mem_nil, or_false] at listed
    rcases listed with rfl | ⟨_, rfl⟩ | ⟨_, _, _, _, rfl⟩ | rfl | rfl
    · exact acts _ _ _ rootLeft rfl
    · -- Some rank is not gathered yet: it can send, or its datagram is there.
      have counted := upward.counted
      rw [rootLeft, List.count_cons_self] at counted
      obtain ⟨source, apart, absent⟩ : ∃ source, source ≠ world.rank0 ∧ source ∉ gathered := by
        by_contra all
        push Not at all
        have included : Finset.univ.erase world.rank0 ⊆ gathered :=
          fun rank member => all rank (Finset.ne_of_mem_erase member)
        have enough := Finset.card_le_card included
        rw [Finset.card_erase_of_mem (Finset.mem_univ _), Finset.card_univ, Fintype.card_fin] at enough
        omega
      by_cases waiting : .sendFd call (srcFd source) world.rank0 ∈ left source
      · have whole := suffix source
        rw [Round.work, if_neg apart] at whole
        rcases List.suffix_cons_iff.mp whole with all | later
        · exact acts source _ _ all rfl
        · have := later.subset waiting
          simp at this
      · have flies := (upward.sent source apart waiting).resolve_right fun done => absent done.2
        exact ⟨_, _, _, _, rootLeft, .receive rfl flies.1⟩
    · exact acts _ _ _ rootLeft rfl
    · exact acts _ _ _ rootLeft rfl
    · exact acts _ _ _ rootLeft rfl
  | nil =>
    obtain ⟨rank, some⟩ := busy
    obtain ⟨item, rest, next⟩ := List.exists_cons_of_ne_nil some
    have apart : rank ≠ world.rank0 := by
      rintro rfl
      exact some rootLeft
    have listed : item ∈ transferWork call (srcFd rank) := by
      have whole := suffix rank
      rw [Round.work, if_neg apart] at whole
      exact whole.subset (by rw [next]; exact List.mem_cons_self ..)
    simp only [transferWork, List.mem_cons, List.mem_append, List.mem_replicate, List.not_mem_nil, or_false] at listed
    rcases listed with rfl | ⟨_, rfl⟩ | rfl
    · exact acts _ _ _ next rfl
    · -- Everything has been forwarded, so what is owed is in flight.
      have owed := downward.owed rank apart
      have counted := downward.counted rank apart
      have size := others_length rank
      rw [next, List.count_cons_self] at counted
      have lengths := congrArg List.length owed
      rw [rootLeft, List.length_append, List.length_append, pending, List.filterMap_nil, List.length_nil] at lengths
      obtain ⟨source, later, split⟩ := List.exists_cons_of_length_pos (l := queued rank) (by omega)
      have flies := downward.flying rank apart
      rw [split, List.map_cons] at flies
      exact ⟨_, _, _, _, next, .receive rfl flies⟩
    · exact acts _ _ _ next rfl

end Round

end Ooverlap.Broker
