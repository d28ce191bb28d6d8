import Ooverlap.Broker.Descriptors

/-! The round of `broadcast_fd`: one datagram for every other rank. -/

namespace Ooverlap.Broker

variable {world : LocalWorld} {call : Nat} {srcFd : File} {source : Rank world}
  {left : Rank world → List (Work world)} {rest : List (Work world)} {shared shared' : BrokerState world}

/-- Every other rank's copy is unsent, in flight or received. -/
structure Broadcasting (call : Nat) (srcFd : File) (source : Rank world) (left : Rank world → List (Work world))
    (shared : BrokerState world) : Prop where
  unsent : ∀ destination ≠ source, .sendFd call srcFd destination ∈ left source →
    shared.inbox source destination = [] ∧ left destination = [.receiveBroadcast call source]
  sent : ∀ destination ≠ source, .sendFd call srcFd destination ∉ left source →
    shared.inbox source destination = [{ file := srcFd, payload := source, call }] ∧
        left destination = [.receiveBroadcast call source] ∨
      shared.inbox source destination = [] ∧ left destination = [] ∧ shared.dstFd destination call = some srcFd
  elsewhere : ∀ sender receiver, sender ≠ source ∨ receiver = source → shared.inbox sender receiver = []

theorem work_broadcast_source : Round.work source (.broadcast call srcFd source) =
    (world.others source).map fun destination => Work.sendFd call srcFd destination := by
  rw [Round.work, if_pos rfl]

theorem work_broadcast_other {rank : Rank world} (apart : rank ≠ source) :
    Round.work rank (.broadcast call srcFd source) = [.receiveBroadcast call source] := by
  rw [Round.work, if_neg fun same => apart (Fin.ext (Int.ofNat_inj.mp same))]

theorem broadcasting_start (silent : Silent shared) :
    Broadcasting call srcFd source (fun rank => Round.work rank (.broadcast call srcFd source)) shared where
  unsent destination apart _ := ⟨silent _ _, work_broadcast_other apart⟩
  sent destination apart gone := by
    rw [work_broadcast_source] at gone
    exact absurd (List.mem_map.mpr ⟨destination, mem_others.mpr apart, rfl⟩) gone
  elsewhere sender receiver _ := silent sender receiver

theorem Broadcasting.sendFd (broadcasting : Broadcasting call srcFd source left shared)
    (bound : shared.bound target = true) (apart : target ≠ source)
    (next : left source = .sendFd call srcFd target :: rest)
    (suffix : left source <:+ Round.work source (.broadcast call srcFd source)) :
    Broadcasting call srcFd source (Function.update left source rest)
      (shared.act source (.sendFd call srcFd target)) := by
  have acted : shared.act source (.sendFd call srcFd target) =
      { shared with
        inbox := writeAt shared.inbox source target
          (shared.inbox source target ++ [{ file := srcFd, payload := source, call }]) } := send_bound_eq bound _
  have once : .sendFd call srcFd target ∉ rest := by
    rw [work_broadcast_source] at suffix
    have distinct : (left source).Nodup := by
      refine List.Nodup.sublist suffix.sublist (List.Nodup.map ?_ (others_nodup source))
      exact fun first second same => (Work.sendFd.inj same).2.2
    rw [next] at distinct
    exact (List.nodup_cons.mp distinct).1
  obtain ⟨empty, waits⟩ := broadcasting.unsent target apart (by rw [next]; exact List.mem_cons_self ..)
  rw [acted]
  refine ⟨fun destination other waiting => ?_, fun destination other gone => ?_, fun sender receiver foreign => ?_⟩
  · rw [Function.update_self] at waiting
    have here : destination ≠ target := by
      rintro rfl
      exact once waiting
    simp only [writeAt_apply, Function.update_of_ne other]
    rw [if_neg fun both => here both.2]
    exact broadcasting.unsent destination other (by rw [next]; exact List.mem_cons_of_mem _ waiting)
  · rw [Function.update_self] at gone
    simp only [writeAt_apply, Function.update_of_ne other]
    by_cases here : destination = target
    · subst here
      rw [if_pos ⟨trivial, rfl⟩, empty]
      exact Or.inl ⟨rfl, waits⟩
    · rw [if_neg fun both => here both.2]
      refine broadcasting.sent destination other fun waiting => gone ?_
      rw [next] at waiting
      exact (List.mem_cons.mp waiting).resolve_left fun first => here (Work.sendFd.inj first).2.2
  · have elsewhere : ¬(sender = source ∧ receiver = target) := by
      rintro ⟨rfl, rfl⟩
      exact foreign.elim (fun other => other rfl) apart
    simp only [writeAt_apply, if_neg elsewhere]
    exact broadcasting.elsewhere sender receiver foreign

theorem Broadcasting.receive {rank : Rank world} (broadcasting : Broadcasting call srcFd source left shared)
    (sound : Sound shared) (apart : rank ≠ source) (next : left rank = .receiveBroadcast call source :: rest)
    (performed : Performs rank (.receiveBroadcast call source) shared shared') :
    Broadcasting call srcFd source (Function.update left rank rest) shared' ∧ Sound shared' := by
  obtain ⟨sender, datagram, more, arrived, rfl⟩ := performed.receive_eq rfl
  have origin : sender = source := by
    by_contra other
    rw [broadcasting.elsewhere sender rank (Or.inl other)] at arrived
    cases arrived
  subst origin
  have gone : .sendFd call srcFd rank ∉ left sender := by
    intro waiting
    rw [(broadcasting.unsent rank apart waiting).1] at arrived
    cases arrived
  obtain ⟨flying, waits⟩ := (broadcasting.sent rank apart gone).resolve_right fun done => by
    rw [done.1] at arrived
    cases arrived
  rw [next, List.cons.injEq] at waits
  obtain ⟨-, rfl⟩ := waits
  rw [flying, List.cons.injEq] at arrived
  obtain ⟨rfl, rfl⟩ := arrived
  have accepted := fun state : BrokerState world =>
    show state.accept rank { file := srcFd, payload := sender, call } (.receiveBroadcast call sender) =
      { state with dstFd := writeAt state.dstFd rank call (some srcFd) } from if_pos rfl
  rw [accepted]
  refine ⟨⟨fun destination other waiting => ?_, fun destination other sent => ?_, fun origin receiver foreign => ?_⟩, ?_⟩
  · rw [Function.update_of_ne apart.symm] at waiting
    have here : destination ≠ rank := by
      rintro rfl
      exact gone waiting
    simp only [writeAt_apply, Function.update_of_ne here]
    rw [if_neg fun both => here both.2]
    exact broadcasting.unsent destination other waiting
  · rw [Function.update_of_ne apart.symm] at sent
    simp only [writeAt_apply]
    by_cases here : destination = rank
    · subst here
      rw [if_pos ⟨trivial, rfl⟩, Function.update_self, if_pos ⟨rfl, trivial⟩]
      exact Or.inr ⟨rfl, rfl, rfl⟩
    · rw [if_neg fun both => here both.2, Function.update_of_ne here, if_neg fun both => here both.1]
      exact broadcasting.sent destination other sent
  · have elsewhere : ¬(origin = sender ∧ receiver = rank) := by
      rintro ⟨rfl, rfl⟩
      exact foreign.elim (fun other => other rfl) apart
    simp only [writeAt_apply, if_neg elsewhere]
    exact broadcasting.elsewhere origin receiver foreign
  · have same : ({ file := srcFd, payload := sender, call } : Datagram).call = call := rfl
    exact sound.received same rfl rfl

theorem Broadcasting.step {rank : Rank world} (broadcasting : Broadcasting call srcFd source left shared)
    (sound : Sound shared) (bound : ∀ rank, shared.bound rank = true) (next : left rank = item :: rest)
    (suffix : left rank <:+ Round.work rank (.broadcast call srcFd source))
    (performed : Performs rank item shared shared') :
    Broadcasting call srcFd source (Function.update left rank rest) shared' ∧ Sound shared' := by
  have listed : item ∈ Round.work rank (.broadcast call srcFd source) :=
    suffix.subset (by rw [next]; exact List.mem_cons_self ..)
  by_cases own : rank = source
  · subst own
    rw [work_broadcast_source] at listed
    obtain ⟨target, other, rfl⟩ := List.mem_map.mp listed
    rw [performed.act_eq rfl]
    have acted : shared.act rank (.sendFd call srcFd target) = _ := send_bound_eq (bound target) _
    refine ⟨broadcasting.sendFd (bound target) (mem_others.mp other) next suffix, ?_⟩
    rw [acted]
    exact sound.congr rfl rfl
  · rw [work_broadcast_other own] at listed
    obtain rfl := List.mem_singleton.mp listed
    exact broadcasting.receive sound own next performed

theorem Broadcasting.finished (broadcasting : Broadcasting call srcFd source (fun _ => []) shared) :
    Settled shared (.broadcast call srcFd source) ∧ Silent shared := by
  have done : ∀ destination ≠ source, shared.inbox source destination = [] ∧ shared.dstFd destination call = some srcFd := by
    intro destination apart
    rcases broadcasting.sent destination apart List.not_mem_nil with ⟨_, waits⟩ | ⟨empty, _, kept⟩
    · cases waits
    · exact ⟨empty, kept⟩
  constructor
  · exact fun rank apart => (done rank fun same => apart (by rw [same])).2
  · intro sender receiver
    by_cases foreign : sender ≠ source ∨ receiver = source
    · exact broadcasting.elsewhere sender receiver foreign
    · obtain ⟨own, apart⟩ := not_or.mp foreign
      rw [not_not.mp own]
      exact (done receiver apart).1

theorem Broadcasting.moves (broadcasting : Broadcasting call srcFd source left shared)
    (suffix : ∀ rank, left rank <:+ Round.work rank (.broadcast call srcFd source)) (busy : ∃ rank, left rank ≠ []) :
    ∃ rank item rest shared', left rank = item :: rest ∧ Performs rank item shared shared' := by
  cases ownLeft : left source with
  | cons item rest =>
    have listed : item ∈ Round.work source (.broadcast call srcFd source) :=
      (suffix source).subset (by rw [ownLeft]; exact List.mem_cons_self ..)
    rw [work_broadcast_source] at listed
    obtain ⟨target, _, rfl⟩ := List.mem_map.mp listed
    exact ⟨source, _, rest, _, ownLeft, .act rfl⟩
  | nil =>
    obtain ⟨rank, some⟩ := busy
    have apart : rank ≠ source := by
      rintro rfl
      exact some ownLeft
    rcases broadcasting.sent rank apart (by rw [ownLeft]; exact List.not_mem_nil) with ⟨flying, waits⟩ | ⟨_, none, _⟩
    · exact ⟨rank, _, [], _, waits, .receive rfl flying⟩
    · exact absurd none some

end Ooverlap.Broker
