import Ooverlap.Launch.Registration

/-! What a successful registration guarantees: after an exchange always, without one under symmetric use. -/

namespace Ooverlap.Launch

open Api (OoDtype Address OoBuffer)
open Relation

/-- A rank sends key and descriptor of one buffer, as it expects of its peers. -/
theorem export_describes (answers : IpcAnswers) (buffer : OoBuffer)
    (sent : exportLegacyPeerBufferRange answers buffer = .ok desc) :
    describes (makeIpcImportKey buffer) desc := by
  unfold exportLegacyPeerBufferRange at sent
  dsimp only at sent
  repeat' split at sent
  all_goals cases sent
  exact ⟨rfl, rfl, rfl⟩

section Exchanging

variable {group : LiveGroup} {process : Process}

/-- The rank is bound to a live mapping of the buffer that the key names. -/
def PresentsImport (group : LiveGroup) (process : Process) (rank : Nat) (wanted : IpcImportKey) : Prop :=
  ∃ address buffer, process.collectiveBuffers rank = some address ∧ process.heap address = some buffer ∧
    ImportOf group rank wanted buffer

theorem Presents.mapping (sound : Sound group process) (presents : Presents process rank wanted) :
    PresentsImport group process rank wanted := by
  obtain ⟨slot, ⟨valid, same⟩, bound⟩ := presents
  obtain ⟨address, buffer, held, live, import_⟩ := (sound.cached rank slot valid).buffer
  rw [same] at import_
  exact ⟨address, buffer, bound.trans held, live, import_⟩

/-- Whatever calls came before and failed, a registration that exchanges keys and succeeds binds the own rank to
the given buffer and every peer to a live mapping of the buffer whose key it has just sent. -/
theorem exchange_binds (node : OoNode group) (answers : IpcAnswers) (run : ReflTransGen (Step group) {} process)
    (own : OwnBuffer node process mine buffer)
    (exchanging : ipcSymmetricLocalKeyFastPathReady group process node.rank (makeIpcImportKey buffer) = false)
    (done : (ensureIpcLegacyCollectiveBuffersRegistered node answers mine buffer process).1 = .success) :
    (ensureIpcLegacyCollectiveBuffersRegistered node answers mine buffer process).2.collectiveBuffers node.rank =
        some mine ∧
      ∃ keys, answers.peerKeys = .ok keys ∧ ∀ rank < group.worldSize, rank ≠ node.rank →
        PresentsImport group (ensureIpcLegacyCollectiveBuffersRegistered node answers mine buffer process).2 rank
          (keys rank) := by
  have registered := ensure_registered (run_sound group run) answers own
  refine ⟨registered.own done, ?_⟩
  rcases registered.presents done with fast | exchanged
  · rw [exchanging] at fast
    cases fast.1
  · obtain ⟨keys, answered, presents⟩ := exchanged
    exact ⟨keys, answered, fun rank inside peer => (presents rank inside peer).mapping registered.sound⟩

theorem exchange_binds_wrapped :
    ∃ keys, peerAnswers.peerKeys = .ok keys ∧ ∀ rank < twoProcesses.worldSize, rank ≠ nodeZero.rank →
      PresentsImport twoProcesses
        (ensureIpcLegacyCollectiveBuffersRegistered nodeZero peerAnswers 1 wrapperOne wrappedOne).2 rank (keys rank) :=
  (exchange_binds nodeZero peerAnswers (.single ⟨none, .wrap nodeZero 64 1024 none⟩) wrapperOne_own (by decide)
    (by decide)).2

/-- Why `Whole` is asked for below: a registration that failed at a peer has already bound its own rank, so that once
every peer is bound to some import, repeating it succeeds without any exchange and binds no peer anew. -/
theorem retry_unchecked {node : OoNode group} (sound : Sound group process) (own : OwnBuffer node process mine buffer)
    (wrapped : buffer.systemKind = .wrapped) (pointer : buffer.ptr ≠ 0)
    (bound : process.collectiveBuffers node.rank = some mine)
    (peers : ∀ rank < group.worldSize, rank ≠ node.rank → ∃ wanted, Presents process rank wanted)
    (answers : IpcAnswers) :
    ensureIpcLegacyCollectiveBuffersRegistered node answers mine buffer process = (.success, process) := by
  have mapped : ∀ rank < group.worldSize, rank ≠ node.rank → ∃ address mapping,
      process.collectiveBuffers rank = some address ∧ process.heap address = some mapping ∧
        mapping.ptr ≠ 0 ∧ mapping.ownerRank = rank ∧ mapping.ownerDevice = group.devices rank ∧
        mapping.systemKind = .importedLegacy := by
    intro rank inside peer
    obtain ⟨wanted, presents⟩ := peers rank inside peer
    obtain ⟨address, mapping, shown, live, of⟩ := presents.mapping sound
    exact ⟨address, mapping, shown, live, of.mapped, of.owner, of.device, of.kind⟩
  have ready : ipcSymmetricLocalKeyFastPathReady group process node.rank (makeIpcImportKey buffer) = true := by
    unfold ipcSymmetricLocalKeyFastPathReady
    rw [Bool.and_eq_true]
    constructor
    · simp [bound, Process.deref, own.live, pointer]
    · refine List.all_eq_true.mpr ?_
      intro rank member
      by_cases here : rank = node.rank
      · simp [here]
      · obtain ⟨address, mapping, shown, live, filled, owner, device, kind⟩ :=
          mapped rank (List.mem_range.mp member) here
        simp [here, Process.deref, shown, live, filled, owner, device, kind]
  rw [ensureIpcLegacyCollectiveBuffersRegistered, if_neg fun other => other wrapped, if_pos ready]
  simp [Process.present, ← bound]

end Exchanging

section Symmetric

variable {group : LiveGroup} (node : OoNode group) (partner : IpcImportKey → Nat → IpcImportKey)

/-- The peers present the partners of the own buffer. -/
def Symmetric (buffer : OoBuffer) (answers : IpcAnswers) : Prop :=
  ∀ keys, answers.peerKeys = .ok keys → ∀ rank ≠ node.rank, keys rank = partner (makeIpcImportKey buffer) rank

/-- The registration succeeds, or fails before it has changed anything. -/
def Whole (answers : IpcAnswers) (mine : Address) (buffer : OoBuffer) (process : Process) : Prop :=
  (ensureIpcLegacyCollectiveBuffersRegistered node answers mine buffer process).1 = .success ∨
    (ensureIpcLegacyCollectiveBuffersRegistered node answers mine buffer process).2 = process

/-- A call, without prebound buffers, of a rank whose uses are symmetric and whose registrations are whole. -/
inductive SymmetricStep : Process → Process → Prop
  | wrap (ptr bytes : Nat) (range : Option OoBufferIpcRange) :
    SymmetricStep process (ooBufferWrapIpcRange node ptr bytes range process).2
  | alloc (bytes : Nat) (mapped : Except Thrown (Address × Nat)) :
    SymmetricStep process (ooBufferAlloc node bytes mapped process).2
  | destroy (own : OwnBuffer node process address buffer) : SymmetricStep process (ooBufferDestroy address process)
  | register (answers : IpcAnswers) (own : OwnBuffer node process address buffer)
    (symmetric : Symmetric node partner buffer answers) (whole : Whole node answers address buffer process) :
    SymmetricStep process (registerIpcCollectiveBuffers node answers address buffer process).2
  | prepareFast (answers : IpcAnswers) (own : OwnBuffer node process address buffer)
    (symmetric : Symmetric node partner buffer answers) (whole : Whole node answers address buffer process)
    (offsetBytes bytes : Nat) :
    SymmetricStep process
      (prepareFastAllreduceLaunch node answers (some address) none offsetBytes bytes process).2
  | prepare (answers : IpcAnswers) (own : OwnBuffer node process address buffer)
    (symmetric : Symmetric node partner buffer answers) (whole : Whole node answers address buffer process)
    (elementOffset count : Nat) (dtype : OoDtype) :
    SymmetricStep process
      (prepareCollectiveLaunchImpl node answers (some address) none elementOffset count dtype process).2

/-- While a wrapper of the own rank is bound, other than by a registration that then failed, and every peer is bound, the
peers are bound to the wrapper's partners. -/
structure Current (failed : Option Address) (process : Process) : Prop where
  sound : Sound group process
  spent : ∀ address buffer, process.heap address = some buffer → UserOwned buffer →
    buffer.ipcCacheToken < process.nextToken
  tokens : ∀ address other buffer twin, process.heap address = some buffer → process.heap other = some twin →
    UserOwned buffer → UserOwned twin → buffer.ipcCacheToken = twin.ipcCacheToken → address = other
  own : ∀ address buffer, process.collectiveBuffers node.rank = some address →
    process.heap address = some buffer → UserOwned buffer
  partners : ∀ address buffer, process.collectiveBuffers node.rank = some address →
    process.heap address = some buffer → buffer.systemKind = .wrapped → failed ≠ some address →
    (∀ rank < group.worldSize, rank ≠ node.rank → process.collectiveBuffers rank ≠ none) →
    ∀ rank < group.worldSize, rank ≠ node.rank → Presents process rank (partner (makeIpcImportKey buffer) rank)

/-- The wrapper is not one that a registration has bound before it failed, or the fast path is not taken for it. -/
def Fresh (failed : Option Address) (mine : Address) (buffer : OoBuffer) (process : Process) : Prop :=
  failed = some mine → ipcSymmetricLocalKeyFastPathReady group process node.rank (makeIpcImportKey buffer) = false

variable {node partner} {process : Process} {failed : Option Address}

theorem fresh_none : Fresh node none mine buffer process :=
  fun bound => absurd bound (Option.some_ne_none mine).symm

theorem current_start : Current node partner none {} where
  sound := sound_start group
  spent := nofun
  tokens := nofun
  own := nofun
  partners := nofun

/-- The fast path is taken for the very buffer bound before. -/
theorem fastPath_same (current : Current node partner failed process) (own : OwnBuffer node process mine buffer)
    (ready : ipcSymmetricLocalKeyFastPathReady group process node.rank (makeIpcImportKey buffer) = true) :
    process.collectiveBuffers node.rank = some mine ∧
      ∀ rank < group.worldSize, rank ≠ node.rank → process.collectiveBuffers rank ≠ none := by
  unfold ipcSymmetricLocalKeyFastPathReady at ready
  rw [Bool.and_eq_true] at ready
  obtain ⟨first, second⟩ := ready
  constructor
  · cases bound : process.collectiveBuffers node.rank with
    | none =>
      rw [bound] at first
      cases first
    | some address =>
      cases live : process.heap address with
      | none =>
        simp [bound, Process.deref, live] at first
      | some previous =>
        simp only [bound, Process.deref, Option.bind_some, live, Bool.and_eq_true, decide_eq_true_eq] at first
        have token : previous.ipcCacheToken = buffer.ipcCacheToken := congrArg IpcImportKey.cacheToken first.2
        rw [current.tokens address mine previous buffer live own.live (current.own address previous bound live)
          own.owned token]
  · intro rank inside peer unbound
    have here := List.all_eq_true.mp second rank (List.mem_range.mpr inside)
    simp [peer, unbound, Process.deref] at here

/-- Under symmetric use a successful registration is current, also where it did not exchange. -/
theorem registered_partners (current : Current node partner failed process) (own : OwnBuffer node process mine buffer)
    (symmetric : Symmetric node partner buffer answers) (fresh : Fresh node failed mine buffer process)
    (done : (ensureIpcLegacyCollectiveBuffersRegistered node answers mine buffer process).1 = .success) :
    ∀ rank < group.worldSize, rank ≠ node.rank →
      Presents (ensureIpcLegacyCollectiveBuffersRegistered node answers mine buffer process).2 rank
        (partner (makeIpcImportKey buffer) rank) := by
  have wrapped : buffer.systemKind = .wrapped := by
    by_contra other
    rw [ensureIpcLegacyCollectiveBuffersRegistered, if_pos other] at done
    cases done
  have registered := ensure_registered current.sound answers own
  intro rank inside peer
  rcases registered.presents done with fast | exchanged
  · obtain ⟨ready, same⟩ := fast
    obtain ⟨bound, all⟩ := fastPath_same current own ready
    have unfailed : failed ≠ some mine := fun again => by
      rw [fresh again] at ready
      cases ready
    rw [same]
    have here := current.partners mine buffer bound own.live wrapped unfailed all rank inside peer
    unfold Presents
    rw [present_collectiveBuffers, if_neg peer]
    exact here
  · obtain ⟨keys, answered, presents⟩ := exchanged
    rw [← symmetric keys answered rank peer]
    exact presents rank inside peer

/-- The wrapper bound by a registration is the given one. -/
theorem bound_buffer (registered : Registered node answers mine buffer process result)
    (own : OwnBuffer node process mine buffer) (bound : result.2.collectiveBuffers node.rank = some mine)
    (shown : result.2.collectiveBuffers node.rank = some address) (live : result.2.heap address = some stored) :
    stored = buffer := by
  have mineLive := (registered.kept.owned mine buffer own.owned).mpr own.live
  rw [bound] at shown
  rw [← Option.some.inj shown] at live
  exact Option.some.inj (live.symm.trans mineLive)

/-- A registration that has bound the own rank, whether or not it succeeded, leaves the wrappers as they were. -/
theorem registered_wrappers (current : Current node partner failed process)
    (registered : Registered node answers mine buffer process result) (own : OwnBuffer node process mine buffer)
    (bound : result.2.collectiveBuffers node.rank = some mine)
    (partners : ∀ address stored, result.2.collectiveBuffers node.rank = some address →
      result.2.heap address = some stored → stored.systemKind = .wrapped → after ≠ some address →
      (∀ rank < group.worldSize, rank ≠ node.rank → result.2.collectiveBuffers rank ≠ none) →
      ∀ rank < group.worldSize, rank ≠ node.rank →
        Presents result.2 rank (partner (makeIpcImportKey stored) rank)) :
    Current node partner after result.2 where
  sound := registered.sound
  spent address stored live owned := by
    rw [registered.kept.token]
    exact current.spent address stored ((registered.kept.owned address stored owned).mp live) owned
  tokens address other stored twin live there owned ownedTwin :=
    current.tokens address other stored twin ((registered.kept.owned address stored owned).mp live)
      ((registered.kept.owned other twin ownedTwin).mp there) owned ownedTwin
  own address stored shown live := by
    rw [bound_buffer registered own bound shown live]
    exact own.owned
  partners := partners

theorem succeeded_current (current : Current node partner failed process) (own : OwnBuffer node process mine buffer)
    (symmetric : Symmetric node partner buffer answers) (fresh : Fresh node failed mine buffer process)
    (done : (ensureIpcLegacyCollectiveBuffersRegistered node answers mine buffer process).1 = .success) :
    Current node partner none (ensureIpcLegacyCollectiveBuffersRegistered node answers mine buffer process).2 := by
  have registered := ensure_registered current.sound answers own
  have bound := registered.own done
  refine registered_wrappers current registered own bound ?_
  intro address stored shown live _ _ _
  rw [bound_buffer registered own bound shown live]
  exact registered_partners current own symmetric fresh done

theorem registered_current (current : Current node partner none process) (own : OwnBuffer node process mine buffer)
    (symmetric : Symmetric node partner buffer answers) (whole : Whole node answers mine buffer process) :
    Current node partner none (ensureIpcLegacyCollectiveBuffersRegistered node answers mine buffer process).2 := by
  rcases whole with done | same
  · exact succeeded_current current own symmetric fresh_none done
  · rw [same]
    exact current

theorem advanced_current (current : Current node partner failed process) :
    Current node partner failed (advanceEpoch node process) where
  sound := advanceEpoch_sound node current.sound
  spent := current.spent
  tokens := current.tokens
  own := current.own
  partners := current.partners

theorem newWrapper_current {stored : OoBuffer} (current : Current node partner failed process)
    (grouped : stored.group = group.address) (owner : stored.ownerRank = node.rank) (owned : UserOwned stored)
    (token : stored.ipcCacheToken = process.nextToken) :
    Current node partner failed { process.allocate stored with nextToken := process.nextToken + 1 } ∧
      (stored.systemKind ≠ .wrapped →
        Current node partner failed ({ process.allocate stored with nextToken := process.nextToken + 1 }.present node.rank
          (some process.nextAddress))) := by
  obtain ⟨counted, shown⟩ := newWrapper_sound node current.sound grouped owner owned (process.nextToken + 1)
  have spent : ∀ address buffer, (process.allocate stored).heap address = some buffer → UserOwned buffer →
      buffer.ipcCacheToken < process.nextToken + 1 := by
    intro address buffer live own
    rw [allocate_heap] at live
    split at live
    · rw [← Option.some.inj live, token]
      exact Nat.lt_succ_self _
    · exact Nat.lt_succ_of_lt (current.spent address buffer live own)
  have tokens : ∀ address other buffer twin, (process.allocate stored).heap address = some buffer →
      (process.allocate stored).heap other = some twin → UserOwned buffer → UserOwned twin →
      buffer.ipcCacheToken = twin.ipcCacheToken → address = other := by
    intro address other buffer twin live there own ownTwin same
    rw [allocate_heap] at live there
    split at live
    · rename_i new
      split at there
      · rename_i newTwin
        exact new.trans newTwin.symm
      · have older := current.spent other twin there ownTwin
        rw [← Option.some.inj live, token] at same
        omega
    · split at there
      · have older := current.spent address buffer live own
        rw [← Option.some.inj there, token] at same
        omega
      · exact current.tokens address other buffer twin live there own ownTwin same
  have bound : ∀ address buffer, process.collectiveBuffers node.rank = some address →
      (process.allocate stored).heap address = some buffer → process.heap address = some buffer := by
    intro address buffer showing live
    obtain ⟨before, alive, _⟩ := current.sound.presented node.rank address showing
    rw [← Option.some.inj ((allocate_live current.sound stored alive).symm.trans live)]
    exact alive
  constructor
  · exact
      { sound := counted
        spent
        tokens
        own := fun address buffer showing live =>
          current.own address buffer showing (bound address buffer showing live)
        partners := fun address buffer showing live =>
          current.partners address buffer showing (bound address buffer showing live) }
  · intro unwrapped
    have mine : (process.allocate stored).heap process.nextAddress = some stored := by
      rw [allocate_heap, if_pos rfl]
    have only : ∀ address buffer, ({ process.allocate stored with
        nextToken := process.nextToken + 1 }.present node.rank
          (some process.nextAddress)).collectiveBuffers node.rank = some address →
        (process.allocate stored).heap address = some buffer → buffer = stored := by
      intro address buffer showing live
      rw [present_collectiveBuffers, if_pos rfl] at showing
      rw [← Option.some.inj showing] at live
      exact Option.some.inj (live.symm.trans mine)
    exact
      { sound := shown
        spent
        tokens
        own := fun address buffer showing live => (only address buffer showing live).symm ▸ owned
        partners := fun address buffer showing live wrapped =>
          absurd ((only address buffer showing live) ▸ wrapped) unwrapped }

theorem destroyed_current (current : Current node partner failed process)
    (own : OwnBuffer node process gone buffer) : Current node partner failed (ooBufferDestroy gone process) := by
  have released := destroy_sound current.sound own.live own.owned
  have heap : ∀ address, (ooBufferDestroy gone process).heap address =
      if address = gone then none else process.heap address := by
    intro address
    unfold ooBufferDestroy
    rw [own.live]
    dsimp only
    rw [free_heap, (unregister_kept process gone buffer).1]
  have rows : (ooBufferDestroy gone process).importCache = process.importCache := by
    unfold ooBufferDestroy
    rw [own.live]
    exact (unregister_kept process gone buffer).2
  have token : (ooBufferDestroy gone process).nextToken = process.nextToken := by
    unfold ooBufferDestroy unregisterCollectiveBuffer
    rw [own.live]
    dsimp only
    split <;> rfl
  have bindings : ∀ rank, (ooBufferDestroy gone process).collectiveBuffers rank = process.collectiveBuffers rank ∨
      rank = node.rank ∧ (ooBufferDestroy gone process).collectiveBuffers rank = none := by
    intro rank
    unfold ooBufferDestroy unregisterCollectiveBuffer
    rw [own.live]
    dsimp only
    split
    · by_cases mine : rank = node.rank
      · refine .inr ⟨mine, ?_⟩
        refine (present_collectiveBuffers _ none rank).trans (if_pos ?_)
        rw [own.rank, mine]
        rfl
      · refine .inl ((present_collectiveBuffers _ none rank).trans (if_neg ?_))
        rw [own.rank]
        exact mine
    · exact .inl rfl
  have older : ∀ address stored, (ooBufferDestroy gone process).heap address = some stored →
      process.heap address = some stored := by
    intro address stored live
    rw [heap] at live
    split at live
    · cases live
    · exact live
  have shown : ∀ address, (ooBufferDestroy gone process).collectiveBuffers node.rank = some address →
      process.collectiveBuffers node.rank = some address := by
    intro address showing
    rcases bindings node.rank with same | cleared
    · exact same.symm.trans showing
    · rw [cleared.2] at showing
      cases showing
  have peers : ∀ rank ≠ node.rank,
      (ooBufferDestroy gone process).collectiveBuffers rank = process.collectiveBuffers rank := by
    intro rank peer
    exact (bindings rank).resolve_right fun cleared => peer cleared.1
  refine ⟨released, ?_, ?_, ?_, ?_⟩
  · intro address stored live owned
    rw [token]
    exact current.spent address stored (older address stored live) owned
  · intro address other stored twin live there
    exact current.tokens address other stored twin (older address stored live) (older other twin there)
  · intro address stored showing live
    exact current.own address stored (shown address showing) (older address stored live)
  · intro address stored showing live wrapped unfailed all rank inside peer
    have before : ∀ other < group.worldSize, other ≠ node.rank → process.collectiveBuffers other ≠ none := by
      intro other within peerOther
      rw [← peers other peerOther]
      exact all other within peerOther
    have here := current.partners address stored (shown address showing) (older address stored live) wrapped unfailed
      before rank inside peer
    unfold Presents Matches
    rw [rows, peers rank peer]
    exact here

theorem prepared_current (ipc : group.bootstrapKind = .multiprocessIpc) (current : Current node partner none process)
    (own : OwnBuffer node process address buffer) (symmetric : Symmetric node partner buffer answers)
    (whole : Whole node answers address buffer process)
    (prepared : Prepared node answers (some address) none process after advanced) : Current node partner none after := by
  have registered : Current node partner none (registerRankBuffers node answers none address buffer process).2 := by
    simp only [registerRankBuffers, if_pos ipc]
    exact registered_current current own symmetric whole
  cases prepared with
  | refused => exact current
  | registered given live =>
    cases given
    rw [← Option.some.inj (own.live.symm.trans live)]
    exact registered
  | advanced given live _ =>
    cases given
    rw [← Option.some.inj (own.live.symm.trans live)]
    exact advanced_current registered

theorem symmetricStep_current (ipc : group.bootstrapKind = .multiprocessIpc) (current : Current node partner none process)
    (taken : SymmetricStep node partner process after) : Current node partner none after := by
  cases taken with
  | wrap ptr bytes range =>
    unfold ooBufferWrapIpcRange
    split
    · exact current
    · split
      · exact current
      · exact (newWrapper_current current rfl rfl (.inl rfl) rfl).1
  | alloc bytes mapped =>
    unfold ooBufferAlloc
    split
    · exact current
    · split
      · exact current
      · exact (newWrapper_current current rfl rfl (.inr rfl) rfl).2 nofun
  | destroy own => exact destroyed_current current own
  | register answers own symmetric whole =>
    unfold registerIpcCollectiveBuffers
    split
    · exact current
    · exact registered_current current own symmetric whole
  | prepareFast answers own symmetric whole offsetBytes bytes =>
    exact prepared_current ipc current own symmetric whole
      (prepareFast_prepared answers _ none offsetBytes bytes)
  | prepare answers own symmetric whole elementOffset count dtype =>
    exact prepared_current ipc current own symmetric whole
      (prepareImpl_prepared answers _ none elementOffset count dtype)

theorem symmetricRun_current (ipc : group.bootstrapKind = .multiprocessIpc)
    (run : ReflTransGen (SymmetricStep node partner) {} process) : Current node partner none process :=
  Interleaving.invariant (Current node partner none) current_start (fun _ _ => symmetricStep_current ipc) run

/-- Under symmetric use, and while no registration fails halfway, every successful registration binds each peer to a
live mapping of the partner of the given buffer, whether or not it has exchanged keys. -/
theorem symmetric_binds (ipc : group.bootstrapKind = .multiprocessIpc)
    (run : ReflTransGen (SymmetricStep node partner) {} process) (own : OwnBuffer node process mine buffer)
    (symmetric : Symmetric node partner buffer answers)
    (done : (ensureIpcLegacyCollectiveBuffersRegistered node answers mine buffer process).1 = .success) :
    ∀ rank < group.worldSize, rank ≠ node.rank →
      PresentsImport group (ensureIpcLegacyCollectiveBuffersRegistered node answers mine buffer process).2 rank
        (partner (makeIpcImportKey buffer) rank) := by
  have current := symmetricRun_current ipc run
  have registered := ensure_registered current.sound answers own
  intro rank inside peer
  exact (registered_partners current own symmetric fresh_none done rank inside peer).mapping registered.sound

def registeredOne : Process := (registerIpcCollectiveBuffers nodeZero peerAnswers 1 wrapperOne wrappedOne).2

theorem registeredOne_own : OwnBuffer nodeZero registeredOne 1 wrapperOne := ⟨by decide, rfl, .inl rfl⟩

theorem peerKey_partner : Symmetric nodeZero (fun _ _ => peerKey) wrapperOne peerAnswers := by
  intro keys answered rank _
  rw [← Except.ok.inj answered]

theorem registeredOne_run : ReflTransGen (SymmetricStep nodeZero fun _ _ => peerKey) {} registeredOne :=
  .tail (.single (.wrap 64 1024 none)) (.register peerAnswers wrapperOne_own peerKey_partner (.inl (by decide)))

/-- The second registration of the wrapper takes the fast path. -/
theorem symmetric_binds_again :
    PresentsImport twoProcesses
      (ensureIpcLegacyCollectiveBuffersRegistered nodeZero peerAnswers 1 wrapperOne registeredOne).2 1 peerKey :=
  symmetric_binds rfl registeredOne_run registeredOne_own peerKey_partner (by decide) 1 (by decide) (by decide)

end Symmetric

end Ooverlap.Launch
