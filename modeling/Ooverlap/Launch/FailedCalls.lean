import Ooverlap.Launch.PreparedLaunches

/-! What calls that fail leave behind, and when a later registration relies on it. -/

namespace Ooverlap.Launch

open Api (OoStatus OoDtype Address OoBuffer)
open Relation

section Registrations

variable {group : LiveGroup} (node : OoNode group) (partner : IpcImportKey → Nat → IpcImportKey)

/-- Whether a registration gets as far as binding the own rank after an exchange. -/
def bindsOwn (answers : IpcAnswers) (buffer : OoBuffer) (process : Process) : Bool :=
  buffer.systemKind = .wrapped &&
    !ipcSymmetricLocalKeyFastPathReady group process node.rank (makeIpcImportKey buffer) && answers.peerKeys.isOk

/-- The wrapper that was bound last by a registration that then failed. -/
def failedAfter (answers : IpcAnswers) (mine : Address) (buffer : OoBuffer) (process : Process)
    (failed : Option Address) : Option Address :=
  if (ensureIpcLegacyCollectiveBuffersRegistered node answers mine buffer process).1 = .success then none
  else if bindsOwn node answers buffer process then some mine
  else failed

/-- What the calls of a rank do to its tables, one thing after another, each registration with answers of its own. -/
inductive RankStep (admits : Option Address → Address → OoBuffer → Process → Prop) :
    Process × Option Address → Process × Option Address → Prop
  | wrap (ptr bytes : Nat) (range : Option OoBufferIpcRange) :
    RankStep admits (process, failed) ((ooBufferWrapIpcRange node ptr bytes range process).2, failed)
  | alloc (bytes : Nat) (mapped : Except Thrown (Address × Nat)) :
    RankStep admits (process, failed) ((ooBufferAlloc node bytes mapped process).2, failed)
  | destroy (own : OwnBuffer node process address buffer) :
    RankStep admits (process, failed) (ooBufferDestroy address process, failed)
  | ensure (answers : IpcAnswers) (own : OwnBuffer node process mine buffer)
    (symmetric : Symmetric node partner buffer answers) (admitted : admits failed mine buffer process) :
    RankStep admits (process, failed)
      ((ensureIpcLegacyCollectiveBuffersRegistered node answers mine buffer process).2,
        failedAfter node answers mine buffer process failed)
  | advance : RankStep admits (process, failed) (advanceEpoch node process, failed)

variable {node partner} {process : Process} {failed : Option Address}

/-- Every preparation is made of such steps, whether or not it fails. -/
theorem prepared_steps {admits : Option Address → Address → OoBuffer → Process → Prop}
    (ipc : group.bootstrapKind = .multiprocessIpc) (own : OwnBuffer node process mine buffer)
    (symmetric : Symmetric node partner buffer answers) (admitted : admits failed mine buffer process)
    (prepared : Prepared node answers (some mine) prebound process after advanced) :
    ∃ last, ReflTransGen (RankStep node partner admits) (process, failed) (after, last) := by
  have registers : ∃ last, ReflTransGen (RankStep node partner admits) (process, failed)
      ((registerRankBuffers node answers prebound mine buffer process).2, last) := by
    cases prebound with
    | some bound => exact ⟨failed, .refl⟩
    | none =>
      simp only [registerRankBuffers, if_pos ipc]
      exact ⟨_, .single (.ensure answers own symmetric admitted)⟩
  obtain ⟨last, registers⟩ := registers
  cases prepared with
  | refused => exact ⟨failed, .refl⟩
  | registered given live =>
    cases given
    rw [← Option.some.inj (own.live.symm.trans live)]
    exact ⟨last, registers⟩
  | advanced given live _ =>
    cases given
    rw [← Option.some.inj (own.live.symm.trans live)]
    exact ⟨last, registers.tail .advance⟩

/-- A registration that fails before it binds the own rank changes nothing. -/
theorem ensure_unbound (unbound : bindsOwn node answers buffer process = false)
    (failure : (ensureIpcLegacyCollectiveBuffersRegistered node answers mine buffer process).1 ≠ .success) :
    (ensureIpcLegacyCollectiveBuffersRegistered node answers mine buffer process).2 = process := by
  unfold ensureIpcLegacyCollectiveBuffersRegistered at failure ⊢
  unfold bindsOwn at unbound
  by_cases wrapped : buffer.systemKind = .wrapped
  · by_cases ready : ipcSymmetricLocalKeyFastPathReady group process node.rank (makeIpcImportKey buffer) = true
    · simp [wrapped, ready] at failure
    · cases answered : answers.peerKeys with
      | error thrown => simp [wrapped, ready]
      | ok keys => simp [wrapped, ready, answered, Except.isOk, Except.toBool] at unbound
  · simp [wrapped]

theorem ensure_bound (sound : Sound group process) (own : OwnBuffer node process mine buffer)
    (binds : bindsOwn node answers buffer process = true) :
    (ensureIpcLegacyCollectiveBuffersRegistered node answers mine buffer process).2.collectiveBuffers node.rank =
      some mine := by
  simp only [bindsOwn, Bool.and_eq_true, decide_eq_true_eq, Bool.not_eq_true'] at binds
  obtain ⟨⟨wrapped, unready⟩, answered⟩ := binds
  unfold ensureIpcLegacyCollectiveBuffersRegistered
  cases exchanged : answers.peerKeys with
  | error thrown =>
    rw [exchanged] at answered
    cases answered
  | ok peerKeys =>
    simp only [wrapped, unready, ne_eq, not_true_eq_false, if_false, Bool.false_eq_true]
    obtain ⟨_, _, same, _⟩ := importMissing_presented (presentOwn_sound sound own) answers buffer
      (exchangeData node.rank (makeIpcImportKey buffer) peerKeys) exchanged
      fun rank peer => Function.update_of_ne peer _ _
    exact same.trans ((present_collectiveBuffers node.rank (some mine) node.rank).trans (if_pos rfl))

theorem ensured_current (current : Current node partner failed process) (own : OwnBuffer node process mine buffer)
    (symmetric : Symmetric node partner buffer answers) (fresh : Fresh node failed mine buffer process) :
    Current node partner (failedAfter node answers mine buffer process failed)
      (ensureIpcLegacyCollectiveBuffersRegistered node answers mine buffer process).2 := by
  unfold failedAfter
  split
  · rename_i done
    exact succeeded_current current own symmetric fresh done
  · rename_i failure
    split
    · rename_i binds
      have bound := ensure_bound current.sound own binds
      refine registered_wrappers current (ensure_registered current.sound answers own) own bound ?_
      intro address stored shown _ _ unfailed
      exact absurd (bound.symm.trans shown) unfailed
    · rename_i unbound
      rw [ensure_unbound (Bool.eq_false_of_not_eq_true unbound) failure]
      exact current

theorem rankStep_current (ipc : group.bootstrapKind = .multiprocessIpc) {before after : Process × Option Address}
    (current : Current node partner before.2 before.1) (taken : RankStep node partner (Fresh node) before after) :
    Current node partner after.2 after.1 := by
  cases taken with
  | wrap ptr bytes range =>
    unfold ooBufferWrapIpcRange
    split
    · exact current
    · split
      · exact current
      · exact (newWrapper_current current rfl rfl (.inl rfl) rfl).1
  | alloc bytes mapped =>
    unfold ooBufferAlloc
    split
    · exact current
    · split
      · exact current
      · exact (newWrapper_current current rfl rfl (.inr rfl) rfl).2 nofun
  | destroy own => exact destroyed_current current own
  | ensure answers own symmetric fresh => exact ensured_current current own symmetric fresh
  | advance => exact advanced_current current

theorem rankRun_current (ipc : group.bootstrapKind = .multiprocessIpc)
    (run : ReflTransGen (RankStep node partner (Fresh node)) ({}, none) (process, failed)) :
    Current node partner failed process :=
  Interleaving.invariant (fun state : Process × Option Address => Current node partner state.2 state.1) current_start
    (fun _ _ => rankStep_current ipc) run

/-- Whichever calls fail, a successful registration binds the own buffer and, for every peer, a live mapping of the
buffer that the peer presents in this very call, as long as the fast path is never taken for a wrapper that a
registration has bound before it failed. -/
theorem registrations_bind_current (ipc : group.bootstrapKind = .multiprocessIpc)
    (run : ReflTransGen (RankStep node partner (Fresh node)) ({}, none) (process, failed))
    (own : OwnBuffer node process mine buffer) (symmetric : Symmetric node partner buffer answers)
    (fresh : Fresh node failed mine buffer process)
    (done : (ensureIpcLegacyCollectiveBuffersRegistered node answers mine buffer process).1 = .success) :
    (ensureIpcLegacyCollectiveBuffersRegistered node answers mine buffer process).2.collectiveBuffers node.rank =
        some mine ∧
      ∀ rank < group.worldSize, rank ≠ node.rank →
        PresentsImport group (ensureIpcLegacyCollectiveBuffersRegistered node answers mine buffer process).2 rank
          (partner (makeIpcImportKey buffer) rank) := by
  have current := rankRun_current ipc run
  have registered := ensure_registered current.sound answers own
  refine ⟨registered.own done, fun rank inside peer => ?_⟩
  exact (registered_partners current own symmetric fresh done rank inside peer).mapping registered.sound

/-- The peer has one buffer for each of the rank's own. -/
def sameToken (own : IpcImportKey) (_ : Nat) : IpcImportKey := { peerKey with cacheToken := own.cacheToken }

def wrapperTwo : OoBuffer := { wrapperOne with ptr := 2048, ipcBasePtr := 2048, ipcCacheToken := 2 }

/-- The peer presents its second buffer, which cannot be mapped. -/
def unmappable : IpcAnswers where
  peerKeys := .ok fun _ => { peerKey with cacheToken := 2 }
  peerMasks := .ok fun _ => 0
  exportHandle := .ok 7
  peerDescs := .ok fun _ => { handle := 9, bytes := 1024, mappedSize := 1024, logicalOffset := 0, ownerDevice := 1 }
  importHandle _ _ := .error .other
  mapped := nofun
  honest _ _ _ answered sent := by
    rw [← Except.ok.inj answered, ← Except.ok.inj sent]
    exact ⟨rfl, rfl, rfl⟩

/-- Both wrappers, the first of them registered. -/
def firstRegistered : Process :=
  (ensureIpcLegacyCollectiveBuffersRegistered nodeZero peerAnswers 1 wrapperOne
    (ooBufferWrapIpcRange nodeZero 2048 1024 none wrappedOne).2).2

/-- The registration of the second has failed at the peer. -/
def secondFailed : Process :=
  (ensureIpcLegacyCollectiveBuffersRegistered nodeZero unmappable 2 wrapperTwo firstRegistered).2

theorem sameToken_one : Symmetric nodeZero sameToken wrapperOne peerAnswers := by
  intro keys answered rank _
  rw [← Except.ok.inj answered]
  rfl

theorem sameToken_two : Symmetric nodeZero sameToken wrapperTwo unmappable := by
  intro keys answered rank _
  rw [← Except.ok.inj answered]
  rfl

theorem secondFailed_run {admits : Option Address → Address → OoBuffer → Process → Prop}
    (admitted : ∀ mine buffer process, admits none mine buffer process) :
    ReflTransGen (RankStep nodeZero sameToken admits) ({}, none) (secondFailed, some 2) := by
  have wrapped : ReflTransGen (RankStep nodeZero sameToken admits) ({}, none)
      ((ooBufferWrapIpcRange nodeZero 2048 1024 none wrappedOne).2, none) :=
    .tail (.single (.wrap 64 1024 none)) (.wrap 2048 1024 none)
  have first : RankStep nodeZero sameToken admits ((ooBufferWrapIpcRange nodeZero 2048 1024 none wrappedOne).2, none)
      (firstRegistered, none) :=
    .ensure peerAnswers ⟨by decide, rfl, .inl rfl⟩ sameToken_one (admitted _ _ _)
  have second : RankStep nodeZero sameToken admits (firstRegistered, none) (secondFailed, some 2) :=
    .ensure unmappable ⟨by decide, rfl, .inl rfl⟩ sameToken_two (admitted _ _ _)
  exact (wrapped.tail first).tail second

/-- Registering the second wrapper again succeeds by the fast path and leaves the peer's first buffer bound. -/
theorem retried_stale :
    ReflTransGen (RankStep nodeZero sameToken fun _ _ _ _ => True) ({}, none) (secondFailed, some 2) ∧
      OwnBuffer nodeZero secondFailed 2 wrapperTwo ∧ Symmetric nodeZero sameToken wrapperTwo unmappable ∧
      (ensureIpcLegacyCollectiveBuffersRegistered nodeZero unmappable 2 wrapperTwo secondFailed).1 = .success ∧
      ¬PresentsImport twoProcesses
        (ensureIpcLegacyCollectiveBuffersRegistered nodeZero unmappable 2 wrapperTwo secondFailed).2 1
        (sameToken (makeIpcImportKey wrapperTwo) 1) := by
  refine ⟨secondFailed_run fun _ _ _ => trivial, ⟨by decide, rfl, .inl rfl⟩, sameToken_two, by decide, ?_⟩
  intro presents
  obtain ⟨address, buffer, bound, live, of⟩ := presents
  have stale : (ensureIpcLegacyCollectiveBuffersRegistered nodeZero unmappable 2 wrapperTwo
      secondFailed).2.collectiveBuffers 1 = some 3 := by decide
  obtain rfl := Option.some.inj (stale.symm.trans bound)
  have token : ((ensureIpcLegacyCollectiveBuffersRegistered nodeZero unmappable 2 wrapperTwo
      secondFailed).2.heap 3).map OoBuffer.ipcCacheToken = some 1 := by decide
  rw [live] at token
  exact absurd (of.token.symm.trans (Option.some.inj token)) (by decide)

/-- After the failure the first wrapper can be registered again, by an exchange. -/
theorem registrations_bind_current_first :
    PresentsImport twoProcesses
      (ensureIpcLegacyCollectiveBuffersRegistered nodeZero peerAnswers 1 wrapperOne secondFailed).2 1
      (sameToken (makeIpcImportKey wrapperOne) 1) :=
  (registrations_bind_current rfl (secondFailed_run fun _ _ _ => fresh_none) ⟨by decide, rfl, .inl rfl⟩ sameToken_one
    (fun same => absurd same (by decide)) (by decide)).2 1 (by decide) (by decide)

end Registrations

section Preparations

variable {group : LiveGroup} (node : OoNode group)

variable {node} {process : Process}

end Preparations

end Ooverlap.Launch
