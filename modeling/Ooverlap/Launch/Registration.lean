import Ooverlap.Launch.ImportCache
import Ooverlap.Support.Interleaving

/-! Registrations and preparations as a whole: what a call leaves in the tables, and what holds over all runs. -/

namespace Ooverlap.Launch

open Api (OoStatus OoDtype Address OoBuffer)
open Relation

section Bindings

variable {group : LiveGroup} {process : Process}

theorem present_sound (sound : Sound group process) (inside : rank < group.worldSize)
    (live : process.heap address = some buffer) (owner : buffer.ownerRank = rank)
    (source : UserOwned buffer ∨ ∃ slot, (process.importCache rank slot).buffer = some address) :
    Sound group (process.present rank (some address)) where
  fresh := sound.fresh
  grouped := sound.grouped
  cached other slot valid :=
    ⟨(sound.cached other slot valid).inside, (sound.cached other slot valid).buffer⟩
  empty := sound.empty
  apart := sound.apart
  keys := sound.keys
  clock := sound.clock
  recent := sound.recent
  presented other shown showing := by
    rw [present_collectiveBuffers] at showing
    split at showing
    · rename_i same
      subst same
      rw [← Option.some.inj showing]
      exact ⟨buffer, live, owner, source⟩
    · exact sound.presented other shown showing
  ranks other outside := by
    rw [present_collectiveBuffers, if_neg]
    · exact sound.ranks other outside
    · exact fun same => Nat.not_lt.mpr outside (same ▸ inside)

theorem unpresent_sound (sound : Sound group process) (rank : Nat) : Sound group (process.present rank none) where
  fresh := sound.fresh
  grouped := sound.grouped
  cached other slot valid :=
    ⟨(sound.cached other slot valid).inside, (sound.cached other slot valid).buffer⟩
  empty := sound.empty
  apart := sound.apart
  keys := sound.keys
  clock := sound.clock
  recent := sound.recent
  presented other shown showing := by
    rw [present_collectiveBuffers] at showing
    split at showing
    · cases showing
    · exact sound.presented other shown showing
  ranks other outside := by
    rw [present_collectiveBuffers]
    split
    · rfl
    · exact sound.ranks other outside

theorem presentOwn_sound {node : OoNode group} (sound : Sound group process)
    (own : OwnBuffer node process address buffer) : Sound group (process.present node.rank (some address)) :=
  present_sound sound node.within own.live own.rank (.inl own.owned)

theorem advanceEpoch_sound (node : OoNode group) (sound : Sound group process) :
    Sound group (advanceEpoch node process) :=
  (⟨rfl, rfl, rfl, fun _ _ => rfl, fun _ _ => rfl, fun _ _ => rfl⟩ :
    Touched process (advanceEpoch node process)).sound sound sound.clock sound.recent

theorem countToken_sound (sound : Sound group process) (token : Nat) :
    Sound group { process with nextToken := token } :=
  (⟨rfl, rfl, rfl, fun _ _ => rfl, fun _ _ => rfl, fun _ _ => rfl⟩ :
    Touched process { process with nextToken := token }).sound sound sound.clock sound.recent

end Bindings

section Peers

variable {group : LiveGroup} {process : Process} {node : OoNode group}

/-- The rank presents the import that the cache holds for the key. -/
def Presents (process : Process) (rank : Nat) (wanted : IpcImportKey) : Prop :=
  ∃ slot, Matches process rank wanted (some slot) ∧
    process.collectiveBuffers rank = (process.importCache rank slot).buffer

theorem Presents.frame (presents : Presents process rank wanted) (frame : Frame ranks process after)
    (apart : rank ∉ ranks) : Presents after rank wanted := by
  unfold Presents Matches
  rw [frame.rows rank apart, frame.bindings rank apart]
  exact presents

theorem Matches.frame (found : Matches process rank wanted hit) (frame : Frame ranks process after)
    (apart : rank ∉ ranks) : Matches after rank wanted hit := by
  cases hit with
  | some slot =>
    unfold Matches
    rw [frame.rows rank apart]
    exact found
  | none =>
    unfold Matches
    rw [frame.rows rank apart]
    exact found

/-- What is left once the peers of a list have been gone through. -/
structure PeersPresented (group : LiveGroup) (ownRank : Nat) (keys : Nat → IpcImportKey) (ranks : List Nat)
    (before : Process) (result : OoStatus × Process) : Prop where
  sound : Sound group result.2
  frame : Frame (ranks.filter (· ≠ ownRank)) before result.2
  presents : result.1 = .success → ∀ rank ∈ ranks, rank ≠ ownRank → Presents result.2 rank (keys rank)

theorem peerEntry_imported (sound : Sound group process) (answers : IpcAnswers) (keys : Nat → IpcImportKey)
    (hits : Nat → Option Nat) (descs : Option (Nat → LegacyPeerBufferDescriptor))
    (found : Matches process rank (keys rank) (hits rank))
    (described : ∀ sent, descs = some sent → describes (keys rank) (sent rank)) :
    Imported group rank (keys rank) process (peerEntry group answers keys hits descs rank process) := by
  unfold peerEntry
  cases hit : hits rank with
  | some slot =>
    rw [hit] at found
    refine ⟨sound, .refl [rank] process, ?_, nofun⟩
    intro other same
    rw [← Except.ok.inj same]
    exact found
  | none =>
    rw [hit] at found
    cases descs with
    | none => exact ⟨sound, .refl [rank] process, nofun, fun _ failed => Except.error.inj failed ▸ nofun⟩
    | some sent => exact import_imported sound answers rank (keys rank) (sent rank) found (described sent rfl)

theorem filter_peer (rank : Nat) (rest : List Nat) (peer : rank ≠ ownRank) :
    (rank :: rest).filter (· ≠ ownRank) = rank :: rest.filter (· ≠ ownRank) :=
  List.filter_cons_of_pos (decide_eq_true peer)

/-- A peer that has been given an entry and been bound to it. -/
structure PeerBound (group : LiveGroup) (rank : Nat) (wanted : IpcImportKey) (before given shown : Process) : Prop where
  sound : Sound group shown
  frame : Frame [rank] before shown
  presents : Presents shown rank wanted
  cache : shown.importCache = given.importCache

/-- At a peer the loop stops with a failure, or goes on with the peer bound. -/
theorem presentPeers_cons (answers : IpcAnswers) (keys : Nat → IpcImportKey)
    (hits : Nat → Option Nat) (descs : Option (Nat → LegacyPeerBufferDescriptor)) (rest : List Nat)
    (inside : rank < group.worldSize) (peer : rank ≠ node.rank)
    (entry : Imported group rank (keys rank) process (peerEntry group answers keys hits descs rank process)) :
    (∃ status, status ≠ .success ∧ presentPeers node answers keys hits descs (rank :: rest) process =
        (status, (peerEntry group answers keys hits descs rank process).2)) ∨
      ∃ slot shown, (peerEntry group answers keys hits descs rank process).1 = .ok slot ∧
        presentPeers node answers keys hits descs (rank :: rest) process =
          presentPeers node answers keys hits descs rest shown ∧
        PeerBound group rank (keys rank) process (peerEntry group answers keys hits descs rank process).2 shown := by
  rw [presentPeers.eq_def]
  simp only [if_neg peer]
  revert entry
  obtain ⟨outcome, after⟩ := peerEntry group answers keys hits descs rank process
  intro entry
  cases outcome with
  | error status => exact .inl ⟨status, entry.failed status rfl, rfl⟩
  | ok slot =>
    have stored := entry.stored slot rfl
    obtain ⟨address, buffer, held, live, import_⟩ := (entry.sound.cached rank slot stored.1).buffer
    have alive : after.deref (after.importCache rank slot).buffer = some buffer := by
      rw [held]
      exact live
    dsimp only at held live alive ⊢
    simp only [alive, if_neg import_.mapped]
    refine .inr ⟨slot, _, rfl, rfl, ?_, ?_, ?_, rfl⟩
    · rw [held]
      exact present_sound entry.sound inside live import_.owner (.inr ⟨slot, held⟩)
    · refine entry.frame.trans ⟨fun _ _ => rfl, ?_, ⟨fun _ _ _ => .rfl, rfl, rfl⟩⟩
      intro other apart
      rw [present_collectiveBuffers, if_neg fun same => apart (List.mem_singleton.mpr same)]
    · refine ⟨slot, stored, ?_⟩
      rw [present_collectiveBuffers, if_pos rfl]
      rfl

theorem presentPeers_own (answers : IpcAnswers) (keys : Nat → IpcImportKey) (hits : Nat → Option Nat)
    (descs : Option (Nat → LegacyPeerBufferDescriptor)) (rest : List Nat) (process : Process) :
    presentPeers node answers keys hits descs (node.rank :: rest) process =
      presentPeers node answers keys hits descs rest process := by
  rw [presentPeers.eq_def]
  simp only [if_true]

theorem presentPeers_presented (sound : Sound group process) (answers : IpcAnswers) (keys : Nat → IpcImportKey)
    (hits : Nat → Option Nat) (descs : Option (Nat → LegacyPeerBufferDescriptor)) (ranks : List Nat)
    (distinct : ranks.Nodup) (inside : ∀ rank ∈ ranks, rank < group.worldSize)
    (found : ∀ rank ∈ ranks, rank ≠ node.rank → Matches process rank (keys rank) (hits rank))
    (described : ∀ sent, descs = some sent → ∀ rank ≠ node.rank, describes (keys rank) (sent rank)) :
    PeersPresented group node.rank keys ranks process
      (presentPeers node answers keys hits descs ranks process) := by
  induction ranks generalizing process with
  | nil => exact ⟨sound, .refl _ process, nofun⟩
  | cons rank rest ih =>
    obtain ⟨absent, distinctRest⟩ := List.nodup_cons.mp distinct
    have insideRest : ∀ other ∈ rest, other < group.worldSize :=
      fun other member => inside other (List.mem_cons_of_mem _ member)
    by_cases peer : rank ≠ node.rank
    · have entry := peerEntry_imported sound answers keys hits descs (found rank List.mem_cons_self peer)
        fun sent given => described sent given rank peer
      have widen : [rank] ⊆ (rank :: rest).filter (· ≠ node.rank) := by
        rw [filter_peer rank rest peer]
        simp
      rcases presentPeers_cons answers keys hits descs rest (inside rank List.mem_cons_self) peer entry with
        stopped | bound
      · obtain ⟨status, failed, same⟩ := stopped
        rw [same]
        exact ⟨entry.sound, entry.frame.mono widen, fun done => absurd done failed⟩
      · obtain ⟨slot, shown, _, same, bound⟩ := bound
        have later := ih bound.sound distinctRest insideRest fun other member peerOther =>
          (found other (List.mem_cons_of_mem _ member) peerOther).frame bound.frame fun same =>
            absent (List.mem_singleton.mp same ▸ member)
        rw [filter_peer rank rest peer] at widen
        rw [same]
        refine ⟨later.sound, ?_, ?_⟩
        · rw [filter_peer rank rest peer]
          exact (bound.frame.mono widen).trans (later.frame.mono (List.subset_cons_self _ _))
        · intro done other member peerOther
          rcases List.mem_cons.mp member with here | later'
          · subst here
            exact bound.presents.frame later.frame fun member => absent (List.mem_of_mem_filter member)
          · exact later.presents done other later' peerOther
    · rw [not_not] at peer
      subst peer
      have later := ih sound distinctRest insideRest fun other member => found other (List.mem_cons_of_mem _ member)
      rw [presentPeers_own]
      refine ⟨later.sound, ?_, ?_⟩
      · exact later.frame.mono fun other member => by
          simp only [List.mem_filter, List.mem_cons] at member ⊢
          exact ⟨.inr member.1, member.2⟩
      · intro done other member peerOther
        rcases List.mem_cons.mp member with same | later'
        · exact absurd same peerOther
        · exact later.presents done other later' peerOther

end Peers

section Registering

variable {group : LiveGroup} {process : Process} {node : OoNode group}

theorem find_kept (rank : Nat) (wanted : IpcImportKey) :
    Kept process (findIpcImportCacheEntry process rank wanted).2 := by
  unfold findIpcImportCacheEntry
  split
  · exact .refl process
  · exact ⟨fun _ _ _ => .rfl, rfl, rfl⟩

theorem findHits_kept (keys : Nat → IpcImportKey) (ranks : List Nat) (hits : Nat → Option Nat) :
    Kept process (findHits node keys ranks (hits, process)).2 := by
  induction ranks generalizing hits process with
  | nil => exact .refl process
  | cons rank rest ih =>
    rw [findHits]
    split
    · exact ih hits
    · exact (find_kept rank (keys rank)).trans (ih _)

/-- What a registration leaves. Success without an exchange is that of the fast path. -/
structure Registered (node : OoNode group) (answers : IpcAnswers) (mine : Address) (buffer : OoBuffer)
    (before : Process) (result : OoStatus × Process) : Prop where
  sound : Sound group result.2
  kept : Kept before result.2
  own : result.1 = .success → result.2.collectiveBuffers node.rank = some mine
  presents : result.1 = .success →
    (ipcSymmetricLocalKeyFastPathReady group before node.rank (makeIpcImportKey buffer) = true ∧
      result.2 = before.present node.rank (some mine)) ∨
    ∃ peerKeys, answers.peerKeys = .ok peerKeys ∧
      ∀ rank < group.worldSize, rank ≠ node.rank → Presents result.2 rank (peerKeys rank)

theorem exchangeDescs_described {keys peerKeys : Nat → IpcImportKey} (answers : IpcAnswers) (buffer : OoBuffer)
    (masks : Nat → BitVec 32) (exchanged : answers.peerKeys = .ok peerKeys)
    (others : ∀ rank ≠ node.rank, keys rank = peerKeys rank)
    (sent : exchangeDescs node answers buffer masks = .ok descs) (received : Nat → LegacyPeerBufferDescriptor)
    (given : descs = some received) (rank : Nat) (peer : rank ≠ node.rank) :
    describes (keys rank) (received rank) := by
  subst given
  unfold exchangeDescs at sent
  split at sent
  · cases sent
  · split at sent
    · cases sent
    · split at sent
      · cases sent
      · rename_i theirs answered
        rw [← Option.some.inj (Except.ok.inj sent), exchangeData, Function.update_of_ne peer, others rank peer]
        exact answers.honest peerKeys theirs rank exchanged answered

theorem importMissing_presented (sound : Sound group process) (answers : IpcAnswers) (buffer : OoBuffer)
    (keys : Nat → IpcImportKey) (exchanged : answers.peerKeys = .ok peerKeys)
    (others : ∀ rank ≠ node.rank, keys rank = peerKeys rank) :
    Sound group (importMissing node answers buffer keys process).2 ∧
      Kept process (importMissing node answers buffer keys process).2 ∧
      (importMissing node answers buffer keys process).2.collectiveBuffers node.rank =
        process.collectiveBuffers node.rank ∧
      ((importMissing node answers buffer keys process).1 = .success →
        ∀ rank < group.worldSize, rank ≠ node.rank →
          Presents (importMissing node answers buffer keys process).2 rank (keys rank)) := by
  obtain ⟨touched, looked, found, _⟩ :=
    findHits_sound node keys (List.range group.worldSize) List.nodup_range (fun _ => none) sound
  have kept : Kept process (findHits node keys (List.range group.worldSize) (fun _ => none, process)).2 :=
    findHits_kept keys _ _
  have own := congrFun touched.collectiveBuffers node.rank
  unfold importMissing
  dsimp only
  split
  · rename_i thrown _
    exact ⟨looked, kept, own, fun done => absurd done (exceptionToStatus_failed thrown)⟩
  · split
    · rename_i thrown _
      exact ⟨looked, kept, own, fun done => absurd done (exceptionToStatus_failed thrown)⟩
    · rename_i descs sent
      have presented := presentPeers_presented looked answers keys
        (findHits node keys (List.range group.worldSize) (fun _ => none, process)).1 descs
        (List.range group.worldSize) List.nodup_range (fun rank member => List.mem_range.mp member)
        (fun rank member peer => (matches_touched touched).mpr (found rank member peer))
        (exchangeDescs_described answers buffer _ exchanged others sent)
      refine ⟨presented.sound, kept.trans presented.frame.kept, ?_, ?_⟩
      · refine (presented.frame.bindings node.rank ?_).trans own
        simp
      · intro done rank inside peer
        exact presented.presents done rank (List.mem_range.mpr inside) peer

theorem ensure_registered (sound : Sound group process) (answers : IpcAnswers)
    (own : OwnBuffer node process mine buffer) :
    Registered node answers mine buffer process
      (ensureIpcLegacyCollectiveBuffersRegistered node answers mine buffer process) := by
  have shown := presentOwn_sound sound own
  have bound : (process.present node.rank (some mine)).collectiveBuffers node.rank = some mine :=
    (present_collectiveBuffers node.rank (some mine) node.rank).trans (if_pos rfl)
  unfold ensureIpcLegacyCollectiveBuffersRegistered
  split
  · exact ⟨sound, .refl process, nofun, nofun⟩
  · split
    · rename_i ready
      exact ⟨shown, ⟨fun _ _ _ => .rfl, rfl, rfl⟩, fun _ => bound, fun _ => .inl ⟨ready, rfl⟩⟩
    · split
      · rename_i thrown _
        exact ⟨sound, .refl process, fun done => absurd done (exceptionToStatus_failed thrown),
          fun done => absurd done (exceptionToStatus_failed thrown)⟩
      · rename_i peerKeys exchanged
        obtain ⟨soundAfter, kept, same, presents⟩ := importMissing_presented shown answers buffer
          (exchangeData node.rank (makeIpcImportKey buffer) peerKeys) exchanged
          fun rank peer => Function.update_of_ne peer _ _
        refine ⟨soundAfter, ⟨kept.owned, kept.token, kept.epoch⟩, fun _ => same.trans bound, ?_⟩
        intro done
        refine .inr ⟨peerKeys, exchanged, ?_⟩
        intro rank inside peer
        have here := presents done rank inside peer
        rwa [exchangeData, Function.update_of_ne peer] at here

theorem register_registered (sound : Sound group process) (answers : IpcAnswers)
    (own : OwnBuffer node process mine buffer) :
    Registered node answers mine buffer process
      (registerIpcCollectiveBuffers node answers mine buffer process) := by
  unfold registerIpcCollectiveBuffers
  split
  · rename_i failed
    have status : cudaToStatus answers.setDevice ≠ .success := by
      cases error : answers.setDevice with
      | success => exact absurd error failed
      | invalidDevice => exact nofun
      | invalidValue => exact nofun
      | other => exact nofun
    exact ⟨sound, .refl process, fun done => absurd done status, fun done => absurd done status⟩
  · exact ensure_registered sound answers own

end Registering

section Preparing

variable {group : LiveGroup} {process : Process} {node : OoNode group}

theorem registerRankBuffers_sound (sound : Sound group process) (answers : IpcAnswers)
    (own : OwnBuffer node process mine buffer) (prebound : Option PreboundRankBuffers) :
    Sound group (registerRankBuffers node answers prebound mine buffer process).2 ∧
      Kept process (registerRankBuffers node answers prebound mine buffer process).2 := by
  cases prebound with
  | some bound => exact ⟨sound, .refl process⟩
  | none =>
    simp only [registerRankBuffers]
    split
    · have registered := ensure_registered sound answers own
      exact ⟨registered.sound, registered.kept⟩
    · exact ⟨presentOwn_sound sound own, ⟨fun _ _ _ => .rfl, rfl, rfl⟩⟩

/-- What a preparation leaves, and whether it has advanced the epoch. -/
inductive Prepared (node : OoNode group) (answers : IpcAnswers) (mine : Option Address)
    (prebound : Option PreboundRankBuffers) (before : Process) : Process → Bool → Prop
  | refused : Prepared node answers mine prebound before before false
  | registered (given : mine = some address) (live : before.heap address = some buffer) :
    Prepared node answers mine prebound before
      (registerRankBuffers node answers prebound address buffer before).2 false
  | advanced (given : mine = some address) (live : before.heap address = some buffer)
    (done : (registerRankBuffers node answers prebound address buffer before).1 = .success) :
    Prepared node answers mine prebound before
      (advanceEpoch node (registerRankBuffers node answers prebound address buffer before).2) true

/-- The fast preparation advances the epoch exactly when it succeeds. -/
theorem prepareFast_prepared (answers : IpcAnswers) (mine : Option Address) (prebound : Option PreboundRankBuffers)
    (offsetBytes bytes : Nat) :
    Prepared node answers mine prebound process
      (prepareFastAllreduceLaunch node answers mine prebound offsetBytes bytes process).2
      (prepareFastAllreduceLaunch node answers mine prebound offsetBytes bytes process).1.isOk := by
  unfold prepareFastAllreduceLaunch
  split
  · rename_i _ address buffer live
    split
    · exact .refused
    · split
      · exact .refused
      · split
        · exact .refused
        · have stopped : Prepared node answers (some address) prebound process
              (registerRankBuffers node answers prebound address buffer process).2 false := .registered rfl live
          have launched : (registerRankBuffers node answers prebound address buffer process).1 = .success →
              Prepared node answers (some address) prebound process
                (advanceEpoch node (registerRankBuffers node answers prebound address buffer process).2) true :=
            .advanced rfl live
          split
          · rename_i after
            rw [after] at stopped launched
            split
            · exact stopped
            · split
              · exact stopped
              · exact launched rfl
          · rename_i after
            rw [after] at stopped
            exact stopped
  · exact .refused

theorem admit_live (admitted : admitCollective node answers mine prebound elementOffset count dtype process =
    .ok (address, buffer, offsetBytes, bytes)) :
    mine = some address ∧ process.heap address = some buffer ∧ rangeInside buffer offsetBytes bytes = true := by
  unfold admitCollective at admitted
  split at admitted
  · rename_i _ _ found live
    repeat' split at admitted
    all_goals cases admitted
    rename_i inside
    exact ⟨rfl, live, (Bool.not_eq_false _).mp inside⟩
  · cases admitted

/-- The generic one advances it also where it fails later, at a peer. -/
theorem prepareImpl_prepared (answers : IpcAnswers) (mine : Option Address) (prebound : Option PreboundRankBuffers)
    (elementOffset count : Nat) (dtype : OoDtype) :
    Prepared node answers mine prebound process
      (prepareCollectiveLaunchImpl node answers mine prebound elementOffset count dtype process).2
      (reachesPeers node answers mine prebound elementOffset count dtype process) := by
  unfold prepareCollectiveLaunchImpl reachesPeers
  split
  · exact .refused
  · rename_i address buffer offsetBytes bytes admitted
    obtain ⟨same, live, _⟩ := admit_live admitted
    have stopped : Prepared node answers mine prebound process
        (registerRankBuffers node answers prebound address buffer process).2 false := .registered same live
    have launched : (registerRankBuffers node answers prebound address buffer process).1 = .success →
        Prepared node answers mine prebound process
          (advanceEpoch node (registerRankBuffers node answers prebound address buffer process).2) true :=
      .advanced same live
    generalize registerRankBuffers node answers prebound address buffer process = result at stopped launched ⊢
    obtain ⟨status, registered⟩ := result
    cases status with
    | success =>
      dsimp only
      by_cases gate : kMaxPublicPeers < group.worldSize - 1 ∨
          readySignalUsable (group.readySignalSlots node.rank) = false
      · have closed : (kMaxPublicPeers < group.worldSize - 1 ||
            readySignalUsable (group.readySignalSlots node.rank) = false) = true := by simpa using gate
        rw [if_pos gate, closed]
        exact stopped
      · have passed : (kMaxPublicPeers < group.worldSize - 1 ||
            readySignalUsable (group.readySignalSlots node.rank) = false) = false := by simpa using gate
        rw [if_neg gate, passed]
        split <;> exact launched rfl
    | _ => exact stopped

theorem prepared_sound (sound : Sound group process)
    (own : ∀ address buffer, mine = some address → process.heap address = some buffer →
      OwnBuffer node process address buffer)
    (prepared : Prepared node answers mine prebound process after advanced) : Sound group after := by
  cases prepared with
  | refused => exact sound
  | registered given live => exact (registerRankBuffers_sound sound answers (own _ _ given live) prebound).1
  | advanced given live _ =>
    exact advanceEpoch_sound node (registerRankBuffers_sound sound answers (own _ _ given live) prebound).1

end Preparing

section Lifecycle

variable {group : LiveGroup} {process : Process} {node : OoNode group}

theorem allocate_live (sound : Sound group process) (stored : OoBuffer) (live : process.heap address = some buffer) :
    (process.allocate stored).heap address = some buffer := by
  rw [allocate_heap, if_neg]
  · exact live
  · intro same
    rw [sound.fresh address (Nat.le_of_eq same.symm)] at live
    cases live

theorem allocate_sound {stored : OoBuffer} (sound : Sound group process) (grouped : stored.group = group.address) :
    Sound group (process.allocate stored) where
  fresh address far := by
    rw [allocate_heap, if_neg (Nat.ne_of_gt far)]
    exact sound.fresh address (Nat.le_of_succ_le far)
  grouped address buffer live := by
    rw [allocate_heap] at live
    split at live
    · rw [← Option.some.inj live]
      exact grouped
    · exact sound.grouped address buffer live
  cached rank slot valid := by
    have before := sound.cached rank slot valid
    obtain ⟨address, buffer, held, live, rest⟩ := before.buffer
    exact ⟨before.inside, address, buffer, held, allocate_live sound stored live, rest⟩
  empty := sound.empty
  apart := sound.apart
  keys := sound.keys
  clock := sound.clock
  recent := sound.recent
  presented rank address showing := by
    obtain ⟨buffer, live, rest⟩ := sound.presented rank address showing
    exact ⟨buffer, allocate_live sound stored live, rest⟩
  ranks := sound.ranks

theorem newWrapper_sound {stored : OoBuffer} (node : OoNode group) (sound : Sound group process)
    (grouped : stored.group = group.address) (owner : stored.ownerRank = node.rank) (owned : UserOwned stored)
    (token : Nat) :
    Sound group { process.allocate stored with nextToken := token } ∧
      Sound group ({ process.allocate stored with nextToken := token }.present node.rank
        (some process.nextAddress)) := by
  have counted := countToken_sound (allocate_sound sound grouped) token
  have live : (process.allocate stored).heap process.nextAddress = some stored := by
    rw [allocate_heap, if_pos rfl]
  exact ⟨counted, present_sound counted node.within live owner (.inl owned)⟩

theorem wrap_sound (sound : Sound group process) (ptr bytes : Nat) (range : Option OoBufferIpcRange) :
    Sound group (ooBufferWrapIpcRange node ptr bytes range process).2 := by
  unfold ooBufferWrapIpcRange
  split
  · exact sound
  · split
    · exact sound
    · dsimp only
      split
      · exact (newWrapper_sound node sound rfl rfl (.inl rfl) _).1
      · exact (newWrapper_sound node sound rfl rfl (.inl rfl) _).2

theorem alloc_sound (sound : Sound group process) (bytes : Nat) (mapped : Except Thrown (Address × Nat)) :
    Sound group (ooBufferAlloc node bytes mapped process).2 := by
  unfold ooBufferAlloc
  split
  · exact sound
  · split
    · exact sound
    · exact (newWrapper_sound node sound rfl rfl (.inr rfl) _).2

theorem unregister_sound (sound : Sound group process) (address : Address) (buffer : OoBuffer) :
    Sound group (unregisterCollectiveBuffer address buffer process) := by
  unfold unregisterCollectiveBuffer
  split
  · exact unpresent_sound sound _
  · exact sound

theorem unregister_kept (process : Process) (address : Address) (buffer : OoBuffer) :
    (unregisterCollectiveBuffer address buffer process).heap = process.heap ∧
      (unregisterCollectiveBuffer address buffer process).importCache = process.importCache := by
  unfold unregisterCollectiveBuffer
  split <;> exact ⟨rfl, rfl⟩

/-- Nothing presents a live wrapper once it is unregistered. -/
theorem unregistered (sound : Sound group process) (live : process.heap address = some buffer) (rank : Nat) :
    (unregisterCollectiveBuffer address buffer process).collectiveBuffers rank ≠ some address := by
  intro showing
  have before : process.collectiveBuffers rank = some address := by
    unfold unregisterCollectiveBuffer at showing
    split at showing
    · rw [present_collectiveBuffers] at showing
      split at showing
      · cases showing
      · exact showing
    · exact showing
  obtain ⟨same, there, owner, _⟩ := sound.presented rank address before
  have one := Option.some.inj (there.symm.trans live)
  subst one
  have inside : rank < group.worldSize := by
    by_contra outside
    rw [sound.ranks rank (Nat.le_of_not_lt outside)] at before
    cases before
  have bound : same.ownerRank.toNat = rank := by
    rw [owner]
    rfl
  have condition : 0 ≤ same.ownerRank ∧ same.ownerRank < kOoMaxLocalDevices ∧
      process.collectiveBuffers same.ownerRank.toNat = some address := by
    refine ⟨?_, ?_, ?_⟩
    · rw [owner]
      exact Int.natCast_nonneg rank
    · rw [owner]
      exact Int.ofNat_lt.mpr (lt_of_lt_of_le inside group.worldSize_le)
    · rw [bound]
      exact before
  unfold unregisterCollectiveBuffer at showing
  rw [if_pos condition, bound, present_collectiveBuffers, if_pos rfl] at showing
  cases showing

theorem destroy_sound (sound : Sound group process) (live : process.heap address = some buffer)
    (owned : UserOwned buffer) : Sound group (ooBufferDestroy address process) := by
  have released := unregister_sound sound address buffer
  have gone := unregistered sound live
  obtain ⟨sameHeap, _⟩ := unregister_kept process address buffer
  have there : (unregisterCollectiveBuffer address buffer process).heap address = some buffer := by
    rw [sameHeap]
    exact live
  unfold ooBufferDestroy
  rw [live]
  dsimp only
  generalize unregisterCollectiveBuffer address buffer process = after at released gone there ⊢
  have survives : ∀ other kept, after.heap other = some kept → other ≠ address →
      (after.free (some address)).heap other = some kept := by
    intro other kept alive apart
    rw [free_heap, if_neg apart]
    exact alive
  exact
    { fresh := by
        intro other far
        rw [free_heap]
        split
        · rfl
        · exact released.fresh other far
      grouped := by
        intro other kept alive
        rw [free_heap] at alive
        split at alive
        · cases alive
        · exact released.grouped other kept alive
      cached := by
        intro rank slot valid
        have before := released.cached rank slot valid
        obtain ⟨other, kept, held, alive, import_⟩ := before.buffer
        refine ⟨before.inside, other, kept, held, survives other kept alive ?_, import_⟩
        intro same
        subst same
        rw [← Option.some.inj (alive.symm.trans there)] at owned
        simp [UserOwned, import_.kind] at owned
      empty := released.empty
      apart := released.apart
      keys := released.keys
      clock := released.clock
      recent := released.recent
      presented := by
        intro rank other showing
        obtain ⟨kept, alive, rest⟩ := released.presented rank other showing
        refine ⟨kept, survives other kept alive ?_, rest⟩
        intro same
        subst same
        exact gone rank showing
      ranks := released.ranks }

end Lifecycle

section Runs

variable {group : LiveGroup}

theorem step_sound (sound : Sound group process) (taken : Step group process after) : Sound group after := by
  obtain ⟨_, call⟩ := taken
  cases call with
  | wrap node ptr bytes range => exact wrap_sound sound ptr bytes range
  | alloc node bytes mapped => exact alloc_sound sound bytes mapped
  | destroy live owned => exact destroy_sound sound live owned
  | register ipc node answers own => exact (register_registered sound answers own).sound
  | prepareFast node answers mine own prebound offsetBytes bytes =>
    exact prepared_sound sound own (prepareFast_prepared answers mine prebound offsetBytes bytes)
  | prepare node answers mine own prebound elementOffset count dtype =>
    exact prepared_sound sound own (prepareImpl_prepared answers mine prebound elementOffset count dtype)

theorem run_sound (group : LiveGroup) (run : ReflTransGen (Step group) {} process) : Sound group process :=
  Interleaving.invariant (Sound group) (sound_start group) (fun _ _ => step_sound) run

/-- In every run of a process, whichever calls fail and wherever they stop, no binding dangles or shows another
rank's buffer, every valid entry owns a live import from its key's rank, and no import is owned by two entries. -/
theorem tables_sound (group : LiveGroup) (run : ReflTransGen (Step group) {} process) :
    (∀ rank address, process.collectiveBuffers rank = some address →
      ∃ buffer, process.heap address = some buffer ∧ buffer.ownerRank = rank ∧
        (UserOwned buffer ∨ ∃ slot, (process.importCache rank slot).buffer = some address)) ∧
      (∀ rank slot, (process.importCache rank slot).valid = true → Cached group process rank slot) ∧
      (∀ rank slot other place address, (process.importCache rank slot).buffer = some address →
        (process.importCache other place).buffer = some address → rank = other ∧ slot = place) ∧
      ∀ rank slot place, (process.importCache rank slot).valid = true →
        (process.importCache rank place).valid = true →
        (process.importCache rank slot).key = (process.importCache rank place).key → slot = place :=
  have sound := run_sound group run
  ⟨sound.presented, sound.cached, sound.apart, sound.keys⟩

/-- A group of two processes. -/
def twoProcesses : LiveGroup where
  address := 1
  numDevices := 2
  devices rank := rank
  bootstrapKind := .multiprocessIpc
  readySignalSlots _ := { ptr := 4096, bytes := kOoReadySignalBytes }
  hostReadySignalSlots _ := {}
  size := ⟨by decide, by decide⟩

def nodeZero : OoNode twoProcesses := ⟨0, Nat.zero_lt_two⟩

def peerKey : IpcImportKey where
  ownerPtrValue := 4096
  bytes := 1024
  mappedBytes := 1024
  logicalOffsetBytes := 0
  cacheToken := 1
  ownerRank := 1
  ownerDevice := 1

/-- The other process presents one buffer in every call. -/
def peerAnswers : IpcAnswers where
  peerKeys := .ok fun _ => peerKey
  peerMasks := .ok fun _ => 0
  exportHandle := .ok 7
  peerDescs := .ok fun _ => { handle := 9, bytes := 1024, mappedSize := 1024, logicalOffset := 0, ownerDevice := 1 }
  importHandle _ _ := .ok 8192
  mapped _ _ _ opened := Except.ok.inj opened ▸ Nat.succ_ne_zero 8191
  honest _ _ _ answered sent := by
    rw [← Except.ok.inj answered, ← Except.ok.inj sent]
    exact ⟨rfl, rfl, rfl⟩

def wrappedOne : Process := (ooBufferWrapIpcRange nodeZero 64 1024 none {}).2

def wrapperOne : OoBuffer where
  ptr := 64
  bytes := 1024
  mappedBytes := 1024
  ipcBasePtr := 64
  ipcBaseBytes := 1024
  group := 1
  ownerRank := 0
  ownerDevice := 0
  ipcCacheToken := 1
  systemKind := .wrapped

theorem wrapperOne_own : OwnBuffer nodeZero wrappedOne 1 wrapperOne := ⟨rfl, rfl, .inl rfl⟩

theorem tables_sound_registered : ∃ buffer,
    (registerIpcCollectiveBuffers nodeZero peerAnswers 1 wrapperOne wrappedOne).2.heap 2 = some buffer ∧
      buffer.ownerRank = 1 := by
  obtain ⟨buffer, live, owner, -⟩ := (tables_sound twoProcesses (.tail
    (.single ⟨none, .wrap nodeZero 64 1024 none⟩)
    ⟨none, .register rfl nodeZero peerAnswers wrapperOne_own⟩)).1 1 2 (by decide)
  exact ⟨buffer, live, owner⟩

end Runs

end Ooverlap.Launch
