import Ooverlap.Launch.SymmetricUse
import Ooverlap.Support.Traverse

/-! Prepared launches: their epochs, and the memory that their pointers reach. -/

namespace Ooverlap.Launch

open Api (OoStatus OoDtype Address ooDtypeSize)
open Relation Word

section Epochs

/-- The runs of a process whose nodes are created once, with the number of times that the epoch of each rank has been
advanced. -/
inductive Counted (group : LiveGroup) : Process → (Nat → Nat) → Prop
  | start : Counted group {} fun _ => 0
  | call (before : Counted group process counts) (taken : Call group process launched after) :
    Counted group after fun rank => counts rank + if launched = some rank then 1 else 0

variable {group : LiveGroup} {process : Process}

theorem Counted.sound (counted : Counted group process counts) : Sound group process := by
  induction counted with
  | start => exact sound_start group
  | call _ taken ih => exact step_sound ih ⟨_, taken⟩

theorem prepared_epoch {node : OoNode group} (sound : Sound group process)
    (own : ∀ address buffer, mine = some address → process.heap address = some buffer →
      OwnBuffer node process address buffer)
    (prepared : Prepared node answers mine prebound process after advanced) (rank : Nat) :
    after.collectiveEpoch rank =
      if advanced = true ∧ rank = node.rank then toInt32 (process.collectiveEpoch rank + 1)
      else process.collectiveEpoch rank := by
  cases prepared with
  | refused => rfl
  | registered given live =>
    have kept := (registerRankBuffers_sound sound answers (own _ _ given live) prebound).2
    exact congrFun kept.epoch rank
  | advanced given live _ =>
    have kept := (registerRankBuffers_sound sound answers (own _ _ given live) prebound).2
    simp only [advanceEpoch, Function.update_apply, kept.epoch, true_and]
    split
    · rename_i same
      rw [same]
    · rfl

theorem call_epoch (sound : Sound group process) (taken : Call group process launched after) (rank : Nat) :
    after.collectiveEpoch rank =
      if launched = some rank then toInt32 (process.collectiveEpoch rank + 1) else process.collectiveEpoch rank := by
  cases taken with
  | wrap node ptr bytes range =>
    unfold ooBufferWrapIpcRange
    split
    · rfl
    · split
      · rfl
      · dsimp only
        split <;> rfl
  | alloc node bytes mapped =>
    unfold ooBufferAlloc
    split
    · rfl
    · split <;> rfl
  | destroy live owned =>
    unfold ooBufferDestroy unregisterCollectiveBuffer
    rw [live]
    dsimp only
    split <;> rfl
  | register ipc node answers own => exact congrFun (register_registered sound answers own).kept.epoch rank
  | prepareFast node answers mine own prebound offsetBytes bytes =>
    rw [prepared_epoch sound own (prepareFast_prepared answers mine prebound offsetBytes bytes) rank]
    cases (prepareFastAllreduceLaunch node answers mine prebound offsetBytes bytes process).1.isOk <;>
      simp [eq_comm]
  | prepare node answers mine own prebound elementOffset count dtype =>
    rw [prepared_epoch sound own (prepareImpl_prepared answers mine prebound elementOffset count dtype) rank]
    cases reachesPeers node answers mine prebound elementOffset count dtype process <;> simp [eq_comm]

theorem toInt32_succ (value : Int) : toInt32 (toInt32 value + 1) = toInt32 (value + 1) :=
  Int.bmod_add_bmod

theorem counted_epoch (counted : Counted group process counts) (rank : Nat) :
    process.collectiveEpoch rank = toInt32 (counts rank) := by
  induction counted with
  | start => exact (toInt32_of_inInt32 (by decide : InInt32 0)).symm
  | call before taken ih =>
    rw [call_epoch before.sound taken rank, ih]
    dsimp only
    split
    · rw [toInt32_succ, Nat.cast_add, Nat.cast_one]
    · rw [Nat.add_zero]

end Epochs

section Success

variable {group : LiveGroup} {process : Process} {node : OoNode group}

theorem prepareFast_launched
    (prepared : prepareFastAllreduceLaunch node answers mine prebound offsetBytes bytes process =
      (.ok launch, after)) :
    ∃ address buffer registered ptrs, mine = some address ∧ process.heap address = some buffer ∧
      registerRankBuffers node answers prebound address buffer process = (.success, registered) ∧
      fastRankPtrs group registered prebound offsetBytes bytes = .ok ptrs ∧
      after = advanceEpoch node registered ∧
      launch =
        { localPtr := ptrs.getD node.rank 0
          peers := (peerRanks node).map fun peer =>
            { ptr := ptrs.getD peer 0, publishSignal := publishSlot node peer, waitSignal := waitSlot node peer }
          rank := node.rank
          worldSize := group.worldSize
          localDevice := node.device
          collectiveEpoch := after.collectiveEpoch node.rank
          bytes } := by
  unfold prepareFastAllreduceLaunch at prepared
  split at prepared
  · rename_i _ address buffer live
    split at prepared
    · cases prepared
    · split at prepared
      · cases prepared
      · split at prepared
        · cases prepared
        · split at prepared
          · rename_i registered ran
            split at prepared
            · cases prepared
            · split at prepared
              · cases prepared
              · rename_i ptrs found
                cases prepared
                exact ⟨address, buffer, registered, ptrs, rfl, live, ran, found, rfl, rfl⟩
          · cases prepared
  · cases prepared

theorem prepareImpl_launched
    (prepared : prepareCollectiveLaunchImpl node answers mine prebound elementOffset count dtype process =
      (.ok launch, after)) :
    ∃ address buffer offsetBytes bytes registered peers,
      admitCollective node answers mine prebound elementOffset count dtype process =
        .ok (address, buffer, offsetBytes, bytes) ∧
      registerRankBuffers node answers prebound address buffer process = (.success, registered) ∧
      readySignalUsable (group.readySignalSlots node.rank) = true ∧
      launchPeers node (advanceEpoch node registered) prebound offsetBytes bytes = .ok peers ∧
      after = advanceEpoch node registered ∧
      launch =
        { localPtr := buffer.ptr + offsetBytes
          peers
          rank := node.rank
          worldSize := group.worldSize
          localDevice := node.device
          dtypeSize := ooDtypeSize dtype
          bytes
          collectiveEpoch := after.collectiveEpoch node.rank
          localReadySignal := signalSlot (group.readySignalSlots node.rank) kOoReadySignalLegacySlot
          localHostReadySignal :=
            if (group.hostReadySignalSlots node.rank).ptr = 0 then none
            else some (signalSlot (group.hostReadySignalSlots node.rank) kOoReadySignalLegacySlot) } := by
  unfold prepareCollectiveLaunchImpl at prepared
  split at prepared
  · cases prepared
  · rename_i address buffer offsetBytes bytes admitted
    split at prepared
    · rename_i registered ran
      split at prepared
      · cases prepared
      · rename_i passed
        rw [not_or, Bool.not_eq_false] at passed
        dsimp only at prepared
        split at prepared
        · cases prepared
        · rename_i peers found
          cases prepared
          exact ⟨address, buffer, offsetBytes, bytes, registered, peers, admitted, ran, passed.2, found, rfl, rfl⟩
    · cases prepared

/-- In every run the launches of a rank, of either kind, are numbered one after the other: a call that fails takes a
number only where it is a generic preparation that fails at a peer. -/
theorem launch_epoch (counted : Counted group process counts)
    (own : ∀ address buffer, mine = some address → process.heap address = some buffer →
      OwnBuffer node process address buffer)
    (answers : IpcAnswers) (prebound : Option PreboundRankBuffers) (offsetBytes bytes elementOffset count : Nat)
    (dtype : OoDtype) :
    process.collectiveEpoch node.rank = toInt32 (counts node.rank) ∧
      (∀ launch after, prepareFastAllreduceLaunch node answers mine prebound offsetBytes bytes process =
        (.ok launch, after) → launch.collectiveEpoch = toInt32 (counts node.rank + 1)) ∧
      ∀ launch after, prepareCollectiveLaunchImpl node answers mine prebound elementOffset count dtype process =
        (.ok launch, after) → launch.collectiveEpoch = toInt32 (counts node.rank + 1) := by
  have before := counted_epoch counted node.rank
  have next : ∀ address buffer registered, mine = some address → process.heap address = some buffer →
      registerRankBuffers node answers prebound address buffer process = (.success, registered) →
      (advanceEpoch node registered).collectiveEpoch node.rank = toInt32 (counts node.rank + 1) := by
    intro address buffer registered given live ran
    have kept := (registerRankBuffers_sound counted.sound answers (own address buffer given live) prebound).2
    rw [ran] at kept
    have same := congrFun kept.epoch node.rank
    simp only [advanceEpoch, Function.update_self]
    rw [same, before, toInt32_succ]
  refine ⟨before, ?_, ?_⟩
  · intro launch after prepared
    obtain ⟨address, buffer, registered, ptrs, given, live, ran, _, rfl, rfl⟩ := prepareFast_launched prepared
    exact next address buffer registered given live ran
  · intro launch after prepared
    obtain ⟨address, buffer, _, _, registered, _, admitted, ran, _, _, rfl, rfl⟩ := prepareImpl_launched prepared
    obtain ⟨given, live, _⟩ := admit_live admitted
    exact next address buffer registered given live ran

def launchedOnce : Process := (prepareCollectiveLaunchImpl nodeZero peerAnswers (some 1) none 2 4 .float32 wrappedOne).2

theorem launchedOnce_counted : ∃ counts : Nat → Nat, Counted twoProcesses launchedOnce counts ∧ counts 0 = 1 := by
  refine ⟨_, .call (.call .start (.wrap nodeZero 64 1024 none))
    (.prepare nodeZero peerAnswers (some 1) ?_ none 2 4 .float32), ?_⟩
  · intro address buffer given live
    cases given
    rw [← Option.some.inj live]
    exact wrapperOne_own
  · decide

theorem prepared_pair {result : Except OoStatus State × Process} (done : result.1.isOk = true) :
    ∃ state, result = (.ok state, result.2) := by
  obtain ⟨outcome, after⟩ := result
  cases outcome with
  | error status => cases done
  | ok state => exact ⟨state, rfl⟩

theorem launch_epoch_second : ∃ launch after,
    prepareCollectiveLaunchImpl nodeZero peerAnswers (some 1) none 2 4 .float32 launchedOnce = (.ok launch, after) ∧
      launch.collectiveEpoch = 2 := by
  obtain ⟨counts, counted, once⟩ := launchedOnce_counted
  have own : ∀ address buffer, some 1 = some address → launchedOnce.heap address = some buffer →
      OwnBuffer nodeZero launchedOnce address buffer := by
    intro address buffer given live
    cases given
    have here : launchedOnce.heap 1 = some wrapperOne := by decide
    rw [← Option.some.inj (here.symm.trans live)]
    exact ⟨here, rfl, .inl rfl⟩
  obtain ⟨launch, prepared⟩ := prepared_pair (by decide :
    (prepareCollectiveLaunchImpl nodeZero peerAnswers (some 1) none 2 4 .float32 launchedOnce).1.isOk = true)
  refine ⟨launch, _, prepared, ?_⟩
  have epoch := (launch_epoch counted own peerAnswers none 0 0 2 4 .float32).2.2 launch _ prepared
  rw [epoch]
  change toInt32 (counts 0 + 1) = 2
  rw [once]
  exact toInt32_of_inInt32 (by decide : InInt32 2)

end Success

section Reach

variable {group : LiveGroup} {process : Process} {node : OoNode group} {partner : IpcImportKey → Nat → IpcImportKey}

theorem rangeInside_iff : rangeInside buffer offsetBytes bytes = true ↔ offsetBytes + bytes ≤ buffer.bytes := by
  simp only [rangeInside, Bool.and_eq_true, decide_eq_true_eq]
  omega

theorem launchPeer_ok (checked : launchPeer node process offsetBytes bytes pointer rank = .ok peer) :
    ∃ buffer, process.deref pointer = some buffer ∧ offsetBytes + bytes ≤ buffer.bytes ∧ peer.rank = rank ∧
      peer.ptr = buffer.ptr + offsetBytes ∧ buffer.ptr ≠ 0 ∧
      readySignalUsable (group.readySignalSlots rank) = true ∧ peer.publishSignal = publishSlot node rank ∧
      peer.waitSignal = waitSlot node rank := by
  unfold launchPeer at checked
  split at checked
  · cases checked
  · rename_i buffer live
    split at checked
    · cases checked
    · rename_i passed
      simp only [not_or, Bool.not_eq_false] at passed
      cases checked
      exact ⟨buffer, live, rangeInside_iff.mp passed.2.2.2.1, rfl, rfl, passed.1, passed.2.2.2.2, rfl, rfl⟩

theorem launchPeers_ranks (checked : launchPeers node process prebound offsetBytes bytes = .ok peers) :
    peers.map LaunchPeer.rank = peerRanks node := by
  have named : List.Forall₂ (fun rank peer => peer.rank = rank) (peerRanks node) peers :=
    (Traverse.mapM_ok checked).imp fun _ _ ok => (launchPeer_ok ok).choose_spec.2.2.1
  have same : List.Forall₂ (· = ·) (peers.map LaunchPeer.rank) (peerRanks node) :=
    List.forall₂_map_left_iff.mpr named.flip
  rwa [List.forall₂_eq_eq_eq] at same

/-- Where a peer's pointer leads: into the mapping of the buffer that the key names, at the launch's offset. -/
def Reaches (group : LiveGroup) (process : Process) (offsetBytes bytes : Nat) (wanted : IpcImportKey) (rank : Nat)
    (pointer : Address) : Prop :=
  ∃ address mapping, process.collectiveBuffers rank = some address ∧ process.heap address = some mapping ∧
    ImportOf group rank wanted mapping ∧ pointer = mapping.ptr + offsetBytes ∧ offsetBytes + bytes ≤ wanted.bytes

theorem fastRankPtr_ok (checked : fastRankPtr group process offsetBytes bytes pointer rank = .ok ptr) :
    ∃ buffer, process.deref pointer = some buffer ∧ offsetBytes + bytes ≤ buffer.bytes ∧
      ptr = buffer.ptr + offsetBytes ∧ buffer.ptr ≠ 0 ∧ ptr % 16 = 0 ∧
      readySignalUsable (group.readySignalSlots rank) = true := by
  unfold fastRankPtr at checked
  split at checked
  · cases checked
  · rename_i buffer live
    split at checked
    · cases checked
    · rename_i passed
      simp only [not_or, Bool.not_eq_false] at passed
      split at checked
      · cases checked
      · rename_i aligned
        split at checked
        · cases checked
        · rename_i usable
          cases checked
          exact ⟨buffer, live, rangeInside_iff.mp passed.2.2.2.2, rfl, passed.1, not_not.mp aligned,
            (Bool.not_eq_false _).mp usable⟩

theorem fastRankPtrs_at (found : fastRankPtrs group process prebound offsetBytes bytes = .ok ptrs)
    (inside : rank < group.worldSize) :
    fastRankPtr group process offsetBytes bytes (rankBuffer prebound process rank) rank =
      .ok (ptrs.getD rank 0) := by
  have each := Traverse.mapM_ok found
  have listed : rank < (List.range group.worldSize).length := by rwa [List.length_range]
  have within : rank < ptrs.length := each.length_eq ▸ listed
  have here := each.get listed within
  simp only [List.get_eq_getElem, List.getElem_range] at here
  rw [List.getD_eq_getElem?_getD, List.getElem?_eq_getElem within]
  exact here

theorem PresentsImport.reaches (presents : PresentsImport group process rank wanted)
    (here : process.deref (process.collectiveBuffers rank) = some mapping)
    (fits : offsetBytes + bytes ≤ mapping.bytes) :
    Reaches group process offsetBytes bytes wanted rank (mapping.ptr + offsetBytes) := by
  obtain ⟨place, import_, bound, alive, of⟩ := presents
  have looked : process.deref (some place) = some mapping := bound ▸ here
  have same : import_ = mapping := Option.some.inj (alive.symm.trans looked)
  subst same
  exact ⟨place, import_, bound, alive, of, rfl, of.sizes.1 ▸ fits⟩

/-- What a launch finds bound once its registration has succeeded. -/
theorem registered_bindings (ipc : group.bootstrapKind = .multiprocessIpc)
    (run : ReflTransGen (SymmetricStep node partner) {} process) (own : OwnBuffer node process mine buffer)
    (symmetric : Symmetric node partner buffer answers)
    (ran : registerRankBuffers node answers none mine buffer process = (.success, registered)) :
    registered.deref (registered.collectiveBuffers node.rank) = some buffer ∧
      ∀ rank < group.worldSize, rank ≠ node.rank →
        PresentsImport group registered rank (partner (makeIpcImportKey buffer) rank) := by
  simp only [registerRankBuffers, if_pos ipc] at ran
  have done := congrArg Prod.fst ran
  have current := symmetricRun_current ipc run
  have after := ensure_registered current.sound answers own
  have partners := registered_partners current own symmetric fresh_none done
  have bound := after.own done
  have live := (after.kept.owned mine buffer own.owned).mpr own.live
  have sound := after.sound
  rw [ran] at partners bound live sound
  refine ⟨?_, fun rank inside peer => (partners rank inside peer).mapping sound⟩
  rw [bound]
  exact live

theorem preparedLaunch_reaches (ipc : group.bootstrapKind = .multiprocessIpc)
    (run : ReflTransGen (SymmetricStep node partner) {} process) (own : OwnBuffer node process mine buffer)
    (symmetric : Symmetric node partner buffer answers)
    (prepared : prepareCollectiveLaunchImpl node answers (some mine) none elementOffset count dtype process =
      (.ok launch, after)) :
    ∃ offsetBytes, launch.localPtr = buffer.ptr + offsetBytes ∧ offsetBytes + launch.bytes ≤ buffer.bytes ∧
      launch.peers.map LaunchPeer.rank = peerRanks node ∧
      ∀ peer ∈ launch.peers, Reaches group after offsetBytes launch.bytes
        (partner (makeIpcImportKey buffer) peer.rank) peer.rank peer.ptr := by
  obtain ⟨address, stored, offsetBytes, bytes, registered, peers, admitted, ran, _, checked, rfl, rfl⟩ :=
    prepareImpl_launched prepared
  obtain ⟨given, live, inside⟩ := admit_live admitted
  cases given
  have same := Option.some.inj (live.symm.trans own.live)
  subst same
  obtain ⟨_, presents⟩ := registered_bindings ipc run own symmetric ran
  refine ⟨offsetBytes, rfl, rangeInside_iff.mp inside, launchPeers_ranks checked, ?_⟩
  intro peer member
  obtain ⟨rank, found, ok⟩ := Traverse.exists_left (Traverse.mapM_ok checked) member
  obtain ⟨mapping, here, fits, rfl, pointer, _⟩ := launchPeer_ok ok
  obtain ⟨listed, apart⟩ := List.mem_filter.mp found
  rw [pointer]
  exact (presents peer.rank (List.mem_range.mp listed) (of_decide_eq_true apart)).reaches here fits

theorem fastLaunch_reaches (ipc : group.bootstrapKind = .multiprocessIpc)
    (run : ReflTransGen (SymmetricStep node partner) {} process) (own : OwnBuffer node process mine buffer)
    (symmetric : Symmetric node partner buffer answers)
    (prepared : prepareFastAllreduceLaunch node answers (some mine) none offsetBytes bytes process =
      (.ok launch, after)) :
    launch.localPtr = buffer.ptr + offsetBytes ∧ offsetBytes + bytes ≤ buffer.bytes ∧
      List.Forall₂ (fun rank peer => Reaches group after offsetBytes bytes
        (partner (makeIpcImportKey buffer) rank) rank peer.ptr) (peerRanks node) launch.peers := by
  obtain ⟨address, stored, registered, ptrs, given, live, ran, found, rfl, rfl⟩ := prepareFast_launched prepared
  cases given
  have same := Option.some.inj (live.symm.trans own.live)
  subst same
  obtain ⟨mineBound, presents⟩ := registered_bindings ipc run own symmetric ran
  obtain ⟨local_, here, fits, pointer, _⟩ := fastRankPtr_ok (fastRankPtrs_at found node.within)
  have same := Option.some.inj (mineBound.symm.trans here)
  subst same
  refine ⟨pointer, fits, ?_⟩
  rw [List.forall₂_map_right_iff, List.forall₂_same]
  intro rank listed
  obtain ⟨present, apart⟩ := List.mem_filter.mp listed
  have inside := List.mem_range.mp present
  obtain ⟨mapping, there, room, pointer, _⟩ := fastRankPtr_ok (fastRankPtrs_at found inside)
  dsimp only
  rw [pointer]
  exact (presents rank inside (of_decide_eq_true apart)).reaches there room

/-- Under symmetric use, and while no registration fails halfway, a launch of either kind stays inside its buffer and
reaches exactly the partners of that buffer, at one offset and within their size. -/
theorem launch_reaches (ipc : group.bootstrapKind = .multiprocessIpc)
    (run : ReflTransGen (SymmetricStep node partner) {} process) (own : OwnBuffer node process mine buffer)
    (symmetric : Symmetric node partner buffer answers) :
    (∀ elementOffset count dtype launch after,
        prepareCollectiveLaunchImpl node answers (some mine) none elementOffset count dtype process =
          (.ok launch, after) →
        ∃ offsetBytes, launch.localPtr = buffer.ptr + offsetBytes ∧ offsetBytes + launch.bytes ≤ buffer.bytes ∧
          launch.peers.map LaunchPeer.rank = peerRanks node ∧
          ∀ peer ∈ launch.peers, Reaches group after offsetBytes launch.bytes
            (partner (makeIpcImportKey buffer) peer.rank) peer.rank peer.ptr) ∧
      ∀ offsetBytes bytes launch after,
        prepareFastAllreduceLaunch node answers (some mine) none offsetBytes bytes process = (.ok launch, after) →
        launch.localPtr = buffer.ptr + offsetBytes ∧ offsetBytes + bytes ≤ buffer.bytes ∧
          List.Forall₂ (fun rank peer => Reaches group after offsetBytes bytes
            (partner (makeIpcImportKey buffer) rank) rank peer.ptr) (peerRanks node) launch.peers :=
  ⟨fun _ _ _ _ _ prepared => preparedLaunch_reaches ipc run own symmetric prepared,
    fun _ _ _ _ prepared => fastLaunch_reaches ipc run own symmetric prepared⟩

/-- Both kinds of launch over a buffer that is registered already. -/
theorem launch_reaches_again :
    (∃ launch after offsetBytes,
      prepareCollectiveLaunchImpl nodeZero peerAnswers (some 1) none 2 4 .float32 registeredOne = (.ok launch, after) ∧
        ∀ peer ∈ launch.peers, Reaches twoProcesses after offsetBytes launch.bytes peerKey peer.rank peer.ptr) ∧
    ∃ launch after,
      prepareFastAllreduceLaunch nodeZero peerAnswers (some 1) none 16 64 registeredOne = (.ok launch, after) ∧
        List.Forall₂ (fun rank peer => Reaches twoProcesses after 16 64 peerKey rank peer.ptr) (peerRanks nodeZero)
          launch.peers := by
  obtain ⟨launch, prepared⟩ := prepared_pair (by decide :
    (prepareCollectiveLaunchImpl nodeZero peerAnswers (some 1) none 2 4 .float32 registeredOne).1.isOk = true)
  obtain ⟨fast, preparedFast⟩ := prepared_pair (by decide :
    (prepareFastAllreduceLaunch nodeZero peerAnswers (some 1) none 16 64 registeredOne).1.isOk = true)
  obtain ⟨reaches, reachesFast⟩ := launch_reaches rfl registeredOne_run registeredOne_own peerKey_partner
  obtain ⟨offsetBytes, _, _, _, peers⟩ := reaches 2 4 .float32 launch _ prepared
  exact ⟨⟨launch, _, offsetBytes, prepared, peers⟩, fast, _, preparedFast, (reachesFast 16 64 fast _ preparedFast).2.2⟩

end Reach

end Ooverlap.Launch
