import Ooverlap.Launch.Registration
import Ooverlap.Support.Recency

/-! The import cache as a list: a row holds the keys that its rank presented most recently. -/

namespace Ooverlap.Launch

open Api (OoBuffer)
open Recency

section Rows

variable {group : LiveGroup} {process : Process}

/-- The keys of a row's valid entries, the one used last first. -/
def Recents (process : Process) (rank : Nat) (keys : List IpcImportKey) : Prop :=
  ∃ slots : List Nat, (∀ slot, slot ∈ slots ↔ (process.importCache rank slot).valid = true) ∧
    slots.Pairwise (fun newer older =>
      (process.importCache rank older).lastUsed < (process.importCache rank newer).lastUsed) ∧
    slots.map (fun slot => (process.importCache rank slot).key) = keys

theorem recents_start (rank : Nat) : Recents {} rank [] :=
  ⟨[], fun _ => ⟨nofun, nofun⟩, .nil, rfl⟩

theorem recents_congr (row : after.importCache rank = process.importCache rank) (recents : Recents process rank keys) :
    Recents after rank keys := by
  unfold Recents
  rw [row]
  exact recents

theorem slots_nodup {process : Process} {slots : List Nat}
    (ordered : slots.Pairwise (fun newer older =>
      (process.importCache rank older).lastUsed < (process.importCache rank newer).lastUsed)) : slots.Nodup :=
  ordered.imp (by
    intro newer older lower same
    rw [same] at lower
    exact Nat.lt_irrefl _ lower)

theorem recents_matches (recents : Recents process rank keys) : wanted ∈ keys ↔
    ∃ slot, Matches process rank wanted (some slot) := by
  obtain ⟨slots, members, _, rfl⟩ := recents
  simp only [List.mem_map, members, Matches]

/-- A row holds at most as many keys as it has entries. -/
theorem recents_length (sound : Sound group process) (recents : Recents process rank keys) :
    keys.length ≤ kOoIpcImportCacheEntriesPerRank := by
  obtain ⟨slots, members, ordered, rfl⟩ := recents
  have inside : slots ⊆ List.range kOoIpcImportCacheEntriesPerRank := by
    intro slot member
    exact List.mem_range.mpr (sound.cached rank slot ((members slot).mp member)).inside
  rw [List.length_map]
  exact ((slots_nodup ordered).subperm inside).length_le.trans_eq List.length_range

/-- A lookup that hits moves the key to the front. -/
theorem find_recents (sound : Sound group process) (recents : Recents process rank keys)
    (member : wanted ∈ keys) :
    Recents (findIpcImportCacheEntry process rank wanted).2 rank (wanted :: keys.erase wanted) := by
  have found := findSlot_matches sound rank wanted
  obtain ⟨held, present⟩ := (recents_matches recents).mp member
  unfold findIpcImportCacheEntry
  split
  · rename_i missed
    rw [missed] at found
    exact absurd present.2 (found held present.1)
  · rename_i slot here
    rw [here] at found
    obtain ⟨valid, same⟩ := found
    obtain ⟨slots, members, ordered, rfl⟩ := recents
    have entry : ∀ place, ({ process.setEntry rank slot
        { process.importCache rank slot with lastUsed := process.importCacheClock + 1 } with
        importCacheClock := process.importCacheClock + 1 } : Process).importCache rank place =
        if place = slot then { process.importCache rank slot with lastUsed := process.importCacheClock + 1 }
        else process.importCache rank place := by
      intro place
      refine (setEntry_importCache rank slot _ rank place).trans ?_
      simp only [true_and]
    obtain ⟨newer, older, rfl⟩ := List.append_of_mem ((members slot).mpr valid)
    have distinct := slots_nodup ordered
    have apart : ∀ place ∈ newer ++ older, place ≠ slot := by
      intro place there same
      subst same
      exact (List.nodup_middle.mp distinct).notMem there
    refine ⟨slot :: (newer ++ older), ?_, ?_, ?_⟩
    · intro place
      rw [entry]
      by_cases this : place = slot
      · simp [this, valid]
      · rw [if_neg this, ← members]
        simp [this]
    · refine List.pairwise_cons.mpr ⟨?_, ?_⟩
      · intro place there
        rw [entry, entry, if_neg (apart place there), if_pos rfl]
        exact Nat.lt_succ_of_le (sound.clock rank place)
      · have kept := ordered.sublist ((List.sublist_cons_self slot older).append_left newer)
        refine kept.imp_of_mem ?_
        intro first second firstThere secondThere lower
        rw [entry, entry, if_neg (apart first firstThere), if_neg (apart second secondThere)]
        exact lower
    · have front : wanted ∉ newer.map fun place => (process.importCache rank place).key := by
        intro there
        obtain ⟨place, inside, twin⟩ := List.mem_map.mp there
        have live := (members place).mp (List.mem_append_left _ inside)
        refine apart place (List.mem_append_left _ inside) ?_
        exact sound.keys rank place slot live valid (twin.trans same.symm)
      have unchanged : (newer ++ older).map (fun place => (({ process.setEntry rank slot
          { process.importCache rank slot with lastUsed := process.importCacheClock + 1 } with
          importCacheClock := process.importCacheClock + 1 } : Process).importCache rank place).key) =
          (newer ++ older).map fun place => (process.importCache rank place).key := by
        refine List.map_congr_left ?_
        intro place there
        rw [entry, if_neg (apart place there)]
      rw [List.map_cons, unchanged, entry, if_pos rfl, List.map_append, List.map_append, List.map_cons]
      dsimp only
      rw [same, List.erase_append_right _ front, List.erase_cons_head]

/-- One that misses leaves the row as it is. -/
theorem find_missed (sound : Sound group process) (recents : Recents process rank keys) (absent : wanted ∉ keys) :
    findIpcImportCacheEntry process rank wanted = (none, process) := by
  have found := findSlot_matches sound rank wanted
  unfold findIpcImportCacheEntry
  split
  · rfl
  · rename_i slot here
    rw [here] at found
    exact absurd ((recents_matches recents).mpr ⟨slot, found⟩) absent

/-- The selection frees the last place of a full row, and no place of another. -/
theorem select_recents (sound : Sound group process) (recents : Recents process rank keys) :
    Recents (selectIpcImportCacheSlot process rank).2 rank (keys.take (kOoIpcImportCacheEntriesPerRank - 1)) := by
  obtain ⟨slots, members, ordered, rfl⟩ := recents
  have distinct := slots_nodup ordered
  have inside : slots ⊆ List.range kOoIpcImportCacheEntriesPerRank := by
    intro slot member
    exact List.mem_range.mpr (sound.cached rank slot ((members slot).mp member)).inside
  unfold selectIpcImportCacheSlot
  split
  · rename_i free found
    -- A slot that is free makes the row's keys fewer than its slots.
    have selected := select_selected sound rank
    rw [selectIpcImportCacheSlot, found] at selected
    have short : slots.length < kOoIpcImportCacheEntriesPerRank := by
      have missing : free ∉ slots := by
        intro member
        have valid := (members free).mp member
        rw [selected.free] at valid
        cases valid
      have more : (free :: slots).Nodup := List.nodup_cons.mpr ⟨missing, distinct⟩
      have bounded : free :: slots ⊆ List.range kOoIpcImportCacheEntriesPerRank :=
        List.cons_subset.mpr ⟨List.mem_range.mpr selected.inside, inside⟩
      exact (more.subperm bounded).length_le.trans_eq List.length_range
    rw [List.take_of_length_le (by rw [List.length_map]; exact Nat.le_sub_one_of_lt short)]
    exact ⟨slots, members, ordered, rfl⟩
  · rename_i full
    have all : ∀ slot, slot < kOoIpcImportCacheEntriesPerRank → slot ∈ slots :=
      fun slot within => (members slot).mpr (full_of_emptySlot full within)
    obtain ⟨within, least⟩ := oldestSlot_least process rank
    have row : ∀ place, (clearIpcImportCacheEntry process rank (oldestSlot process rank)).importCache rank place =
        if place = oldestSlot process rank then {} else process.importCache rank place := by
      intro place
      rw [clear_importCache]
      simp only [true_and]
    have length : slots.length = kOoIpcImportCacheEntriesPerRank := by
      refine Nat.le_antisymm ((distinct.subperm inside).length_le.trans_eq List.length_range) ?_
      have covers : List.range kOoIpcImportCacheEntriesPerRank ⊆ slots :=
        fun slot member => all slot (List.mem_range.mp member)
      exact List.length_range.symm.trans_le (List.nodup_range.subperm covers).length_le
    obtain ⟨newer, older, shape⟩ := List.append_of_mem (all _ within)
    have last : older = [] := by
      refine List.eq_nil_iff_forall_not_mem.mpr ?_
      intro place there
      rw [shape] at ordered
      have lower := (List.pairwise_cons.mp (List.pairwise_append.mp ordered).2.1).1 place there
      have member : place ∈ slots := by
        rw [shape]
        exact List.mem_append_right _ (List.mem_cons_of_mem _ there)
      exact Nat.not_lt.mpr (least place (List.mem_range.mp (inside member))) lower
    rw [last] at shape
    subst shape
    have apart : oldestSlot process rank ∉ newer := by
      intro there
      exact (List.nodup_append.mp distinct).2.2 _ there _ List.mem_cons_self rfl
    rw [List.length_append, List.length_singleton] at length
    have front : newer.length = kOoIpcImportCacheEntriesPerRank - 1 := Nat.eq_sub_of_add_eq length
    refine ⟨newer, ?_, ?_, ?_⟩
    · intro place
      rw [row]
      by_cases this : place = oldestSlot process rank
      · simp [this, apart]
      · rw [if_neg this, ← members]
        simp [this]
    · refine (List.pairwise_append.mp ordered).1.imp_of_mem ?_
      intro first second firstThere secondThere lower
      rw [row, row, if_neg (ne_of_mem_of_not_mem firstThere apart), if_neg (ne_of_mem_of_not_mem secondThere apart)]
      exact lower
    · rw [List.map_append, List.take_left' (by rw [List.length_map]; exact front)]
      refine List.map_congr_left ?_
      intro place there
      rw [row, if_neg (ne_of_mem_of_not_mem there apart)]

theorem fillSlot_recents (sound : Sound group process) (free : (process.importCache rank slot).valid = false)
    (recents : Recents process rank keys) (wanted : IpcImportKey) (stored : OoBuffer) :
    Recents (fillSlot process rank slot wanted stored) rank (wanted :: keys) := by
  obtain ⟨slots, members, ordered, rfl⟩ := recents
  have row : ∀ place, (fillSlot process rank slot wanted stored).importCache rank place =
      if place = slot then
        { valid := true, key := wanted, buffer := some process.nextAddress, lastUsed := process.importCacheClock + 1 }
      else process.importCache rank place := by
    intro place
    rw [fillSlot_importCache]
    simp only [true_and]
  have apart : ∀ place ∈ slots, place ≠ slot := by
    intro place there same
    have valid := (members place).mp there
    rw [same, free] at valid
    cases valid
  refine ⟨slot :: slots, ?_, ?_, ?_⟩
  · intro place
    rw [row]
    by_cases this : place = slot
    · simp [this]
    · rw [if_neg this, ← members]
      simp [this]
  · refine List.pairwise_cons.mpr ⟨?_, ?_⟩
    · intro place there
      rw [row, row, if_neg (apart place there), if_pos rfl]
      exact Nat.lt_succ_of_le (sound.clock rank place)
    · refine ordered.imp_of_mem ?_
      intro first second firstThere secondThere lower
      rw [row, row, if_neg (apart first firstThere), if_neg (apart second secondThere)]
      exact lower
  · rw [List.map_cons, row, if_pos rfl]
    refine congrArg (List.cons wanted) (List.map_congr_left ?_)
    intro place there
    rw [row, if_neg (apart place there)]

theorem import_recents (sound : Sound group process) (answers : IpcAnswers) (recents : Recents process rank keys)
    (wanted : IpcImportKey) (desc : LegacyPeerBufferDescriptor)
    (done : (importPeerIntoCache group process answers rank wanted desc).1 = .ok slot) :
    Recents (importPeerIntoCache group process answers rank wanted desc).2 rank
      (wanted :: keys.take (kOoIpcImportCacheEntriesPerRank - 1)) := by
  have selected := select_selected sound rank
  have left := select_recents sound recents
  unfold importPeerIntoCache at done ⊢
  split at done
  · cases done
  · rename_i checks
    rw [if_neg checks]
    dsimp only at done ⊢
    split at done
    · cases done
    · exact fillSlot_recents selected.sound selected.free left wanted _

end Rows

section Registrations

variable {group : LiveGroup} {process : Process} {node : OoNode group}

theorem find_row (process : Process) (wanted : IpcImportKey) (apart : rank ≠ looked) :
    (findIpcImportCacheEntry process looked wanted).2.importCache rank = process.importCache rank := by
  unfold findIpcImportCacheEntry
  split
  · rfl
  · funext place
    exact (setEntry_importCache looked _ _ rank place).trans (if_neg fun same => apart same.1)

/-- The keys of a row after its rank's key has been looked up. -/
def lookedUp (keys : List IpcImportKey) (wanted : IpcImportKey) : List IpcImportKey :=
  if wanted ∈ keys then wanted :: keys.erase wanted else keys

theorem find_lookedUp (sound : Sound group process) (recents : Recents process rank row) (wanted : IpcImportKey) :
    Recents (findIpcImportCacheEntry process rank wanted).2 rank (lookedUp row wanted) := by
  unfold lookedUp
  split
  · rename_i member
    exact find_recents sound recents member
  · rename_i absent
    rw [find_missed sound recents absent]
    exact recents

theorem findHits_row (keys : Nat → IpcImportKey) (ranks : List Nat) (hits : Nat → Option Nat)
    (absent : rank ∉ ranks) :
    (findHits node keys ranks (hits, process)).2.importCache rank = process.importCache rank := by
  induction ranks generalizing hits process with
  | nil => rfl
  | cons first rest ih =>
    rw [findHits]
    split
    · exact ih hits (List.not_mem_of_not_mem_cons absent)
    · refine (ih _ (List.not_mem_of_not_mem_cons absent)).trans ?_
      exact find_row process (keys first) (List.ne_of_not_mem_cons absent)

theorem findHits_recents (sound : Sound group process) (keys : Nat → IpcImportKey) (ranks : List Nat)
    (distinct : ranks.Nodup) (hits : Nat → Option Nat) (recents : Recents process rank row) (member : rank ∈ ranks)
    (peer : rank ≠ node.rank) :
    Recents (findHits node keys ranks (hits, process)).2 rank (lookedUp row (keys rank)) := by
  induction ranks generalizing hits process with
  | nil => cases member
  | cons first rest ih =>
    obtain ⟨absent, distinctRest⟩ := List.nodup_cons.mp distinct
    rw [findHits]
    split
    · rename_i own
      have later := (List.mem_cons.mp member).resolve_left fun same => peer (same.trans own)
      exact ih sound distinctRest hits recents later
    · by_cases here : rank = first
      · subst here
        exact recents_congr (findHits_row keys rest _ absent) (find_lookedUp sound recents (keys rank))
      · have later := (List.mem_cons.mp member).resolve_left here
        refine ih (find_sound sound first (keys first)).2.1 distinctRest _ ?_ later
        exact recents_congr (find_row process (keys first) here) recents

/-- The keys of a row once its rank has been presented. -/
def presented (hit : Option Nat) (keys : List IpcImportKey) (wanted : IpcImportKey) : List IpcImportKey :=
  if hit = none then wanted :: keys.take (kOoIpcImportCacheEntriesPerRank - 1) else keys

theorem peerEntry_recents (sound : Sound group process) (answers : IpcAnswers) (keys : Nat → IpcImportKey)
    (hits : Nat → Option Nat) (descs : Option (Nat → LegacyPeerBufferDescriptor))
    (recents : Recents process rank row) (done : (peerEntry group answers keys hits descs rank process).1 = .ok slot) :
    Recents (peerEntry group answers keys hits descs rank process).2 rank (presented (hits rank) row (keys rank)) := by
  unfold peerEntry presented at *
  cases hit : hits rank with
  | some slot => exact recents
  | none =>
    rw [hit] at done
    cases descs with
    | none => cases done
    | some sent => exact import_recents sound answers recents (keys rank) (sent rank) done

theorem presentPeers_recents (sound : Sound group process) (answers : IpcAnswers) (keys : Nat → IpcImportKey)
    (hits : Nat → Option Nat) (descs : Option (Nat → LegacyPeerBufferDescriptor)) (ranks : List Nat)
    (distinct : ranks.Nodup) (inside : ∀ rank ∈ ranks, rank < group.worldSize)
    (found : ∀ rank ∈ ranks, rank ≠ node.rank → Matches process rank (keys rank) (hits rank))
    (described : ∀ sent, descs = some sent → ∀ rank ≠ node.rank, describes (keys rank) (sent rank))
    (recents : Recents process rank row) (member : rank ∈ ranks) (peer : rank ≠ node.rank)
    (done : (presentPeers node answers keys hits descs ranks process).1 = .success) :
    Recents (presentPeers node answers keys hits descs ranks process).2 rank
      (presented (hits rank) row (keys rank)) := by
  induction ranks generalizing process with
  | nil => cases member
  | cons first rest ih =>
    obtain ⟨absent, distinctRest⟩ := List.nodup_cons.mp distinct
    have insideRest : ∀ other ∈ rest, other < group.worldSize :=
      fun other later => inside other (List.mem_cons_of_mem _ later)
    by_cases peerFirst : first ≠ node.rank
    · have entry := peerEntry_imported sound answers keys hits descs (found first List.mem_cons_self peerFirst)
        fun sent given => described sent given first peerFirst
      rcases presentPeers_cons answers keys hits descs rest (inside first List.mem_cons_self) peerFirst entry with
        stopped | bound
      · obtain ⟨status, failed, same⟩ := stopped
        rw [same] at done
        exact absurd done failed
      · obtain ⟨slot, shown, given, same, bound⟩ := bound
        have foundRest : ∀ other ∈ rest, other ≠ node.rank →
            Matches shown other (keys other) (hits other) := by
          intro other later peerOther
          exact (found other (List.mem_cons_of_mem _ later) peerOther).frame bound.frame fun here =>
            absent (List.mem_singleton.mp here ▸ later)
        rw [same] at done ⊢
        by_cases here : rank = first
        · subst here
          have rest := presentPeers_presented bound.sound answers keys hits descs rest distinctRest insideRest
            foundRest described
          refine recents_congr (rest.frame.rows rank fun later => absent (List.mem_of_mem_filter later)) ?_
          refine recents_congr (congrFun bound.cache rank) ?_
          exact peerEntry_recents sound answers keys hits descs recents given
        · have later := (List.mem_cons.mp member).resolve_left here
          refine ih bound.sound distinctRest insideRest foundRest ?_ later done
          exact recents_congr (bound.frame.rows rank fun same => here (List.mem_singleton.mp same)) recents
    · rw [not_not] at peerFirst
      subst peerFirst
      rw [presentPeers_own] at done ⊢
      exact ih sound distinctRest insideRest (fun other later => found other (List.mem_cons_of_mem _ later)) recents
        ((List.mem_cons.mp member).resolve_left peer) done

theorem importMissing_recents (sound : Sound group process) (answers : IpcAnswers) (buffer : OoBuffer)
    (keys : Nat → IpcImportKey) (exchanged : answers.peerKeys = .ok peerKeys)
    (others : ∀ rank ≠ node.rank, keys rank = peerKeys rank)
    (done : (importMissing node answers buffer keys process).1 = .success) (recents : Recents process rank row)
    (inside : rank < group.worldSize) (peer : rank ≠ node.rank) :
    Recents (importMissing node answers buffer keys process).2 rank
      (touch kOoIpcImportCacheEntriesPerRank row (keys rank)) := by
  obtain ⟨touched, looked, found, _⟩ :=
    findHits_sound node keys (List.range group.worldSize) List.nodup_range (fun _ => none) sound
  have member : rank ∈ List.range group.worldSize := List.mem_range.mpr inside
  have first := findHits_recents sound keys _ List.nodup_range (fun _ => none) recents member peer
  have here := found rank member peer
  have whole : presented
      ((findHits node keys (List.range group.worldSize) (fun _ => none, process)).1 rank)
      (lookedUp row (keys rank)) (keys rank) = touch kOoIpcImportCacheEntriesPerRank row (keys rank) := by
    unfold presented lookedUp
    generalize (findHits node keys (List.range group.worldSize) (fun _ => none, process)).1 rank = hit at here
    cases hit with
    | some slot =>
      have held := (recents_matches recents).mpr ⟨slot, here⟩
      rw [if_neg (Option.some_ne_none slot), if_pos held, touch_of_mem held (recents_length sound recents)]
    | none =>
      have missing : keys rank ∉ row := by
        intro held
        obtain ⟨slot, valid, same⟩ := (recents_matches recents).mp held
        exact here slot valid same
      rw [if_pos rfl, if_neg missing, touch_of_not_mem missing]
  rw [← whole]
  unfold importMissing at done ⊢
  dsimp only at done ⊢
  split at done
  · rename_i thrown _
    exact absurd done (exceptionToStatus_failed thrown)
  · split at done
    · rename_i thrown _
      exact absurd done (exceptionToStatus_failed thrown)
    · rename_i descs sent
      exact presentPeers_recents looked answers keys _ descs _ List.nodup_range
        (fun other there => List.mem_range.mp there)
        (fun other there peerOther => (matches_touched touched).mpr (found other there peerOther))
        (exchangeDescs_described answers buffer _ exchanged others sent) first member peer done

theorem exchange_recents (sound : Sound group process) (answers : IpcAnswers)
    (own : OwnBuffer node process mine buffer) (answered : answers.peerKeys = .ok peerKeys)
    (exchanging : ipcSymmetricLocalKeyFastPathReady group process node.rank (makeIpcImportKey buffer) = false)
    (done : (ensureIpcLegacyCollectiveBuffersRegistered node answers mine buffer process).1 = .success)
    (recents : Recents process rank row) (inside : rank < group.worldSize) (peer : rank ≠ node.rank) :
    Recents (ensureIpcLegacyCollectiveBuffersRegistered node answers mine buffer process).2 rank
      (touch kOoIpcImportCacheEntriesPerRank row (peerKeys rank)) := by
  unfold ensureIpcLegacyCollectiveBuffersRegistered at done ⊢
  split at done
  · cases done
  · rename_i wrapped
    rw [if_neg wrapped]
    simp only [exchanging, answered, Bool.false_eq_true, if_false] at done ⊢
    have shown := importMissing_recents (presentOwn_sound sound own) answers buffer
      (exchangeData node.rank (makeIpcImportKey buffer) peerKeys) answered
      (fun other apart => Function.update_of_ne apart _ _) done recents inside peer
    rwa [exchangeData, Function.update_of_ne peer] at shown

end Registrations

section Histories

variable {group : LiveGroup} {process : Process}

/-- The runs of a rank whose exchanges succeed, with the keys that each peer has sent so far. Between exchanges stand
calls that leave the cache as it is. -/
inductive Exchanged (node : OoNode group) : Process → (Nat → List IpcImportKey) → Prop
  | start : Exchanged node {} fun _ => []
  | other {before after : Process} (run : Exchanged node before history) (taken : Step group before after)
    (cache : after.importCache = before.importCache) : Exchanged node after history
  | exchange {before : Process} (run : Exchanged node before history) (answers : IpcAnswers)
    (own : OwnBuffer node before mine buffer) (answered : answers.peerKeys = .ok peerKeys)
    (exchanging : ipcSymmetricLocalKeyFastPathReady group before node.rank (makeIpcImportKey buffer) = false)
    (done : (ensureIpcLegacyCollectiveBuffersRegistered node answers mine buffer before).1 = .success) :
    Exchanged node (ensureIpcLegacyCollectiveBuffersRegistered node answers mine buffer before).2 fun rank =>
      history rank ++ [peerKeys rank]
  | launch {before : Process} (run : Exchanged node before history) : Exchanged node (advanceEpoch node before) history

theorem Exchanged.sound {node : OoNode group} (run : Exchanged node process history) : Sound group process := by
  induction run with
  | start => exact sound_start group
  | other _ taken _ ih => exact step_sound ih taken
  | exchange _ answers own _ _ _ ih => exact (ensure_registered ih answers own).sound
  | launch _ ih => exact advanceEpoch_sound node ih

/-- A peer's row holds the keys that the peer sent most recently. -/
theorem exchanged_recents {node : OoNode group} (run : Exchanged node process history)
    (inside : rank < group.worldSize) (peer : rank ≠ node.rank) :
    Recents process rank (recent kOoIpcImportCacheEntriesPerRank (history rank)) := by
  induction run with
  | start => exact recents_start rank
  | other _ _ cache ih => exact recents_congr (congrFun cache rank) ih
  | exchange run answers own answered exchanging done ih =>
    rw [recent_append]
    exact exchange_recents run.sound answers own answered exchanging done ih inside peer
  | launch _ ih => exact ih

/-- After successful exchanges the cache is a least-recently-used one: a lookup hits exactly for the keys sent most
recently, those since which the peer has sent fewer others than a row has entries. -/
theorem lookup_hits_iff {node : OoNode group} (run : Exchanged node process history) (inside : rank < group.worldSize)
    (peer : rank ≠ node.rank) (wanted : IpcImportKey) :
    (findSlot process rank wanted ≠ none ↔ wanted ∈ recent kOoIpcImportCacheEntriesPerRank (history rank)) ∧
      (findSlot process rank wanted ≠ none ↔ ∃ before after, history rank = before ++ wanted :: after ∧
        wanted ∉ after ∧ after.toFinset.card < kOoIpcImportCacheEntriesPerRank) := by
  have recents := exchanged_recents run inside peer
  have hits : findSlot process rank wanted ≠ none ↔
      wanted ∈ recent kOoIpcImportCacheEntriesPerRank (history rank) := by
    rw [recents_matches recents]
    have found := findSlot_matches run.sound rank wanted
    cases hit : findSlot process rank wanted with
    | some slot =>
      rw [hit] at found
      exact ⟨fun _ => ⟨slot, found⟩, fun _ => Option.some_ne_none slot⟩
    | none =>
      rw [hit] at found
      refine ⟨fun absent => absurd rfl absent, ?_⟩
      intro held
      obtain ⟨slot, valid, same⟩ := held
      exact absurd same (found slot valid)
  exact ⟨hits, hits.trans (mem_recent_iff (by decide) (history rank))⟩

/-- The key of the peer's buffer of this number. -/
def keyOf (number : Nat) : IpcImportKey := { peerKey with cacheToken := number + 1 }

/-- The peer presents the buffer of this number. -/
def answersOf (number : Nat) : IpcAnswers :=
  { peerAnswers with
    peerKeys := .ok fun _ => keyOf number
    honest := fun _ _ _ answered sent => by
      rw [← Except.ok.inj answered, ← Except.ok.inj sent]
      exact ⟨rfl, rfl, rfl⟩ }

/-- The rank's own two wrappers, which it registers in turn so that every registration exchanges. -/
def wrapperOf (number : Nat) : OoBuffer := { wrapperOne with ipcCacheToken := number % 2 + 1 }

/-- The process after the peer has presented this many buffers, one after the other. -/
def presentedTo : Nat → Process
  | 0 => (ooBufferWrapIpcRange nodeZero 64 1024 none wrappedOne).2
  | number + 1 =>
    (ensureIpcLegacyCollectiveBuffersRegistered nodeZero (answersOf number) (number % 2 + 1) (wrapperOf number)
      (presentedTo number)).2

theorem presentedTo_exchanged (number : Nat) (few : number ≤ 17) :
    Exchanged nodeZero (presentedTo number) fun _ => (List.range number).map keyOf := by
  have own : ∀ number < 17, (presentedTo number).heap (number % 2 + 1) = some (wrapperOf number) ∧
      ipcSymmetricLocalKeyFastPathReady twoProcesses (presentedTo number) 0 (makeIpcImportKey (wrapperOf number)) = false ∧
      (ensureIpcLegacyCollectiveBuffersRegistered nodeZero (answersOf number) (number % 2 + 1) (wrapperOf number)
        (presentedTo number)).1 = .success := by
    decide +kernel
  induction number with
  | zero =>
    have wrapped : Exchanged nodeZero wrappedOne fun _ => [] := .other .start ⟨none, .wrap nodeZero 64 1024 none⟩ rfl
    exact .other wrapped ⟨none, .wrap nodeZero 64 1024 none⟩ rfl
  | succ number ih =>
    obtain ⟨live, exchanging, done⟩ := own number few
    have run : Exchanged nodeZero (presentedTo (number + 1)) _ :=
      .exchange (ih (Nat.le_of_succ_le few)) (answersOf number) ⟨live, rfl, .inl rfl⟩ rfl exchanging done
    simpa only [List.range_succ, List.map_append, List.map_singleton] using run

/-- The seventeenth buffer drives out the first and no other. -/
theorem lookup_hits_evicted :
    findSlot (presentedTo 17) 1 (keyOf 0) = none ∧ ∀ number < 16, findSlot (presentedTo 17) 1 (keyOf (number + 1)) ≠ none := by
  have hits := fun wanted => (lookup_hits_iff (presentedTo_exchanged 17 le_rfl) Nat.one_lt_two Nat.one_ne_zero wanted).1
  refine ⟨not_not.mp ((hits _).not.mpr (by decide)), fun number few => (hits _).mpr ?_⟩
  revert number
  decide

end Histories

end Ooverlap.Launch
