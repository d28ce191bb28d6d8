import Ooverlap.Launch.Registry

/-! One row of the import cache: eviction and filling keep the tables sound, and touch no other row. -/

namespace Ooverlap.Launch

open Api (OoStatus Address OoBuffer)

/-- What a registration keeps, whatever its outcome: the user's wrappers, their tokens and the epochs. -/
structure Kept (before after : Process) : Prop where
  owned : ∀ address buffer, UserOwned buffer →
    (after.heap address = some buffer ↔ before.heap address = some buffer)
  token : after.nextToken = before.nextToken
  epoch : after.collectiveEpoch = before.collectiveEpoch

theorem Kept.refl (process : Process) : Kept process process := ⟨fun _ _ _ => .rfl, rfl, rfl⟩

theorem Kept.trans (first : Kept process between) (second : Kept between after) : Kept process after where
  owned address buffer own := (second.owned address buffer own).trans (first.owned address buffer own)
  token := second.token.trans first.token
  epoch := second.epoch.trans first.epoch

/-- What may change while the rows of some ranks are filled: those rows and what these ranks present. -/
structure Frame (ranks : List Nat) (before after : Process) : Prop where
  rows : ∀ other ∉ ranks, after.importCache other = before.importCache other
  bindings : ∀ other ∉ ranks, after.collectiveBuffers other = before.collectiveBuffers other
  kept : Kept before after

namespace Frame

theorem refl (ranks : List Nat) (process : Process) : Frame ranks process process :=
  ⟨fun _ _ => rfl, fun _ _ => rfl, .refl process⟩

theorem trans (first : Frame ranks process between) (second : Frame ranks between after) :
    Frame ranks process after where
  rows other apart := (second.rows other apart).trans (first.rows other apart)
  bindings other apart := (second.bindings other apart).trans (first.bindings other apart)
  kept := first.kept.trans second.kept

theorem mono (frame : Frame ranks process after) (more : ranks ⊆ wider) : Frame wider process after where
  rows other apart := frame.rows other fun member => apart (more member)
  bindings other apart := frame.bindings other fun member => apart (more member)
  kept := frame.kept

end Frame

section Eviction

variable {group : LiveGroup} {process : Process}

theorem clear_importCache (rank slot other place : Nat) :
    (clearIpcImportCacheEntry process rank slot).importCache other place =
      if other = rank ∧ place = slot then {} else process.importCache other place := by
  unfold clearIpcImportCacheEntry
  rw [setEntry_importCache]
  split
  · rfl
  · cases (process.importCache rank slot).buffer <;> split <;> rfl

theorem clear_kept (process : Process) (rank slot : Nat) :
    (clearIpcImportCacheEntry process rank slot).nextAddress = process.nextAddress ∧
      (clearIpcImportCacheEntry process rank slot).importCacheClock = process.importCacheClock ∧
      (clearIpcImportCacheEntry process rank slot).nextToken = process.nextToken ∧
      (clearIpcImportCacheEntry process rank slot).collectiveEpoch = process.collectiveEpoch := by
  unfold clearIpcImportCacheEntry
  cases (process.importCache rank slot).buffer <;> dsimp only <;> split <;> exact ⟨rfl, rfl, rfl, rfl⟩

theorem clear_heap (held : (process.importCache rank slot).buffer = some address) (other : Address) :
    (clearIpcImportCacheEntry process rank slot).heap other =
      if other = address then none else process.heap other := by
  unfold clearIpcImportCacheEntry
  rw [held]
  dsimp only
  split <;> exact free_heap address other

/-- A rank that presented the evicted import presents nothing afterwards. -/
theorem clear_collectiveBuffers (held : (process.importCache rank slot).buffer = some address)
    (inside : rank < kOoMaxLocalDevices) (other : Nat) :
    (clearIpcImportCacheEntry process rank slot).collectiveBuffers other =
      if other = rank ∧ process.collectiveBuffers rank = some address then none
      else process.collectiveBuffers other := by
  unfold clearIpcImportCacheEntry
  rw [held]
  dsimp only
  by_cases shown : process.collectiveBuffers rank = some address
  · rw [if_pos ⟨inside, Option.some_ne_none address, shown⟩]
    refine (present_collectiveBuffers rank none other).trans ?_
    simp only [shown, and_true]
  · rw [if_neg fun condition => shown condition.2.2, if_neg fun condition => shown condition.2]
    rfl

theorem row_inside (cached : Cached group process rank slot) : rank < kOoMaxLocalDevices := by
  obtain ⟨_, _, _, _, import_⟩ := cached.buffer
  have key := import_.named
  simp only [validIpcImportKeyForRank, Bool.and_eq_true, decide_eq_true_eq] at key
  exact lt_of_lt_of_le key.1.1.1.1.1.1.1.1 group.worldSize_le

theorem clear_frame (sound : Sound group process) (valid : (process.importCache rank slot).valid = true) :
    Frame [rank] process (clearIpcImportCacheEntry process rank slot) := by
  have cached := sound.cached rank slot valid
  obtain ⟨address, gone, held, live, import_⟩ := cached.buffer
  obtain ⟨_, _, token, epoch⟩ := clear_kept process rank slot
  refine ⟨?_, ?_, ?_, token, epoch⟩
  · intro other apart
    funext place
    exact (clear_importCache rank slot other place).trans (if_neg fun same => apart (List.mem_singleton.mpr same.1))
  · intro other apart
    refine (clear_collectiveBuffers held (row_inside cached) other).trans (if_neg ?_)
    exact fun same => apart (List.mem_singleton.mpr same.1)
  · intro other buffer own
    rw [clear_heap held]
    split
    · rename_i same
      subst same
      refine ⟨nofun, ?_⟩
      intro alive
      rw [← Option.some.inj (live.symm.trans alive)] at own
      simp [UserOwned, import_.kind] at own
    · exact .rfl

/-- An entry that is valid afterwards is another one, and untouched. -/
theorem clear_other (alive : ((clearIpcImportCacheEntry process rank slot).importCache other place).valid = true) :
    ¬(other = rank ∧ place = slot) ∧
      (clearIpcImportCacheEntry process rank slot).importCache other place = process.importCache other place := by
  rw [clear_importCache] at alive
  split at alive
  · cases alive
  · rename_i apart
    exact ⟨apart, (clear_importCache rank slot other place).trans (if_neg apart)⟩

theorem clear_cached (sound : Sound group process) (held : (process.importCache rank slot).buffer = some address)
    (alive : ((clearIpcImportCacheEntry process rank slot).importCache other place).valid = true) :
    Cached group (clearIpcImportCacheEntry process rank slot) other place := by
  obtain ⟨apart, same⟩ := clear_other alive
  rw [same] at alive
  have before := sound.cached other place alive
  obtain ⟨taken, buffer, taking, there, rest⟩ := before.buffer
  have distinct : taken ≠ address := by
    rintro rfl
    exact apart (sound.apart other place rank slot taken taking held)
  refine ⟨before.inside, taken, buffer, ?_, ?_, ?_⟩
  · rw [same]
    exact taking
  · rw [clear_heap held, if_neg distinct]
    exact there
  · rw [same]
    exact rest

/-- What a rank still presents is not the evicted import: that one was the row's own, and is unpresented. -/
theorem clear_presented (sound : Sound group process) (valid : (process.importCache rank slot).valid = true)
    (showing : (clearIpcImportCacheEntry process rank slot).collectiveBuffers other = some shown) :
    ∃ buffer, (clearIpcImportCacheEntry process rank slot).heap shown = some buffer ∧ buffer.ownerRank = other ∧
      (UserOwned buffer ∨
        ∃ place, ((clearIpcImportCacheEntry process rank slot).importCache other place).buffer = some shown) := by
  have cached := sound.cached rank slot valid
  obtain ⟨address, gone, held, live, import_⟩ := cached.buffer
  rw [clear_collectiveBuffers held (row_inside cached)] at showing
  split at showing
  · cases showing
  rename_i apart
  obtain ⟨buffer, there, owns, source⟩ := sound.presented other shown showing
  have survives : shown ≠ address := by
    rintro rfl
    have one : gone = buffer := Option.some.inj (live.symm.trans there)
    subst one
    have rows : other = rank := Int.ofNat_inj.mp (owns.symm.trans import_.owner)
    subst rows
    exact apart ⟨rfl, showing⟩
  refine ⟨buffer, ?_, owns, source.imp_right ?_⟩
  · rw [clear_heap held, if_neg survives]
    exact there
  · rintro ⟨place, taking⟩
    refine ⟨place, ?_⟩
    rw [clear_importCache, if_neg]
    · exact taking
    · rintro ⟨rfl, rfl⟩
      rw [held] at taking
      exact survives (Option.some.inj taking).symm

theorem clear_sound (sound : Sound group process) (valid : (process.importCache rank slot).valid = true) :
    Sound group (clearIpcImportCacheEntry process rank slot) := by
  have cached := sound.cached rank slot valid
  obtain ⟨address, _, held, _⟩ := cached.buffer
  obtain ⟨nextAddress, clock, _⟩ := clear_kept process rank slot
  constructor
  case fresh =>
    intro other far
    rw [nextAddress] at far
    rw [clear_heap held]
    split
    · rfl
    · exact sound.fresh other far
  case grouped =>
    intro other buffer alive
    rw [clear_heap held] at alive
    split at alive
    · cases alive
    · exact sound.grouped other buffer alive
  case cached => exact fun other place alive => clear_cached sound held alive
  case empty =>
    intro other place dead
    rw [clear_importCache] at dead ⊢
    split
    · rfl
    · rename_i apart
      rw [if_neg apart] at dead
      exact sound.empty other place dead
  case apart =>
    intro first place second third taken
    rw [clear_importCache, clear_importCache]
    split
    · nofun
    · split
      · nofun
      · exact sound.apart first place second third taken
  case keys =>
    intro other place third first second
    rw [(clear_other first).2, (clear_other second).2]
    rw [(clear_other first).2] at first
    rw [(clear_other second).2] at second
    exact sound.keys other place third first second
  case clock =>
    intro other place
    rw [clock, clear_importCache]
    split
    · exact Nat.zero_le _
    · exact sound.clock other place
  case recent =>
    intro other place third first second
    rw [(clear_other first).2, (clear_other second).2]
    rw [(clear_other first).2] at first
    rw [(clear_other second).2] at second
    exact sound.recent other place third first second
  case presented => exact fun other shown showing => clear_presented sound valid showing
  case ranks =>
    intro other outside
    rw [clear_collectiveBuffers held (row_inside cached)]
    split
    · rfl
    · exact sound.ranks other outside

end Eviction

section Selection

variable {group : LiveGroup} {process : Process}

theorem oldest_fold (entries : Nat → IpcImportCacheEntry) (slots : List Nat) (best : Nat) :
    (slots.foldl (fun best slot => if (entries slot).lastUsed < (entries best).lastUsed then slot else best) best ∈
        best :: slots) ∧
      ∀ slot ∈ best :: slots, (entries (slots.foldl (fun best slot =>
        if (entries slot).lastUsed < (entries best).lastUsed then slot else best) best)).lastUsed ≤
          (entries slot).lastUsed := by
  induction slots generalizing best with
  | nil => simp
  | cons first rest ih =>
    rw [List.foldl_cons]
    obtain ⟨member, least⟩ := ih (if (entries first).lastUsed < (entries best).lastUsed then first else best)
    constructor
    · rcases List.mem_cons.mp member with here | later
      · rw [here]
        split <;> simp
      · exact List.mem_cons_of_mem _ (List.mem_cons_of_mem _ later)
    · intro slot present
      have chosen := least _ List.mem_cons_self
      rcases List.mem_cons.mp present with here | later
      · subst here
        refine chosen.trans ?_
        split <;> omega
      · rcases List.mem_cons.mp later with here | later
        · subst here
          refine chosen.trans ?_
          split <;> omega
        · exact least slot (List.mem_cons_of_mem _ later)

/-- The slot used longest ago. -/
theorem oldestSlot_least (process : Process) (rank : Nat) :
    oldestSlot process rank < kOoIpcImportCacheEntriesPerRank ∧
      ∀ slot < kOoIpcImportCacheEntriesPerRank, (process.importCache rank (oldestSlot process rank)).lastUsed ≤
        (process.importCache rank slot).lastUsed := by
  obtain ⟨member, least⟩ := oldest_fold (process.importCache rank) cacheSlots 0
  constructor
  · rcases List.mem_cons.mp member with first | later
    · exact Nat.lt_of_le_of_lt (Nat.le_of_eq first) (Nat.zero_lt_succ 15)
    · exact List.mem_range.mp later
  · intro slot inside
    exact least slot (List.mem_cons_of_mem _ (List.mem_range.mpr inside))

/-- A row without an empty slot is full of valid entries. -/
theorem full_of_emptySlot (full : emptySlot process rank = none) (inside : slot < kOoIpcImportCacheEntriesPerRank) :
    (process.importCache rank slot).valid = true := by
  have taken := List.find?_eq_none.mp full slot (List.mem_range.mpr inside)
  simp only [Bool.or_eq_true, Bool.not_eq_true', decide_eq_true_eq, not_or, Bool.not_eq_false] at taken
  exact taken.1

/-- The selected slot of a rank is empty, and the rest of the tables as it was. -/
structure Selected (group : LiveGroup) (rank : Nat) (before : Process) (slot : Nat) (after : Process) : Prop where
  inside : slot < kOoIpcImportCacheEntriesPerRank
  sound : Sound group after
  free : (after.importCache rank slot).valid = false
  kept : ∀ place, place ≠ slot → after.importCache rank place = before.importCache rank place
  frame : Frame [rank] before after
  clock : after.importCacheClock = before.importCacheClock

theorem select_selected (sound : Sound group process) (rank : Nat) :
    Selected group rank process (selectIpcImportCacheSlot process rank).1
      (selectIpcImportCacheSlot process rank).2 := by
  unfold selectIpcImportCacheSlot
  split
  · rename_i slot found
    have test := List.find?_some found
    have invalid : (process.importCache rank slot).valid = false := by
      by_contra valid
      rw [Bool.not_eq_false] at valid
      obtain ⟨address, _, held, _⟩ := (sound.cached rank slot valid).buffer
      simp [valid, held] at test
    exact ⟨List.mem_range.mp (List.mem_of_find?_eq_some found), sound, invalid, fun _ _ => rfl, .refl [rank] process,
      rfl⟩
  · rename_i full
    have inside := (oldestSlot_least process rank).1
    have valid := full_of_emptySlot full inside
    refine ⟨inside, clear_sound sound valid, ?_, ?_, clear_frame sound valid, (clear_kept process rank _).2.1⟩
    · rw [clear_importCache, if_pos ⟨rfl, rfl⟩]
    · intro place apart
      rw [clear_importCache, if_neg fun same => apart same.2]

end Selection

section Filling

variable {group : LiveGroup} {process : Process}

/-- The tables after an import has been stored in an empty slot. -/
def fillSlot (process : Process) (rank slot : Nat) (key : IpcImportKey) (buffer : OoBuffer) : Process :=
  { (process.allocate buffer).setEntry rank slot
      { valid := true, key, buffer := some process.nextAddress, lastUsed := process.importCacheClock + 1 } with
    importCacheClock := process.importCacheClock + 1 }

theorem fillSlot_importCache (process : Process) (rank slot : Nat) (key : IpcImportKey) (buffer : OoBuffer)
    (other place : Nat) :
    (fillSlot process rank slot key buffer).importCache other place =
      if other = rank ∧ place = slot then
        { valid := true, key, buffer := some process.nextAddress, lastUsed := process.importCacheClock + 1 }
      else process.importCache other place :=
  @setEntry_importCache (process.allocate buffer) rank slot _ other place

theorem fillSlot_heap (key : IpcImportKey) (buffer : OoBuffer) (address : Address) :
    (fillSlot process rank slot key buffer).heap address =
      if address = process.nextAddress then some buffer else process.heap address :=
  allocate_heap buffer address

theorem fillSlot_live (sound : Sound group process) (key : IpcImportKey) (stored : OoBuffer)
    (live : process.heap address = some buffer) :
    (fillSlot process rank slot key stored).heap address = some buffer := by
  rw [fillSlot_heap, if_neg]
  · exact live
  · intro same
    rw [sound.fresh address (Nat.le_of_eq same.symm)] at live
    cases live

theorem fillSlot_frame (sound : Sound group process) (rank slot : Nat) (key : IpcImportKey)
    (foreign : ¬UserOwned stored) : Frame [rank] process (fillSlot process rank slot key stored) where
  rows other apart := by
    funext place
    refine (fillSlot_importCache process rank slot key stored other place).trans (if_neg ?_)
    exact fun same => apart (List.mem_singleton.mpr same.1)
  bindings _ _ := rfl
  kept := by
    refine ⟨?_, rfl, rfl⟩
    intro address buffer own
    refine ⟨?_, fillSlot_live sound key stored⟩
    rw [fillSlot_heap]
    split
    · intro live
      rw [← Option.some.inj live] at own
      exact absurd own foreign
    · exact id

/-- No entry owns the wrapper that is allocated next. -/
theorem Sound.newcomer (sound : Sound group process) (held : (process.importCache rank slot).buffer = some address) :
    address ≠ process.nextAddress := by
  intro same
  cases valid : (process.importCache rank slot).valid with
  | false =>
    rw [sound.empty rank slot valid] at held
    cases held
  | true =>
    obtain ⟨there, buffer, holding, live, _⟩ := (sound.cached rank slot valid).buffer
    have one := Option.some.inj (held.symm.trans holding)
    subst one
    rw [sound.fresh address (Nat.le_of_eq same.symm)] at live
    cases live

theorem fillSlot_cached (sound : Sound group process) (inside : slot < kOoIpcImportCacheEntriesPerRank)
    (import_ : ImportOf group rank wanted stored)
    (valid : ((fillSlot process rank slot wanted stored).importCache other place).valid = true) :
    Cached group (fillSlot process rank slot wanted stored) other place := by
  by_cases here : other = rank ∧ place = slot
  · obtain ⟨rfl, rfl⟩ := here
    have entry := fillSlot_importCache process other place wanted stored other place
    rw [if_pos ⟨rfl, rfl⟩] at entry
    refine ⟨inside, process.nextAddress, stored, ?_, ?_, ?_⟩
    · rw [entry]
    · rw [fillSlot_heap, if_pos rfl]
    · rw [entry]
      exact import_
  · have entry := fillSlot_importCache process rank slot wanted stored other place
    rw [if_neg here] at entry
    rw [entry] at valid
    have before := sound.cached other place valid
    obtain ⟨address, buffer, held, live, rest⟩ := before.buffer
    refine ⟨before.inside, address, buffer, ?_, fillSlot_live sound wanted stored live, ?_⟩
    · rw [entry]
      exact held
    · rw [entry]
      exact rest

theorem fillSlot_apart (sound : Sound group process)
    (first : ((fillSlot process rank slot wanted stored).importCache one place).buffer = some address)
    (second : ((fillSlot process rank slot wanted stored).importCache two third).buffer = some address) :
    one = two ∧ place = third := by
  rw [fillSlot_importCache] at first second
  split at first
  · next here =>
    split at second
    · next there => exact ⟨here.1.trans there.1.symm, here.2.trans there.2.symm⟩
    · exact absurd (Option.some.inj first).symm (sound.newcomer second)
  · split at second
    · exact absurd (Option.some.inj second).symm (sound.newcomer first)
    · exact sound.apart one place two third address first second

/-- The new entry differs from the others in whatever they have in pairs. -/
theorem fillSlot_pairs {shared : IpcImportCacheEntry → Value}
    (fresh : ∀ place, (process.importCache rank place).valid = true → shared (process.importCache rank place) ≠
      shared ⟨true, wanted, some process.nextAddress, process.importCacheClock + 1⟩)
    (others : ∀ row place third, (process.importCache row place).valid = true →
      (process.importCache row third).valid = true →
      shared (process.importCache row place) = shared (process.importCache row third) → place = third)
    (first : ((fillSlot process rank slot wanted stored).importCache other place).valid = true)
    (second : ((fillSlot process rank slot wanted stored).importCache other third).valid = true)
    (same : shared ((fillSlot process rank slot wanted stored).importCache other place) =
      shared ((fillSlot process rank slot wanted stored).importCache other third)) : place = third := by
  rw [fillSlot_importCache] at first second
  rw [fillSlot_importCache, fillSlot_importCache] at same
  by_cases here : other = rank ∧ place = slot <;> by_cases there : other = rank ∧ third = slot
  · exact here.2.trans there.2.symm
  · rw [if_neg there] at second same
    rw [if_pos here] at same
    exact absurd same.symm (fresh third (here.1 ▸ second) |> fun differs => here.1 ▸ differs)
  · rw [if_neg here] at first same
    rw [if_pos there] at same
    exact absurd same (fresh place (there.1 ▸ first) |> fun differs => there.1 ▸ differs)
  · rw [if_neg here] at first same
    rw [if_neg there] at second same
    exact others other place third first second same

theorem fillSlot_presented (sound : Sound group process) (free : (process.importCache rank slot).valid = false)
    (showing : process.collectiveBuffers other = some address) :
    ∃ buffer, (fillSlot process rank slot wanted stored).heap address = some buffer ∧ buffer.ownerRank = other ∧
      (UserOwned buffer ∨
        ∃ place, ((fillSlot process rank slot wanted stored).importCache other place).buffer = some address) := by
  obtain ⟨buffer, live, owner, source⟩ := sound.presented other address showing
  refine ⟨buffer, fillSlot_live sound wanted stored live, owner, source.imp_right ?_⟩
  rintro ⟨place, held⟩
  refine ⟨place, ?_⟩
  rw [fillSlot_importCache, if_neg]
  · exact held
  · rintro ⟨rfl, rfl⟩
    rw [sound.empty other place free] at held
    cases held

theorem fillSlot_sound (sound : Sound group process) (inside : slot < kOoIpcImportCacheEntriesPerRank)
    (free : (process.importCache rank slot).valid = false) (missed : Matches process rank wanted none)
    (import_ : ImportOf group rank wanted stored) :
    Sound group (fillSlot process rank slot wanted stored) := by
  constructor
  case fresh =>
    intro address far
    rw [fillSlot_heap, if_neg (Nat.ne_of_gt far)]
    exact sound.fresh address (Nat.le_of_succ_le far)
  case grouped =>
    intro address buffer live
    rw [fillSlot_heap] at live
    split at live
    · rw [← Option.some.inj live]
      exact import_.grouped
    · exact sound.grouped address buffer live
  case cached => exact fun other place valid => fillSlot_cached sound inside import_ valid
  case empty =>
    intro other place
    rw [fillSlot_importCache]
    split
    · nofun
    · exact sound.empty other place
  case apart => exact fun _ _ _ _ _ first second => fillSlot_apart sound first second
  case keys =>
    exact fun _ _ _ first second same =>
      fillSlot_pairs (fun place valid => missed place valid) sound.keys first second same
  case clock =>
    intro other place
    rw [fillSlot_importCache]
    split
    · exact Nat.le_refl _
    · exact Nat.le_succ_of_le (sound.clock other place)
  case recent =>
    exact fun _ _ _ first second same =>
      fillSlot_pairs (fun place _ => Nat.ne_of_lt (Nat.lt_succ_of_le (sound.clock rank place))) sound.recent first
        second same
  case presented => exact fun _ _ showing => fillSlot_presented sound free showing
  case ranks => exact sound.ranks

/-- What an import leaves in its rank's row. -/
structure Imported (group : LiveGroup) (rank : Nat) (wanted : IpcImportKey) (before : Process)
    (result : Except OoStatus Nat × Process) : Prop where
  sound : Sound group result.2
  frame : Frame [rank] before result.2
  stored : ∀ slot, result.1 = .ok slot → Matches result.2 rank wanted (some slot)
  failed : ∀ status, result.1 = .error status → status ≠ .success

theorem Selected.missed (selected : Selected group rank before slot after) (missed : Matches before rank wanted none) :
    Matches after rank wanted none := by
  intro place valid
  have apart : place ≠ slot := by
    intro same
    rw [same, selected.free] at valid
    cases valid
  rw [selected.kept place apart] at valid ⊢
  exact missed place valid

theorem exceptionToStatus_failed (thrown : Thrown) : exceptionToStatus thrown ≠ .success := by
  cases thrown <;> exact nofun

theorem import_imported (sound : Sound group process) (answers : IpcAnswers) (rank : Nat) (wanted : IpcImportKey)
    (desc : LegacyPeerBufferDescriptor) (missed : Matches process rank wanted none)
    (described : describes wanted desc) :
    Imported group rank wanted process (importPeerIntoCache group process answers rank wanted desc) := by
  have selected := select_selected sound rank
  unfold importPeerIntoCache
  split
  · exact ⟨sound, .refl [rank] process, nofun, fun _ failed => Except.error.inj failed ▸ nofun⟩
  · rename_i checks
    simp only [not_or, Bool.not_eq_false, not_not] at checks
    obtain ⟨key, _, _, device⟩ := checks
    dsimp only
    split
    · rename_i thrown _
      refine ⟨selected.sound, selected.frame, nofun, ?_⟩
      intro status failed
      rw [← Except.error.inj failed]
      exact exceptionToStatus_failed thrown
    · rename_i base opened
      have mapped : base ≠ 0 := by
        unfold importLegacyPeerBuffer at opened
        split at opened
        · cases opened
        · split at opened
          · cases opened
          · exact answers.mapped _ _ _ opened
      have import_ : ImportOf group rank wanted (importedBuffer group rank wanted desc base) := by
        refine ⟨key, rfl, rfl, rfl, ?_, ?_, rfl, described⟩
        · simp only [validIpcImportKeyForRank, Bool.and_eq_true, decide_eq_true_eq] at key
          exact device.trans key.2
        · exact Nat.ne_of_gt (Nat.add_pos_left (Nat.pos_of_ne_zero mapped) _)
      have foreign : ¬UserOwned (importedBuffer group rank wanted desc base) := by
        simp [UserOwned, importedBuffer]
      refine ⟨fillSlot_sound selected.sound selected.inside selected.free (selected.missed missed) import_,
        selected.frame.trans (fillSlot_frame selected.sound rank _ wanted foreign), ?_, nofun⟩
      intro slot done
      rw [← Except.ok.inj done]
      have entry := fillSlot_importCache (selectIpcImportCacheSlot process rank).2 rank
        (selectIpcImportCacheSlot process rank).1 wanted (importedBuffer group rank wanted desc base) rank
        (selectIpcImportCacheSlot process rank).1
      rw [if_pos ⟨rfl, rfl⟩] at entry
      constructor
      · exact congrArg IpcImportCacheEntry.valid entry
      · exact congrArg IpcImportCacheEntry.key entry

end Filling

end Ooverlap.Launch
