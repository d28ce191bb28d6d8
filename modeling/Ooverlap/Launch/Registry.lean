import Ooverlap.Launch.Prepare

/-! The life of the rank buffers of a process, and what holds of its tables whatever calls succeed or fail. -/

namespace Ooverlap.Launch

open Api (OoStatus OoDtype Address OoBuffer)
open Word

section Lifecycle

structure OoBufferIpcRange where
  allocationBasePtr : Address
  allocationBytes : Nat
  logicalOffsetBytes : Nat

variable {group : LiveGroup} (node : OoNode group)

/-- Base, size and offset of the exportable allocation, if the range describes the wrapped pointer. -/
def wrapRange (ptr bytes : Nat) (range : Option OoBufferIpcRange) : Except OoStatus OoBufferIpcRange :=
  match range with
  | none => .ok { allocationBasePtr := ptr, allocationBytes := bytes, logicalOffsetBytes := 0 }
  | some range =>
    if range.allocationBasePtr = 0 ∨ range.allocationBytes = 0 ∨
        range.logicalOffsetBytes > range.allocationBytes ∨
        bytes > range.allocationBytes - range.logicalOffsetBytes then
      .error .invalidArgument
    else
      let expected := toUInt64 (range.allocationBasePtr + range.logicalOffsetBytes)
      if expected < range.allocationBasePtr ∨ expected ≠ ptr then .error .invalidArgument else .ok range

/-- In a group of processes a wrapper is presented only by a registration. -/
def ooBufferWrapIpcRange (ptr bytes : Nat) (range : Option OoBufferIpcRange) (process : Process) :
    Except OoStatus Address × Process :=
  if ptr = 0 ∨ bytes = 0 then (.error .invalidArgument, process)
  else
    match wrapRange ptr bytes range with
    | .error status => (.error status, process)
    | .ok range =>
      let wrapped := process.allocate
        { ptr, bytes
          mappedBytes := range.allocationBytes
          ipcBasePtr := range.allocationBasePtr
          ipcBaseBytes := range.allocationBytes
          ipcLogicalOffsetBytes := range.logicalOffsetBytes
          group := group.address
          ownerRank := node.rank
          ownerDevice := node.device
          ipcCacheToken := process.nextToken
          systemKind := .wrapped }
      let counted := { wrapped with nextToken := process.nextToken + 1 }
      (.ok process.nextAddress,
        if group.bootstrapKind = .multiprocessIpc then counted
        else counted.present node.rank (some process.nextAddress))

/-- `mapped` is what the allocation of peer-visible memory gives: its address and its mapped size. -/
def ooBufferAlloc (bytes : Nat) (mapped : Except Thrown (Address × Nat)) (process : Process) :
    Except OoStatus Address × Process :=
  if bytes = 0 then (.error .invalidArgument, process)
  else
    match mapped with
    | .error thrown => (.error (exceptionToStatus thrown), process)
    | .ok (ptr, mappedSize) =>
      let allocated := process.allocate
        { ptr, bytes
          mappedBytes := mappedSize
          group := group.address
          ownerRank := node.rank
          ownerDevice := node.device
          ipcCacheToken := process.nextToken
          systemKind := .ownedVmm }
      (.ok process.nextAddress,
        { allocated with nextToken := process.nextToken + 1 }.present node.rank (some process.nextAddress))

def unregisterCollectiveBuffer (address : Address) (buffer : OoBuffer) (process : Process) : Process :=
  if 0 ≤ buffer.ownerRank ∧ buffer.ownerRank < kOoMaxLocalDevices ∧
      process.collectiveBuffers buffer.ownerRank.toNat = some address then
    process.present buffer.ownerRank.toNat none
  else process

def ooBufferDestroy (address : Address) (process : Process) : Process :=
  match process.heap address with
  | none => process
  | some buffer => (unregisterCollectiveBuffer address buffer process).free (some address)

end Lifecycle

/-- A wrapper that the user made and has to destroy. -/
def UserOwned (buffer : OoBuffer) : Prop :=
  buffer.systemKind = .wrapped ∨ buffer.systemKind = .ownedVmm

/-- The rank's own wrapper, still alive. -/
structure OwnBuffer {group : LiveGroup} (node : OoNode group) (process : Process) (address : Address)
    (buffer : OoBuffer) : Prop where
  live : process.heap address = some buffer
  rank : buffer.ownerRank = node.rank
  owned : UserOwned buffer

/-- One call of the user on a live wrapper of its own rank, importing descriptors apart, with any answers of the driver
and of the other processes, and the rank whose epoch the call advances. -/
inductive Call (group : LiveGroup) : Process → Option Nat → Process → Prop
  | wrap (node : OoNode group) (ptr bytes : Nat) (range : Option OoBufferIpcRange) :
    Call group process none (ooBufferWrapIpcRange node ptr bytes range process).2
  | alloc (node : OoNode group) (bytes : Nat) (mapped : Except Thrown (Address × Nat)) :
    Call group process none (ooBufferAlloc node bytes mapped process).2
  | destroy (live : process.heap address = some buffer) (owned : UserOwned buffer) :
    Call group process none (ooBufferDestroy address process)
  | register (ipc : group.bootstrapKind = .multiprocessIpc) (node : OoNode group) (answers : IpcAnswers)
    (own : OwnBuffer node process address buffer) :
    Call group process none (registerIpcCollectiveBuffers node answers address buffer process).2
  | prepareFast (node : OoNode group) (answers : IpcAnswers) (mine : Option Address)
    (own : ∀ address buffer, mine = some address → process.heap address = some buffer →
      OwnBuffer node process address buffer)
    (prebound : Option PreboundRankBuffers) (offsetBytes bytes : Nat) :
    Call group process
      (if (prepareFastAllreduceLaunch node answers mine prebound offsetBytes bytes process).1.isOk then
        some node.rank else none)
      (prepareFastAllreduceLaunch node answers mine prebound offsetBytes bytes process).2
  | prepare (node : OoNode group) (answers : IpcAnswers) (mine : Option Address)
    (own : ∀ address buffer, mine = some address → process.heap address = some buffer →
      OwnBuffer node process address buffer)
    (prebound : Option PreboundRankBuffers) (elementOffset count : Nat) (dtype : OoDtype) :
    Call group process
      (if reachesPeers node answers mine prebound elementOffset count dtype process then some node.rank else none)
      (prepareCollectiveLaunchImpl node answers mine prebound elementOffset count dtype process).2

def Step (group : LiveGroup) (before after : Process) : Prop := ∃ launched, Call group before launched after

/-- The wrapper is a mapping of the buffer that a key of the rank names. -/
structure ImportOf (group : LiveGroup) (rank : Nat) (wanted : IpcImportKey) (buffer : OoBuffer) : Prop where
  named : validIpcImportKeyForRank group wanted rank = true
  grouped : buffer.group = group.address
  kind : buffer.systemKind = .importedLegacy
  owner : buffer.ownerRank = rank
  device : buffer.ownerDevice = group.devices rank
  mapped : buffer.ptr ≠ 0
  token : buffer.ipcCacheToken = wanted.cacheToken
  sizes : buffer.bytes = wanted.bytes ∧ buffer.mappedBytes = wanted.mappedBytes ∧
    buffer.ipcLogicalOffsetBytes = wanted.logicalOffsetBytes

/-- A valid entry owns a live import of the buffer its key names. -/
structure Cached (group : LiveGroup) (process : Process) (rank slot : Nat) : Prop where
  inside : slot < kOoIpcImportCacheEntriesPerRank
  buffer : ∃ address buffer, (process.importCache rank slot).buffer = some address ∧
    process.heap address = some buffer ∧ ImportOf group rank (process.importCache rank slot).key buffer

/-- No table of the process points to a freed wrapper or to one of another rank; every import belongs to one
entry, and in a row no key is held twice and no two entries were last used at one time. -/
structure Sound (group : LiveGroup) (process : Process) : Prop where
  fresh : ∀ address, process.nextAddress ≤ address → process.heap address = none
  grouped : ∀ address buffer, process.heap address = some buffer → buffer.group = group.address
  cached : ∀ rank slot, (process.importCache rank slot).valid = true → Cached group process rank slot
  empty : ∀ rank slot, (process.importCache rank slot).valid = false →
    (process.importCache rank slot).buffer = none
  apart : ∀ rank slot other place address, (process.importCache rank slot).buffer = some address →
    (process.importCache other place).buffer = some address → rank = other ∧ slot = place
  keys : ∀ rank slot place, (process.importCache rank slot).valid = true →
    (process.importCache rank place).valid = true →
    (process.importCache rank slot).key = (process.importCache rank place).key → slot = place
  clock : ∀ rank slot, (process.importCache rank slot).lastUsed ≤ process.importCacheClock
  recent : ∀ rank slot place, (process.importCache rank slot).valid = true →
    (process.importCache rank place).valid = true →
    (process.importCache rank slot).lastUsed = (process.importCache rank place).lastUsed → slot = place
  presented : ∀ rank address, process.collectiveBuffers rank = some address →
    ∃ buffer, process.heap address = some buffer ∧ buffer.ownerRank = rank ∧
      (UserOwned buffer ∨ ∃ slot, (process.importCache rank slot).buffer = some address)
  ranks : ∀ rank, group.worldSize ≤ rank → process.collectiveBuffers rank = none

theorem sound_start (group : LiveGroup) : Sound group {} where
  fresh _ _ := rfl
  grouped := nofun
  cached := nofun
  empty _ _ _ := rfl
  apart := nofun
  keys := nofun
  clock _ _ := Nat.le_refl 0
  recent := nofun
  presented := nofun
  ranks _ _ := rfl

section Primitives

variable {group : LiveGroup} {process : Process}

theorem setEntry_importCache (rank slot : Nat) (entry : IpcImportCacheEntry) (other place : Nat) :
    (process.setEntry rank slot entry).importCache other place =
      if other = rank ∧ place = slot then entry else process.importCache other place := by
  unfold Process.setEntry
  by_cases row : other = rank
  · subst row
    by_cases column : place = slot
    · subst column
      simp
    · simp [column]
  · simp [row]

theorem present_collectiveBuffers (rank : Nat) (pointer : Option Address) (other : Nat) :
    (process.present rank pointer).collectiveBuffers other =
      if other = rank then pointer else process.collectiveBuffers other :=
  Function.update_apply ..

theorem free_heap (address other : Address) :
    (process.free (some address)).heap other = if other = address then none else process.heap other :=
  Function.update_apply ..

theorem allocate_heap (buffer : OoBuffer) (address : Address) :
    (process.allocate buffer).heap address =
      if address = process.nextAddress then some buffer else process.heap address :=
  Function.update_apply ..

/-- Two processes whose tables differ only in when entries were used. -/
structure Touched (before after : Process) : Prop where
  heap : after.heap = before.heap
  nextAddress : after.nextAddress = before.nextAddress
  collectiveBuffers : after.collectiveBuffers = before.collectiveBuffers
  valid : ∀ rank slot, (after.importCache rank slot).valid = (before.importCache rank slot).valid
  key : ∀ rank slot, (after.importCache rank slot).key = (before.importCache rank slot).key
  buffer : ∀ rank slot, (after.importCache rank slot).buffer = (before.importCache rank slot).buffer

theorem Touched.refl (process : Process) : Touched process process :=
  ⟨rfl, rfl, rfl, fun _ _ => rfl, fun _ _ => rfl, fun _ _ => rfl⟩

theorem Touched.trans (first : Touched process between) (second : Touched between after) :
    Touched process after where
  heap := second.heap.trans first.heap
  nextAddress := second.nextAddress.trans first.nextAddress
  collectiveBuffers := second.collectiveBuffers.trans first.collectiveBuffers
  valid rank slot := (second.valid rank slot).trans (first.valid rank slot)
  key rank slot := (second.key rank slot).trans (first.key rank slot)
  buffer rank slot := (second.buffer rank slot).trans (first.buffer rank slot)

theorem Touched.cached (touched : Touched process after) (cached : Cached group process rank slot) :
    Cached group after rank slot where
  inside := cached.inside
  buffer := by
    rw [touched.key, touched.buffer, touched.heap]
    exact cached.buffer

theorem Touched.sound (touched : Touched process after) (sound : Sound group process)
    (clock : ∀ rank slot, (after.importCache rank slot).lastUsed ≤ after.importCacheClock)
    (recent : ∀ rank slot place, (after.importCache rank slot).valid = true →
      (after.importCache rank place).valid = true →
      (after.importCache rank slot).lastUsed = (after.importCache rank place).lastUsed → slot = place) :
    Sound group after where
  fresh address := by
    rw [touched.nextAddress, touched.heap]
    exact sound.fresh address
  grouped address buffer := by
    rw [touched.heap]
    exact sound.grouped address buffer
  cached rank slot valid := by
    rw [touched.valid] at valid
    exact touched.cached (sound.cached rank slot valid)
  empty rank slot := by
    rw [touched.valid, touched.buffer]
    exact sound.empty rank slot
  apart rank slot other place address := by
    rw [touched.buffer, touched.buffer]
    exact sound.apart rank slot other place address
  keys rank slot place := by
    rw [touched.valid, touched.valid, touched.key, touched.key]
    exact sound.keys rank slot place
  clock := clock
  recent := recent
  presented rank address := by
    rw [touched.collectiveBuffers, touched.heap]
    intro shown
    obtain ⟨buffer, live, owner, source⟩ := sound.presented rank address shown
    refine ⟨buffer, live, owner, source.imp_right ?_⟩
    rintro ⟨slot, held⟩
    exact ⟨slot, (touched.buffer rank slot).trans held⟩
  ranks rank := by
    rw [touched.collectiveBuffers]
    exact sound.ranks rank

end Primitives

section Lookup

variable {group : LiveGroup} {process : Process}

/-- In sound tables the lookup returns every valid entry of the key. -/
theorem entryUsable_iff (sound : Sound group process) (rank slot : Nat) :
    entryUsable process (process.importCache rank slot) = true ↔ (process.importCache rank slot).valid = true := by
  unfold entryUsable
  constructor
  · intro usable
    exact (Bool.and_eq_true_iff.mp usable).1
  · intro valid
    obtain ⟨address, buffer, held, live, import_⟩ := (sound.cached rank slot valid).buffer
    simp [valid, Process.deref, held, live, import_.mapped]

/-- What a lookup says about the row it was made in. -/
def Matches (process : Process) (rank : Nat) (key : IpcImportKey) : Option Nat → Prop
  | some slot => (process.importCache rank slot).valid = true ∧ (process.importCache rank slot).key = key
  | none => ∀ slot, (process.importCache rank slot).valid = true → (process.importCache rank slot).key ≠ key

theorem findSlot_matches (sound : Sound group process) (rank : Nat) (key : IpcImportKey) :
    Matches process rank key (findSlot process rank key) := by
  cases found : findSlot process rank key with
  | some slot =>
    have test := List.find?_some found
    simp only [Bool.and_eq_true, decide_eq_true_eq] at test
    exact ⟨(entryUsable_iff sound rank slot).mp test.1, test.2⟩
  | none =>
    intro slot valid same
    have absent := List.find?_eq_none.mp found slot (List.mem_range.mpr (sound.cached rank slot valid).inside)
    simp only [Bool.and_eq_true, decide_eq_true_eq, not_and] at absent
    exact absent ((entryUsable_iff sound rank slot).mpr valid) same

theorem matches_touched (touched : Touched process after) :
    Matches after rank wanted hit ↔ Matches process rank wanted hit := by
  cases hit with
  | some slot => simp only [Matches, touched.valid, touched.key]
  | none => simp only [Matches, touched.valid, touched.key]

theorem find_sound (sound : Sound group process) (rank : Nat) (key : IpcImportKey) :
    Touched process (findIpcImportCacheEntry process rank key).2 ∧
      Sound group (findIpcImportCacheEntry process rank key).2 ∧
      Matches process rank key (findIpcImportCacheEntry process rank key).1 := by
  have found := findSlot_matches sound rank key
  unfold findIpcImportCacheEntry
  split
  · rename_i none
    rw [none] at found
    exact ⟨.refl process, sound, found⟩
  · rename_i slot here
    rw [here] at found
    have entry : ∀ other place, ({ process.setEntry rank slot
        { process.importCache rank slot with lastUsed := process.importCacheClock + 1 } with
        importCacheClock := process.importCacheClock + 1 } : Process).importCache other place =
        if other = rank ∧ place = slot then
          { process.importCache rank slot with lastUsed := process.importCacheClock + 1 }
        else process.importCache other place := setEntry_importCache rank slot _
    have touched : Touched process { process.setEntry rank slot
        { process.importCache rank slot with lastUsed := process.importCacheClock + 1 } with
        importCacheClock := process.importCacheClock + 1 } := by
      refine ⟨rfl, rfl, rfl, ?_, ?_, ?_⟩ <;>
      · intro other place
        rw [entry]
        split
        · rename_i same
          rw [same.1, same.2]
        · rfl
    refine ⟨touched, touched.sound sound ?_ ?_, found⟩
    · intro other place
      rw [entry]
      split
      · exact Nat.le_refl _
      · exact Nat.le_succ_of_le (sound.clock other place)
    · intro other place third validPlace validThird
      rw [touched.valid] at validPlace validThird
      rw [entry, entry]
      have placeOld := sound.clock other place
      have thirdOld := sound.clock other third
      split
      · rename_i isPlace
        split
        · rename_i isThird
          exact fun _ => isPlace.2.trans isThird.2.symm
        · intro same
          dsimp only at same
          omega
      · split
        · intro same
          dsimp only at same
          omega
        · exact sound.recent other place third validPlace validThird

/-- The entries of all peers looked up: each is the valid entry of its peer's key, if the row has one. -/
theorem findHits_sound (node : OoNode group) (keys : Nat → IpcImportKey) (ranks : List Nat) (distinct : ranks.Nodup)
    (hits : Nat → Option Nat) (sound : Sound group process) :
    Touched process (findHits node keys ranks (hits, process)).2 ∧
      Sound group (findHits node keys ranks (hits, process)).2 ∧
      (∀ rank ∈ ranks, rank ≠ node.rank →
        Matches process rank (keys rank) ((findHits node keys ranks (hits, process)).1 rank)) ∧
      ∀ rank ∉ ranks, (findHits node keys ranks (hits, process)).1 rank = hits rank := by
  induction ranks generalizing hits process with
  | nil => exact ⟨.refl process, sound, nofun, fun _ _ => rfl⟩
  | cons first rest ih =>
    obtain ⟨absent, distinctRest⟩ := List.nodup_cons.mp distinct
    rw [findHits]
    split
    · rename_i own
      obtain ⟨touched, soundRest, found, others⟩ := ih distinctRest hits sound
      refine ⟨touched, soundRest, ?_, ?_⟩
      · intro rank member peer
        rcases List.mem_cons.mp member with here | later
        · exact absurd (here.trans own) peer
        · exact found rank later peer
      · intro rank missing
        exact others rank (List.not_mem_of_not_mem_cons missing)
    · obtain ⟨touchedFirst, soundFirst, foundFirst⟩ := find_sound sound first (keys first)
      obtain ⟨touched, soundRest, found, others⟩ :=
        ih distinctRest (Function.update hits first (findIpcImportCacheEntry process first (keys first)).1) soundFirst
      refine ⟨touchedFirst.trans touched, soundRest, ?_, ?_⟩
      · intro rank member peer
        rcases List.mem_cons.mp member with here | later
        · subst here
          rw [others rank absent, Function.update_self]
          exact foundFirst
        · exact (matches_touched touchedFirst).mp (found rank later peer)
      · intro rank missing
        rw [others rank (List.not_mem_of_not_mem_cons missing)]
        exact Function.update_of_ne (List.ne_of_not_mem_cons missing) _ _

end Lookup

end Ooverlap.Launch
