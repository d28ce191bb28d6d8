import Mathlib.Logic.Function.Basic
import Mathlib.Logic.Relation
import Ooverlap.Distribution.RequestKey
import Ooverlap.Support.Interleaving

/-! The same-process plan cache: its shared entries, the submitting threads' copies, and groups that come and go. -/

namespace Ooverlap.Distribution

open Plan Lowering Relation Interleaving
open Api (OoStatus OoGroup)

def kPlanCacheEntries : Nat := 16

structure CachedPlanEntry where
  valid : Bool := false
  key : TransferPlanRequestKey := {}
  plan : TransferPlan := {}

structure SameProcessPlanCache where
  generation : Nat := 0
  nextVictim : Nat := 0
  entries : List CachedPlanEntry := List.replicate kPlanCacheEntries {}

/-- A thread's copy of the entry it used last, with the address and the generation of its cache. -/
structure ThreadLocalPlanEntry (Address : Type*) where
  owner : Option Address := none
  ownerGeneration : Nat := 0
  entry : CachedPlanEntry := {}

/-- Result of a request together with the cache and the thread's copy it leaves. -/
structure PlanAnswer (Address : Type*) where
  result : Except OoStatus TransferPlan
  cache : SameProcessPlanCache
  saved : ThreadLocalPlanEntry Address

/-- A live group with the caches of its distribution backend, one for every collective. -/
structure Backend where
  group : OoGroup
  caches : Collective → SameProcessPlanCache

/-- The caches of a new backend, constructed in this order with one generation each. -/
def blankCaches (nextGeneration : Nat) : Collective → SameProcessPlanCache
  | .allReduce => { generation := nextGeneration }
  | .reduceScatter => { generation := nextGeneration + 1 }
  | .allGather => { generation := nextGeneration + 2 }

/-- A process: the generation of the next cache, the live backends and the threads' copies. -/
structure ProcessState (Thread Address : Type*) where
  nextGeneration : Nat := 1
  groups : Address → Option Backend := fun _ => none
  saved : Thread → Collective → ThreadLocalPlanEntry Address := fun _ _ => {}

section Requests

variable {Address : Type*} [DecidableEq Address]

def getOrBuildCachedSameProcessPlan (address : Address) (cache : SameProcessPlanCache)
    (saved : ThreadLocalPlanEntry Address) (key : TransferPlanRequestKey)
    (builder : TransferPlan → OoStatus × TransferPlan) : PlanAnswer Address :=
  if key.worldSize ≤ 0 then ⟨.error .invalidArgument, cache, saved⟩
  else if saved.owner = some address ∧ saved.ownerGeneration = cache.generation ∧ saved.entry.valid ∧
      sameRequestKey saved.entry.key key then ⟨.ok saved.entry.plan, cache, saved⟩
  else
    -- From here on the mutex of the cache is held; before, only the thread's own copy was read.
    match cache.entries.find? fun entry => entry.valid && sameRequestKey entry.key key with
    | some entry => ⟨.ok entry.plan, cache, ⟨some address, cache.generation, entry⟩⟩
    | none =>
      let free := cache.entries.findIdx? fun entry => !entry.valid
      let slot := free.getD cache.nextVictim
      let nextVictim := if free.isSome then cache.nextVictim else (cache.nextVictim + 1) % kPlanCacheEntries
      let built := builder {}
      if built.1 ≠ .success then
        let entry := { valid := false, key := key, plan := built.2 }
        ⟨.error built.1, { cache with nextVictim := nextVictim, entries := cache.entries.set slot entry }, saved⟩
      else
        let entry := { valid := true, key := key, plan := built.2 }
        ⟨.ok built.2, { cache with nextVictim := nextVictim, entries := cache.entries.set slot entry },
          ⟨some address, cache.generation, entry⟩⟩

/-- `get_allreduce_transfer_plan` and its two siblings, called on a node of the group at `address`. -/
def getTransferPlan (address : Address) (backend : Backend) (saved : ThreadLocalPlanEntry Address)
    (request : PlanRequest) : PlanAnswer Address :=
  if (request.launch backend.group).dtypeSize = 0 ∨ planFor request.config ≠ request.collective then
    ⟨.error .invalidArgument, backend.caches request.collective, saved⟩
  else
    getOrBuildCachedSameProcessPlan address (backend.caches request.collective) saved (request.key backend.group)
      (request.build backend.group)

end Requests

section Process

variable {Thread Address : Type*} [DecidableEq Thread] [DecidableEq Address]

namespace ProcessState

def createGroup (state : ProcessState Thread Address) (address : Address) (group : OoGroup) :
    ProcessState Thread Address :=
  { state with
    nextGeneration := state.nextGeneration + 3
    groups := Function.update state.groups address (some ⟨group, blankCaches state.nextGeneration⟩) }

def destroyGroup (state : ProcessState Thread Address) (address : Address) : ProcessState Thread Address :=
  { state with groups := Function.update state.groups address none }

def answer (state : ProcessState Thread Address) (thread : Thread) (address : Address) (backend : Backend)
    (request : PlanRequest) : PlanAnswer Address :=
  getTransferPlan address backend (state.saved thread request.collective) request

def serve (state : ProcessState Thread Address) (thread : Thread) (address : Address) (backend : Backend)
    (request : PlanRequest) : ProcessState Thread Address :=
  let answer := state.answer thread address backend request
  { state with
    groups := Function.update state.groups address
      (some { backend with caches := Function.update backend.caches request.collective answer.cache })
    saved := Function.update state.saved thread
      (Function.update (state.saved thread) request.collective answer.saved) }

/-- Groups are created at any free address and destroyed, and any thread asks any live group for a plan. -/
inductive Step : ProcessState Thread Address → ProcessState Thread Address → Prop where
  | create (address : Address) (group : OoGroup) (free : state.groups address = none) :
      Step state (state.createGroup address group)
  | destroy (address : Address) : Step state (state.destroyGroup address)
  | request (thread : Thread) (address : Address) (backend : Backend) (live : state.groups address = some backend)
      (request : PlanRequest) : Step state (state.serve thread address backend request)

abbrev Reachable (state : ProcessState Thread Address) : Prop :=
  ReflTransGen Step {} state

end ProcessState

end Process

/-- A plan that is served is the one a fresh build gives, a request that cannot be built is refused, and one
whose configuration is for its collective is refused for no other reason. -/
structure Transparent (group : OoGroup) (request : PlanRequest) (result : Except OoStatus TransferPlan) : Prop where
  served : ∀ plan, result = .ok plan → request.freshPlan group = some plan
  refused : request.freshPlan group = none → ∃ status, result = .error status
  complete : planFor request.config = request.collective → ∀ plan, request.freshPlan group = some plan →
    result = .ok plan

/-- A visible entry holds the fresh plan of every request that would find it. -/
def EntrySound (group : OoGroup) (entry : CachedPlanEntry) : Prop :=
  entry.valid = true → PlanAnswers group entry.key entry.plan

section Sound

variable {Address : Type*} {address : Address} {group : OoGroup}
  {cache : SameProcessPlanCache} {saved : ThreadLocalPlanEntry Address} {request : PlanRequest}

theorem Transparent.ok (fresh : request.freshPlan group = some plan) : Transparent group request (.ok plan) where
  served _ same := by
    cases same
    exact fresh
  refused absent := by
    rw [fresh] at absent
    cases absent
  complete _ other found := by
    rw [fresh, Option.some.injEq] at found
    rw [found]

theorem Transparent.error (absent : planFor request.config = request.collective → request.freshPlan group = none)
    (status : OoStatus) : Transparent group request (.error status) where
  served := nofun
  refused _ := ⟨status, rfl⟩
  complete matching plan found := by
    rw [absent matching] at found
    cases found

/-- A request without ranks or without an element size has no plan. -/
theorem freshPlan_none (empty : (request.launch group).dtypeSize = 0 ∨ (request.key group).worldSize ≤ 0) :
    request.freshPlan group = none := by
  cases found : request.freshPlan group with
  | none => rfl
  | some plan =>
    obtain ⟨⟨ranks, _⟩, bytes, _⟩ := (validBuildInput_iff _).mp (PlanRequest.freshPlan_valid found)
    change 0 < (request.launch group).dtypeSize at bytes
    change 0 < (request.key group).worldSize at ranks
    omega

theorem entrySound_blank (group : OoGroup) : EntrySound group {} :=
  fun visible => nomatch visible

/-- What one request keeps: the generation, the soundness of every entry, and the soundness of the copy. -/
structure Serves (address : Address) (group : OoGroup) (cache : SameProcessPlanCache)
    (saved : ThreadLocalPlanEntry Address) (request : PlanRequest) (answer : PlanAnswer Address) : Prop where
  transparent : Transparent group request answer.result
  generation : answer.cache.generation = cache.generation
  entries : ∀ entry ∈ answer.cache.entries, EntrySound group entry
  saved : answer.saved = saved ∨
    answer.saved.owner = some address ∧ answer.saved.ownerGeneration = cache.generation ∧
      EntrySound group answer.saved.entry

theorem serves_refused (entries : ∀ entry ∈ cache.entries, EntrySound group entry)
    (absent : planFor request.config = request.collective → request.freshPlan group = none) (status : OoStatus) :
    Serves address group cache saved request ⟨.error status, cache, saved⟩ where
  transparent := .error absent status
  generation := rfl
  entries := entries
  saved := Or.inl rfl

variable [DecidableEq Address]

theorem getOrBuild_serves (entries : ∀ entry ∈ cache.entries, EntrySound group entry)
    (copied : saved.owner = some address → saved.ownerGeneration = cache.generation → EntrySound group saved.entry) :
    Serves address group cache saved request
      (getOrBuildCachedSameProcessPlan address cache saved (request.key group) (request.build group)) := by
  unfold getOrBuildCachedSameProcessPlan
  split
  · rename_i empty
    exact serves_refused entries (fun _ => freshPlan_none (Or.inr empty)) _
  · split
    · rename_i hit
      obtain ⟨owner, generation, visible, same⟩ := hit
      exact ⟨.ok (copied owner generation visible request same), rfl, entries, Or.inl rfl⟩
    · split
      · rename_i entry found
        have sound := entries entry (List.mem_of_find?_eq_some found)
        have matching := List.find?_some found
        obtain ⟨visible, same⟩ := Bool.and_eq_true_iff.mp matching
        exact ⟨.ok (sound visible request same), rfl, entries, Or.inr ⟨rfl, rfl, sound⟩⟩
      · -- The replaced entry is the only one that changes.
        have replaced : ∀ fresh, EntrySound group fresh → ∀ slot, ∀ entry ∈ cache.entries.set slot fresh,
            EntrySound group entry := by
          intro fresh sound slot entry member
          rcases List.mem_or_eq_of_mem_set member with old | rfl
          · exact entries entry old
          · exact sound
        dsimp only
        rcases request.build_cases group {} with ⟨built, fresh⟩ | ⟨failed, absent⟩
        · rw [if_neg (not_not.mpr built)]
          have sound : EntrySound group ⟨true, request.key group, _⟩ := fun _ => planAnswers_fresh fresh
          exact ⟨.ok fresh, rfl, replaced _ sound _, Or.inr ⟨rfl, rfl, sound⟩⟩
        · rw [if_pos (failed ▸ nofun)]
          exact ⟨.error (fun _ => absent) _, rfl,
            replaced _ (fun visible => absurd visible Bool.false_ne_true) _, Or.inl rfl⟩

theorem getTransferPlan_serves {backend : Backend}
    (entries : ∀ entry ∈ (backend.caches request.collective).entries, EntrySound backend.group entry)
    (copied : saved.owner = some address →
      saved.ownerGeneration = (backend.caches request.collective).generation → EntrySound backend.group saved.entry) :
    Serves address backend.group (backend.caches request.collective) saved request
      (getTransferPlan address backend saved request) := by
  unfold getTransferPlan
  split
  · rename_i rejected
    refine serves_refused entries (fun matching => freshPlan_none (Or.inl ?_)) _
    exact rejected.resolve_right (not_not.mpr matching)
  · exact getOrBuild_serves entries copied

end Sound

section Runs

variable {Thread Address : Type*}

/-- Every entry is sound for its group, and a copy is sound as long as its cache lives: generations are
never used twice, so a later cache at the same address is told apart. -/
structure Sound (state : ProcessState Thread Address) : Prop where
  entries : ∀ address backend, state.groups address = some backend → ∀ collective,
    ∀ entry ∈ (backend.caches collective).entries, EntrySound backend.group entry
  issued : ∀ address backend, state.groups address = some backend → ∀ collective,
    (backend.caches collective).generation < state.nextGeneration
  savedIssued : ∀ thread collective, (state.saved thread collective).ownerGeneration < state.nextGeneration
  copied : ∀ thread collective address backend, state.groups address = some backend →
    (state.saved thread collective).owner = some address →
    (state.saved thread collective).ownerGeneration = (backend.caches collective).generation →
    EntrySound backend.group (state.saved thread collective).entry

theorem blankCaches_entries (next : Nat) (collective : Collective) :
    (blankCaches next collective).entries = List.replicate kPlanCacheEntries {} := by
  cases collective <;> rfl

theorem blankCaches_generation (next : Nat) (collective : Collective) :
    next ≤ (blankCaches next collective).generation ∧ (blankCaches next collective).generation < next + 3 := by
  cases collective <;> simp [blankCaches]

namespace Sound

theorem initial : Sound ({} : ProcessState Thread Address) where
  entries := nofun
  issued := nofun
  savedIssued _ _ := Nat.zero_lt_one
  copied := nofun

variable [DecidableEq Address] {state : ProcessState Thread Address} {address : Address}

theorem create (sound : Sound state) (group : OoGroup) : Sound (state.createGroup address group) := by
  have fresh : ∀ other backend, (state.createGroup address group).groups other = some backend →
      state.groups other = some backend ∨ backend = ⟨group, blankCaches state.nextGeneration⟩ := by
    intro other backend live
    change Function.update state.groups address _ other = some backend at live
    by_cases same : other = address
    · rw [same, Function.update_self] at live
      exact Or.inr (Option.some.inj live).symm
    · rw [Function.update_of_ne same] at live
      exact Or.inl live
  constructor
  case entries =>
    intro other backend live collective entry member
    rcases fresh other backend live with old | rfl
    · exact sound.entries other backend old collective entry member
    · rw [blankCaches_entries] at member
      rw [List.eq_of_mem_replicate member]
      exact entrySound_blank _
  case issued =>
    intro other backend live collective
    rcases fresh other backend live with old | rfl
    · exact Nat.lt_add_right 3 (sound.issued other backend old collective)
    · exact (blankCaches_generation _ _).2
  case savedIssued => exact fun thread collective => Nat.lt_add_right 3 (sound.savedIssued thread collective)
  case copied =>
    intro thread collective other backend live owner generation
    rcases fresh other backend live with old | rfl
    · exact sound.copied thread collective other backend old owner generation
    · have earlier := sound.savedIssued thread collective
      have later := (blankCaches_generation state.nextGeneration collective).1
      exact absurd generation (Nat.ne_of_lt (lt_of_lt_of_le earlier later))

theorem destroy (sound : Sound state) (address : Address) : Sound (state.destroyGroup address) := by
  have kept : ∀ other backend, (state.destroyGroup address).groups other = some backend →
      state.groups other = some backend := by
    intro other backend live
    change Function.update state.groups address none other = some backend at live
    by_cases same : other = address
    · rw [same, Function.update_self] at live
      cases live
    · rwa [Function.update_of_ne same] at live
  exact ⟨fun other backend live => sound.entries other backend (kept other backend live),
    fun other backend live => sound.issued other backend (kept other backend live), sound.savedIssued,
    fun thread collective other backend live => sound.copied thread collective other backend (kept other backend live)⟩

variable {backend : Backend}

theorem answers (sound : Sound state) (live : state.groups address = some backend) (thread : Thread)
    (request : PlanRequest) :
    Serves address backend.group (backend.caches request.collective) (state.saved thread request.collective) request
      (state.answer thread address backend request) :=
  getTransferPlan_serves (sound.entries address backend live request.collective)
    (sound.copied thread request.collective address backend live)

variable [DecidableEq Thread]

theorem serve (sound : Sound state) (live : state.groups address = some backend) (thread : Thread)
    (request : PlanRequest) : Sound (state.serve thread address backend request) := by
  have served := sound.answers live thread request
  -- Every live group was live before, with the same description and the same generations.
  have before : ∀ other after, (state.serve thread address backend request).groups other = some after →
      ∃ earlier, state.groups other = some earlier ∧ after.group = earlier.group ∧ ∀ collective,
        (after.caches collective).generation = (earlier.caches collective).generation ∧
          ∀ entry ∈ (after.caches collective).entries, EntrySound after.group entry := by
    intro other after liveAfter
    change Function.update state.groups address _ other = some after at liveAfter
    by_cases same : other = address
    · rw [same, Function.update_self, Option.some.injEq] at liveAfter
      subst liveAfter same
      refine ⟨backend, live, rfl, fun collective => ?_⟩
      by_cases asked : collective = request.collective
      · subst asked
        simp only [Function.update_self]
        exact ⟨served.generation, served.entries⟩
      · simp only [Function.update_of_ne asked]
        exact ⟨trivial, sound.entries other backend live collective⟩
    · rw [Function.update_of_ne same] at liveAfter
      exact ⟨after, liveAfter, rfl, fun collective => ⟨rfl, sound.entries other after liveAfter collective⟩⟩
  -- A thread's copy is the old one, or it belongs to the cache that was just asked.
  have copies : ∀ reader collective, (state.serve thread address backend request).saved reader collective =
      state.saved reader collective ∨ collective = request.collective ∧
        ((state.serve thread address backend request).saved reader collective).owner = some address ∧
        ((state.serve thread address backend request).saved reader collective).ownerGeneration =
          (backend.caches collective).generation ∧
        EntrySound backend.group ((state.serve thread address backend request).saved reader collective).entry := by
    intro reader collective
    change Function.update state.saved thread _ reader collective = _ ∨ _ ∧
      (Function.update state.saved thread _ reader collective).owner = _ ∧
      (Function.update state.saved thread _ reader collective).ownerGeneration = _ ∧
      EntrySound _ (Function.update state.saved thread _ reader collective).entry
    by_cases here : reader = thread
    · subst here
      rw [Function.update_self]
      by_cases asked : collective = request.collective
      · subst asked
        rw [Function.update_self]
        exact served.saved.imp id fun owned => ⟨rfl, owned⟩
      · rw [Function.update_of_ne asked]
        exact Or.inl rfl
    · rw [Function.update_of_ne here]
      exact Or.inl rfl
  constructor
  case entries =>
    intro other after liveAfter collective
    obtain ⟨_, _, _, kept⟩ := before other after liveAfter
    exact (kept collective).2
  case issued =>
    intro other after liveAfter collective
    obtain ⟨earlier, liveBefore, _, kept⟩ := before other after liveAfter
    rw [(kept collective).1]
    exact sound.issued other earlier liveBefore collective
  case savedIssued =>
    intro reader collective
    rcases copies reader collective with same | ⟨rfl, _, generation, _⟩
    · rw [same]
      exact sound.savedIssued reader collective
    · rw [generation]
      exact sound.issued address backend live request.collective
  case copied =>
    intro reader collective other after liveAfter owner generation
    obtain ⟨earlier, liveBefore, group, kept⟩ := before other after liveAfter
    rw [group]
    rw [(kept collective).1] at generation
    rcases copies reader collective with same | ⟨_, here, _, copy⟩
    · rw [same] at owner generation ⊢
      exact sound.copied reader collective other earlier liveBefore owner generation
    · rw [here, Option.some.injEq] at owner
      subst owner
      rw [live, Option.some.injEq] at liveBefore
      rwa [← liveBefore]

theorem of_reachable (reached : ProcessState.Reachable state) : Sound state := by
  refine invariant Sound initial (fun before after sound taken => ?_) reached
  cases taken with
  | create _ group _ => exact sound.create group
  | destroy address => exact sound.destroy address
  | request thread _ _ live request => exact sound.serve live thread request

end Sound

variable [DecidableEq Thread] [DecidableEq Address] {state : ProcessState Thread Address} {address : Address}
  {backend : Backend}

/-- Whatever groups came and went and whatever was asked before, the cache answers as a fresh build would. -/
theorem getTransferPlan_transparent (reached : ProcessState.Reachable state)
    (live : state.groups address = some backend) (thread : Thread) (request : PlanRequest) :
    Transparent backend.group request (state.answer thread address backend request).result :=
  ((Sound.of_reachable reached).answers live thread request).transparent

/-- A group of three ranks at the address of a destroyed group of two, asked by a thread with an old copy. -/
theorem getTransferPlan_transparent_recreated :
    let pair : OoGroup := { numDevices := 2 }
    let trio : OoGroup := { numDevices := 3 }
    let created := ({} : ProcessState Unit Unit).createGroup () pair
    let served := created.serve () () ⟨pair, blankCaches 1⟩ { count := 8 }
    let recreated := (served.destroyGroup ()).createGroup () trio
    Transparent trio { count := 8 } (recreated.answer () () ⟨trio, blankCaches 4⟩ { count := 8 }).result := by
  intro pair trio created served recreated
  have reached : ProcessState.Reachable recreated :=
    (((ReflTransGen.refl.tail (.create () pair rfl)).tail (.request () () ⟨pair, blankCaches 1⟩ rfl { count := 8 })).tail
      (.destroy ())).tail (.create () trio rfl)
  have live : recreated.groups () = some ⟨trio, blankCaches 4⟩ := rfl
  exact getTransferPlan_transparent reached live () { count := 8 }

end Runs

end Ooverlap.Distribution
