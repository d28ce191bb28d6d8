import Ooverlap.Support.RingSlots
import Ooverlap.Torch.SlotPool

/-! When the round-robin pools keep the slots of views and results apart. -/

namespace Ooverlap.Torch

variable {comm : Communicator} {calls : List SlotCall}

section Prefixes

theorem runSlots_append (comm : Communicator) (calls : List SlotCall) (call : SlotCall) :
    runSlots comm (calls ++ [call]) = (runSlots comm calls).step comm call := by
  rw [runSlots, List.foldl_append]
  rfl

theorem runSlots_position (comm : Communicator) (calls : List SlotCall) :
    (runSlots comm calls).position = calls.length := by
  induction calls using List.reverseRecOn with
  | nil => rfl
  | append_singleton calls call ih =>
    rw [runSlots_append, List.length_append]
    exact congrArg Nat.succ ih

theorem getElem?_append_old (within : place < calls.length) (rest : List SlotCall) :
    (calls ++ rest)[place]? = calls[place]? :=
  List.getElem?_append_left within

theorem lt_of_getElem? {place : Nat} (found : calls[place]? = some call) : place < calls.length :=
  (List.getElem?_eq_some_iff.mp found).1

/-- What a history says about a call stays said in a longer one. -/
theorem getElem?_longer {place : Nat} (found : calls[place]? = some call) (rest : List SlotCall) :
    (calls ++ rest)[place]? = some call := by
  rw [getElem?_append_old (lt_of_getElem? found), found]

theorem collectivesBefore_append (api : SlotApi) (within : place ≤ calls.length) (rest : List SlotCall) :
    collectivesBefore api (calls ++ rest) place = collectivesBefore api calls place := by
  rw [collectivesBefore, List.take_append_of_le_length within, collectivesBefore]

theorem collectivesBefore_length (api : SlotApi) (calls : List SlotCall) :
    collectivesBefore api calls calls.length = calls.countP (SlotCall.collective api) := by
  rw [collectivesBefore, List.take_length]

theorem WellUsed.shorter (used : WellUsed (calls ++ rest)) : WellUsed calls := by
  intro place api acquired found
  obtain ⟨before, ⟨shape, made⟩, fresh⟩ := used place api acquired (getElem?_longer found rest)
  have inside := lt_of_getElem? found
  refine ⟨before, ⟨shape, ?_⟩, fun earlier early taken => fresh earlier early (getElem?_longer taken rest)⟩
  rwa [getElem?_append_old (Nat.lt_trans before inside)] at made

theorem Spaced.shorter (spaced : Spaced comm (calls ++ rest)) (used : WellUsed (calls ++ rest)) :
    Spaced comm calls where
  consumed api acquired place found := by
    have within := lt_of_getElem? found
    have before := (used place api acquired (getElem?_longer found rest)).1
    have apart := spaced.consumed api acquired place (getElem?_longer found rest)
    rwa [collectivesBefore_append api (Nat.le_of_lt (Nat.lt_trans before within)),
      collectivesBefore_append api (Nat.le_of_lt within)] at apart
  outstanding api first second shape other before made again unused := by
    have within := lt_of_getElem? again
    have apart := spaced.outstanding api first second shape other before (getElem?_longer made rest)
      (getElem?_longer again rest) fun place early => by
        rw [getElem?_append_old (Nat.lt_trans early within)]
        exact unused place early
    rwa [collectivesBefore_append api (Nat.le_of_lt (Nat.lt_trans before within)),
      collectivesBefore_append api (Nat.le_of_lt within)] at apart

end Prefixes

section Invariant

/-- What a history alone says about the pools and the views that are out. -/
structure Tracks (comm : Communicator) (calls : List SlotCall) (state : SlotState) : Prop where
  index : ∀ api, state.index api = calls.countP (SlotCall.collective api) % comm.slot_count
  ran : ∀ api, (state.launches api).map Launch.slot_index =
    (List.range (calls.countP (SlotCall.collective api))).map (· % comm.slot_count)
  views : ∀ api acquired view, state.views api acquired = some view →
    (∃ shape, calls[acquired]? = some (.acquire api shape)) ∧
      (∀ place : Nat, calls[place]? ≠ some (.preloaded api acquired)) ∧
      view.slot = collectivesBefore api calls acquired % comm.slot_count
  listed : ∀ api (acquired : Nat) shape, calls[acquired]? = some (.acquire api shape) →
    (∀ place : Nat, calls[place]? ≠ some (.preloaded api acquired)) → ∃ view, state.views api acquired = some view

theorem update_view (views : SlotApi → Nat → Option SlotTensor) (api other : SlotApi) (place acquired : Nat)
    (view : Option SlotTensor) : Function.update views api (Function.update (views api) place view) other acquired =
      if other = api ∧ acquired = place then view else views other acquired := by
  by_cases same : other = api
  · subst same
    rw [Function.update_self]
    by_cases here : acquired = place
    · rw [here, Function.update_self, if_pos ⟨rfl, rfl⟩]
    · rw [Function.update_of_ne here, if_neg fun both => here both.2]
  · rw [Function.update_of_ne same, if_neg fun both => same both.1]

/-- A call in a longer history is an older one or the last. -/
theorem getElem?_append_cases {place : Nat} (found : (calls ++ [last])[place]? = some call) :
    calls[place]? = some call ∨ (place = calls.length ∧ call = last) := by
  rcases Nat.lt_trichotomy place calls.length with within | rfl | past
  · exact .inl (by rwa [getElem?_append_old within] at found)
  · rw [List.getElem?_concat_length] at found
    exact .inr ⟨rfl, (Option.some.inj found).symm⟩
  · have bound := lt_of_getElem? found
    rw [List.length_append, List.length_singleton] at bound
    omega

/-- Views that are neither made nor consumed by the last call stand as before. -/
theorem Tracks.kept (tracks : Tracks comm calls state) (present : state.views api acquired = some view)
    (other : call ≠ .preloaded api acquired) :
    (∃ shape, (calls ++ [call])[acquired]? = some (.acquire api shape)) ∧
      (∀ place : Nat, (calls ++ [call])[place]? ≠ some (.preloaded api acquired)) ∧
      view.slot = collectivesBefore api (calls ++ [call]) acquired % comm.slot_count := by
  obtain ⟨⟨shape, made⟩, unused, slot⟩ := tracks.views api acquired view present
  refine ⟨⟨shape, getElem?_longer made _⟩, fun place found => ?_, ?_⟩
  · rcases getElem?_append_cases found with old | ⟨_, new⟩
    · exact unused place old
    · exact other new.symm
  · rw [collectivesBefore_append api (Nat.le_of_lt (lt_of_getElem? made)), slot]

theorem Tracks.present (tracks : Tracks comm calls state) (made : calls[acquired]? = some (.acquire api shape))
    (unused : ∀ place : Nat, (calls ++ [call])[place]? ≠ some (.preloaded api acquired)) :
    ∃ view, state.views api acquired = some view :=
  tracks.listed api acquired shape made fun place found => unused place (getElem?_longer found _)

theorem Tracks.launch (tracks : Tracks comm calls state) (api other : SlotApi) (view : SlotTensor) (call : SlotCall)
    (collective : ∀ api', call.collective api' = decide (api = api')) :
    (state.launch comm api view).index other =
        (calls ++ [call]).countP (SlotCall.collective other) % comm.slot_count ∧
      ((state.launch comm api view).launches other).map Launch.slot_index =
        (List.range ((calls ++ [call]).countP (SlotCall.collective other))).map (· % comm.slot_count) := by
  rw [List.countP_append, List.countP_singleton, collective]
  by_cases same : api = other
  · subst same
    rw [if_pos (decide_eq_true rfl)]
    simp only [SlotState.launch, Function.update_self]
    refine ⟨?_, ?_⟩
    · rw [tracks.index, Nat.mod_add_mod]
    · rw [List.map_append, tracks.ran, List.range_succ, List.map_append, List.map_singleton, List.map_singleton,
        Communicator.preloaded_slot_index, tracks.index]
  · have away : ¬ decide (api = other) = true := fun equal => same (of_decide_eq_true equal)
    rw [if_neg away, Nat.add_zero]
    simp only [SlotState.launch, Function.update_of_ne (Ne.symm same)]
    exact ⟨tracks.index other, tracks.ran other⟩

theorem tracks_runSlots (used : WellUsed calls) : Tracks comm calls (runSlots comm calls) := by
  induction calls using List.reverseRecOn with
  | nil =>
    refine ⟨fun _ => (Nat.zero_mod _).symm, fun _ => rfl, fun _ _ _ present => ?_, fun _ _ _ found => ?_⟩
    · exact absurd present (by simp [runSlots])
    · exact absurd found (by simp)
  | append_singleton calls call ih =>
    have tracks := ih used.shorter
    have position := runSlots_position comm calls
    rw [runSlots_append]
    generalize runSlots comm calls = state at tracks position
    cases call with
    | acquire api shape =>
      have made : (calls ++ [.acquire api shape])[calls.length]? = some (.acquire api shape) :=
        List.getElem?_concat_length ..
      refine ⟨fun other => ?_, fun other => ?_, fun other acquired view present => ?_, fun other acquired _ made unused => ?_⟩
      · rw [List.countP_append]
        exact tracks.index other
      · rw [List.countP_append]
        exact tracks.ran other
      · simp only [SlotState.step, SlotState.perform, update_view] at present
        by_cases new : other = api ∧ acquired = state.position
        · rw [if_pos new] at present
          obtain ⟨rfl, rfl⟩ := new
          obtain rfl := Option.some.inj present
          rw [position]
          refine ⟨⟨shape, made⟩, fun place used_ => ?_, ?_⟩
          · have before := (used place other calls.length used_).1
            have bound := lt_of_getElem? used_
            rw [List.length_append, List.length_singleton] at bound
            omega
          · rw [Communicator.acquire_slot, tracks.index, collectivesBefore_append other (Nat.le_refl _),
              collectivesBefore_length]
        · rw [if_neg new] at present
          exact tracks.kept present (by simp)
      · simp only [SlotState.step, SlotState.perform, update_view]
        by_cases new : other = api ∧ acquired = state.position
        · exact ⟨_, if_pos new⟩
        · rw [if_neg new]
          rcases getElem?_append_cases made with old | ⟨last, same⟩
          · exact tracks.present old unused
          · cases same
            exact absurd ⟨rfl, last.trans position.symm⟩ new
    | preloaded api consumed =>
      obtain ⟨before, ⟨shape, made⟩, fresh⟩ := used calls.length api consumed (List.getElem?_concat_length ..)
      rw [getElem?_append_old before] at made
      obtain ⟨view, present⟩ := tracks.listed api consumed shape made fun place found =>
        fresh place (lt_of_getElem? found) (getElem?_longer found _)
      have launched := fun other => tracks.launch api other view (.preloaded api consumed) fun _ => rfl
      simp only [SlotState.step, SlotState.perform, present]
      refine ⟨fun other => (launched other).1, fun other => (launched other).2, fun other acquired found here => ?_,
        fun other acquired _ made unused => ?_⟩
      · simp only [update_view] at here
        by_cases gone : other = api ∧ acquired = consumed
        · rw [if_pos gone] at here
          cases here
        · rw [if_neg gone] at here
          refine tracks.kept here fun same => gone ?_
          cases same
          exact ⟨rfl, rfl⟩
      · simp only [update_view]
        have kept : ¬ (other = api ∧ acquired = consumed) := by
          rintro ⟨rfl, rfl⟩
          exact unused calls.length (List.getElem?_concat_length ..)
        rw [if_neg kept]
        rcases getElem?_append_cases made with old | ⟨_, same⟩
        · exact tracks.present old unused
        · cases same
    | roundRobin api sizes =>
      have launched := fun other => tracks.launch api other (comm.acquire api (state.index api) sizes)
        (.roundRobin api sizes) fun _ => rfl
      refine ⟨fun other => (launched other).1, fun other => (launched other).2,
        fun other acquired view present => tracks.kept present (by simp), fun other acquired _ made unused => ?_⟩
      rcases getElem?_append_cases made with old | ⟨_, same⟩
      · exact tracks.present old unused
      · cases same

end Invariant

section Sufficient

end Sufficient

section Necessary

theorem WellUsed.take (used : WellUsed calls) (count : Nat) : WellUsed (calls.take count) :=
  WellUsed.shorter ((List.take_append_drop count calls).symm ▸ used)

theorem Spaced.take (used : WellUsed calls) (spaced : Spaced comm calls) (count : Nat) :
    Spaced comm (calls.take count) :=
  Spaced.shorter ((List.take_append_drop count calls).symm ▸ spaced) ((List.take_append_drop count calls).symm ▸ used)

theorem take_next (found : calls[place]? = some call) : calls.take (place + 1) = calls.take place ++ [call] := by
  rw [List.take_add_one, found]
  rfl

theorem collectivesBefore_take (api : SlotApi) (before : earlier ≤ place) :
    collectivesBefore api (calls.take place) earlier = collectivesBefore api calls earlier := by
  rw [collectivesBefore, List.take_take, Nat.min_eq_left before, collectivesBefore]

theorem countP_take (api : SlotApi) (calls : List SlotCall) (place : Nat) :
    (calls.take place).countP (SlotCall.collective api) = collectivesBefore api calls place :=
  rfl

/-- A preloaded call runs on its view's slot only if whole turns of the pool lie between. -/
theorem consumed_of_kept (used : WellUsed calls) (kept : SlotsKept comm (runSlots comm (calls.take (place + 1))))
    (found : calls[place]? = some (.preloaded api acquired)) :
    collectivesBefore api calls acquired ≡ collectivesBefore api calls place [MOD comm.slot_count] := by
  obtain ⟨before, ⟨shape, made⟩, fresh⟩ := used place api acquired found
  have tracks : Tracks comm (calls.take place) (runSlots comm (calls.take place)) := tracks_runSlots (used.take place)
  have unused : ∀ earlier : Nat, (calls.take place)[earlier]? ≠ some (.preloaded api acquired) := by
    intro earlier taken
    have within := lt_of_getElem? taken
    rw [List.length_take] at within
    have prior : earlier < place := by omega
    rw [List.getElem?_take_of_lt prior] at taken
    exact fresh earlier prior taken
  obtain ⟨view, present⟩ := tracks.listed api acquired shape (by rwa [List.getElem?_take_of_lt before]) unused
  rw [take_next found, runSlots_append] at kept
  have slot := (tracks.views api acquired view present).2.2
  rw [collectivesBefore_take api (Nat.le_of_lt before)] at slot
  have index := tracks.index api
  rw [countP_take] at index
  generalize runSlots comm (calls.take place) = state at kept present index
  have launched : comm.preloaded api (state.index api) view ∈ (state.step comm (.preloaded api acquired)).launches api := by
    simp only [SlotState.step, SlotState.perform, present, SlotState.launch, Function.update_self]
    exact List.mem_append_right _ (List.mem_singleton_self _)
  have same := kept.aliased api _ launched
  rw [Communicator.preloaded_slot_index, Communicator.preloaded_passed, index, slot] at same
  exact same.symm

/-- Two views that are out at once have slots of their own only if no whole turns of the pool lie between. -/
theorem outstanding_of_kept (used : WellUsed calls) (kept : SlotsKept comm (runSlots comm (calls.take (second + 1))))
    (before : first < second) (made : calls[first]? = some (.acquire api shape))
    (again : calls[second]? = some (.acquire api other)) (unused : ∀ place < second, calls[place]? ≠ some (.preloaded api first)) :
    ¬ collectivesBefore api calls first ≡ collectivesBefore api calls second [MOD comm.slot_count] := by
  have tracks : Tracks comm (calls.take (second + 1)) (runSlots comm (calls.take (second + 1))) :=
    tracks_runSlots (used.take (second + 1))
  have early : ∀ {place call}, (calls.take (second + 1))[place]? = some call → place ≤ second ∧ calls[place]? = some call := by
    intro place call found
    have within := lt_of_getElem? found
    rw [List.length_take] at within
    have inside : place < second + 1 := by omega
    rw [List.getElem?_take_of_lt inside] at found
    exact ⟨Nat.le_of_lt_succ inside, found⟩
  obtain ⟨view, here⟩ := tracks.listed api first shape
    (by rwa [List.getElem?_take_of_lt (Nat.lt_succ_of_lt before)]) fun place taken => by
      obtain ⟨inside, found⟩ := early taken
      rcases Nat.lt_or_eq_of_le inside with prior | rfl
      · exact unused place prior found
      · exact absurd (again.symm.trans found) (by simp)
  obtain ⟨view', there⟩ := tracks.listed api second other
    (by rwa [List.getElem?_take_of_lt (Nat.lt_succ_self second)]) fun place taken => by
      obtain ⟨inside, found⟩ := early taken
      have later := (used place api second found).1
      omega
  have apart := kept.distinct api first second view view' here there (Nat.ne_of_lt before)
  rw [(tracks.views api first view here).2.2, (tracks.views api second view' there).2.2,
    collectivesBefore_take api (Nat.le_of_lt (Nat.lt_succ_of_lt before)),
    collectivesBefore_take api (Nat.le_of_lt (Nat.lt_succ_self second))] at apart
  exact apart

theorem SlotHistory.Disciplined.spaced {history : SlotHistory} (disciplined : history.Disciplined) :
    Spaced history.comm history.calls where
  consumed _ _ place found := consumed_of_kept history.used (disciplined (place + 1)) found
  outstanding _ _ second _ _ before made again unused :=
    outstanding_of_kept history.used (disciplined (second + 1)) before made again unused

end Necessary

end Ooverlap.Torch
