import Mathlib.Data.List.Induction
import Mathlib.Data.Nat.ModEq
import Mathlib.Logic.Function.Basic

/-! Round-robin pools of collective slots, and the calls that hand out and consume views of them. -/

namespace Ooverlap.Torch

inductive SlotApi where
  | allReduce
  | allGather
  deriving DecidableEq, Repr

/-- A tensor that aliases part of a slot: the slot, the first element and the sizes. -/
structure SlotTensor where
  slot : Nat
  offset : Nat
  sizes : List Nat
  deriving DecidableEq, Repr

def SlotTensor.numel (tensor : SlotTensor) : Nat :=
  tensor.sizes.prod

/-- One communicator's place in its group, and the number of slots its pools were made with. -/
structure Communicator where
  slot_count : Nat
  local_rank : Nat
  world_size : Nat
  slots : 0 < slot_count

/-- A collective call: the tensor it was given, the slot and number of elements it ran on, and the tensor it returned. -/
structure Launch where
  passed : SlotTensor
  slot_index : Nat
  numel : Nat
  returned : SlotTensor
  deriving DecidableEq, Repr

namespace Communicator

variable (comm : Communicator)

def acquireAllReduceSlot (index : Nat) (shape : List Nat) : SlotTensor where
  slot := index
  offset := 0
  sizes := shape

def allReducePreloadedSlot (index : Nat) (slotView : SlotTensor) : Launch where
  passed := slotView
  slot_index := index
  numel := slotView.numel
  returned := slotView

def acquireAllGatherSlot (index : Nat) (inputShape : List Nat) : SlotTensor where
  slot := index
  offset := comm.local_rank * inputShape.prod
  sizes := inputShape

def allGatherPreloadedSlot (index : Nat) (localView : SlotTensor) : Launch where
  passed := localView
  slot_index := index
  numel := localView.numel * comm.world_size
  returned :=
    { slot := index
      offset := 0
      sizes := localView.sizes.modifyHead (· * comm.world_size) }

def acquire : SlotApi → Nat → List Nat → SlotTensor
  | .allReduce => acquireAllReduceSlot
  | .allGather => comm.acquireAllGatherSlot

def preloaded : SlotApi → Nat → SlotTensor → Launch
  | .allReduce => allReducePreloadedSlot
  | .allGather => comm.allGatherPreloadedSlot

@[simp] theorem acquire_slot (api : SlotApi) (index : Nat) (shape : List Nat) :
    (comm.acquire api index shape).slot = index := by
  cases api <;> rfl

@[simp] theorem preloaded_passed (api : SlotApi) (index : Nat) (view : SlotTensor) :
    (comm.preloaded api index view).passed = view := by
  cases api <;> rfl

@[simp] theorem preloaded_slot_index (api : SlotApi) (index : Nat) (view : SlotTensor) :
    (comm.preloaded api index view).slot_index = index := by
  cases api <;> rfl

end Communicator

/-- A call of the slot API; a preloaded call names its view by the position of the acquire that returned it. -/
inductive SlotCall where
  | acquire (api : SlotApi) (shape : List Nat)
  | preloaded (api : SlotApi) (acquired : Nat)
  | roundRobin (api : SlotApi) (sizes : List Nat)
  deriving DecidableEq, Repr

/-- The call runs a collective of the API. -/
def SlotCall.collective (api : SlotApi) : SlotCall → Bool
  | .acquire _ _ => false
  | .preloaded other _ => other = api
  | .roundRobin other _ => other = api

/-- Next slots of the pools; the views not yet consumed, by position; and the collectives run so far. -/
structure SlotState where
  position : Nat := 0
  index : SlotApi → Nat := fun _ => 0
  views : SlotApi → Nat → Option SlotTensor := fun _ _ => none
  launches : SlotApi → List Launch := fun _ => []

namespace SlotState

variable (comm : Communicator)

/-- A collective runs on the pool's next slot, and the pool moves on. -/
def launch (state : SlotState) (api : SlotApi) (view : SlotTensor) : SlotState :=
  { state with
    index := Function.update state.index api ((state.index api + 1) % comm.slot_count)
    launches := Function.update state.launches api
      (state.launches api ++ [comm.preloaded api (state.index api) view]) }

/-- Nothing happens for a view that is not there to be consumed; callers never pass one. -/
def perform (state : SlotState) : SlotCall → SlotState
  | .acquire api shape =>
    { state with
      views := Function.update state.views api
        (Function.update (state.views api) state.position (some (comm.acquire api (state.index api) shape))) }
  | .preloaded api acquired =>
    match state.views api acquired with
    | none => state
    | some view =>
      { state.launch comm api view with
        views := Function.update state.views api (Function.update (state.views api) acquired none) }
  | .roundRobin api sizes => state.launch comm api (comm.acquire api (state.index api) sizes)

def step (state : SlotState) (call : SlotCall) : SlotState :=
  { state.perform comm call with position := state.position + 1 }

end SlotState

def runSlots (comm : Communicator) (calls : List SlotCall) : SlotState :=
  calls.foldl (SlotState.step comm) {}

/-- Every preloaded call gets a view that an earlier acquire of its API returned and no call has consumed. -/
def WellUsed (calls : List SlotCall) : Prop :=
  ∀ (place : Nat) api acquired, calls[place]? = some (.preloaded api acquired) →
    acquired < place ∧ (∃ shape, calls[acquired]? = some (.acquire api shape)) ∧
      ∀ earlier < place, calls[earlier]? ≠ some (.preloaded api acquired)

/-- Collectives run on the slots of their views, views not consumed have slots of their own, and the slot of a result
is used again by the `slot_count`-th later collective at the earliest. -/
structure SlotsKept (comm : Communicator) (state : SlotState) : Prop where
  aliased : ∀ api, ∀ launch ∈ state.launches api, launch.slot_index = launch.passed.slot
  distinct : ∀ api first second view other, state.views api first = some view → state.views api second = some other →
    first ≠ second → view.slot ≠ other.slot
  untouched : ∀ api earlier later launch next, (state.launches api)[earlier]? = some launch →
    (state.launches api)[later]? = some next → earlier < later → later < earlier + comm.slot_count →
      next.slot_index ≠ launch.returned.slot

/-- Collectives of an API among the first calls of a history. -/
def collectivesBefore (api : SlotApi) (calls : List SlotCall) (place : Nat) : Nat :=
  (calls.take place).countP (SlotCall.collective api)

/-- The collectives between a view's acquire and its use are a multiple of the slots; those between the acquires of two
views that are out at once are not. -/
structure Spaced (comm : Communicator) (calls : List SlotCall) : Prop where
  consumed : ∀ api acquired (place : Nat), calls[place]? = some (.preloaded api acquired) →
    collectivesBefore api calls acquired ≡ collectivesBefore api calls place [MOD comm.slot_count]
  outstanding : ∀ api (first second : Nat) shape other, first < second → calls[first]? = some (.acquire api shape) →
    calls[second]? = some (.acquire api other) → (∀ place < second, calls[place]? ≠ some (.preloaded api first)) →
      ¬ collectivesBefore api calls first ≡ collectivesBefore api calls second [MOD comm.slot_count]

/-- Calls to the slot API of one communicator. -/
structure SlotHistory where
  comm : Communicator
  calls : List SlotCall
  used : WellUsed calls

/-- Slots are kept apart after every call of the history. -/
def SlotHistory.Disciplined (history : SlotHistory) : Prop :=
  ∀ count, SlotsKept history.comm (runSlots history.comm (history.calls.take count))

end Ooverlap.Torch
