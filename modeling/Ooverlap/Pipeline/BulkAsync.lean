import Mathlib.Data.Finset.Insert
import Mathlib.Logic.Function.Basic
import Ooverlap.Lowering.WindowTask
import Ooverlap.Support.ThreadRules

/-! Bulk asynchronous copies of one CTA: mbarriers for loads, commit groups for stores. -/

namespace Ooverlap.Pipeline

open Lowering (Pointer)

/-- Source bytes that a shared-memory slot holds. -/
structure Tile where
  src : Pointer
  bytes : Nat
  deriving DecidableEq, Repr

/-- `phase` counts the phases completed since the barrier was initialised. -/
structure Mbarrier where
  count : Nat
  phase : Nat
  pending : Nat
  bytes : Nat
  deriving DecidableEq, Repr

namespace Mbarrier

def init (count : Nat) : Mbarrier where
  count := count
  phase := 0
  pending := count
  bytes := 0

/-- A phase completes once no arrival and no byte is outstanding. -/
def settle (barrier : Mbarrier) : Mbarrier :=
  if barrier.pending = 0 ∧ barrier.bytes = 0 then
    { barrier with phase := barrier.phase + 1, pending := barrier.count }
  else barrier

def arriveExpectTx (barrier : Mbarrier) (bytes : Nat) : Mbarrier :=
  settle { barrier with pending := barrier.pending - 1, bytes := barrier.bytes + bytes }

def completeTx (barrier : Mbarrier) (bytes : Nat) : Mbarrier :=
  settle { barrier with bytes := barrier.bytes - bytes }

/-- `try_wait.parity` succeeds when the current phase has the other parity. -/
def passed (barrier : Mbarrier) (parity : Nat) : Bool :=
  barrier.phase % 2 != parity

end Mbarrier

inductive BulkOp where
  | store
  | reduce
  deriving DecidableEq, Repr

structure BulkLoad where
  slot : Nat
  src : Pointer
  bytes : Nat
  deriving DecidableEq, Repr

def BulkLoad.tile (load : BulkLoad) : Tile where
  src := load.src
  bytes := load.bytes

/-- `group` is the number of groups committed before this store was issued. -/
structure BulkStore where
  op : BulkOp
  slot : Nat
  dst : Pointer
  bytes : Nat
  group : Nat
  deriving DecidableEq, Repr

/-- Bulk operations in issue order, and how far the hardware has come with each of them.
A store first reads its source (`read`, with what it found in `taken`), then writes. -/
structure BulkState where
  barriers : Nat → Mbarrier
  smem : Nat → Option Tile
  loads : List BulkLoad := []
  landed : Finset Nat := ∅
  stores : List BulkStore := []
  commits : Nat := 0
  read : Finset Nat := ∅
  taken : Nat → Option Tile := fun _ => none
  written : Finset Nat := ∅
  raised : Finset Nat := ∅
  published : List Nat := []
  observed : List Nat := []

inductive BulkInstr where
  | initBarrier (slot count : Nat)
  | expectBytes (slot bytes : Nat)
  | loadAsync (slot : Nat) (src : Pointer) (bytes : Nat)
  | waitBarrier (slot parity : Nat)
  | storeAsync (op : BulkOp) (slot : Nat) (dst : Pointer) (bytes : Nat)
  | commitGroup
  | waitGroupRead (pending : Nat)
  | waitGroup (pending : Nat)
  | publish (flag : Nat)
  | awaitFlag (flag : Nat)
  deriving DecidableEq, Repr

namespace BulkState

variable (state : BulkState)

/-- The stores of all but the `pending` most recent groups are among `done`. -/
def GroupsDone (pending : Nat) (done : Finset Nat) : Prop :=
  ∀ index, (inside : index < state.stores.length) →
    state.stores[index].group + pending < state.commits → index ∈ done

instance (pending : Nat) (done : Finset Nat) : Decidable (state.GroupsDone pending done) :=
  inferInstanceAs (Decidable (∀ index, (inside : index < state.stores.length) →
    state.stores[index].group + pending < state.commits → index ∈ done))

def exec (instr : BulkInstr) : Option BulkState :=
  match instr with
  | .initBarrier slot count =>
      some { state with barriers := Function.update state.barriers slot (.init count) }
  | .expectBytes slot bytes =>
      some { state with
        barriers := Function.update state.barriers slot ((state.barriers slot).arriveExpectTx bytes) }
  | .loadAsync slot src bytes => some { state with loads := state.loads ++ [⟨slot, src, bytes⟩] }
  | .waitBarrier slot parity => if (state.barriers slot).passed parity then some state else none
  | .storeAsync op slot dst bytes =>
      some { state with stores := state.stores ++ [⟨op, slot, dst, bytes, state.commits⟩] }
  | .commitGroup => some { state with commits := state.commits + 1 }
  | .waitGroupRead pending => if state.GroupsDone pending state.read then some state else none
  | .waitGroup pending => if state.GroupsDone pending state.written then some state else none
  | .publish flag => some { state with published := state.published ++ [flag] }
  | .awaitFlag flag =>
      if flag ∈ state.raised then some { state with observed := state.observed ++ [flag] } else none

def land (index : Nat) (load : BulkLoad) : BulkState :=
  { state with
    landed := insert index state.landed
    smem := Function.update state.smem load.slot (some load.tile)
    barriers := Function.update state.barriers load.slot
      ((state.barriers load.slot).completeTx load.bytes) }

def readSource (index : Nat) (store : BulkStore) : BulkState :=
  { state with
    read := insert index state.read
    taken := Function.update state.taken index (state.smem store.slot) }

def write (index : Nat) : BulkState :=
  { state with written := insert index state.written }

def raise (flag : Nat) : BulkState :=
  { state with raised := insert flag state.raised }

end BulkState

/-- What moves without the thread: loads land, stores read and write, producers raise flags. -/
inductive Engine : BulkState → BulkState → Prop where
  | land (issued : state.loads[index]? = some load) (flying : index ∉ state.landed) :
      Engine state (state.land index load)
  | read (issued : state.stores[index]? = some store) (unread : index ∉ state.read) :
      Engine state (state.readSource index store)
  | write (read : index ∈ state.read) (unwritten : index ∉ state.written) :
      Engine state (state.write index)
  | raise (flag : Nat) : Engine state (state.raise flag)

def bulkMachine : Thread.Machine BulkInstr BulkState where
  exec instr state := state.exec instr
  engine := Engine

/-- The state a task starts in: nothing issued, any leftover barriers and shared memory. -/
def idleState (barriers : Nat → Mbarrier) (smem : Nat → Option Tile) (raised : Finset Nat) : BulkState where
  barriers := barriers
  smem := smem
  raised := raised

end Ooverlap.Pipeline
