import Mathlib.Data.Fintype.Card
import Ooverlap.Support.BarrierRounds
import Ooverlap.Support.Word

/-! The broker of the local processes: a vault in shared memory, a socket for each rank, and the calls through both. -/

namespace Ooverlap.Broker

open BarrierRounds Word

def maxLocalWorldSize : Nat := 128

def vaultSizePerRank : Nat := 256

/-- A world size that the constructor accepts. -/
structure LocalWorld where
  size : Nat
  positive : 0 < size
  atMost : size ≤ maxLocalWorldSize

abbrev Rank (world : LocalWorld) : Type := Fin world.size

namespace LocalWorld

variable (world : LocalWorld)

def rank0 : Rank world := ⟨0, world.positive⟩

instance : Nonempty (Rank world) := ⟨world.rank0⟩

def ranks : List (Rank world) := List.finRange world.size

def others (rank : Rank world) : List (Rank world) := world.ranks.filter (· ≠ rank)

end LocalWorld

/-- A descriptor stands for the open file it refers to, so copies passed between processes are the same file. -/
abbrev File : Type := Nat

/-- The payload is the sender's rank; `call` is what no receiver can see, the call that sent it. -/
structure Datagram where
  file : File
  payload : Nat
  call : Nat
  deriving DecidableEq, Repr

/-- A call of every rank, with the argument of each where they may differ. -/
inductive BrokerCall (world : LocalWorld) where
  | sync (numRanks : Int)
  | exchangeData (size : Nat) (src : Rank world → Nat → UInt8)
  | exchangeFds (srcFd : Rank world → File)
  | broadcastFd (srcFd : File) (srcRank : Int)

/-- One action of a rank between two barriers. -/
inductive Work (world : LocalWorld) where
  | createSocket
  | store (offset : Nat) (byte : UInt8)
  | load (call size : Nat) (source : Rank world) (offset : Nat)
  | clearFds (call : Nat)
  | startGather (call : Nat) (srcFd : File)
  | gather (call : Nat)
  | forward (call : Nat) (source destination : Rank world)
  | keepGathered (call : Nat)
  | sendFd (call : Nat) (srcFd : File) (destination : Rank world)
  | receive (call : Nat)
  | clearOwn (call : Nat)
  | receiveBroadcast (call : Nat) (srcRank : Int)
  deriving DecidableEq

/-- Vault bytes, queues of the sockets by sender and receiver, and the memory each call of a rank fills. -/
structure BrokerState (world : LocalWorld) where
  data : Nat → UInt8
  dstBytes : Rank world → Nat → Nat → UInt8
  bound : Rank world → Bool := fun _ => false
  inbox : Rank world → Rank world → List Datagram := fun _ _ => []
  gathered : Nat → Rank world → Option File := fun _ _ => none
  dstFds : Rank world → Nat → Rank world → Option File
  dstFd : Rank world → Nat → Option File
  thrown : Rank world → Option String := fun _ => none
  consumed : Rank world → List (Nat × Datagram) := fun _ => []

section Memory

variable {First Second Value : Type*} [DecidableEq First] [DecidableEq Second]

/-- One cell of a memory with two coordinates is written. -/
def writeAt (memory : First → Second → Value) (first : First) (second : Second) (value : Value) :
    First → Second → Value :=
  Function.update memory first (Function.update (memory first) second value)

theorem writeAt_apply (memory : First → Second → Value) (value : Value) :
    writeAt memory first second value first' second' =
      if first' = first ∧ second' = second then value else memory first' second' := by
  by_cases sameFirst : first' = first
  · subst sameFirst
    by_cases sameSecond : second' = second
    · subst sameSecond
      simp [writeAt]
    · simp [writeAt, sameSecond]
  · simp [writeAt, sameFirst]

end Memory

section Actions

variable {world : LocalWorld}

namespace BrokerState

def throw (state : BrokerState world) (rank : Rank world) (error : String) : BrokerState world :=
  { state with thrown := Function.update state.thrown rank (some error) }

/-- `sendmsg` fails on a destination that has not bound its socket. -/
def send (state : BrokerState world) (rank destination : Rank world) (datagram : Datagram) : BrokerState world :=
  if state.bound destination then
    { state with
      inbox := writeAt state.inbox rank destination (state.inbox rank destination ++ [datagram]) }
  else state.throw rank "Broker: failed to send fd"

/-- What a rank does without waiting for a datagram. -/
def act (state : BrokerState world) (rank : Rank world) : Work world → BrokerState world
  | .createSocket => { state with bound := Function.update state.bound rank true }
  | .store offset byte => { state with data := Function.update state.data (rank * vaultSizePerRank + offset) byte }
  | .load call size source offset =>
    { state with
      dstBytes := writeAt state.dstBytes rank call
        (Function.update (state.dstBytes rank call) (source * size + offset)
          (state.data (source * vaultSizePerRank + offset))) }
  | .clearFds call => { state with dstFds := writeAt state.dstFds rank call fun _ => none }
  | .startGather call srcFd =>
    { state with
      gathered := Function.update state.gathered call (Function.update (fun _ => none) world.rank0 (some srcFd)) }
  | .forward call source destination =>
    match state.gathered call source with
    | none => state.throw rank "Broker: invalid data fd"
    | some file => state.send rank destination { file, payload := source, call }
  | .keepGathered call =>
    { state with
      dstFds := writeAt state.dstFds rank call fun source =>
        if source = world.rank0 then state.dstFds rank call source else state.gathered call source }
  | .sendFd call srcFd destination => state.send rank destination { file := srcFd, payload := rank, call }
  | .clearOwn call =>
    { state with dstFds := writeAt state.dstFds rank call (Function.update (state.dstFds rank call) rank none) }
  | .gather _ | .receive _ | .receiveBroadcast _ _ => state

/-- What a rank does with the datagram it has received. -/
def accept (state : BrokerState world) (rank : Rank world) (datagram : Datagram) : Work world → BrokerState world
  | .gather call =>
    if inside : 0 < datagram.payload ∧ datagram.payload < world.size then
      { state with gathered := writeAt state.gathered call ⟨datagram.payload, inside.2⟩ (some datagram.file) }
    else state.throw rank "Broker: invalid received source rank"
  | .receive call =>
    if inside : datagram.payload < world.size ∧ datagram.payload ≠ rank then
      { state with
        dstFds := writeAt state.dstFds rank call
          (Function.update (state.dstFds rank call) ⟨datagram.payload, inside.1⟩ (some datagram.file)) }
    else state.throw rank "Broker: invalid received source rank"
  | .receiveBroadcast call srcRank =>
    if (datagram.payload : Int) = srcRank then
      { state with dstFd := writeAt state.dstFd rank call (some datagram.file) }
    else state.throw rank "Broker: invalid broadcast fd receive"
  | _ => state

end BrokerState

/-- The call for which an action waits for a datagram. -/
def Work.receives? : Work world → Option Nat
  | .gather call => some call
  | .receive call => some call
  | .receiveBroadcast call _ => some call
  | _ => none

/-- Datagrams of one sender arrive in order; which sender comes first is open. -/
inductive Performs (rank : Rank world) (work : Work world) : BrokerState world → BrokerState world → Prop where
  | act {state : BrokerState world} (own : work.receives? = none) : Performs rank work state (state.act rank work)
  | receive {state : BrokerState world} {call : Nat} {sender : Rank world} {datagram : Datagram} {rest : List Datagram}
      (receives : work.receives? = some call) (queued : state.inbox sender rank = datagram :: rest) :
      Performs rank work state
        (BrokerState.accept
          { state with
            inbox := writeAt state.inbox sender rank rest
            consumed := Function.update state.consumed rank (state.consumed rank ++ [(call, datagram)]) }
          rank datagram work)

end Actions

section Schedule

variable {world : LocalWorld}

/-- What a rank does before one barrier, as the barriers follow each other. -/
inductive Round (world : LocalWorld) where
  | enter
  | bind
  | store (call size : Nat) (src : Rank world → Nat → UInt8)
  | load (call size : Nat) (src : Rank world → Nat → UInt8)
  | clear (call : Nat)
  | transfer (call : Nat) (srcFd : Rank world → File)
  | broadcast (call : Nat) (srcFd : File) (srcRank : Int)

/-- Rank 0 of `exchange_fds`: it gathers, and passes every descriptor on to everybody else. -/
def gatherWork (call : Nat) (srcFd : File) : List (Work world) :=
  .startGather call srcFd :: (List.replicate (world.size - 1) (.gather call) ++
    ((world.others world.rank0).flatMap (fun destination =>
        (world.others destination).map fun source => .forward call source destination) ++
      [.keepGathered call, .clearOwn call]))

def transferWork (call : Nat) (srcFd : File) : List (Work world) :=
  .sendFd call srcFd world.rank0 :: (List.replicate (world.size - 1) (.receive call) ++ [.clearOwn call])

def Round.work (rank : Rank world) : Round world → List (Work world)
  | .enter => []
  | .bind => [.createSocket]
  | .store _ size src => (List.range size).map fun offset => .store offset (src rank offset)
  | .load call size _ => world.ranks.flatMap fun source => (List.range size).map fun offset => .load call size source offset
  | .clear call => [.clearFds call]
  | .transfer call srcFd => if rank = world.rank0 then gatherWork call (srcFd rank) else transferWork call (srcFd rank)
  | .broadcast call srcFd srcRank =>
    if (rank : Int) = srcRank then (world.others rank).map fun destination => .sendFd call srcFd destination
    else [.receiveBroadcast call srcRank]

/-- Argument checks before the first barrier of a call, the same on every rank. -/
def BrokerCall.throws : BrokerCall world → Option String
  | .sync numRanks =>
    let numRanks := if numRanks = -1 then (world.size : Int) else numRanks
    if numRanks ≤ 0 ∨ numRanks > world.size then some "Broker: invalid num_ranks"
    else if (world.size : Int) ≠ numRanks then some "Broker: world_size mismatch"
    else none
  | .exchangeData size _ =>
    if size = 0 ∨ size > vaultSizePerRank then some "Broker: invalid exchange_data size" else none
  | .exchangeFds _ => none
  | .broadcastFd _ srcRank =>
    if srcRank < 0 ∨ srcRank ≥ world.size then some "Broker: invalid broadcast source rank" else none

def BrokerCall.rounds (call : Nat) (request : BrokerCall world) : List (Round world) :=
  if request.throws.isSome then []
  else
    match request with
    | .sync _ => [.enter]
    | .exchangeData size src => [.enter, .store call size src, .load call size src]
    | .exchangeFds srcFd => [.clear call, .transfer call srcFd]
    | .broadcastFd srcFd srcRank => [.enter, .broadcast call srcFd srcRank]

def roundsFrom (call : Nat) : List (BrokerCall world) → List (Round world)
  | [] => []
  | request :: rest => request.rounds call ++ roundsFrom (call + 1) rest

/-- The constructor's two barriers, then those of the calls. -/
def schedule (history : List (BrokerCall world)) : List (Round world) :=
  .enter :: .bind :: roundsFrom 0 history

/-- Consecutive generations differ as 32-bit words. -/
theorem toInt32_generation (generation : Nat) :
    toInt32 ((generation + 1 : Nat) : Int) ≠ toInt32 (generation : Int) := by
  intro same
  obtain ⟨factor, difference⟩ := toInt32_eq_iff.mp same
  push_cast at difference
  omega

/-- All processes of a group with the vault they share: the generation is a 32-bit word. -/
def brokerSystem (history : List (BrokerCall world)) : System (Rank world) (Work world) (BrokerState world) where
  rounds := (schedule history).length
  segment round rank := ((schedule history)[round]?).elim [] (Round.work rank)
  performs := Performs
  view generation := toInt32 generation
  changes := toInt32_generation

/-- A rank has returned from the call at an index. -/
def Returned (history : List (BrokerCall world)) (state : State (Rank world) (Work world) (BrokerState world))
    (rank : Rank world) (call : Nat) : Prop :=
  (schedule (history.take (call + 1))).length ≤ state.passes rank

end Schedule

end Ooverlap.Broker
