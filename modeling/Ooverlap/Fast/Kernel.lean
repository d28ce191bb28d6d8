import Ooverlap.Kernel.ReadyRendezvous
import Ooverlap.Plan.Task
import Ooverlap.Support.Interleaving
import Ooverlap.Support.Tables
import Ooverlap.Support.Word

/-! The fast kernels of all ranks over a history of collectives, down to the bulk copies they leave to the engines. -/

namespace Ooverlap.Fast

open Interleaving Plan Tables Word
open Kernel (publishes awaits distributedReadyRendezvousForCta)

inductive Kind where
  | allreduce
  | reduceScatter
  | allGather
  deriving DecidableEq, Repr

/-- The chunk of one CTA: the elements it loads, and for each destination the rank and the first element written. -/
structure Job where
  source : Nat
  count : Nat
  targets : List (Nat × Nat)
  deriving DecidableEq, Repr

/-- The kernel of one rank; a CTA without a chunk returns at once. -/
structure FastLaunch where
  ctaCount : Nat
  job : Nat → Option Job
  peers : List Nat

structure Collective (Value : Type*) where
  kind : Kind
  op : Value → Value → Value
  epoch : Int
  scratchIndex : Int
  launch : Nat → FastLaunch

/-- Which of its grid counters a rank's device uses. -/
structure Scratch where
  kind : Kind
  storageIndex : Int
  deriving DecidableEq, Repr

/-- The shared memory of one CTA, by the collective, the rank and the index of the CTA. -/
structure Block where
  launch : Nat
  rank : Nat
  cta : Nat
  deriving DecidableEq, Repr

/-- A bulk copy of a CTA: its load, and then one operation for every destination. -/
structure Bulk where
  block : Block
  index : Nat
  deriving DecidableEq, Repr

def Block.bulk (block : Block) (index : Nat) : Bulk := ⟨block, index⟩

/-- Whoever runs concurrently: a CTA index of a rank, one kernel after another, and the engine of each bulk copy. -/
inductive Agent where
  | cta (rank cta : Nat)
  | engine (bulk : Bulk)
  deriving DecidableEq, Repr

inductive Action where
  | enter (launch rank : Nat)
  | issue (bulk : Bulk)
  | finish (bulk : Bulk)
  | arrive (rank : Nat) (scratch : Scratch)
  | wait (rank : Nat) (scratch : Scratch) (target : Nat)
  | publish (owner waiter : Nat) (value : Int)
  | await (waiter owner : Nat) (value : Int)
  | exit (rank : Nat)
  | begin (bulk : Bulk)
  | load (block : Block) (element position : Nat)
  | send (block : Block) (element rank position : Nat)
  | complete (bulk : Bulk)
  deriving DecidableEq, Repr

/-- The memories of the ranks, their CTAs' chunks, the inboxes by sender and receiver, the grid counters, and how many
CTAs of each rank have left their kernels. A place of a memory is one element: buffers of different types do not
overlap here. -/
structure Devices (Value : Type*) where
  memory : Nat → Nat → Value
  chunk : Block → Nat → Value
  issued : Bulk → Bool := fun _ => false
  completed : Bulk → Bool := fun _ => false
  inbox : Nat → Nat → Int
  counter : Nat → Scratch → Nat
  exited : Nat → Nat := fun _ => 0

section Code

variable {Value : Type*}

/-- `get_fast_allreduce_barrier_scratch` and its two copies. -/
def Collective.scratch (collective : Collective Value) : Scratch where
  kind := collective.kind
  storageIndex := if collective.scratchIndex = -1 then 0 else collective.scratchIndex

def Collective.waitsEarly (collective : Collective Value) : Bool :=
  collective.kind != .allGather

/-- What an arriving element makes of the one at its destination: a gather stores it, the others reduce. -/
def Collective.merge (collective : Collective Value) (old new : Value) : Value :=
  if collective.kind = .allGather then new else collective.op old new

def kLoadedReadyPhase : Int := 1

/-- `kFanoutDoneReadyPhase`, `kReduceDoneReadyPhase` and `kStoreDoneReadyPhase`. -/
def kDoneReadyPhase : Int := 2

/-- `fast_allreduce_ready_value` and its two copies. -/
def readyValue (collectiveEpoch phase : Int) : Int :=
  toInt32 (collectiveEpoch * kReadySignalPhaseStride + phase)

def publishReady (launch : FastLaunch) (rank cta : Nat) (value : Int) : List Action :=
  publishes (.publish rank · value) launch.peers cta

def awaitReady (launch : FastLaunch) (rank cta : Nat) (value : Int) : List Action :=
  awaits (.await rank · value) launch.peers launch.ctaCount cta

def readyRendezvous (launch : FastLaunch) (rank cta : Nat) (value : Int) : List Action :=
  distributedReadyRendezvousForCta (.publish rank · value) (.await rank · value) launch.peers launch.ctaCount cta

def issueSends (block : Block) (job : Job) : List Action :=
  (List.range job.targets.length).map fun target => .issue (block.bulk (target + 1))

def finishSends (block : Block) (job : Job) : List Action :=
  (List.range job.targets.length).map fun target => .finish (block.bulk (target + 1))

/-- `arrive_and_wait_fast_allreduce_counter` and its two copies. -/
def arriveAndWait (rank : Nat) (scratch : Scratch) (target : Nat) : List Action :=
  [.arrive rank scratch, .wait rank scratch target]

/-- Thread 0 of a CTA; the reducing kernels wait for their load at once, the gathering one only before it stores. -/
def ctaCode (collective : Collective Value) (counterBase : Nat) (block : Block) : List Action :=
  let launch := collective.launch block.rank
  let loaded := readyValue collective.epoch kLoadedReadyPhase
  let done := readyValue collective.epoch kDoneReadyPhase
  match launch.job block.cta with
  | none => []
  | some job =>
    [.issue (block.bulk 0)] ++ (if collective.waitsEarly then [.finish (block.bulk 0)] else []) ++
    arriveAndWait block.rank collective.scratch (counterBase + launch.ctaCount) ++
    readyRendezvous launch block.rank block.cta loaded ++
    arriveAndWait block.rank collective.scratch (counterBase + 2 * launch.ctaCount) ++
    (if collective.waitsEarly then [] else [.finish (block.bulk 0)]) ++
    issueSends block job ++ finishSends block job ++
    arriveAndWait block.rank collective.scratch (counterBase + 3 * launch.ctaCount) ++
    readyRendezvous launch block.rank block.cta done

/-- The elements that a bulk copy moves, if the CTA has it. -/
def bulkMoves (launch : FastLaunch) (bulk : Bulk) : Option (List Action) :=
  match launch.job bulk.block.cta with
  | none => none
  | some job =>
    match bulk.index with
    | 0 => some ((List.range job.count).map fun element => .load bulk.block element (job.source + element))
    | index + 1 =>
      job.targets[index]?.map fun target =>
        (List.range job.count).map fun element => .send bulk.block element target.1 (target.2 + element)

end Code

section History

variable {Value : Type*}

/-- What the host has recorded as the counter's last value before a launch. -/
def lastValue (start : Nat → Scratch → Nat) (earlier : List (Collective Value)) (rank : Nat) (scratch : Scratch) : Nat :=
  start rank scratch +
    ((earlier.filter fun collective => collective.scratch = scratch).map fun collective =>
      3 * (collective.launch rank).ctaCount).sum

/-- CTAs that a rank has launched in earlier kernels of its stream. -/
def ctasBefore (earlier : List (Collective Value)) (rank : Nat) : Nat :=
  (earlier.map fun collective => (collective.launch rank).ctaCount).sum

/-- What a CTA index of a rank does in one collective of the history. -/
def launchCode (start : Nat → Scratch → Nat) (history : List (Collective Value)) (launch rank cta : Nat) : List Action :=
  match history[launch]? with
  | none => []
  | some collective =>
    if cta < (collective.launch rank).ctaCount then
      .enter launch rank ::
        ctaCode collective (lastValue start (history.take launch) rank collective.scratch) ⟨launch, rank, cta⟩ ++
        [.exit rank]
    else []

/-- The bulk copies of the CTAs that are launched. -/
def historyMoves (history : List (Collective Value)) (bulk : Bulk) : Option (List Action) :=
  match history[bulk.block.launch]? with
  | none => none
  | some collective =>
    if bulk.block.cta < (collective.launch bulk.block.rank).ctaCount then
      bulkMoves (collective.launch bulk.block.rank) bulk
    else none

/-- The engine takes up an issued bulk copy, moves its elements and reports it complete. -/
def engineCode (history : List (Collective Value)) (bulk : Bulk) : List Action :=
  match historyMoves history bulk with
  | none => []
  | some moves => .begin bulk :: moves ++ [.complete bulk]

def agentCode (start : Nat → Scratch → Nat) (history : List (Collective Value)) : Agent → List Action
  | .cta rank cta => (List.range history.length).flatMap fun launch => launchCode start history launch rank cta
  | .engine bulk => engineCode history bulk

/-- A kernel starts when the earlier ones of its stream are over, and a spinning CTA goes on when the word it polls
has reached its target. -/
def enabled (history : List (Collective Value)) : Action → Devices Value → Prop
  | .enter launch rank, devices => ctasBefore (history.take launch) rank ≤ devices.exited rank
  | .finish bulk, devices => devices.completed bulk = true
  | .wait rank scratch target, devices => toUInt32 target ≤ toUInt32 (devices.counter rank scratch)
  | .await waiter owner value, devices => value ≤ devices.inbox owner waiter
  | .begin bulk, devices => devices.issued bulk = true
  | _, _ => True

def mergeOf (history : List (Collective Value)) (launch : Nat) (old new : Value) : Value :=
  match history[launch]? with
  | none => old
  | some collective => collective.merge old new

def effect (history : List (Collective Value)) : Action → Devices Value → Devices Value
  | .issue bulk, devices => { devices with issued := Function.update devices.issued bulk true }
  | .arrive rank scratch, devices =>
    { devices with counter := store devices.counter rank scratch (devices.counter rank scratch + 1) }
  | .publish owner waiter value, devices => { devices with inbox := store devices.inbox owner waiter value }
  | .exit rank, devices =>
    { devices with exited := Function.update devices.exited rank (devices.exited rank + 1) }
  | .load block element position, devices =>
    { devices with chunk := store devices.chunk block element (devices.memory block.rank position) }
  | .send block element rank position, devices =>
    { devices with
      memory := store devices.memory rank position
        (mergeOf history block.launch (devices.memory rank position) (devices.chunk block element)) }
  | .complete bulk, devices => { devices with completed := Function.update devices.completed bulk true }
  | _, devices => devices

/-- The kernels of all ranks, one collective after another on each rank's stream. -/
def fastProgram (start : Nat → Scratch → Nat) (history : List (Collective Value)) :
    Program Agent Action (Devices Value) where
  code := agentCode start history
  enabled := enabled history
  effect := effect history

end History

end Ooverlap.Fast
