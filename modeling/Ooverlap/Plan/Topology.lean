import Ooverlap.Plan.Task

/-! Transport and ready-signal selection from a probed topology. -/

namespace Ooverlap.Plan

def kPlannerMaxRanks : Nat := 16
def kPlannerMaxStagingSlots : Nat := 4

structure TransportInfo where
  kind : TransportKind := .directPcie
  available : Bool := false
  deriving DecidableEq, Repr

structure Link where
  srcDevice : Int := -1
  dstDevice : Int := -1
  transports : List TransportInfo := []
  deriving DecidableEq, Repr

structure Node where
  device : Int := -1
  numaNode : Int := -1
  deriving DecidableEq, Repr

structure Topology where
  nodes : List Node := []
  links : List Link := []
  deriving DecidableEq, Repr

/-- Optional topology, and optional device of every rank, as the planners receive them. -/
structure RankTopologyView where
  topology : Option Topology := none
  rankDevices : Option (Int → Int) := none
  worldSize : Int := 0

def validRank (rank worldSize : Int) : Bool :=
  rank ≥ 0 && rank < worldSize

def findTopologyLinkByDevices (topology : Option Topology) (srcDevice dstDevice : Int) : Option Link :=
  topology.bind fun topology =>
    topology.links.find? fun link => link.srcDevice == srcDevice && link.dstDevice == dstDevice

def findTransportInfo (link : Option Link) (kind : TransportKind) : Option TransportInfo :=
  link.bind fun link => link.transports.find? fun transport => transport.kind == kind

/-- A found transport that the probe marked as available. -/
def transportAvailable (link : Option Link) (kind : TransportKind) : Bool :=
  match findTransportInfo link kind with
  | some transport => transport.available
  | none => false

def chooseDirectOrFallbackTransport (topo : RankTopologyView) (executorRank targetRank : Int) :
    TransportKind :=
  match topo.rankDevices with
  | none => .directPcie
  | some rankDevices =>
    if !validRank executorRank topo.worldSize || !validRank targetRank topo.worldSize then .directPcie
    else if executorRank = targetRank then .directNvlink
    else
      let link := findTopologyLinkByDevices topo.topology
        (rankDevices executorRank) (rankDevices targetRank)
      if transportAvailable link .directNvlink then .directNvlink
      else if transportAvailable link .directPcie then .directPcie
      else if transportAvailable link .shm then .shm
      -- Without a usable probe the peer is treated as directly reachable.
      else .directPcie

def transportUsesDirectTma (transport : TransportKind) : Bool :=
  transport = .directNvlink || transport = .directPcie

def chooseReadySignalChannel (topo : RankTopologyView) (waiterRank ownerRank : Int) :
    ReadySignalChannel :=
  if !validRank waiterRank topo.worldSize || !validRank ownerRank topo.worldSize then .deviceMemory
  else if waiterRank = ownerRank then .deviceMemory
  else
    let directOrFallback := chooseDirectOrFallbackTransport topo waiterRank ownerRank
    if directOrFallback = .directNvlink ∨ directOrFallback = .directPcie then .deviceMemory
    else .hostMapped

/-- Transport of every ordered pair of ranks; unfilled entries keep the zero enumerator. -/
def TransportMatrix := Int → Int → TransportKind

def buildTransportMatrix (topo : RankTopologyView) (worldSize : Int) : Option TransportMatrix :=
  if worldSize ≤ 0 ∨ worldSize > kPlannerMaxRanks then none
  else some fun src dst =>
    if 0 ≤ src ∧ src < worldSize ∧ 0 ≤ dst ∧ dst < worldSize then
      chooseDirectOrFallbackTransport { topo with worldSize } src dst
    else .directNvlink

/-- Every pair of ranks of the group reaches each other by a direct transport. -/
def AllDirect (topo : RankTopologyView) (worldSize : Int) : Prop :=
  ∀ src dst, validRank src worldSize = true → validRank dst worldSize = true →
    transportUsesDirectTma (chooseDirectOrFallbackTransport { topo with worldSize } src dst) = true

theorem allDirect_of_absent (absent : topo.rankDevices = none) : AllDirect topo worldSize := by
  intro src dst _ _
  simp [chooseDirectOrFallbackTransport, absent, transportUsesDirectTma]

theorem buildTransportMatrix_direct (direct : AllDirect topo worldSize)
    (built : buildTransportMatrix topo worldSize = some matrix) (src dst : Int) :
    transportUsesDirectTma (matrix src dst) = true := by
  unfold buildTransportMatrix at built
  split at built
  · cases built
  · cases built
    dsimp only
    split
    · rename_i inside
      apply direct <;> simp [validRank, inside]
    · rfl

/-- On a directly reachable group every rank waits on device-memory signals. -/
theorem chooseReadySignalChannel_direct (direct : AllDirect topo worldSize)
    (waiterValid : validRank waiterRank worldSize = true)
    (ownerValid : validRank ownerRank worldSize = true) :
    chooseReadySignalChannel topo waiterRank ownerRank = .deviceMemory := by
  have reachable := direct waiterRank ownerRank waiterValid ownerValid
  unfold chooseReadySignalChannel
  split
  · rfl
  · rename_i valid
    simp only [Bool.or_eq_true, Bool.not_eq_true', not_or, Bool.not_eq_false] at valid
    split
    · rfl
    · have same : chooseDirectOrFallbackTransport topo waiterRank ownerRank =
          chooseDirectOrFallbackTransport { topo with worldSize } waiterRank ownerRank := by
        simp [chooseDirectOrFallbackTransport, valid, waiterValid, ownerValid]
      rw [← same] at reachable
      simp only [transportUsesDirectTma, Bool.or_eq_true, decide_eq_true_eq] at reachable
      simp only [if_pos reachable]

end Ooverlap.Plan
