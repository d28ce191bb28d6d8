import Ooverlap.Plan.Capacity
import Ooverlap.Plan.Components
import Ooverlap.Plan.StagedAllReduce
import Ooverlap.Plan.WellFormed

/-! Transports of planned tasks against the links of the supplied topology. -/

namespace Ooverlap.Plan

section Links

/-- The link that the topology holds from the device of one rank to the device of another. -/
def topologyLink (topo : RankTopologyView) (executor owner : Int) : Option Link :=
  topo.rankDevices.bind fun rankDevices =>
    findTopologyLinkByDevices topo.topology (rankDevices executor) (rankDevices owner)

/-- The link exists and lists the transport as available. -/
def LinkLists (topo : RankTopologyView) (executor owner : Int) (transport : TransportKind) : Prop :=
  transportAvailable (topologyLink topo executor owner) transport = true

instance (topo : RankTopologyView) (executor owner : Int) (transport : TransportKind) :
    Decidable (LinkLists topo executor owner transport) :=
  inferInstanceAs (Decidable (_ = true))

/-- The link lists some transport as available. -/
def UsableLink (topo : RankTopologyView) (executor owner : Int) : Prop :=
  ∃ transport, LinkLists topo executor owner transport

/-- The link lists a direct transport, or does not even list shared memory. -/
def DirectLink (topo : RankTopologyView) (executor owner : Int) : Prop :=
  LinkLists topo executor owner .directNvlink ∨ LinkLists topo executor owner .directPcie ∨
    ¬LinkLists topo executor owner .shm

/-- The preferred transport of a link that lists several. -/
theorem chooseDirectOrFallbackTransport_eq (executorValid : validRank executor topo.worldSize = true)
    (ownerValid : validRank owner topo.worldSize = true) (remote : executor ≠ owner) :
    chooseDirectOrFallbackTransport topo executor owner =
      if LinkLists topo executor owner .directNvlink then .directNvlink
      else if LinkLists topo executor owner .directPcie then .directPcie
      else if LinkLists topo executor owner .shm then .shm
      else .directPcie := by
  cases devices : topo.rankDevices with
  | none => simp [chooseDirectOrFallbackTransport, LinkLists, topologyLink, devices, transportAvailable, findTransportInfo]
  | some rankDevices =>
    have link : topologyLink topo executor owner =
        findTopologyLinkByDevices topo.topology (rankDevices executor) (rankDevices owner) := by
      rw [topologyLink, devices, Option.bind_some]
    simp only [chooseDirectOrFallbackTransport, LinkLists, link, devices, executorValid, ownerValid, if_neg remote,
      Bool.not_true, Bool.or_self, Bool.false_eq_true, if_false]

variable {input : TransferPlanBuildInput} {transports : TransportMatrix}

theorem transports_eq (matrix : buildTransportMatrix input.topo input.worldSize = some transports)
    (inRange : rank ∈ intRange input.worldSize) (isPeer : peer ∈ peersOf rank input.worldSize) :
    transports rank peer =
      if LinkLists input.topo rank peer .directNvlink then .directNvlink
      else if LinkLists input.topo rank peer .directPcie then .directPcie
      else if LinkLists input.topo rank peer .shm then .shm
      else .directPcie := by
  have peerInRange := mem_intRange.mpr (mem_peersOf.mp isPeer).1
  have valid : ∀ rank ∈ intRange input.worldSize, validRank rank input.worldSize = true := by
    intro rank inRange
    simpa [validRank] using mem_intRange.mp inRange
  let group : RankTopologyView := { input.topo with worldSize := input.worldSize }
  rw [buildTransportMatrix_chosen matrix inRange peerInRange]
  have remote := Ne.symm (mem_peersOf.mp isPeer).2
  have executorValid : validRank rank group.worldSize = true := valid rank inRange
  exact chooseDirectOrFallbackTransport_eq executorValid (valid peer peerInRange) remote

/-- The chosen transport is listed exactly where the link lists any: elsewhere the fallback is not. -/
theorem transports_listed_iff (matrix : buildTransportMatrix input.topo input.worldSize = some transports)
    (inRange : rank ∈ intRange input.worldSize) (isPeer : peer ∈ peersOf rank input.worldSize) :
    LinkLists input.topo rank peer (transports rank peer) ↔ UsableLink input.topo rank peer := by
  refine ⟨fun listed => ⟨_, listed⟩, ?_⟩
  rintro ⟨transport, listed⟩
  rw [transports_eq matrix inRange isPeer]
  split
  · assumption
  · split
    · assumption
    · split
      · assumption
      · cases transport <;> contradiction

theorem transports_direct_iff (matrix : buildTransportMatrix input.topo input.worldSize = some transports)
    (inRange : rank ∈ intRange input.worldSize) (isPeer : peer ∈ peersOf rank input.worldSize) :
    transportUsesDirectTma (transports rank peer) = true ↔ DirectLink input.topo rank peer := by
  rw [transports_eq matrix inRange isPeer, DirectLink]
  split
  · simp_all [transportUsesDirectTma]
  · split
    · simp_all [transportUsesDirectTma]
    · split <;> simp_all [transportUsesDirectTma]

end Links

section Groups

variable {input : TransferPlanBuildInput} {transports : TransportMatrix} {islands : IslandPlan}

/-- Ranks of the group that links connect directly in both directions, if need be over other ranks. -/
def Together (input : TransferPlanBuildInput) : Int → Int → Prop :=
  Relation.ReflTransGen fun rank peer => rank ∈ intRange input.worldSize ∧ peer ∈ intRange input.worldSize ∧
    DirectLink input.topo rank peer ∧ DirectLink input.topo peer rank

/-- The smallest of the ranks that it is together with. -/
def Foremost (input : TransferPlanBuildInput) (rank : Int) : Prop :=
  ∀ peer ∈ intRange input.worldSize, Together input rank peer → rank ≤ peer

def AllTogether (input : TransferPlanBuildInput) : Prop :=
  ∀ rank ∈ intRange input.worldSize, ∀ peer ∈ intRange input.worldSize, Together input rank peer

theorem together_iff (matrix : buildTransportMatrix input.topo input.worldSize = some transports) :
    Together input rank peer ↔ Connected transports input.worldSize rank peer := by
  have both : ∀ rank peer, rank ∈ intRange input.worldSize → peer ∈ intRange input.worldSize → rank ≠ peer →
      (directBothWays transports rank peer = true ↔
        DirectLink input.topo rank peer ∧ DirectLink input.topo peer rank) := by
    intro rank peer inRange peerInRange apart
    rw [directBothWays, Bool.and_eq_true,
      transports_direct_iff matrix inRange (mem_peersOf.mpr ⟨mem_intRange.mp peerInRange, Ne.symm apart⟩),
      transports_direct_iff matrix peerInRange (mem_peersOf.mpr ⟨mem_intRange.mp inRange, apart⟩)]
  constructor
  · refine Relation.reflTransGen_closed ?_ _ _
    rintro rank peer ⟨inRange, peerInRange, direct⟩
    by_cases same : rank = peer
    · exact same ▸ Relation.ReflTransGen.refl
    · exact Relation.ReflTransGen.single ⟨inRange, peerInRange, (both rank peer inRange peerInRange same).mpr direct⟩
  · refine Relation.reflTransGen_closed ?_ _ _
    rintro rank peer ⟨inRange, peerInRange, direct⟩
    by_cases same : rank = peer
    · exact same ▸ Relation.ReflTransGen.refl
    · exact Relation.ReflTransGen.single ⟨inRange, peerInRange, (both rank peer inRange peerInRange same).mp direct⟩

theorem Together.symm (together : Together input rank peer) : Together input peer rank := by
  induction together with
  | refl => exact Relation.ReflTransGen.refl
  | tail _ linked earlier => exact Relation.ReflTransGen.head ⟨linked.2.1, linked.1, linked.2.2.symm⟩ earlier

/-- Islands as the planners find them, by the ranks that are together. -/
structure Grouped (input : TransferPlanBuildInput) (islands : IslandPlan) : Prop where
  partition : Partition input.worldSize islands
  together : ∀ rank ∈ intRange input.worldSize, ∀ peer ∈ intRange input.worldSize,
    (islands.islandOfRank rank = islands.islandOfRank peer ↔ Together input rank peer)
  foremost : ∀ rank ∈ intRange input.worldSize, ∀ island ∈ intRange islands.islandCount,
    islands.islandOfRank rank = island → islands.leaderRank island ≤ rank

theorem buildIslands_grouped (matrix : buildTransportMatrix input.topo input.worldSize = some transports)
    (built : buildIslands input transports = some islands) : Grouped input islands := by
  have components := buildIslands_components built
  refine ⟨buildIslands_partition input transports built, fun rank inRange peer peerInRange => ?_,
    fun rank inRange island islandInRange home => ?_⟩
  · rw [components.component rank inRange peer peerInRange, together_iff matrix]
  · exact (components.leader island islandInRange).2 rank ((components.members rank island).mpr ⟨inRange, home⟩)

namespace Grouped

theorem of_slots (grouped : Grouped input islands)
    (same : { assigned with stagingSlot := islands.stagingSlot } = islands) : Grouped input assigned := by
  rw [← same] at grouped
  obtain ⟨⟨home, ranks, leads, settled⟩, together, foremost⟩ := grouped
  exact ⟨⟨home, ranks, leads, settled⟩, together, foremost⟩

/-- A single island holds the whole group. -/
theorem single_iff (grouped : Grouped input islands) : islands.islandCount ≤ 1 ↔ AllTogether input := by
  constructor
  · intro single rank inRange peer peerInRange
    have home := mem_intRange.mp (grouped.partition.home rank inRange)
    have peerHome := mem_intRange.mp (grouped.partition.home peer peerInRange)
    exact (grouped.together rank inRange peer peerInRange).mp (by omega)
  · intro all
    by_contra several
    have first : (0 : Int) ∈ intRange islands.islandCount := mem_intRange.mpr (by omega)
    have second : (1 : Int) ∈ intRange islands.islandCount := mem_intRange.mpr (by omega)
    obtain ⟨inRange, home⟩ := grouped.partition.mem_ranks.mp (grouped.partition.leader_mem first)
    obtain ⟨otherInRange, otherHome⟩ := grouped.partition.mem_ranks.mp (grouped.partition.leader_mem second)
    have same := (grouped.together _ inRange _ otherInRange).mpr (all _ inRange _ otherInRange)
    omega

theorem leader_foremost (grouped : Grouped input islands) (inRange : island ∈ intRange islands.islandCount) :
    Foremost input (islands.leaderRank island) := by
  obtain ⟨leaderInRange, home⟩ := grouped.partition.mem_ranks.mp (grouped.partition.leader_mem inRange)
  intro peer peerInRange together
  have same := (grouped.together _ leaderInRange peer peerInRange).mpr together
  exact grouped.foremost peer peerInRange island inRange (same.symm.trans home)

theorem foremost_leader (grouped : Grouped input islands) (inRange : rank ∈ intRange input.worldSize)
    (foremost : Foremost input rank) : islands.leaderRank (islands.islandOfRank rank) = rank := by
  have islandInRange := grouped.partition.home rank inRange
  obtain ⟨leaderInRange, home⟩ := grouped.partition.mem_ranks.mp (grouped.partition.leader_mem islandInRange)
  have together := (grouped.together rank inRange _ leaderInRange).mp home.symm
  exact le_antisymm (grouped.foremost rank inRange _ islandInRange rfl) (foremost _ leaderInRange together)

/-- What holds both ways between the leaders and the members of the islands. -/
theorem members_iff (grouped : Grouped input islands) (holds : Int → Int → Prop) :
    (∀ island ∈ intRange islands.islandCount, ∀ rank ∈ islandMembers islands island,
        holds (islands.leaderRank island) rank ∧ holds rank (islands.leaderRank island)) ↔
      ∀ rank ∈ intRange input.worldSize, ∀ peer ∈ peersOf rank input.worldSize,
        Together input rank peer ∧ (Foremost input rank ∨ Foremost input peer) → holds rank peer := by
  have partition := grouped.partition
  constructor
  · rintro each rank inRange peer isPeer ⟨together, foremost | foremost⟩
    · obtain ⟨peerInRange, apart⟩ := mem_peersOf.mp isPeer
      have leads := grouped.foremost_leader inRange foremost
      have home := (grouped.together rank inRange peer (mem_intRange.mpr peerInRange)).mpr together
      have member := partition.mem_members.mpr ⟨⟨mem_intRange.mpr peerInRange, home.symm⟩, by rwa [leads]⟩
      have both := each _ (partition.home rank inRange) peer member
      rw [leads] at both
      exact both.1
    · obtain ⟨peerInRange, apart⟩ := mem_peersOf.mp isPeer
      have leads := grouped.foremost_leader (mem_intRange.mpr peerInRange) foremost
      have home := (grouped.together rank inRange peer (mem_intRange.mpr peerInRange)).mpr together
      have member := partition.mem_members.mpr ⟨⟨inRange, home⟩, by rw [leads]; exact Ne.symm apart⟩
      have both := each _ (partition.home peer (mem_intRange.mpr peerInRange)) rank member
      rw [leads] at both
      exact both.2
  · intro each island inRange rank isMember
    obtain ⟨⟨rankInRange, home⟩, apart⟩ := partition.mem_members.mp isMember
    obtain ⟨leaderInRange, leaderHome⟩ := partition.mem_ranks.mp (partition.leader_mem inRange)
    have foremost := grouped.leader_foremost inRange
    have together := (grouped.together _ leaderInRange rank rankInRange).mp (leaderHome.trans home.symm)
    exact ⟨each _ leaderInRange rank (mem_peersOf.mpr ⟨mem_intRange.mp rankInRange, apart⟩) ⟨together, Or.inl foremost⟩,
      each rank rankInRange _ (mem_peersOf.mpr ⟨mem_intRange.mp leaderInRange, Ne.symm apart⟩)
        ⟨together.symm, Or.inr foremost⟩⟩

/-- What holds between any two ranks of an island. -/
theorem ranks_iff (grouped : Grouped input islands) (holds : Int → Int → Prop) :
    (∀ island ∈ intRange islands.islandCount, ∀ rank ∈ islands.islandRanks island,
        ∀ peer ∈ islands.islandRanks island, peer ≠ rank → holds rank peer) ↔
      ∀ rank ∈ intRange input.worldSize, ∀ peer ∈ peersOf rank input.worldSize,
        Together input rank peer → holds rank peer := by
  have partition := grouped.partition
  constructor
  · intro each rank inRange peer isPeer together
    obtain ⟨peerInRange, apart⟩ := mem_peersOf.mp isPeer
    have home := (grouped.together rank inRange peer (mem_intRange.mpr peerInRange)).mpr together
    exact each _ (partition.home rank inRange) rank (partition.mem_ranks.mpr ⟨inRange, rfl⟩) peer
      (partition.mem_ranks.mpr ⟨mem_intRange.mpr peerInRange, home.symm⟩) apart
  · intro each island _ rank isRank peer isPeer apart
    obtain ⟨inRange, home⟩ := partition.mem_ranks.mp isRank
    obtain ⟨peerInRange, peerHome⟩ := partition.mem_ranks.mp isPeer
    exact each rank inRange peer (mem_peersOf.mpr ⟨mem_intRange.mp peerInRange, apart⟩)
      ((grouped.together rank inRange peer peerInRange).mp (home.trans peerHome.symm))

end Grouped

end Groups

end Ooverlap.Plan
