import Mathlib.Logic.Relation
import Ooverlap.Plan.Islands

/-! Islands are the connected components of the graph of transports that are direct both ways. -/

namespace Ooverlap.Plan

open Relation

variable {transports : TransportMatrix} {worldSize : Int}

section Graph

/-- Ranks of the group with a direct transport in both directions. -/
def Linked (transports : TransportMatrix) (worldSize rank peer : Int) : Prop :=
  rank ∈ intRange worldSize ∧ peer ∈ intRange worldSize ∧ directBothWays transports rank peer = true

def Connected (transports : TransportMatrix) (worldSize : Int) : Int → Int → Prop :=
  ReflTransGen (Linked transports worldSize)

theorem directBothWays_comm (rank peer : Int) : directBothWays transports rank peer = directBothWays transports peer rank :=
  Bool.and_comm _ _

theorem Linked.symm (linked : Linked transports worldSize rank peer) : Linked transports worldSize peer rank :=
  ⟨linked.2.1, linked.1, directBothWays_comm rank peer ▸ linked.2.2⟩

theorem Connected.symm (connected : Connected transports worldSize rank peer) :
    Connected transports worldSize peer rank := by
  induction connected with
  | refl => exact .refl
  | tail _ linked ih => exact .head linked.symm ih

/-- A set of ranks closed under links holds whole components. -/
theorem Connected.stays (connected : Connected transports worldSize rank peer) (within : Int → Prop)
    (closed : ∀ rank, within rank → ∀ peer, Linked transports worldSize rank peer → within peer) (here : within rank) :
    within peer := by
  induction connected with
  | refl => exact here
  | tail _ linked ih => exact closed _ ih _ linked

end Graph

section Grow

/-- Peers that the inner loop adds to the island and the queue. -/
def freshPeers (transports : TransportMatrix) (visited : Int → Bool) (rank : Int) (peers : List Int) : List Int :=
  peers.filter fun peer => !visited peer && directBothWays transports rank peer

theorem mem_freshPeers : peer ∈ freshPeers transports visited rank peers ↔
    peer ∈ peers ∧ visited peer ≠ true ∧ directBothWays transports rank peer = true := by
  simp [freshPeers]

theorem visitPeers_eq (transports : TransportMatrix) (island rank : Int) (peers : List Int) (distinct : peers.Nodup) (search : IslandSearch)
    (queue : List Int) :
    let found := peers.foldl (visitPeer transports island rank) (search, queue)
    let fresh := freshPeers transports search.visited rank peers
    (∀ other, found.1.visited other = true ↔ search.visited other = true ∨ other ∈ fresh) ∧
      (∀ other, found.1.islandOfRank other = if other ∈ fresh then island else search.islandOfRank other) ∧
      found.2 = queue ++ fresh := by
  induction peers generalizing search queue with
  | nil => simp [freshPeers]
  | cons peer rest ih =>
    obtain ⟨absent, distinctRest⟩ := List.nodup_cons.mp distinct
    dsimp only
    rw [List.foldl_cons]
    by_cases passed : search.visited peer = true ∨ !directBothWays transports rank peer
    · have skipped : freshPeers transports search.visited rank (peer :: rest) =
          freshPeers transports search.visited rank rest := by
        refine List.filter_cons_of_neg ?_
        rcases passed with seen | indirect
        · simp [seen]
        · simp_all
      rw [visitPeer, if_pos passed, skipped]
      exact ih distinctRest search queue
    · obtain ⟨unseen, direct⟩ := not_or.mp passed
      have added : freshPeers transports search.visited rank (peer :: rest) =
          peer :: freshPeers transports search.visited rank rest := by
        refine List.filter_cons_of_pos ?_
        simp_all
      have same : freshPeers transports (Function.update search.visited peer true) rank rest =
          freshPeers transports search.visited rank rest := by
        refine List.filter_congr fun other member => ?_
        rw [Function.update_of_ne fun here : other = peer => absent (here ▸ member)]
      obtain ⟨visited, home, queued⟩ := ih distinctRest
        { search with
          visited := Function.update search.visited peer true
          islandOfRank := Function.update search.islandOfRank peer island } (queue ++ [peer])
      rw [same] at visited home queued
      rw [visitPeer, if_neg passed, added]
      refine ⟨fun other => ?_, fun other => ?_, ?_⟩
      · rw [visited other]
        by_cases here : other = peer
        · simp [here]
        · simp [here]
      · rw [home other]
        by_cases here : other = peer
        · simp [here]
        · simp [here]
      · rw [queued, List.append_assoc, List.singleton_append]

/-- The island that grows around a seed: everything in it is connected to the seed, and a rank whose links are still
to be followed is in the queue. -/
structure Grown (transports : TransportMatrix) (worldSize : Int) (before : IslandSearch) (island seed : Int)
    (queue : List Int) (search : IslandSearch) : Prop where
  kept : ∀ rank, before.visited rank = true →
    search.visited rank = true ∧ search.islandOfRank rank = before.islandOfRank rank
  joined : ∀ rank, search.visited rank = true → before.visited rank ≠ true →
    search.islandOfRank rank = island ∧ rank ∈ intRange worldSize ∧ Connected transports worldSize seed rank
  queued : ∀ rank ∈ queue, search.visited rank = true ∧ before.visited rank ≠ true
  explored : ∀ rank, search.visited rank = true → before.visited rank ≠ true → rank ∉ queue →
    ∀ peer, Linked transports worldSize rank peer → search.visited peer = true

theorem Grown.pop (grown : Grown transports worldSize before island seed (rank :: queue) search) :
    let found := (intRange worldSize).foldl (visitPeer transports island rank) (search, queue)
    Grown transports worldSize before island seed found.2 found.1 := by
  obtain ⟨visited, home, queued⟩ := visitPeers_eq transports island rank _ (intRange_nodup worldSize)
    search queue
  dsimp only
  rw [queued]
  obtain ⟨seen, outside⟩ := grown.queued rank (List.mem_cons_self ..)
  refine ⟨fun other was => ?_, fun other now was => ?_, fun other member => ?_, fun other now was absent peer linked => ?_⟩
  · obtain ⟨still, same⟩ := grown.kept other was
    refine ⟨(visited other).mpr (Or.inl still), ?_⟩
    rw [home other, if_neg fun fresh => (mem_freshPeers.mp fresh).2.1 still, same]
  · rw [home other]
    rcases (visited other).mp now with already | fresh
    · rw [if_neg fun fresh => (mem_freshPeers.mp fresh).2.1 already]
      exact grown.joined other already was
    · obtain ⟨inRange, _, direct⟩ := mem_freshPeers.mp fresh
      obtain ⟨_, rankInRange, connected⟩ := grown.joined rank seen outside
      rw [if_pos fresh]
      exact ⟨rfl, inRange, connected.tail ⟨rankInRange, inRange, direct⟩⟩
  · rcases List.mem_append.mp member with waiting | fresh
    · obtain ⟨already, was⟩ := grown.queued other (List.mem_cons_of_mem _ waiting)
      exact ⟨(visited other).mpr (Or.inl already), was⟩
    · refine ⟨(visited other).mpr (Or.inr fresh), fun was => ?_⟩
      exact (mem_freshPeers.mp fresh).2.1 (grown.kept other was).1
  · rw [visited peer]
    obtain ⟨notWaiting, notFresh⟩ := not_or.mp (mt List.mem_append.mpr absent)
    have already : search.visited other = true := ((visited other).mp now).resolve_right notFresh
    by_cases here : other = rank
    · subst here
      by_cases peerSeen : search.visited peer = true
      · exact Or.inl peerSeen
      · exact Or.inr (mem_freshPeers.mpr ⟨linked.2.1, peerSeen, linked.2.2⟩)
    · left
      refine grown.explored other already was (fun member => ?_) peer linked
      rcases List.mem_cons.mp member with same | waiting
      · exact here same
      · exact notWaiting waiting

/-- Ranks that no island has yet. -/
def unvisited (worldSize : Int) (search : IslandSearch) : Nat :=
  (intRange worldSize).countP fun rank => !search.visited rank

/-- What enters the queue is no longer unvisited. -/
theorem unvisited_pop (transports : TransportMatrix) (worldSize island rank : Int) (search : IslandSearch) (queue : List Int) :
    let found := (intRange worldSize).foldl (visitPeer transports island rank) (search, queue)
    unvisited worldSize found.1 + found.2.length = unvisited worldSize search + queue.length := by
  obtain ⟨visited, _, queued⟩ := visitPeers_eq transports island rank _ (intRange_nodup worldSize)
    search queue
  dsimp only
  have fresh : freshPeers transports search.visited rank (intRange worldSize) =
      ((intRange worldSize).filter (directBothWays transports rank)).filter fun peer => !search.visited peer := by
    rw [freshPeers, List.filter_filter]
  have rest : unvisited worldSize ((intRange worldSize).foldl (visitPeer transports island rank) (search, queue)).1 =
      ((intRange worldSize).filter fun peer => !directBothWays transports rank peer).countP
        fun peer => !search.visited peer := by
    rw [unvisited, List.countP_filter]
    refine List.countP_congr fun peer inRange => ?_
    rw [Bool.not_eq_true', ← Bool.not_eq_true, visited peer, mem_freshPeers]
    simp only [inRange, true_and, Bool.and_eq_true, Bool.not_eq_true']
    cases search.visited peer <;> cases directBothWays transports rank peer <;> simp
  rw [queued, List.length_append, rest, fresh, ← List.countP_eq_length_filter, unvisited,
    List.countP_eq_countP_filter_add (intRange worldSize) _ (directBothWays transports rank)]
  omega

/-- The fuel suffices, so the island ends up closed under links. -/
theorem growIsland_grown (fuel : Nat) (queue : List Int) (search : IslandSearch)
    (grown : Grown transports worldSize before island seed queue search)
    (room : unvisited worldSize search + queue.length ≤ fuel) :
    Grown transports worldSize before island seed [] (growIsland transports worldSize island fuel (search, queue)) := by
  induction fuel generalizing queue search with
  | zero =>
    have empty : queue = [] := List.eq_nil_of_length_eq_zero (by omega)
    subst empty
    exact grown
  | succ fuel ih =>
    cases queue with
    | nil => exact grown
    | cons rank queue =>
      rw [growIsland]
      refine ih _ _ grown.pop ?_
      have popped := unvisited_pop transports worldSize island rank search queue
      dsimp only at popped
      rw [List.length_cons] at room
      omega

end Grow

section Search

/-- Islands found so far are whole components. -/
structure SearchComplete (transports : TransportMatrix) (worldSize : Int) (search : IslandSearch) : Prop
    extends SearchSound worldSize search where
  closed : ∀ rank, search.visited rank = true → ∀ peer, Linked transports worldSize rank peer →
    search.visited peer = true
  classes : ∀ rank, search.visited rank = true → ∀ other, search.visited other = true →
    (search.islandOfRank rank = search.islandOfRank other ↔ Connected transports worldSize rank other)

theorem SearchComplete.whole (complete : SearchComplete transports worldSize search)
    (connected : Connected transports worldSize rank other) (seen : search.visited rank = true) :
    search.visited other = true :=
  connected.stays (fun rank => search.visited rank = true) complete.closed seen

theorem searchComplete_start (transports : TransportMatrix) (worldSize : Int) :
    SearchComplete transports worldSize {} where
  count := le_refl _
  placed := nofun
  settled island lower upper := by
    simp only at upper
    omega
  closed := nofun
  classes := nofun

/-- The queue of a fresh seed. -/
theorem grown_seed (search : IslandSearch) (fresh : search.visited seed ≠ true) (inRange : seed ∈ intRange worldSize) :
    Grown transports worldSize search search.islandCount seed [seed]
      { islandCount := search.islandCount + 1
        visited := Function.update search.visited seed true
        islandOfRank := Function.update search.islandOfRank seed search.islandCount } where
  kept rank was := by
    have apart : rank ≠ seed := fun same => fresh (same ▸ was)
    simp [Function.update_of_ne apart, was]
  joined rank now was := by
    by_cases same : rank = seed
    · subst same
      exact ⟨Function.update_self .., inRange, .refl⟩
    · simp only [Function.update_of_ne same] at now
      exact absurd now was
  queued rank member := by
    obtain rfl := List.mem_singleton.mp member
    exact ⟨Function.update_self .., fresh⟩
  explored rank now was absent := by
    have apart : rank ≠ seed := fun same => absent (same ▸ List.mem_singleton_self _)
    simp only [Function.update_of_ne apart] at now
    exact absurd now was

theorem unvisited_seed (search : IslandSearch) (inRange : seed ∈ intRange worldSize) :
    unvisited worldSize
      { islandCount := search.islandCount + 1
        visited := Function.update search.visited seed true
        islandOfRank := Function.update search.islandOfRank seed search.islandCount } + 1 ≤ worldSize.toNat := by
  have less : unvisited worldSize
      { islandCount := search.islandCount + 1
        visited := Function.update search.visited seed true
        islandOfRank := Function.update search.islandOfRank seed search.islandCount } <
        (intRange worldSize).length := by
    refine lt_of_le_of_ne List.countP_le_length fun all => ?_
    have everyone := List.countP_eq_length.mp all seed inRange
    simp at everyone
  rwa [length_intRange] at less

theorem Grown.complete (grown : Grown transports worldSize before island seed [] search)
    (complete : SearchComplete transports worldSize before) (beyond : island = before.islandCount)
    (sound : SearchSound worldSize search) : SearchComplete transports worldSize search := by
  have apart : ∀ rank, before.visited rank = true → ∀ other, search.visited other = true → before.visited other ≠ true →
      search.islandOfRank rank ≠ search.islandOfRank other ∧ ¬Connected transports worldSize rank other := by
    intro rank was other now outside
    refine ⟨fun same => ?_, fun connected => outside (complete.whole connected was)⟩
    have placed := complete.placed rank was
    rw [(grown.kept rank was).2, (grown.joined other now outside).1] at same
    omega
  refine ⟨sound, fun rank now peer linked => ?_, fun rank now other otherNow => ?_⟩
  · by_cases was : before.visited rank = true
    · exact (grown.kept peer (complete.closed rank was peer linked)).1
    · exact grown.explored rank now was List.not_mem_nil peer linked
  · by_cases was : before.visited rank = true
    · by_cases otherWas : before.visited other = true
      · rw [(grown.kept rank was).2, (grown.kept other otherWas).2]
        exact complete.classes rank was other otherWas
      · obtain ⟨differ, unconnected⟩ := apart rank was other otherNow otherWas
        exact ⟨fun same => absurd same differ, fun connected => absurd connected unconnected⟩
    · by_cases otherWas : before.visited other = true
      · obtain ⟨differ, unconnected⟩ := apart other otherWas rank now was
        exact ⟨fun same => absurd same.symm differ, fun connected => absurd connected.symm unconnected⟩
      · obtain ⟨home, _, connected⟩ := grown.joined rank now was
        obtain ⟨otherHome, _, otherConnected⟩ := grown.joined other otherNow otherWas
        exact ⟨fun _ => connected.symm.trans otherConnected, fun _ => home.trans otherHome.symm⟩

theorem SearchComplete.grow (complete : SearchComplete transports worldSize search)
    (inRange : seed ∈ intRange worldSize) :
    SearchComplete transports worldSize (seedIsland transports worldSize search seed) := by
  have sound : SearchSound worldSize (seedIsland transports worldSize search seed) :=
    seedIsland_sound complete.toSearchSound inRange
  unfold seedIsland at sound ⊢
  split
  · exact complete
  · rename_i fresh
    rw [if_neg fresh] at sound
    exact (growIsland_grown _ _ _ (grown_seed search fresh inRange) (unvisited_seed search inRange)).complete complete
      rfl sound

theorem searchIslands_complete (transports : TransportMatrix) (worldSize : Int) :
    SearchComplete transports worldSize (searchIslands transports worldSize) := by
  have fold : ∀ (seeds : List Int) (search : IslandSearch), (∀ seed ∈ seeds, seed ∈ intRange worldSize) →
      SearchComplete transports worldSize search →
        SearchComplete transports worldSize (seeds.foldl (seedIsland transports worldSize) search) := by
    intro seeds
    induction seeds with
    | nil => exact fun _ _ complete => complete
    | cons seed rest ih =>
      intro search inRange complete
      exact ih _ (fun other member => inRange other (List.mem_cons_of_mem _ member))
        (complete.grow (inRange seed (List.mem_cons_self ..)))
  exact fold _ _ (fun _ member => member) (searchComplete_start transports worldSize)

end Search

section Islands

variable {input : TransferPlanBuildInput} {islands : IslandPlan}

/-- The islands of a group are the components of its links, each with its ranks in increasing order and the
smallest as its leader. -/
structure ComponentIslands (transports : TransportMatrix) (worldSize : Int) (islands : IslandPlan) : Prop where
  home : ∀ rank ∈ intRange worldSize, islands.islandOfRank rank ∈ intRange islands.islandCount
  members : ∀ rank island, rank ∈ islands.islandRanks island ↔ rank ∈ intRange worldSize ∧ islands.islandOfRank rank = island
  component : ∀ rank ∈ intRange worldSize, ∀ other ∈ intRange worldSize,
    (islands.islandOfRank rank = islands.islandOfRank other ↔ Connected transports worldSize rank other)
  increasing : ∀ island, (islands.islandRanks island).Pairwise (· < ·)
  leader : ∀ island ∈ intRange islands.islandCount, islands.leaderRank island ∈ islands.islandRanks island ∧
    ∀ rank ∈ islands.islandRanks island, islands.leaderRank island ≤ rank
  sizes : ((intRange islands.islandCount).map fun island => (islands.islandRanks island).length).sum = worldSize.toNat

/-- Islands that partition the ranks together have as many ranks as the group. -/
theorem Partition.sizes (partition : Partition worldSize islands) :
    ((intRange islands.islandCount).map fun island => (islands.islandRanks island).length).sum = worldSize.toNat := by
  have distinct : ((intRange islands.islandCount).flatMap islands.islandRanks).Nodup := by
    refine List.nodup_flatMap.mpr ⟨fun island _ => partition.ranks_nodup island, ?_⟩
    refine (intRange_nodup _).imp fun {island other} apart => ?_
    intro rank here there
    exact apart ((partition.mem_ranks.mp here).2.symm.trans (partition.mem_ranks.mp there).2)
  have same : ((intRange islands.islandCount).flatMap islands.islandRanks).Perm (intRange worldSize) := by
    refine (List.perm_ext_iff_of_nodup distinct (intRange_nodup _)).mpr fun rank => ?_
    rw [List.mem_flatMap]
    constructor
    · rintro ⟨island, _, member⟩
      exact (partition.mem_ranks.mp member).1
    · intro inRange
      exact ⟨_, partition.home rank inRange, partition.mem_ranks.mpr ⟨inRange, rfl⟩⟩
  rw [← length_intRange, ← same.length_eq, List.length_flatMap]

theorem buildIslands_components (built : buildIslands input transports = some islands) :
    ComponentIslands transports input.worldSize islands := by
  have partition := buildIslands_partition input transports built
  have complete := searchIslands_complete transports input.worldSize
  have homes : islands.islandOfRank = (searchIslands transports input.worldSize).islandOfRank := by
    unfold buildIslands at built
    split at built
    · cases built
    · cases built
      rfl
  have visited : ∀ rank ∈ intRange input.worldSize, (searchIslands transports input.worldSize).visited rank = true :=
    fun rank inRange => seedIslands_visited _ _ inRange
  have increasing : ∀ island, (islands.islandRanks island).Pairwise (· < ·) := by
    intro island
    rw [partition.ranks]
    exact (intRange_sorted _).filter _
  refine ⟨partition.home, fun rank island => partition.mem_ranks, fun rank inRange other otherInRange => ?_, increasing,
    fun island inRange => ⟨partition.leader_mem inRange, fun rank member => ?_⟩, partition.sizes⟩
  · rw [homes]
    exact complete.classes rank (visited rank inRange) other (visited other otherInRange)
  · rw [partition.leads]
    cases ranks : islands.islandRanks island with
    | nil =>
      rw [ranks] at member
      cases member
    | cons first rest =>
      have order := increasing island
      rw [ranks] at member order
      rcases List.mem_cons.mp member with rfl | later
      · exact le_rfl
      · exact ((List.pairwise_cons.mp order).1 rank later).le

theorem buildIslands_succeeds_iff (input : TransferPlanBuildInput) (transports : TransportMatrix) :
    (∃ islands, buildIslands input transports = some islands) ↔ 0 < input.worldSize ∧ input.worldSize ≤ 16 := by
  refine ⟨fun built => ?_, buildIslands_some input transports⟩
  obtain ⟨islands, built⟩ := built
  have limit : (kPlannerMaxRanks : Int) = 16 := rfl
  unfold buildIslands at built
  split at built
  · cases built
  · omega

/-- An island whose ranks fill the interval that they span passes the check of the all-gather planner. -/
theorem interval_length {items : List Int} (sorted : items.Pairwise (· < ·)) (nonempty : items ≠ [])
    (full : ∀ rank, items.head nonempty ≤ rank → rank ≤ items.getLast nonempty → rank ∈ items) :
    items.getLast nonempty - items.head nonempty + 1 = items.length := by
  have bounds : items.head nonempty ≤ items.getLast nonempty :=
    (sorted.imp le_of_lt : items.Pairwise (· ≤ ·)).rel_head (List.getLast_mem nonempty)
  have same : items.toFinset = Finset.Icc (items.head nonempty) (items.getLast nonempty) := by
    ext rank
    rw [List.mem_toFinset, Finset.mem_Icc]
    have weak : items.Pairwise (· ≤ ·) := sorted.imp le_of_lt
    exact ⟨fun member => ⟨weak.rel_head member, weak.rel_getLast member⟩, fun inside => full rank inside.1 inside.2⟩
  have card := congrArg Finset.card same
  rw [Int.card_Icc, List.toFinset_card_of_nodup (sorted.imp ne_of_lt)] at card
  omega

/-- Every component is an interval of ranks. -/
def Intervals (transports : TransportMatrix) (worldSize : Int) : Prop :=
  ∀ rank ∈ intRange worldSize, ∀ other ∈ intRange worldSize, Connected transports worldSize rank other →
    ∀ middle, rank ≤ middle → middle ≤ other → Connected transports worldSize rank middle

theorem buildAllGatherIslands_grouped (built : AllGather.buildAllGatherIslands input transports = some islands) :
    buildIslands input transports = some islands := by
  unfold AllGather.buildAllGatherIslands at built
  obtain ⟨found, grouped, checked⟩ := Option.bind_eq_some_iff.mp built
  split at checked
  · cases checked
    exact grouped
  · cases checked

/-- Where the islands are accepted, a rank between two of an island belongs to it. -/
theorem Contiguous.intervals (contiguous : Contiguous worldSize islands)
    (components : ComponentIslands transports worldSize islands) : Intervals transports worldSize := by
  intro rank inRange other otherInRange connected middle after before
  have home := (components.component rank inRange other otherInRange).mpr connected
  have island := contiguous.home rank inRange
  have member := (contiguous.interval _ island rank).mp (contiguous.mem_ranks.mpr ⟨inRange, rfl⟩)
  have otherMember := (contiguous.interval _ island other).mp (contiguous.mem_ranks.mpr ⟨otherInRange, home.symm⟩)
  have between := (contiguous.interval _ island middle).mpr ⟨by omega, by omega⟩
  obtain ⟨middleInRange, middleHome⟩ := contiguous.mem_ranks.mp between
  exact (components.component rank inRange middle middleInRange).mp middleHome.symm

theorem Intervals.accepted (intervals : Intervals transports input.worldSize)
    (grouped : buildIslands input transports = some islands) :
    AllGather.buildAllGatherIslands input transports = some islands := by
  have partition := buildIslands_partition input transports grouped
  have components := buildIslands_components grouped
  rw [AllGather.buildAllGatherIslands, grouped, Option.bind_some, if_pos]
  refine List.all_eq_true.mpr fun island inRange => beq_iff_eq.mpr ?_
  have nonempty := partition.settled island inRange
  obtain ⟨first, last⟩ := buildIslands_ends input transports grouped island
  rw [first, last, List.headD_eq_head?_getD, List.head?_eq_some_head nonempty, List.getLastD_eq_getLast?,
    List.getLast?_eq_some_getLast nonempty]
  refine interval_length (components.increasing island) nonempty fun rank after before => ?_
  obtain ⟨firstInRange, firstHome⟩ := partition.mem_ranks.mp (List.head_mem nonempty)
  obtain ⟨lastInRange, lastHome⟩ := partition.mem_ranks.mp (List.getLast_mem nonempty)
  have connected := (components.component _ firstInRange _ lastInRange).mp (firstHome.trans lastHome.symm)
  have firstBounds := mem_intRange.mp firstInRange
  have lastBounds := mem_intRange.mp lastInRange
  have inRange' : rank ∈ intRange input.worldSize := mem_intRange.mpr ⟨by omega, by omega⟩
  have joined := intervals _ firstInRange _ lastInRange connected rank after before
  have home := (components.component _ firstInRange rank inRange').mpr joined
  exact partition.mem_ranks.mpr ⟨inRange', home.symm.trans firstHome⟩

/-- All planners find the components of the graph, and the all-gather planner refuses it exactly when some component
is no interval of ranks. -/
theorem islands_components (input : TransferPlanBuildInput) (transports : TransportMatrix) :
    ((∃ islands, buildIslands input transports = some islands) ↔ 0 < input.worldSize ∧ input.worldSize ≤ 16) ∧
      (∀ islands, buildIslands input transports = some islands →
        ComponentIslands transports input.worldSize islands) ∧
      ((∃ islands, AllGather.buildAllGatherIslands input transports = some islands) ↔
        (0 < input.worldSize ∧ input.worldSize ≤ 16) ∧ Intervals transports input.worldSize) ∧
      ∀ islands, AllGather.buildAllGatherIslands input transports = some islands →
        ComponentIslands transports input.worldSize islands := by
  refine ⟨buildIslands_succeeds_iff input transports, fun islands built => buildIslands_components built, ⟨?_, ?_⟩,
    fun islands built => buildIslands_components (buildAllGatherIslands_grouped built)⟩
  · rintro ⟨islands, built⟩
    have grouped := buildAllGatherIslands_grouped built
    exact ⟨(buildIslands_succeeds_iff input transports).mp ⟨islands, grouped⟩,
      (buildAllGatherIslands_contiguous input transports built).intervals (buildIslands_components grouped)⟩
  · rintro ⟨size, intervals⟩
    obtain ⟨islands, grouped⟩ := buildIslands_some input transports size
    exact ⟨islands, intervals.accepted grouped⟩

end Islands

end Ooverlap.Plan
