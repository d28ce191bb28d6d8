import Mathlib.Data.Int.Interval
import Ooverlap.Plan.AllGather

/-! Islands partition the ranks of a group, each with a leader of its own and a staging slot. -/

namespace Ooverlap.Plan

section Search

variable {transports : TransportMatrix} {worldSize : Int}

/-- Assigned ranks lie in islands found so far, and every such island has a rank. -/
structure SearchSound (worldSize : Int) (search : IslandSearch) : Prop where
  count : 0 ≤ search.islandCount
  placed : ∀ rank, search.visited rank = true →
    0 ≤ search.islandOfRank rank ∧ search.islandOfRank rank < search.islandCount
  settled : ∀ island, 0 ≤ island → island < search.islandCount →
    ∃ rank ∈ intRange worldSize, search.visited rank = true ∧ search.islandOfRank rank = island

/-- An unassigned rank may join any island found so far. -/
theorem SearchSound.join (sound : SearchSound worldSize search) (fresh : search.visited rank ≠ true)
    (lower : 0 ≤ island) (upper : island < search.islandCount) :
    SearchSound worldSize { search with
      visited := Function.update search.visited rank true
      islandOfRank := Function.update search.islandOfRank rank island } where
  count := sound.count
  placed other seen := by
    by_cases same : other = rank
    · subst same
      simpa using ⟨lower, upper⟩
    · simp only [Function.update_of_ne same] at seen ⊢
      exact sound.placed other seen
  settled other otherLower otherUpper := by
    obtain ⟨member, inRange, seen, here⟩ := sound.settled other otherLower otherUpper
    have apart : member ≠ rank := fun same => fresh (same ▸ seen)
    refine ⟨member, inRange, ?_, ?_⟩
    · simpa only [Function.update_of_ne apart] using seen
    · simpa only [Function.update_of_ne apart] using here

theorem visitPeers_sound (island rank : Int) (peers : List Int) (found : IslandSearch × List Int)
    (sound : SearchSound worldSize found.1) (lower : 0 ≤ island) (upper : island < found.1.islandCount) :
    SearchSound worldSize (peers.foldl (visitPeer transports island rank) found).1 := by
  induction peers generalizing found with
  | nil => exact sound
  | cons peer rest ih =>
    refine ih _ ?_ (by rwa [visitPeer_islandCount])
    unfold visitPeer
    split
    · exact sound
    · rename_i fresh
      exact sound.join (not_or.mp fresh).1 lower upper

theorem growIsland_sound (island : Int) (fuel : Nat) (found : IslandSearch × List Int)
    (sound : SearchSound worldSize found.1) (lower : 0 ≤ island) (upper : island < found.1.islandCount) :
    SearchSound worldSize (growIsland transports worldSize island fuel found) := by
  induction fuel generalizing found with
  | zero => exact sound
  | succ fuel ih =>
    obtain ⟨search, queue⟩ := found
    cases queue with
    | nil => exact sound
    | cons rank queue =>
      refine ih _ (visitPeers_sound island rank _ (search, queue) sound lower upper) ?_
      rwa [visitPeers_islandCount]

theorem seedIsland_sound (sound : SearchSound worldSize search) (inRange : seed ∈ intRange worldSize) :
    SearchSound worldSize (seedIsland transports worldSize search seed) := by
  unfold seedIsland
  split
  · exact sound
  · rename_i fresh
    refine growIsland_sound _ _ _ ⟨?_, ?_, ?_⟩ sound.count (Int.lt_add_one_of_le (le_refl _))
    · exact le_trans sound.count (Int.le_add_one (le_refl _))
    · intro rank seen
      by_cases same : rank = seed
      · subst same
        have count := sound.count
        simp only [Function.update_self]
        omega
      · simp only [Function.update_of_ne same] at seen ⊢
        have placed := sound.placed rank seen
        omega
    · intro island lower upper
      by_cases last : island = search.islandCount
      · exact ⟨seed, inRange, by simp, by simp [last]⟩
      · have earlier : island < search.islandCount := by
          simp only at upper
          omega
        obtain ⟨rank, rankInRange, seen, here⟩ := sound.settled island lower earlier
        have apart : rank ≠ seed := fun same => fresh (same ▸ seen)
        refine ⟨rank, rankInRange, ?_, ?_⟩
        · simpa only [Function.update_of_ne apart] using seen
        · simpa only [Function.update_of_ne apart] using here

theorem seedIsland_visited (search : IslandSearch) (seed : Int) (seen : search.visited rank = true) :
    (seedIsland transports worldSize search seed).visited rank = true := by
  unfold seedIsland
  split
  · exact seen
  · refine growIsland_visited _ _ _ _ _ ?_
    by_cases same : rank = seed <;> simp [same, seen]

theorem seedIsland_seed (search : IslandSearch) (seed : Int) :
    (seedIsland transports worldSize search seed).visited seed = true := by
  unfold seedIsland
  split
  · rename_i seen
    exact seen
  · exact growIsland_visited _ _ _ _ _ (by simp)

theorem seedIslands_sound (seeds : List Int) (inRange : ∀ seed ∈ seeds, seed ∈ intRange worldSize)
    (sound : SearchSound worldSize search) :
    SearchSound worldSize (seeds.foldl (seedIsland transports worldSize) search) := by
  induction seeds generalizing search with
  | nil => exact sound
  | cons seed rest ih =>
    exact ih (fun other member => inRange other (List.mem_cons_of_mem _ member))
      (seedIsland_sound sound (inRange seed (List.mem_cons_self ..)))

theorem seedIslands_keep (seeds : List Int) (search : IslandSearch) (seen : search.visited rank = true) :
    (seeds.foldl (seedIsland transports worldSize) search).visited rank = true := by
  induction seeds generalizing search with
  | nil => exact seen
  | cons seed rest ih => exact ih _ (seedIsland_visited search seed seen)

theorem seedIslands_visited (seeds : List Int) (search : IslandSearch) (member : rank ∈ seeds) :
    (seeds.foldl (seedIsland transports worldSize) search).visited rank = true := by
  induction seeds generalizing search with
  | nil => cases member
  | cons seed rest ih =>
    rcases List.mem_cons.mp member with rfl | later
    · exact seedIslands_keep rest _ (seedIsland_seed search rank)
    · exact ih _ later

end Search

/-- Islands that partition the ranks of a group; the first rank of each leads it. -/
structure Partition (worldSize : Int) (islands : IslandPlan) : Prop where
  home : ∀ rank ∈ intRange worldSize, islands.islandOfRank rank ∈ intRange islands.islandCount
  ranks : ∀ island, islands.islandRanks island =
    (intRange worldSize).filter fun rank => islands.islandOfRank rank == island
  leads : ∀ island, islands.leaderRank island = (islands.islandRanks island).headD (-1)
  settled : ∀ island ∈ intRange islands.islandCount, islands.islandRanks island ≠ []

/-- Whether a rank leads its island. -/
def Leads (islands : IslandPlan) (rank : Int) : Prop :=
  islands.leaderRank (islands.islandOfRank rank) = rank

instance (islands : IslandPlan) (rank : Int) : Decidable (Leads islands rank) :=
  inferInstanceAs (Decidable (_ = _))

namespace Partition

variable {worldSize : Int} {islands : IslandPlan}

theorem mem_ranks (partition : Partition worldSize islands) :
    rank ∈ islands.islandRanks island ↔ rank ∈ intRange worldSize ∧ islands.islandOfRank rank = island := by
  rw [partition.ranks, List.mem_filter, beq_iff_eq]

theorem leader_mem (partition : Partition worldSize islands) (inRange : island ∈ intRange islands.islandCount) :
    islands.leaderRank island ∈ islands.islandRanks island := by
  have some := partition.settled island inRange
  rw [partition.leads]
  cases members : islands.islandRanks island with
  | nil => exact absurd members some
  | cons first rest => simp

theorem leader_home (partition : Partition worldSize islands) (inRange : island ∈ intRange islands.islandCount) :
    islands.islandOfRank (islands.leaderRank island) = island :=
  (partition.mem_ranks.mp (partition.leader_mem inRange)).2

theorem leader_inRange (partition : Partition worldSize islands) (inRange : island ∈ intRange islands.islandCount) :
    islands.leaderRank island ∈ intRange worldSize :=
  (partition.mem_ranks.mp (partition.leader_mem inRange)).1

theorem leader_inj (partition : Partition worldSize islands) (inRange : island ∈ intRange islands.islandCount)
    (otherInRange : other ∈ intRange islands.islandCount)
    (same : islands.leaderRank island = islands.leaderRank other) : island = other := by
  rw [← partition.leader_home inRange, same, partition.leader_home otherInRange]

theorem leader_leads (partition : Partition worldSize islands) (inRange : island ∈ intRange islands.islandCount) :
    Leads islands (islands.leaderRank island) := by
  unfold Leads
  rw [partition.leader_home inRange]

/-- There are no more islands than ranks. -/
theorem count_le (partition : Partition worldSize islands) : islands.islandCount.toNat ≤ worldSize.toNat := by
  have distinct : ((intRange islands.islandCount).map islands.leaderRank).Nodup :=
    List.Nodup.map_on (fun _ inRange _ otherInRange same => partition.leader_inj inRange otherInRange same)
      (intRange_nodup _)
  have subset : (intRange islands.islandCount).map islands.leaderRank ⊆ intRange worldSize := by
    intro rank member
    obtain ⟨island, inRange, rfl⟩ := List.mem_map.mp member
    exact partition.leader_inRange inRange
  have fewer := (List.subperm_of_subset distinct subset).length_le
  simpa using fewer

theorem mem_members (partition : Partition worldSize islands) :
    rank ∈ islandMembers islands island ↔
      (rank ∈ intRange worldSize ∧ islands.islandOfRank rank = island) ∧ rank ≠ islands.leaderRank island := by
  simp only [islandMembers, List.mem_filter, partition.mem_ranks, decide_eq_true_eq]

theorem ranks_nodup (partition : Partition worldSize islands) (island : Int) : (islands.islandRanks island).Nodup := by
  rw [partition.ranks]
  exact (intRange_nodup worldSize).filter _

theorem members_nodup (partition : Partition worldSize islands) (island : Int) :
    (islandMembers islands island).Nodup := by
  exact (partition.ranks_nodup island).filter _

end Partition

theorem buildIslands_partition (input : TransferPlanBuildInput) (transports : TransportMatrix)
    (built : buildIslands input transports = some islands) : Partition input.worldSize islands := by
  unfold buildIslands at built
  split at built
  · cases built
  · cases built
    have sound : SearchSound input.worldSize (searchIslands transports input.worldSize) :=
      seedIslands_sound _ (fun _ member => member) ⟨le_refl _, by simp, fun island lower upper => by
        simp only at upper
        omega⟩
    refine ⟨fun rank inRange => ?_, fun island => rfl, fun island => rfl, fun island inRange => ?_⟩
    · exact mem_intRange.mpr (sound.placed rank (seedIslands_visited _ _ inRange))
    · have bounds := mem_intRange.mp inRange
      obtain ⟨rank, rankInRange, _, here⟩ := sound.settled island bounds.1 bounds.2
      exact List.ne_nil_of_mem (List.mem_filter.mpr ⟨rankInRange, by simpa using here⟩)

theorem buildIslands_some (input : TransferPlanBuildInput) (transports : TransportMatrix)
    (size : 0 < input.worldSize ∧ input.worldSize ≤ 16) : ∃ islands, buildIslands input transports = some islands := by
  have limit : (kPlannerMaxRanks : Int) = 16 := rfl
  unfold buildIslands
  rw [if_neg (by omega)]
  exact ⟨_, rfl⟩

theorem buildIslands_ends (input : TransferPlanBuildInput) (transports : TransportMatrix)
    (built : buildIslands input transports = some islands) (island : Int) :
    islands.firstRank island = (islands.islandRanks island).headD input.worldSize ∧
      islands.lastRank island = (islands.islandRanks island).getLastD (-1) := by
  unfold buildIslands at built
  split at built
  · cases built
  · cases built
    exact ⟨rfl, rfl⟩

/-- Islands whose ranks are intervals. -/
structure Contiguous (worldSize : Int) (islands : IslandPlan) : Prop extends Partition worldSize islands where
  first : ∀ island ∈ intRange islands.islandCount, islands.firstRank island ∈ islands.islandRanks island
  last : ∀ island ∈ intRange islands.islandCount, islands.lastRank island ∈ islands.islandRanks island
  interval : ∀ island ∈ intRange islands.islandCount, ∀ rank,
    rank ∈ islands.islandRanks island ↔ islands.firstRank island ≤ rank ∧ rank ≤ islands.lastRank island

theorem intRange_sorted (bound : Int) : (intRange bound).Pairwise (· < ·) := by
  unfold intRange
  exact List.pairwise_map.mpr (List.pairwise_lt_range.imp fun before => Int.ofNat_lt.mpr before)

/-- An increasing list as long as the interval it spans is that interval. -/
theorem mem_interval {items : List Int} (sorted : items.Pairwise (· < ·)) (nonempty : items ≠ [])
    (full : items.getLast nonempty - items.head nonempty + 1 = items.length) :
    rank ∈ items ↔ items.head nonempty ≤ rank ∧ rank ≤ items.getLast nonempty := by
  have bounds : ∀ item ∈ items, items.head nonempty ≤ item ∧ item ≤ items.getLast nonempty := by
    intro item member
    have weak : items.Pairwise (· ≤ ·) := sorted.imp le_of_lt
    exact ⟨weak.rel_head member, weak.rel_getLast member⟩
  have subset : items.toFinset ⊆ Finset.Icc (items.head nonempty) (items.getLast nonempty) := by
    intro item member
    exact Finset.mem_Icc.mpr (bounds item (List.mem_toFinset.mp member))
  have distinct : items.Nodup := sorted.imp ne_of_lt
  have card : (Finset.Icc (items.head nonempty) (items.getLast nonempty)).card ≤ items.toFinset.card := by
    rw [Int.card_Icc, List.toFinset_card_of_nodup distinct]
    omega
  rw [← List.mem_toFinset, Finset.eq_of_subset_of_card_le subset card, Finset.mem_Icc]

theorem buildAllGatherIslands_contiguous (input : TransferPlanBuildInput) (transports : TransportMatrix)
    (built : AllGather.buildAllGatherIslands input transports = some islands) : Contiguous input.worldSize islands := by
  unfold AllGather.buildAllGatherIslands at built
  obtain ⟨found, grouped, checked⟩ := Option.bind_eq_some_iff.mp built
  split at checked
  · rename_i full
    cases checked
    have partition := buildIslands_partition input transports grouped
    have ends := buildIslands_ends input transports grouped
    have first : ∀ island (nonempty : islands.islandRanks island ≠ []),
        islands.firstRank island = (islands.islandRanks island).head nonempty := by
      intro island nonempty
      rw [(ends island).1, List.headD_eq_head?_getD, List.head?_eq_some_head nonempty]
      rfl
    have last : ∀ island (nonempty : islands.islandRanks island ≠ []),
        islands.lastRank island = (islands.islandRanks island).getLast nonempty := by
      intro island nonempty
      rw [(ends island).2, List.getLastD_eq_getLast?, List.getLast?_eq_some_getLast nonempty]
      rfl
    refine ⟨partition, fun island inRange => ?_, fun island inRange => ?_, fun island inRange rank => ?_⟩
    · rw [first island (partition.settled island inRange)]
      exact List.head_mem _
    · rw [last island (partition.settled island inRange)]
      exact List.getLast_mem _
    · have nonempty := partition.settled island inRange
      rw [first island nonempty, last island nonempty]
      refine mem_interval ?_ nonempty ?_
      · rw [partition.ranks]
        exact (intRange_sorted _).filter _
      · have spans := List.all_eq_true.mp full island inRange
        rw [← first island nonempty, ← last island nonempty]
        exact beq_iff_eq.mp spans
  · cases checked

section Staging

variable (input : TransferPlanBuildInput)

/-- Islands in the list have slots of their own, outside those used before. -/
structure SlotsApart (items : List Int) (used : List Int) (islands : IslandPlan) : Prop where
  fresh : ∀ island ∈ items, islands.stagingSlot island ∉ used
  apart : ∀ island ∈ items, ∀ other ∈ items, island ≠ other →
    islands.stagingSlot island ≠ islands.stagingSlot other

theorem firstUnusedSlot_fresh (found : firstUnusedSlot input used suits = some slot) : slot ∉ used := by
  have suited := List.find?_some found
  simp only [Bool.and_eq_true, Bool.not_eq_true', List.contains_eq_mem, decide_eq_false_iff_not] at suited
  exact suited.1

/-- Only the slots of the islands in the list change. -/
theorem assignStagingSlotsFrom_others (islands : IslandPlan) (requiredBytes : Int → Nat) (items used : List Int)
    (assigned : IslandPlan) (done : assignStagingSlotsFrom input islands requiredBytes items used assigned = some result) :
    { result with stagingSlot := assigned.stagingSlot } = assigned ∧
      ∀ island ∉ items, result.stagingSlot island = assigned.stagingSlot island := by
  induction items generalizing used assigned with
  | nil =>
    cases done
    exact ⟨rfl, fun _ _ => rfl⟩
  | cons item rest ih =>
    rw [assignStagingSlotsFrom] at done
    split at done
    · cases done
    · obtain ⟨same, others⟩ := ih _ _ done
      refine ⟨?_, fun island absent => ?_⟩
      · have same' := congrArg (fun plan : IslandPlan => { plan with stagingSlot := assigned.stagingSlot }) same
        exact same'
      · rw [others island fun member => absent (List.mem_cons_of_mem _ member)]
        refine Function.update_of_ne (fun here : island = item => absent ?_) _ _
        rw [here]
        exact List.mem_cons_self ..

theorem assignStagingSlotsFrom_apart (islands : IslandPlan) (requiredBytes : Int → Nat) (items used : List Int)
    (assigned : IslandPlan) (distinct : items.Nodup)
    (done : assignStagingSlotsFrom input islands requiredBytes items used assigned = some result) :
    SlotsApart items used result := by
  induction items generalizing used assigned with
  | nil => exact ⟨by simp, by simp⟩
  | cons item rest ih =>
    obtain ⟨absent, distinctRest⟩ := List.nodup_cons.mp distinct
    rw [assignStagingSlotsFrom] at done
    split at done
    · cases done
    · rename_i slot chosen
      have later := ih _ _ distinctRest done
      have here : result.stagingSlot item = slot := by
        rw [(assignStagingSlotsFrom_others input islands requiredBytes rest _ _ done).2 item absent]
        exact Function.update_self ..
      have unused : slot ∉ used := by
        rcases Option.or_eq_some_iff.mp chosen with preferred | ⟨_, any⟩
        · split at preferred
          · exact firstUnusedSlot_fresh input preferred
          · cases preferred
        · exact firstUnusedSlot_fresh input any
      refine ⟨fun island member => ?_, fun island member other otherMember differ => ?_⟩
      · rcases List.mem_cons.mp member with rfl | inRest
        · rwa [here]
        · exact fun taken => later.fresh island inRest (List.mem_cons_of_mem _ taken)
      · have beyond : ∀ island ∈ rest, result.stagingSlot island ≠ slot := fun island inRest same =>
          later.fresh island inRest (same ▸ List.mem_cons_self ..)
        rcases List.mem_cons.mp member with rfl | inRest
        · rcases List.mem_cons.mp otherMember with rfl | otherInRest
          · exact absurd rfl differ
          · rw [here]
            exact (beyond other otherInRest).symm
        · rcases List.mem_cons.mp otherMember with rfl | otherInRest
          · rw [here]
            exact beyond island inRest
          · exact later.apart island inRest other otherInRest differ

/-- Islands that partition the ranks, each with a staging slot of its own. -/
structure StagedIslands (worldSize : Int) (islands : IslandPlan) : Prop extends Partition worldSize islands where
  slots : ∀ island ∈ intRange islands.islandCount, ∀ other ∈ intRange islands.islandCount, island ≠ other →
    islands.stagingSlot island ≠ islands.stagingSlot other

/-- Assigning staging slots keeps the partition and tells the slots of islands apart. -/
theorem assignStagingSlotsFrom_staged (requiredBytes : Int → Nat) (partition : Partition worldSize islands)
    (done : assignStagingSlotsFrom input islands requiredBytes (intRange islands.islandCount) [] islands =
      some assigned) :
    StagedIslands worldSize assigned ∧ { assigned with stagingSlot := islands.stagingSlot } = islands := by
  have apart := assignStagingSlotsFrom_apart input islands requiredBytes _ _ _ (intRange_nodup _) done
  obtain ⟨same, _⟩ := assignStagingSlotsFrom_others input islands requiredBytes _ _ _ done
  obtain ⟨home, ranks, leads, settled⟩ := partition
  rw [← same] at home ranks leads settled apart
  exact ⟨⟨⟨home, ranks, leads, settled⟩, apart.apart⟩, same⟩

/-- Assigning staging slots leaves intervals intervals. -/
theorem Contiguous.of_slots (contiguous : Contiguous worldSize islands)
    (same : { assigned with stagingSlot := islands.stagingSlot } = islands) : Contiguous worldSize assigned := by
  obtain ⟨⟨home, ranks, leads, settled⟩, first, last, interval⟩ := contiguous
  rw [← same] at home ranks leads settled first last interval
  exact ⟨⟨home, ranks, leads, settled⟩, first, last, interval⟩

end Staging

end Ooverlap.Plan
