import Ooverlap.Api.RankPartition
import Ooverlap.Fast.Outcome
import Ooverlap.Support.Blocks

/-! The parts of a buffer that the fast launchers send, and the chunks of them that their CTAs take. -/

namespace Ooverlap.Fast

open Plan

section Chunks

/-- Part of a rank's buffer that it sends to the same place of other ranks' buffers. -/
structure Share where
  start : Nat
  length : Nat
  destinations : List Nat
  deriving DecidableEq, Repr

/-- CTAs for the chunks of a share. -/
def chunkCount (chunk length : Nat) : Nat :=
  (length + chunk - 1) / chunk

/-- A chunk of a share; the last one may be shorter. Buffers begin at `base` in the memories. -/
def chunkJob (chunk : Nat) (base : Nat → Nat) (rank : Nat) (share : Share) (part : Nat) : Job where
  source := base rank + (share.start + part * chunk)
  count := min (share.length - part * chunk) chunk
  targets := share.destinations.map fun peer => (peer, base peer + (share.start + part * chunk))

/-- The search of a CTA for its chunk through the shares, whose CTAs follow each other. -/
def jobFrom (chunk : Nat) (base : Nat → Nat) (rank first : Nat) : List Share → Nat → Option Job
  | [], _ => none
  | share :: rest, cta =>
    if first ≤ cta ∧ cta < first + chunkCount chunk share.length then
      some (chunkJob chunk base rank share (cta - first))
    else jobFrom chunk base rank (first + chunkCount chunk share.length) rest cta

def ctaCounts (chunk : Nat) (shares : List Share) : List Nat :=
  shares.map fun share => chunkCount chunk share.length

variable {chunk : Nat} {base : Nat → Nat} {rank first : Nat} {shares : List Share}

theorem lt_chunkCount (positive : 0 < chunk) : part < chunkCount chunk length ↔ part * chunk < length := by
  rw [chunkCount, Nat.lt_div_iff_mul_lt positive]
  omega

theorem ctaCounts_found {share : Share} {index : Nat} (chunk : Nat) (found : shares[index]? = some share) :
    (ctaCounts chunk shares)[index]? = some (chunkCount chunk share.length) := by
  rw [ctaCounts, List.getElem?_map, found]
  rfl

theorem start_cons (count : Nat) (counts : List Nat) (index : Nat) :
    Blocks.start (count :: counts) (index + 1) = count + Blocks.start counts index := by
  rw [Blocks.start, List.take_succ_cons, List.sum_cons, Blocks.start]

/-- Whose chunk a CTA has. -/
theorem jobFrom_some (given : jobFrom chunk base rank first shares cta = some job) :
    ∃ index share part, shares[index]? = some share ∧ part < chunkCount chunk share.length ∧
      cta = first + Blocks.start (ctaCounts chunk shares) index + part ∧ job = chunkJob chunk base rank share part := by
  induction shares generalizing first with
  | nil => cases given
  | cons share rest ih =>
    unfold jobFrom at given
    split at given
    · rename_i inside
      refine ⟨0, share, cta - first, rfl, by omega, ?_, (Option.some.inj given).symm⟩
      rw [Blocks.start_zero]
      omega
    · obtain ⟨index, other, part, found, below, place, same⟩ := ih given
      refine ⟨index + 1, other, part, found, below, ?_, same⟩
      change cta = first + Blocks.start (chunkCount chunk share.length :: ctaCounts chunk rest) (index + 1) + part
      rw [start_cons]
      omega

/-- Every chunk has its CTA. -/
theorem jobFrom_chunk (found : shares[index]? = some share) (below : part < chunkCount chunk share.length) :
    jobFrom chunk base rank first shares (first + Blocks.start (ctaCounts chunk shares) index + part) =
      some (chunkJob chunk base rank share part) := by
  induction shares generalizing first index with
  | nil => cases found
  | cons other rest ih =>
    cases index with
    | zero =>
      obtain rfl := Option.some.inj found
      unfold jobFrom
      rw [Blocks.start_zero, if_pos ⟨by omega, by omega⟩]
      congr 2
      omega
    | succ index =>
      have place : first + Blocks.start (ctaCounts chunk (other :: rest)) (index + 1) + part =
          first + chunkCount chunk other.length + Blocks.start (ctaCounts chunk rest) index + part := by
        change first + Blocks.start (chunkCount chunk other.length :: ctaCounts chunk rest) (index + 1) + part = _
        rw [start_cons]
        omega
      rw [place]
      unfold jobFrom
      rw [if_neg (by omega)]
      exact ih found

/-- Every CTA of the grid has a chunk. -/
theorem jobFrom_filled (inside : cta < (ctaCounts chunk shares).sum) :
    ∃ job, jobFrom chunk base rank 0 shares cta = some job := by
  obtain ⟨index, within⟩ := Blocks.exists_inside inside
  have listed := within.lt_length
  rw [ctaCounts, List.length_map] at listed
  obtain ⟨share, found⟩ : ∃ share, shares[index]? = some share := ⟨_, List.getElem?_eq_getElem listed⟩
  obtain ⟨reached, before⟩ := within
  rw [Blocks.start_succ (ctaCounts_found chunk found)] at before
  have placed : jobFrom chunk base rank 0 shares
      (0 + Blocks.start (ctaCounts chunk shares) index + (cta - Blocks.start (ctaCounts chunk shares) index)) =
      some (chunkJob chunk base rank share _) := jobFrom_chunk found (by omega)
  rw [Nat.zero_add, Nat.add_sub_cancel' reached] at placed
  exact ⟨_, placed⟩

end Chunks

section Calls

variable {Value : Type*}

/-- A fast call on buffers of `count` elements, which begin at `base` in the memories of the ranks. -/
structure FastCall (Value : Type*) where
  kind : Kind
  op : Value → Value → Value
  epoch : Int
  scratchIndex : Int := 0
  dtype : Api.OoDtype
  count : Nat
  base : Nat → Nat

/-- Elements that a CTA holds. -/
def FastCall.chunk (call : FastCall Value) : Nat :=
  tmaTwoGpuPeerSmallTaskBytes / Api.ooDtypeSize call.dtype

def otherRanks (worldSize rank : Nat) : List Nat :=
  (List.range worldSize).filter (· ≠ rank)

/-- The part that `compute_rank_partition` gives a rank. -/
def shardOf (worldSize count rank : Nat) (destinations : List Nat) : Option Share :=
  match Api.computeRankPartition count rank worldSize with
  | .slice start length => some ⟨start, length, destinations⟩
  | _ => none

def fastAllreduceShares (worldSize count rank : Nat) : List Share :=
  [⟨0, count, otherRanks worldSize rank⟩]

def fastReduceScatterShares (worldSize count rank : Nat) : List Share :=
  (otherRanks worldSize rank).filterMap fun peer => shardOf worldSize count peer [peer]

def fastAllGatherShares (worldSize count rank : Nat) : List Share :=
  (shardOf worldSize count rank (otherRanks worldSize rank)).toList

def FastCall.shares (call : FastCall Value) (worldSize rank : Nat) : List Share :=
  match call.kind with
  | .allreduce => fastAllreduceShares worldSize call.count rank
  | .reduceScatter => fastReduceScatterShares worldSize call.count rank
  | .allGather => fastAllGatherShares worldSize call.count rank

/-- The kernels that the launchers start for a call. -/
def FastCall.collective (worldSize : Nat) (call : FastCall Value) : Collective Value where
  kind := call.kind
  op := call.op
  epoch := call.epoch
  scratchIndex := call.scratchIndex
  launch rank :=
    if rank < worldSize then
      { ctaCount := (ctaCounts call.chunk (call.shares worldSize rank)).sum
        job := jobFrom call.chunk call.base rank 0 (call.shares worldSize rank)
        peers := otherRanks worldSize rank }
    else { ctaCount := 0, job := fun _ => none, peers := [] }

/-- Calls that the launchers accept on all ranks: no part is empty, the epochs grow from call to call within the words of
the ready values, and reductions do not depend on their order. -/
structure Issued (worldSize : Nat) (calls : List (FastCall Value)) : Prop where
  group : 2 ≤ worldSize ∧ worldSize < 2 ^ 31
  sizes : ∀ call ∈ calls, call.count < 2 ^ 64
  shards : ∀ call ∈ calls, ∀ rank < worldSize, ∀ share ∈ call.shares worldSize rank, 0 < share.length
  epochs : calls.Pairwise fun earlier later => earlier.epoch < later.epoch
  words : ∀ call ∈ calls, 0 < call.epoch ∧ call.epoch < 2 ^ 21
  commutes : ∀ call ∈ calls, call.kind ≠ .allGather → ∀ old new other,
    call.op (call.op old new) other = call.op (call.op old other) new

variable {worldSize count rank : Nat} {call : FastCall Value}

theorem FastCall.chunk_pos (call : FastCall Value) : 0 < call.chunk := by
  unfold FastCall.chunk
  cases call.dtype <;> decide

@[simp] theorem mem_otherRanks : peer ∈ otherRanks worldSize rank ↔ peer < worldSize ∧ peer ≠ rank := by
  simp [otherRanks]

theorem otherRanks_nodup (worldSize rank : Nat) : (otherRanks worldSize rank).Nodup :=
  List.nodup_range.filter _

theorem collective_launch (within : rank < worldSize) :
    (call.collective worldSize).launch rank =
      { ctaCount := (ctaCounts call.chunk (call.shares worldSize rank)).sum
        job := jobFrom call.chunk call.base rank 0 (call.shares worldSize rank)
        peers := otherRanks worldSize rank } :=
  if_pos within

theorem collective_idle (outside : ¬rank < worldSize) :
    (call.collective worldSize).launch rank = { ctaCount := 0, job := fun _ => none, peers := [] } :=
  if_neg outside

theorem shardOf_eq (within : rank < worldSize) (small : worldSize < 2 ^ 31) (fits : count < 2 ^ 64)
    (destinations : List Nat) : shardOf worldSize count rank destinations =
      some ⟨Split.offset count worldSize rank, Split.share count worldSize rank, destinations⟩ := by
  have group : Api.InGroup (rank : Int) (worldSize : Int) := ⟨by omega, by omega⟩
  rw [shardOf, group.computeRankPartition (by omega) fits]
  rfl

/-- The parts of a rank, by the kind of the call. -/
theorem shares_cases (within : rank < worldSize) (small : worldSize < 2 ^ 31) (fits : call.count < 2 ^ 64) :
    (call.kind = .allreduce ∧ call.shares worldSize rank = [⟨0, call.count, otherRanks worldSize rank⟩]) ∨
    (call.kind = .reduceScatter ∧ call.shares worldSize rank = (otherRanks worldSize rank).map fun peer =>
      ⟨Split.offset call.count worldSize peer, Split.share call.count worldSize peer, [peer]⟩) ∨
    (call.kind = .allGather ∧ call.shares worldSize rank =
      [⟨Split.offset call.count worldSize rank, Split.share call.count worldSize rank, otherRanks worldSize rank⟩]) := by
  unfold FastCall.shares
  cases kind : call.kind with
  | allreduce => exact .inl ⟨rfl, rfl⟩
  | reduceScatter =>
    refine .inr (.inl ⟨rfl, ?_⟩)
    rw [← List.filterMap_eq_map]
    exact List.filterMap_congr fun peer member => shardOf_eq (mem_otherRanks.mp member).1 small fits _
  | allGather =>
    refine .inr (.inr ⟨rfl, ?_⟩)
    simp only [fastAllGatherShares, shardOf_eq within small fits, Option.toList_some]

/-- Parts that go to other ranks, to each of them once. -/
structure PartsApart (worldSize rank : Nat) (shares : List Share) : Prop where
  nonempty : shares ≠ []
  distinct : ∀ share ∈ shares, share.destinations.Nodup
  others : ∀ share ∈ shares, ∀ peer ∈ share.destinations, peer ∈ otherRanks worldSize rank
  apart : ∀ (index other : Nat) (share second : Share) (peer : Nat), shares[index]? = some share →
    shares[other]? = some second → peer ∈ share.destinations → peer ∈ second.destinations → index = other

/-- One part for all other ranks. -/
theorem partsApart_single (worldSize rank start length : Nat) :
    PartsApart worldSize rank [⟨start, length, otherRanks worldSize rank⟩] where
  nonempty := List.cons_ne_nil _ _
  distinct share member := by
    obtain rfl := List.mem_singleton.mp member
    exact otherRanks_nodup worldSize rank
  others share member peer isPeer := by
    obtain rfl := List.mem_singleton.mp member
    exact isPeer
  apart index other share second peer found there _ _ := by
    have first := (List.getElem?_eq_some_iff.mp found).1
    have last := (List.getElem?_eq_some_iff.mp there).1
    simp only [List.length_singleton] at first last
    omega

/-- A part for each other rank. -/
theorem partsApart_each (group : 2 ≤ worldSize) (start length : Nat → Nat) :
    PartsApart worldSize rank ((otherRanks worldSize rank).map fun peer => ⟨start peer, length peer, [peer]⟩) where
  nonempty := by
    have isOther : (if rank = 0 then 1 else 0) ∈ otherRanks worldSize rank := by
      refine mem_otherRanks.mpr ?_
      split <;> omega
    exact List.ne_nil_of_mem (List.mem_map_of_mem isOther)
  distinct share member := by
    obtain ⟨peer, _, rfl⟩ := List.mem_map.mp member
    exact List.nodup_singleton _
  others share member other isOther := by
    obtain ⟨peer, isPeer, rfl⟩ := List.mem_map.mp member
    rwa [List.mem_singleton.mp isOther]
  apart index other share second peer found there inFirst inSecond := by
    obtain ⟨one, isOne, rfl⟩ := Option.map_eq_some_iff.mp (List.getElem?_map.symm.trans found)
    obtain ⟨two, isTwo, rfl⟩ := Option.map_eq_some_iff.mp (List.getElem?_map.symm.trans there)
    obtain rfl := List.mem_singleton.mp inFirst
    obtain rfl := List.mem_singleton.mp inSecond
    exact (List.getElem?_inj (List.getElem?_eq_some_iff.mp isOne).1 (otherRanks_nodup worldSize rank)).mp
      (isOne.trans isTwo.symm)

/-- Every rank sends something, to other ranks and to each of them once. -/
theorem shares_apart (group : 2 ≤ worldSize ∧ worldSize < 2 ^ 31) (within : rank < worldSize)
    (fits : call.count < 2 ^ 64) : PartsApart worldSize rank (call.shares worldSize rank) := by
  rcases shares_cases within group.2 fits with ⟨_, listed⟩ | ⟨_, listed⟩ | ⟨_, listed⟩
  · rw [listed]
    exact partsApart_single _ _ _ _
  · rw [listed]
    exact partsApart_each group.1 _ _
  · rw [listed]
    exact partsApart_single _ _ _ _

end Calls

section Places

variable {Value : Type*} {worldSize rank : Nat} {call : FastCall Value}

/-- What a CTA sends lies in one of its rank's parts, and the CTA is that of its chunk. -/
theorem job_place (within : sender < worldSize)
    (given : ((call.collective worldSize).launch sender).job cta = some job) (below : element < job.count) :
    ∃ index share part, (call.shares worldSize sender)[index]? = some share ∧
      cta = Blocks.start (ctaCounts call.chunk (call.shares worldSize sender)) index + part ∧
      element < call.chunk ∧ part * call.chunk + element < share.length ∧
      job.source + element = call.base sender + (share.start + (part * call.chunk + element)) ∧
      ∀ (target : Nat) (goal : Nat × Nat), job.targets[target]? = some goal → share.destinations[target]? = some goal.1 ∧
        goal.2 + element = call.base goal.1 + (share.start + (part * call.chunk + element)) := by
  rw [collective_launch within] at given
  obtain ⟨index, share, part, found, _, place, rfl⟩ := jobFrom_some given
  have bounds : element < min (share.length - part * call.chunk) call.chunk := below
  obtain ⟨short, inChunk⟩ := Nat.lt_min.mp bounds
  refine ⟨index, share, part, found, place.trans (by rw [Nat.zero_add]), inChunk, by omega, ?_, ?_⟩
  · change call.base sender + (share.start + part * call.chunk) + element = _
    omega
  · intro target goal isGoal
    obtain ⟨peer, isPeer, rfl⟩ := Option.map_eq_some_iff.mp (List.getElem?_map.symm.trans isGoal)
    refine ⟨isPeer, ?_⟩
    change call.base peer + (share.start + part * call.chunk) + element =
      call.base peer + (share.start + (part * call.chunk + element))
    omega

/-- The chunk of an element of a part is that of one CTA. -/
theorem chunk_place (within : sender < worldSize) (found : (call.shares worldSize sender)[index]? = some share)
    (isRank : share.destinations[target]? = some rank) (inside : spot < share.length) :
    SendsTo ((call.collective worldSize).launch sender)
      (Blocks.start (ctaCounts call.chunk (call.shares worldSize sender)) index + spot / call.chunk) target
      (spot % call.chunk) rank (call.base rank + (share.start + spot)) (call.base sender + (share.start + spot)) := by
  have whole := Nat.div_add_mod' spot call.chunk
  have below : spot / call.chunk < chunkCount call.chunk share.length :=
    (lt_chunkCount call.chunk_pos).mpr (by omega)
  have inChunk := Nat.mod_lt spot call.chunk_pos
  constructor
  · rw [collective_launch within]
    have next := Blocks.start_succ (ctaCounts_found call.chunk found)
    have last := Blocks.start_le_sum (ctaCounts call.chunk (call.shares worldSize sender)) (index + 1)
    change _ < (ctaCounts call.chunk (call.shares worldSize sender)).sum
    omega
  · have given : jobFrom call.chunk call.base sender 0 (call.shares worldSize sender)
        (0 + Blocks.start (ctaCounts call.chunk (call.shares worldSize sender)) index + spot / call.chunk) =
        some (chunkJob call.chunk call.base sender share (spot / call.chunk)) := jobFrom_chunk found below
    refine ⟨chunkJob call.chunk call.base sender share (spot / call.chunk),
      (rank, call.base rank + (share.start + spot / call.chunk * call.chunk)), ?_, ?_, rfl, ?_, ?_, ?_⟩
    · rw [Nat.zero_add] at given
      rw [collective_launch within]
      exact given
    · change (share.destinations.map _)[target]? = _
      rw [List.getElem?_map, isRank]
      rfl
    · change _ < min (share.length - spot / call.chunk * call.chunk) call.chunk
      omega
    · change call.base rank + (share.start + spot / call.chunk * call.chunk) + spot % call.chunk = _
      omega
    · change _ = call.base sender + (share.start + spot / call.chunk * call.chunk) + spot % call.chunk
      omega

/-- A rank sends an element of its buffer to another. -/
def Sends (worldSize : Nat) (call : FastCall Value) (sender rank element : Nat) : Prop :=
  sender < worldSize ∧ ∃ share ∈ call.shares worldSize sender, rank ∈ share.destinations ∧ share.start ≤ element ∧
    element < share.start + share.length

instance (worldSize : Nat) (call : FastCall Value) (sender rank element : Nat) :
    Decidable (Sends worldSize call sender rank element) :=
  inferInstanceAs (Decidable (_ ∧ ∃ share ∈ _, _))

/-- The ranks that send an element to a rank. -/
def sendersOf (worldSize : Nat) (call : FastCall Value) (rank element : Nat) : List Nat :=
  (otherRanks worldSize rank).filter fun sender => Sends worldSize call sender rank element

theorem sendsTo_place
    (sends : SendsTo ((call.collective worldSize).launch sender) cta target element rank position source) :
    ∃ spot, Sends worldSize call sender rank spot ∧ position = call.base rank + spot ∧
      source = call.base sender + spot := by
  by_cases within : sender < worldSize
  · obtain ⟨job, goal, given, isGoal, rfl, below, rfl, rfl⟩ := sends.work
    obtain ⟨index, share, part, found, _, _, inShare, taken, goals⟩ := job_place within given below
    obtain ⟨isRank, written⟩ := goals target goal isGoal
    exact ⟨_, ⟨within, share, List.mem_of_getElem? found, List.mem_of_getElem? isRank, by omega, by omega⟩, written,
      taken⟩
  · have grid := sends.inGrid
    rw [collective_idle within] at grid
    exact absurd grid (Nat.not_lt_zero cta)

/-- What a rank sends to one place comes from one CTA, once. -/
theorem sends_once (parts : PartsApart worldSize sender (call.shares worldSize sender))
    (within : sender < worldSize) {first second : Job} {goal aim : Nat × Nat} {target mark : Nat}
    (given : ((call.collective worldSize).launch sender).job cta = some first) (below : element < first.count)
    (isGoal : first.targets[target]? = some goal)
    (there : ((call.collective worldSize).launch sender).job other = some second) (short : spot < second.count)
    (isAim : second.targets[mark]? = some aim) (same : goal.1 = aim.1) (place : goal.2 + element = aim.2 + spot) :
    cta = other ∧ target = mark := by
  obtain ⟨index, share, part, found, isCta, inChunk, inShare, _, goals⟩ := job_place within given below
  obtain ⟨index', share', part', found', isOther, inChunk', inShare', _, aims⟩ := job_place within there short
  obtain ⟨isRank, written⟩ := goals target goal isGoal
  obtain ⟨isRank', written'⟩ := aims mark aim isAim
  rw [← same] at isRank' written'
  obtain rfl := parts.apart _ _ _ _ _ found found' (List.mem_of_getElem? isRank) (List.mem_of_getElem? isRank')
  obtain rfl := Option.some.inj (found.symm.trans found')
  have spots : part * call.chunk + element = part' * call.chunk + spot := by omega
  have sameChunk : part = part' := by
    have left := congrArg (· / call.chunk) spots
    simp only [Nat.mul_comm _ call.chunk, Nat.mul_add_div call.chunk_pos, Nat.div_eq_of_lt inChunk,
      Nat.div_eq_of_lt inChunk', Nat.add_zero] at left
    exact left
  refine ⟨by rw [isCta, isOther, sameChunk], ?_⟩
  exact (List.getElem?_inj (List.getElem?_eq_some_iff.mp isRank).1
    (parts.distinct share (List.mem_of_getElem? found))).mp (isRank.trans isRank'.symm)

end Places

end Ooverlap.Fast
