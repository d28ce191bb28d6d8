import Ooverlap.Fast.Shares

/-! What a history of fast calls makes of the buffers of all ranks. -/

namespace Ooverlap.Fast

open Interleaving

section Histories

variable {Value : Type*} {worldSize : Nat} {calls : List (FastCall Value)} {call : FastCall Value}
variable {collective : Collective Value}

/-- The collectives of a list of calls. -/
def collectivesOf (worldSize : Nat) (calls : List (FastCall Value)) : List (Collective Value) :=
  calls.map (FastCall.collective worldSize)

theorem collective_call {launch : Nat} (found : (collectivesOf worldSize calls)[launch]? = some collective) :
    ∃ call : FastCall Value, calls[launch]? = some call ∧ call.collective worldSize = collective := by
  rw [collectivesOf, List.getElem?_map] at found
  exact Option.map_eq_some_iff.mp found

/-- Every rank of the group has a grid in which every CTA has its chunk. -/
theorem grid_filled (issued : Issued worldSize calls) (member : call ∈ calls) (rank : Nat) :
    (0 < ((call.collective worldSize).launch rank).ctaCount ↔ rank < worldSize) ∧
      ∀ cta < ((call.collective worldSize).launch rank).ctaCount,
        ∃ job, ((call.collective worldSize).launch rank).job cta = some job := by
  by_cases within : rank < worldSize
  · rw [collective_launch within]
    refine ⟨⟨fun _ => within, fun _ => ?_⟩, fun cta inside => jobFrom_filled inside⟩
    obtain ⟨share, isShare⟩ :=
      List.exists_mem_of_ne_nil _ (shares_apart issued.group within (issued.sizes call member)).nonempty
    have counted : chunkCount call.chunk share.length ∈ ctaCounts call.chunk (call.shares worldSize rank) :=
      List.mem_map_of_mem isShare
    have positive : 0 < chunkCount call.chunk share.length := by
      refine (lt_chunkCount call.chunk_pos).mpr ?_
      rw [Nat.zero_mul]
      exact issued.shards call member rank within share isShare
    exact Nat.lt_of_lt_of_le positive (List.le_sum_of_mem counted)
  · rw [collective_idle within]
    exact ⟨⟨fun impossible => absurd impossible (Nat.lt_irrefl 0), fun inside => absurd inside within⟩,
      fun cta impossible => absurd impossible (Nat.not_lt_zero cta)⟩

/-- The launchers start what the kernels rely on. -/
theorem Issued.launched (issued : Issued worldSize calls) : Launched worldSize (collectivesOf worldSize calls) where
  filled launch collective found rank cta inside := by
    obtain ⟨call, isCall, rfl⟩ := collective_call found
    exact (grid_filled issued (List.mem_of_getElem? isCall) rank).2 cta inside
  grids launch collective found rank := by
    obtain ⟨call, isCall, rfl⟩ := collective_call found
    exact (grid_filled issued (List.mem_of_getElem? isCall) rank).1
  peers launch collective found rank within peer := by
    obtain ⟨call, isCall, rfl⟩ := collective_call found
    rw [collective_launch within]
    exact mem_otherRanks
  targets launch collective found rank within cta job given target isTarget := by
    obtain ⟨call, isCall, rfl⟩ := collective_call found
    rw [collective_launch within] at given ⊢
    obtain ⟨index, share, part, isShare, _, _, rfl⟩ := jobFrom_some given
    obtain ⟨peer, isPeer, rfl⟩ := List.mem_map.mp isTarget
    have parts := shares_apart issued.group within (issued.sizes call (List.mem_of_getElem? isCall))
    exact parts.others share (List.mem_of_getElem? isShare) peer isPeer
  epochs first second earlier later order foundFirst foundSecond := by
    obtain ⟨one, isOne, rfl⟩ := collective_call foundFirst
    obtain ⟨two, isTwo, rfl⟩ := collective_call foundSecond
    obtain ⟨inFirst, rfl⟩ := List.getElem?_eq_some_iff.mp isOne
    obtain ⟨inSecond, rfl⟩ := List.getElem?_eq_some_iff.mp isTwo
    exact List.pairwise_iff_getElem.mp issued.epochs first second inFirst inSecond order
  words launch collective found := by
    obtain ⟨call, isCall, rfl⟩ := collective_call found
    exact issued.words call (List.mem_of_getElem? isCall)

/-- An element of the shard that a rank has of a partitioned buffer. -/
def InShard (worldSize count rank element : Nat) : Prop :=
  Split.offset count worldSize rank ≤ element ∧
    element < Split.offset count worldSize rank + Split.share count worldSize rank

theorem shard_unique (one : InShard worldSize count first element) (two : InShard worldSize count second element) :
    first = second := by
  obtain ⟨lowFirst, highFirst⟩ := one
  obtain ⟨lowSecond, highSecond⟩ := two
  rcases Nat.lt_trichotomy first second with before | same | after
  · have apart := Split.offset_share_disjoint before count worldSize
    omega
  · exact same
  · have apart := Split.offset_share_disjoint after count worldSize
    omega

/-- What a rank sends to the others, by the kind of the call. -/
theorem sends_iff (issued : Issued worldSize calls) (member : call ∈ calls) :
    Sends worldSize call sender rank element ↔ (sender < worldSize ∧ rank < worldSize ∧ rank ≠ sender) ∧
      match call.kind with
      | .allreduce => element < call.count
      | .reduceScatter => InShard worldSize call.count rank element
      | .allGather => InShard worldSize call.count sender element := by
  unfold Sends
  by_cases within : sender < worldSize
  case neg => exact ⟨fun sends => absurd sends.1 within, fun sent => absurd sent.1.1 within⟩
  rcases shares_cases within issued.group.2 (issued.sizes call member) with ⟨kind, listed⟩ | ⟨kind, listed⟩ |
    ⟨kind, listed⟩
  · simp only [listed, kind, List.mem_singleton, exists_eq_left, mem_otherRanks, within, true_and, Nat.zero_le,
      Nat.zero_add]
  · simp only [listed, kind, List.mem_map, mem_otherRanks, within, true_and, InShard]
    constructor
    · rintro ⟨_, ⟨peer, isPeer, rfl⟩, goesTo, inside⟩
      obtain rfl := List.mem_singleton.mp goesTo
      exact ⟨isPeer, inside⟩
    · rintro ⟨isPeer, inside⟩
      exact ⟨_, ⟨rank, isPeer, rfl⟩, List.mem_singleton.mpr rfl, inside⟩
  · simp only [listed, kind, List.mem_singleton, exists_eq_left, mem_otherRanks, within, true_and, InShard]

theorem mem_sendersOf (issued : Issued worldSize calls) (member : call ∈ calls) :
    sender ∈ sendersOf worldSize call rank element ↔ Sends worldSize call sender rank element := by
  rw [sendersOf, List.mem_filter, decide_eq_true_iff, mem_otherRanks]
  refine ⟨fun both => both.2, fun sends => ⟨?_, sends⟩⟩
  obtain ⟨⟨within, _, apart⟩, _⟩ := (sends_iff issued member).mp sends
  exact ⟨within, apart.symm⟩

/-- Nothing is sent past the end of a buffer, or to a rank that is not there. -/
theorem sends_inside (issued : Issued worldSize calls) (member : call ∈ calls)
    (sends : Sends worldSize call sender rank element) : rank < worldSize ∧ element < call.count := by
  obtain ⟨⟨within, isRank, _⟩, sent⟩ := (sends_iff issued member).mp sends
  refine ⟨isRank, ?_⟩
  split at sent
  · exact sent
  · exact Nat.lt_of_lt_of_le sent.2 (Split.offset_add_share_le isRank _)
  · exact Nat.lt_of_lt_of_le sent.2 (Split.offset_add_share_le within _)

/-- An element of a gathered buffer comes from one rank. -/
theorem gather_sender (issued : Issued worldSize calls) (member : call ∈ calls) (gathers : call.kind = .allGather)
    (one : Sends worldSize call first rank element) (two : Sends worldSize call second other element) :
    first = second := by
  have inFirst := ((sends_iff issued member).mp one).2
  have inSecond := ((sends_iff issued member).mp two).2
  rw [gathers] at inFirst inSecond
  exact shard_unique inFirst inSecond

/-- What a bulk copy of a rank writes is what the rank sends. -/
theorem hits_sends (hits : Hits ((call.collective worldSize).launch bulk.block.rank) bulk rank position) :
    ∃ spot, Sends worldSize call bulk.block.rank rank spot ∧ position = call.base rank + spot := by
  obtain ⟨job, goal, target, given, _, isGoal, rfl, element, below, rfl⟩ := hits
  by_cases within : bulk.block.rank < worldSize
  · obtain ⟨index, share, part, found, _, _, inShare, _, goals⟩ := job_place within given below
    obtain ⟨isRank, written⟩ := goals target goal isGoal
    exact ⟨_, ⟨within, share, List.mem_of_getElem? found, List.mem_of_getElem? isRank, by omega, by omega⟩, written⟩
  · rw [collective_idle within] at given
    cases given

theorem Issued.separate (issued : Issued worldSize calls) : Separate (collectivesOf worldSize calls) where
  reduces launch collective found kind := by
    obtain ⟨call, isCall, rfl⟩ := collective_call found
    exact issued.commutes call (List.mem_of_getElem? isCall) kind
  stores launch collective found kind first second rank position hitsFirst hitsSecond home there := by
    obtain ⟨call, isCall, rfl⟩ := collective_call found
    have member := List.mem_of_getElem? isCall
    obtain ⟨spot, sendsFirst, rfl⟩ := hits_sends hitsFirst
    obtain ⟨spot', sendsSecond, same⟩ := hits_sends hitsSecond
    obtain rfl := Nat.add_left_cancel same
    have sender := gather_sender issued member kind sendsFirst sendsSecond
    obtain ⟨⟨launch, rank, cta⟩, index⟩ := first
    obtain ⟨⟨launch', rank', cta'⟩, index'⟩ := second
    obtain rfl : rank = rank' := sender
    obtain rfl : launch = launch' := home.trans there.symm
    have within := sendsFirst.1
    have parts := shares_apart issued.group within (issued.sizes call member)
    obtain ⟨job, goal, target, given, later, isGoal, isRank, element, below, place⟩ := hitsFirst
    obtain ⟨job', goal', target', given', later', isGoal', isRank', element', below', place'⟩ := hitsSecond
    obtain ⟨rfl, rfl⟩ := sends_once parts within given below isGoal given' below' isGoal'
      (isRank.symm.trans isRank') (place.symm.trans place')
    obtain rfl : index = target + 1 := later
    obtain rfl : index' = target + 1 := later'
    rfl
  keeps launch collective found kind first second position loads hits := by
    obtain ⟨call, isCall, rfl⟩ := collective_call found
    change call.kind = .allGather at kind
    have member := List.mem_of_getElem? isCall
    obtain ⟨spot, sends, rfl⟩ := hits_sends hits
    obtain ⟨_, job, given, element, below, place⟩ := loads
    by_cases within : first.block.rank < worldSize
    · obtain ⟨index, share, part, isShare, _, _, inShare, taken, _⟩ := job_place within given below
      obtain ⟨⟨_, _, apart⟩, sent⟩ := (sends_iff issued member).mp sends
      rw [kind] at sent
      have own : InShard worldSize call.count first.block.rank spot := by
        rcases shares_cases within issued.group.2 (issued.sizes call member) with ⟨other, _⟩ | ⟨other, _⟩ | ⟨_, listed⟩
        · exact absurd (kind.symm.trans other) (by decide)
        · exact absurd (kind.symm.trans other) (by decide)
        · have isOnly := List.mem_of_getElem? isShare
          rw [listed] at isOnly
          have low : share.start ≤ spot := by omega
          have high : spot < share.start + share.length := by omega
          obtain rfl := List.mem_singleton.mp isOnly
          exact ⟨low, high⟩
      exact apart (shard_unique own sent)
    · rw [collective_idle within] at given
      cases given

/-- Who sends to an element of a buffer. -/
theorem delivers (issued : Issued worldSize calls) (member : call ∈ calls) (rank element : Nat) :
    Delivers (call.collective worldSize) rank (call.base rank + element) (sendersOf worldSize call rank element)
      (fun sender => call.base sender + element) where
  distinct := (otherRanks_nodup worldSize rank).filter _
  sent sender cta target spot place sends := by
    obtain ⟨spot, isSent, same, taken⟩ := sendsTo_place sends
    obtain rfl := Nat.add_left_cancel same
    exact ⟨(mem_sendersOf issued member).mpr isSent, taken⟩
  once sender cta target spot place other goal mark line first second := by
    obtain ⟨_, isSent, _, _⟩ := sendsTo_place first
    have parts := shares_apart issued.group isSent.1 (issued.sizes call member)
    obtain ⟨job, goal', given, isGoal, isRank, below, written, _⟩ := first.work
    obtain ⟨job', aim, given', isAim, isRank', below', written', _⟩ := second.work
    exact sends_once parts isSent.1 given below isGoal given' below' isAim (isRank.trans isRank'.symm)
      (written.trans written'.symm)
  given sender isSender := by
    obtain ⟨within, share, isShare, goesTo, lower, upper⟩ := of_decide_eq_true (List.mem_filter.mp isSender).2
    obtain ⟨index, found⟩ := List.mem_iff_getElem?.mp isShare
    obtain ⟨target, isRank⟩ := List.mem_iff_getElem?.mp goesTo
    have sends := chunk_place within found isRank (show element - share.start < share.length by omega)
    rw [Nat.add_sub_cancel' lower] at sends
    exact ⟨_, _, _, sends⟩
  gathered kind := by
    have same : ∀ one ∈ sendersOf worldSize call rank element, ∀ two ∈ sendersOf worldSize call rank element,
        one = two := fun one isOne two isTwo => gather_sender issued member kind
      (of_decide_eq_true (List.mem_filter.mp isOne).2) (of_decide_eq_true (List.mem_filter.mp isTwo).2)
    have distinct : (sendersOf worldSize call rank element).Nodup := (otherRanks_nodup worldSize rank).filter _
    rcases listed : sendersOf worldSize call rank element with _ | ⟨one, _ | ⟨two, rest⟩⟩
    · exact Nat.zero_le 1
    · exact Nat.le_refl 1
    · rw [listed] at same distinct
      have twice := same one List.mem_cons_self two (List.mem_cons_of_mem _ List.mem_cons_self)
      exact absurd (twice ▸ List.mem_cons_self) (List.nodup_cons.mp distinct).1

/-- An element after the other ranks' elements have been reduced into it. -/
def reductionOf (worldSize : Nat) (call : FastCall Value) (before : Nat → Nat → Value) (rank element : Nat) : Value :=
  (otherRanks worldSize rank).foldl (fun old sender => call.op old (before sender (call.base sender + element)))
    (before rank (call.base rank + element))

/-- What a fast call is for: sums everywhere, each rank's part of the sums, or every rank's part everywhere; nothing
else changes. -/
structure CallOutcome (worldSize : Nat) (call : FastCall Value) (before after : Nat → Nat → Value) : Prop where
  reduced : call.kind = .allreduce → ∀ rank < worldSize, ∀ element < call.count,
    after rank (call.base rank + element) = reductionOf worldSize call before rank element
  scattered : call.kind = .reduceScatter → ∀ rank < worldSize, ∀ element, InShard worldSize call.count rank element →
    after rank (call.base rank + element) = reductionOf worldSize call before rank element
  kept : call.kind = .reduceScatter → ∀ rank element, ¬InShard worldSize call.count rank element →
    after rank (call.base rank + element) = before rank (call.base rank + element)
  gathered : call.kind = .allGather → ∀ rank < worldSize, ∀ owner < worldSize, ∀ element,
    InShard worldSize call.count owner element →
      after rank (call.base rank + element) = before owner (call.base owner + element)
  untouched : ∀ rank position, (rank < worldSize → ∀ element < call.count, position ≠ call.base rank + element) →
    after rank position = before rank position

/-- The outcome of the kernels is that of the call. -/
theorem call_outcome (issued : Issued worldSize calls) (member : call ∈ calls) {before after : Nat → Nat → Value}
    (outcome : Outcome (call.collective worldSize) before after) : CallOutcome worldSize call before after := by
  have merged := fun rank element => outcome _ _ _ _ (delivers issued member rank element)
  have reduces : ∀ rank element, call.kind ≠ .allGather → (∀ sender ∈ otherRanks worldSize rank,
      Sends worldSize call sender rank element) →
      after rank (call.base rank + element) = reductionOf worldSize call before rank element := by
    intro rank element kind all
    have everybody : sendersOf worldSize call rank element = otherRanks worldSize rank :=
      List.filter_eq_self.mpr fun sender isOther => decide_eq_true (all sender isOther)
    rw [merged, everybody]
    exact List.foldl_ext _ _ _ fun old sender _ => if_neg kind
  have keeps : ∀ rank element, (∀ sender, ¬Sends worldSize call sender rank element) →
      after rank (call.base rank + element) = before rank (call.base rank + element) := by
    intro rank element nobody
    have nothing : sendersOf worldSize call rank element = [] :=
      List.filter_eq_nil_iff.mpr fun sender _ sends => nobody sender (of_decide_eq_true sends)
    rw [merged, nothing]
    rfl
  constructor
  case reduced =>
    intro kind rank within element inside
    refine reduces rank element (by rw [kind]; decide) fun sender isOther => (sends_iff issued member).mpr ?_
    obtain ⟨isSender, apart⟩ := mem_otherRanks.mp isOther
    rw [kind]
    exact ⟨⟨isSender, within, apart.symm⟩, inside⟩
  case scattered =>
    intro kind rank within element inside
    refine reduces rank element (by rw [kind]; decide) fun sender isOther => (sends_iff issued member).mpr ?_
    obtain ⟨isSender, apart⟩ := mem_otherRanks.mp isOther
    rw [kind]
    exact ⟨⟨isSender, within, apart.symm⟩, inside⟩
  case kept =>
    intro kind rank element outside
    refine keeps rank element fun sender sends => outside ?_
    have sent := ((sends_iff issued member).mp sends).2
    rw [kind] at sent
    exact sent
  case gathered =>
    intro kind rank within owner isOwner element inside
    have only : ∀ sender, Sends worldSize call sender rank element ↔ sender = owner ∧ rank ≠ owner := by
      intro sender
      constructor
      · intro sends
        obtain ⟨⟨isSender, _, apart⟩, sent⟩ := (sends_iff issued member).mp sends
        rw [kind] at sent
        obtain rfl : sender = owner := shard_unique sent inside
        exact ⟨rfl, apart⟩
      · rintro ⟨rfl, apart⟩
        refine (sends_iff issued member).mpr ⟨⟨isOwner, within, apart⟩, ?_⟩
        rw [kind]
        exact inside
    by_cases own : rank = owner
    · subst own
      exact keeps rank element fun sender sends => ((only sender).mp sends).2 rfl
    · have alone : sendersOf worldSize call rank element = [owner] := by
        refine List.Perm.eq_singleton ((List.perm_ext_iff_of_nodup
          ((otherRanks_nodup worldSize rank).filter _) (List.nodup_singleton owner)).mpr fun sender => ?_)
        rw [← sendersOf, mem_sendersOf issued member, only, List.mem_singleton]
        exact ⟨fun both => both.1, fun same => ⟨same, own⟩⟩
      rw [merged, alone]
      exact if_pos kind
  case untouched =>
    intro rank position outside
    have absent : ∀ sender cta target element place,
        ¬SendsTo ((call.collective worldSize).launch sender) cta target element rank position place := by
      intro sender cta target element place sends
      obtain ⟨spot, isSent, same, _⟩ := sendsTo_place sends
      obtain ⟨isRank, inside⟩ := sends_inside issued member isSent
      exact outside isRank spot inside same
    have nothing : Delivers (call.collective worldSize) rank position [] fun _ => 0 :=
      { distinct := List.nodup_nil
        sent := fun sender cta target element place sends => absurd sends (absent _ _ _ _ _)
        once := fun sender cta target element place other goal spot line sends _ => absurd sends (absent _ _ _ _ _)
        given := fun sender member => absurd member List.not_mem_nil
        gathered := fun _ => Nat.zero_le 1 }
    exact outcome rank position [] _ nothing

end Histories

section Runs

variable {Value : Type*} {worldSize : Nat} {calls : List (FastCall Value)} {devices : Devices Value}
variable {state : State Agent (Devices Value)}

/-- Fast calls issued on all ranks in one order never block: whatever has happened, every kernel can still end. -/
theorem calls_complete (issued : Issued worldSize calls) (entry : Entry (collectivesOf worldSize calls) devices) :
    Completes (fastProgram devices.counter (collectivesOf worldSize calls)).Step (Program.start devices)
      (fastProgram devices.counter (collectivesOf worldSize calls)).Finished :=
  fast_completes issued.launched entry issued.separate

/-- When they have ended, in whatever interleaving, each call has had its outcome on what the calls before it left. -/
theorem calls_outcome (issued : Issued worldSize calls) (entry : Entry (collectivesOf worldSize calls) devices)
    (reached : (fastProgram devices.counter (collectivesOf worldSize calls)).Reachable devices state)
    (finished : (fastProgram devices.counter (collectivesOf worldSize calls)).Finished state) :
    ∃ memories : Nat → Nat → Nat → Value, memories 0 = devices.memory ∧
      state.shared.memory = memories calls.length ∧
      ∀ (launch : Nat) (call : FastCall Value), calls[launch]? = some call →
        CallOutcome worldSize call (memories launch) (memories (launch + 1)) := by
  obtain ⟨memories, first, last, outcomes⟩ := history_outcome issued.launched entry issued.separate reached finished
  refine ⟨memories, first, ?_, fun launch call found => ?_⟩
  · rwa [collectivesOf, List.length_map] at last
  · refine call_outcome issued (List.mem_of_getElem? found) (outcomes launch _ ?_)
    rw [collectivesOf, List.getElem?_map, found]
    rfl

/-- Of two actions that touch one element, and are not two loads or two reductions that may be exchanged, the same one
comes first in every interleaving. -/
theorem calls_ordered (issued : Issued worldSize calls) (entry : Entry (collectivesOf worldSize calls) devices)
    {first second : Agent} {position place : Nat} {action other : Action} (apart : first ≠ second)
    (located : (agentCode devices.counter (collectivesOf worldSize calls) first)[position]? = some action)
    (locatedOther : (agentCode devices.counter (collectivesOf worldSize calls) second)[place]? = some other)
    (conflict : ¬Independent (collectivesOf worldSize calls) action other) :
    (∀ state, (fastProgram devices.counter (collectivesOf worldSize calls)).Reachable devices state →
      place < state.pc second → position < state.pc first) ∨
    ∀ state, (fastProgram devices.counter (collectivesOf worldSize calls)).Reachable devices state →
      position < state.pc first → place < state.pc second :=
  conflict_ordered issued.launched entry issued.separate apart located locatedOther conflict

/-- At every moment, what has been sent to an element has been loaded from it by the same call and the earlier ones, and
what has been loaded holds all that the earlier calls send there. -/
theorem calls_loaded (issued : Issued worldSize calls) (entry : Entry (collectivesOf worldSize calls) devices)
    (reached : (fastProgram devices.counter (collectivesOf worldSize calls)).Reachable devices state)
    {first second : Agent} {position place element part address : Nat} {reader sender : Block}
    (loads : (agentCode devices.counter (collectivesOf worldSize calls) first)[position]? =
      some (.load reader element address))
    (sends : (agentCode devices.counter (collectivesOf worldSize calls) second)[place]? =
      some (.send sender part reader.rank address)) :
    (reader.launch ≤ sender.launch → place < state.pc second → position < state.pc first) ∧
      (sender.launch < reader.launch → position < state.pc first → place < state.pc second) :=
  load_send_order issued.launched entry issued.separate reached loads sends

/-- The bulk copy of an engine moves its elements one after another. -/
theorem engineCode_moves {start : Nat → Scratch → Nat} {history : List (Collective Value)}
    (moving : historyMoves history bulk = some moves) (found : moves[element]? = some action) :
    (agentCode start history (.engine bulk))[element + 1]? = some action := by
  have within := (List.getElem?_eq_some_iff.mp found).1
  rw [agentCode, engineCode, moving]
  change (moves ++ [Action.complete bulk])[element]? = _
  rw [List.getElem?_append_left within, found]

/-- Two ranks sum 20000 elements, reduce and scatter 40000 and gather them, two CTAs a rank in each call. -/
def pairCalls : List (FastCall Nat) :=
  [{ kind := .allreduce, op := (· + ·), epoch := 1, dtype := .float32, count := 20000, base := fun _ => 0 },
    { kind := .reduceScatter, op := (· + ·), epoch := 2, scratchIndex := 1, dtype := .float32, count := 40000,
      base := fun _ => 0 },
    { kind := .allGather, op := (· + ·), epoch := 3, scratchIndex := -1, dtype := .float32, count := 40000,
      base := fun _ => 0 }]

/-- The first rank holds 1 everywhere, the second 2. -/
def pairDevices : Devices Nat where
  memory rank _ := rank + 1
  chunk _ _ := 0
  inbox _ _ := 0
  counter _ _ := 0

theorem pairCalls_mem (member : call ∈ pairCalls) : call.op = (· + ·) ∧ 0 < readyValue call.epoch kLoadedReadyPhase := by
  simp only [pairCalls, List.mem_cons, List.not_mem_nil, or_false] at member
  rcases member with rfl | rfl | rfl <;> exact ⟨rfl, by decide⟩

theorem pairCalls_issued : Issued 2 pairCalls where
  group := by decide
  sizes := by decide
  shards := by decide +kernel
  epochs := by decide
  words := by decide
  commutes call member _ old new other := by
    rw [(pairCalls_mem member).1]
    exact Nat.add_right_comm old new other

/-- No counter is raised by more than all the calls raise theirs. -/
theorem pairCalls_counted (rank : Nat) :
    ((collectivesOf 2 pairCalls).map fun collective => 3 * (collective.launch rank).ctaCount).sum ≤ 18 := by
  by_cases within : rank < 2
  · obtain rfl | rfl : rank = 0 ∨ rank = 1 := by omega
    · decide +kernel
    · decide +kernel
  · simp [collectivesOf, pairCalls, collective_idle within]

theorem pairDevices_entry : Entry (collectivesOf 2 pairCalls) pairDevices where
  issued _ := rfl
  completed _ := rfl
  exited _ := rfl
  stale launch collective found owner waiter := by
    obtain ⟨call, isCall, rfl⟩ := collective_call found
    exact (pairCalls_mem (List.mem_of_getElem? isCall)).2
  unwrapped launch collective found rank := by
    right
    have sublist : (((collectivesOf 2 pairCalls).take launch).filter fun other =>
        other.scratch = collective.scratch).Sublist _ := List.filter_sublist.trans (List.take_sublist _ _)
    have counted := ((sublist.map fun collective => 3 * (collective.launch rank).ctaCount).sum_le_sum
      fun _ _ => Nat.zero_le _).trans (pairCalls_counted rank)
    have few := (List.le_sum_of_mem (List.mem_map.mpr ⟨collective, List.mem_of_getElem? found, rfl⟩)).trans
      (pairCalls_counted rank)
    have small : Word.toUInt32 (lastValue pairDevices.counter ((collectivesOf 2 pairCalls).take launch) rank
        collective.scratch + 1) = _ := Word.toUInt32_of_lt (by
      change 0 + _ + 1 < 2 ^ 32
      omega)
    rw [small]
    change 0 + _ + 1 + _ ≤ 2 ^ 32
    omega

theorem pairCalls_complete :
    Completes (fastProgram pairDevices.counter (collectivesOf 2 pairCalls)).Step (Program.start pairDevices)
      (fastProgram pairDevices.counter (collectivesOf 2 pairCalls)).Finished :=
  calls_complete pairCalls_issued pairDevices_entry

/-- Both ranks end with the first shard summed twice and the second once. -/
theorem pairCalls_outcome : ∃ state : State Agent (Devices Nat),
    (fastProgram pairDevices.counter (collectivesOf 2 pairCalls)).Reachable pairDevices state ∧
      (fastProgram pairDevices.counter (collectivesOf 2 pairCalls)).Finished state ∧
      ∀ rank < 2, ∀ element < 40000, state.shared.memory rank element = if element < 20000 then 6 else 3 := by
  obtain ⟨state, reached, finished⟩ := fast_completes pairCalls_issued.launched pairDevices_entry
    pairCalls_issued.separate _ .refl
  refine ⟨state, reached, finished, fun rank within element below => ?_⟩
  obtain ⟨memories, first, last, outcomes⟩ := calls_outcome pairCalls_issued pairDevices_entry reached finished
  have summed := outcomes 0 _ rfl
  have scattered := outcomes 1 _ rfl
  have gathered := outcomes 2 _ rfl
  have home (rank : Nat) (within : rank < 2) (element : Nat) :
      memories 1 rank element = if element < 20000 then 3 else rank + 1 := by
    split
    · next inside =>
      refine (Nat.zero_add element ▸ summed.reduced rfl rank within element inside).trans ?_
      rw [first]
      obtain rfl | rfl : rank = 0 ∨ rank = 1 := by omega
      · rfl
      · rfl
    · next outside =>
      refine (summed.untouched rank element fun _ other small => ?_).trans (by rw [first]; rfl)
      change element ≠ 0 + other
      have few : other < 20000 := small
      omega
  have reduced (owner : Nat) (within : owner < 2) (inside : InShard 2 40000 owner element) :
      memories 2 owner element = memories 1 owner element + memories 1 (1 - owner) element := by
    refine (Nat.zero_add element ▸ scattered.scattered rfl owner within element inside).trans ?_
    obtain rfl | rfl : owner = 0 ∨ owner = 1 := by omega
    · simp [reductionOf, otherRanks, List.range_succ]
    · simp [reductionOf, otherRanks, List.range_succ]
  have gather (owner : Nat) (isOwner : owner < 2) (inside : InShard 2 40000 owner element) :
      state.shared.memory rank element = memories 2 owner element :=
    last ▸ (Nat.zero_add element ▸ gathered.gathered rfl rank within owner isOwner element inside)
  split
  · next front =>
    have inside : InShard 2 40000 0 element := ⟨Nat.zero_le element, front⟩
    rw [gather 0 Nat.two_pos inside, reduced 0 Nat.two_pos inside, home 0 Nat.two_pos, home 1 Nat.one_lt_two,
      if_pos front, if_pos front]
  · next back =>
    have inside : InShard 2 40000 1 element := ⟨Nat.not_lt.mp back, below⟩
    rw [gather 1 Nat.one_lt_two inside, reduced 1 Nat.one_lt_two inside, home 1 Nat.one_lt_two, home 0 Nat.two_pos,
      if_neg back, if_neg back]

/-- The second CTA of the first rank reduces into the second rank, whose own second CTA loads that element. -/
theorem pairCalls_actions :
    (agentCode pairDevices.counter (collectivesOf 2 pairCalls) (.engine ⟨⟨0, 1, 1⟩, 0⟩))[1]? =
        some (.load ⟨0, 1, 1⟩ 0 16384) ∧
      (agentCode pairDevices.counter (collectivesOf 2 pairCalls) (.engine ⟨⟨0, 0, 1⟩, 1⟩))[1]? =
        some (.send ⟨0, 0, 1⟩ 0 1 16384) := by
  have loads : historyMoves (collectivesOf 2 pairCalls) ⟨⟨0, 1, 1⟩, 0⟩ =
      some ((List.range 3616).map fun element => .load ⟨0, 1, 1⟩ element (16384 + element)) := rfl
  have sends : historyMoves (collectivesOf 2 pairCalls) ⟨⟨0, 0, 1⟩, 1⟩ =
      some ((List.range 3616).map fun element => .send ⟨0, 0, 1⟩ element 1 (16384 + element)) := rfl
  refine ⟨engineCode_moves loads ?_, engineCode_moves sends ?_⟩
  · rw [List.getElem?_map, List.getElem?_range (by decide)]
    rfl
  · rw [List.getElem?_map, List.getElem?_range (by decide)]
    rfl

theorem pairCalls_ordered :
    (∀ state, (fastProgram pairDevices.counter (collectivesOf 2 pairCalls)).Reachable pairDevices state →
      1 < state.pc (.engine ⟨⟨0, 0, 1⟩, 1⟩) → 1 < state.pc (.engine ⟨⟨0, 1, 1⟩, 0⟩)) ∨
    ∀ state, (fastProgram pairDevices.counter (collectivesOf 2 pairCalls)).Reachable pairDevices state →
      1 < state.pc (.engine ⟨⟨0, 1, 1⟩, 0⟩) → 1 < state.pc (.engine ⟨⟨0, 0, 1⟩, 1⟩) :=
  have conflict : ¬Independent (collectivesOf 2 pairCalls) (.load ⟨0, 1, 1⟩ 0 16384) (.send ⟨0, 0, 1⟩ 0 1 16384) :=
    fun free => free.1 rfl rfl
  calls_ordered pairCalls_issued pairDevices_entry (by decide) pairCalls_actions.1 pairCalls_actions.2 conflict

/-- In a finished run the first rank has added to the second, so the second had loaded its own summand. -/
theorem pairCalls_loaded : ∃ state : State Agent (Devices Nat),
    (fastProgram pairDevices.counter (collectivesOf 2 pairCalls)).Reachable pairDevices state ∧
      (fastProgram pairDevices.counter (collectivesOf 2 pairCalls)).Finished state ∧
      1 < state.pc (.engine ⟨⟨0, 1, 1⟩, 0⟩) := by
  obtain ⟨state, reached, finished⟩ := fast_completes pairCalls_issued.launched pairDevices_entry
    pairCalls_issued.separate _ .refl
  obtain ⟨loads, sends⟩ := pairCalls_actions
  have sent : 1 < state.pc (.engine ⟨⟨0, 0, 1⟩, 1⟩) := by
    rw [finished]
    exact (List.getElem?_eq_some_iff.mp sends).1
  exact ⟨state, reached, finished,
    (calls_loaded pairCalls_issued pairDevices_entry reached loads sends).1 (Nat.le_refl 0) sent⟩

end Runs

end Ooverlap.Fast
