import Ooverlap.Broker.Calls

/-! Which rounds a history of broker calls has, and what of their results later rounds leave alone. -/

namespace Ooverlap.Broker

open BarrierRounds

variable {world : LocalWorld}

namespace Round

def call : Round world → Option Nat
  | .enter | .bind => none
  | .store call _ _ | .load call _ _ | .clear call | .transfer call _ | .broadcast call _ _ => some call

/-- The call whose results are complete with this round. -/
def settles : Round world → Option Nat
  | .load call _ _ | .transfer call _ | .broadcast call _ _ => some call
  | _ => none

/-- Bounds that the argument checks of a call have established. -/
def Admitted : Round world → Prop
  | .store _ size _ | .load _ size _ => 0 < size ∧ size ≤ vaultSizePerRank
  | .broadcast _ _ srcRank => 0 ≤ srcRank ∧ srcRank < world.size
  | _ => True

/-- Loading follows storing the same payloads. -/
def Follows : Round world → Round world → Prop
  | earlier, .load call size src => earlier = .store call size src
  | _, _ => True

end Round

/-- The call whose memory an action writes or whose datagrams it moves. -/
def Work.call : Work world → Option Nat
  | .createSocket | .store _ _ => none
  | .load call _ _ _ | .clearFds call | .startGather call _ | .gather call | .forward call _ _ | .keepGathered call
  | .sendFd call _ _ | .receive call | .clearOwn call | .receiveBroadcast call _ => some call

section Membership

theorem mem_others {rank other : Rank world} : other ∈ world.others rank ↔ other ≠ rank := by
  simp [LocalWorld.others, LocalWorld.ranks]

theorem others_nodup (rank : Rank world) : (world.others rank).Nodup :=
  (List.nodup_finRange world.size).filter _

theorem others_length (rank : Rank world) : (world.others rank).length + 1 = world.size := by
  have erased : world.others rank = world.ranks.erase rank := by
    rw [LocalWorld.ranks, (List.nodup_finRange world.size).erase_eq_filter rank]
    exact List.filter_congr fun other _ => by rw [bne, beq_eq_decide, decide_not]
  have all : world.ranks.length = world.size := List.length_finRange
  have positive := world.positive
  have listed : rank ∈ world.ranks := List.mem_finRange rank
  rw [erased, List.length_erase_of_mem listed, all]
  omega

theorem work_call {round : Round world} {work : Work world} (member : work ∈ round.work rank)
    (found : work.call = some call) : round.call = some call := by
  cases round with
  | enter => cases member
  | bind =>
    obtain rfl := List.mem_singleton.mp member
    cases found
  | store index size src =>
    obtain ⟨offset, _, rfl⟩ := List.mem_map.mp member
    cases found
  | load index size src =>
    obtain ⟨source, _, inSource⟩ := List.mem_flatMap.mp member
    obtain ⟨offset, _, rfl⟩ := List.mem_map.mp inSource
    exact found
  | clear index =>
    obtain rfl := List.mem_singleton.mp member
    exact found
  | transfer index srcFd =>
    rw [Round.work] at member
    split at member
    · simp only [gatherWork, List.mem_cons, List.mem_append, List.mem_replicate, List.mem_flatMap, List.mem_map,
        List.not_mem_nil, or_false] at member
      rcases member with rfl | ⟨_, rfl⟩ | ⟨_, _, _, _, rfl⟩ | rfl | rfl <;> exact found
    · simp only [transferWork, List.mem_cons, List.mem_append, List.mem_replicate, List.not_mem_nil, or_false] at member
      rcases member with rfl | ⟨_, rfl⟩ | rfl <;> exact found
  | broadcast index srcFd srcRank =>
    rw [Round.work] at member
    split at member
    · obtain ⟨destination, _, rfl⟩ := List.mem_map.mp member
      exact found
    · obtain rfl := List.mem_singleton.mp member
      exact found

end Membership

section Order

theorem rounds_call {request : BrokerCall world} {round : Round world} (member : round ∈ request.rounds index)
    (found : round.call = some call) : call = index := by
  unfold BrokerCall.rounds at member
  split at member
  · cases member
  · cases request <;> simp only [List.mem_cons, List.not_mem_nil, or_false] at member
    · subst member
      cases found
    · rcases member with rfl | rfl | rfl <;> simp_all [Round.call]
    · rcases member with rfl | rfl <;> simp_all [Round.call]
    · rcases member with rfl | rfl <;> simp_all [Round.call]

theorem roundsFrom_call (calls : List (BrokerCall world)) {round : Round world} (member : round ∈ roundsFrom index calls)
    (found : round.call = some call) : index ≤ call := by
  induction calls generalizing index with
  | nil => cases member
  | cons request rest ih =>
    rcases List.mem_append.mp member with here | later
    · exact (rounds_call here found).ge
    · exact Nat.le_of_succ_le (ih later)

/-- After the round that completes a call no round touches that call. -/
theorem roundsFrom_pairwise (index : Nat) (calls : List (BrokerCall world)) :
    (roundsFrom index calls).Pairwise fun earlier later =>
      ∀ call, earlier.settles = some call → later.call ≠ some call := by
  induction calls generalizing index with
  | nil => exact .nil
  | cons request rest ih =>
    refine List.pairwise_append.mpr ⟨?_, ih (index + 1), ?_⟩
    · unfold BrokerCall.rounds
      split
      · exact .nil
      · cases request <;> simp [Round.settles]
    · intro earlier inCall later inRest call settled touched
      have before : earlier.call = some call := by
        cases earlier <;> first | exact settled | cases settled
      have here := rounds_call inCall before
      have after := roundsFrom_call rest inRest touched
      omega

theorem schedule_apart {history : List (BrokerCall world)} {first second : Nat} {earlier later : Round world}
    (order : first < second)
    (found : (schedule history)[first]? = some earlier) (foundLater : (schedule history)[second]? = some later)
    (settled : earlier.settles = some call) : later.call ≠ some call := by
  have pairwise : (schedule history).Pairwise fun earlier later =>
      ∀ call, earlier.settles = some call → later.call ≠ some call :=
    .cons (fun _ _ _ none => by cases none)
      (.cons (fun _ _ _ none => by cases none) (roundsFrom_pairwise 0 history))
  obtain ⟨inFirst, rfl⟩ := List.getElem?_eq_some_iff.mp found
  obtain ⟨inSecond, rfl⟩ := List.getElem?_eq_some_iff.mp foundLater
  exact List.pairwise_iff_getElem.mp pairwise first second inFirst inSecond order call settled

theorem rounds_head {request : BrokerCall world} {round : Round world}
    (head : (request.rounds index).head? = some round) (earlier : Round world) : earlier.Follows round := by
  unfold BrokerCall.rounds at head
  split at head
  · cases head
  · cases request <;> cases head <;> trivial

theorem roundsFrom_head (calls : List (BrokerCall world)) {round : Round world}
    (head : (roundsFrom index calls).head? = some round) (earlier : Round world) : earlier.Follows round := by
  induction calls generalizing index with
  | nil => cases head
  | cons request rest ih =>
    rw [roundsFrom, List.head?_append] at head
    cases first : (request.rounds index).head? with
    | some found =>
      rw [first, Option.some_or, Option.some.injEq] at head
      subst head
      exact rounds_head first earlier
    | none =>
      rw [first, Option.none_or] at head
      exact ih head

theorem roundsFrom_chain (index : Nat) (calls : List (BrokerCall world)) :
    (roundsFrom index calls).IsChain Round.Follows := by
  induction calls generalizing index with
  | nil => exact .nil
  | cons request rest ih =>
    refine List.isChain_append.mpr ⟨?_, ih (index + 1), fun last _ first head => ?_⟩
    · unfold BrokerCall.rounds
      split
      · exact .nil
      · cases request <;> simp [Round.Follows]
    · exact roundsFrom_head rest head last

theorem schedule_load {history : List (BrokerCall world)} {round : Nat}
    (found : (schedule history)[round + 1]? = some (.load call size src)) :
    (schedule history)[round]? = some (.store call size src) := by
  have chain : (schedule history).IsChain Round.Follows := by
    refine .cons_cons trivial ?_
    exact List.isChain_cons.mpr ⟨fun first head => roundsFrom_head history head .bind, roundsFrom_chain 0 history⟩
  obtain ⟨within, here⟩ := List.getElem?_eq_some_iff.mp found
  have follows := List.isChain_iff_getElem.mp chain round within
  rw [here] at follows
  rw [List.getElem?_eq_getElem (Nat.lt_of_succ_lt within)]
  exact congrArg some follows

theorem rounds_admitted {request : BrokerCall world} {round : Round world} (member : round ∈ request.rounds index) :
    round.Admitted := by
  unfold BrokerCall.rounds at member
  split at member
  · cases member
  · rename_i accepted
    cases request with
    | sync numRanks =>
      obtain rfl := List.mem_singleton.mp member
      trivial
    | exchangeData size src =>
      have bounds : 0 < size ∧ size ≤ vaultSizePerRank := by
        simp only [BrokerCall.throws] at accepted
        split at accepted
        · exact absurd rfl accepted
        · omega
      simp only [List.mem_cons, List.not_mem_nil, or_false] at member
      rcases member with rfl | rfl | rfl
      · trivial
      · exact bounds
      · exact bounds
    | exchangeFds srcFd =>
      simp only [List.mem_cons, List.not_mem_nil, or_false] at member
      rcases member with rfl | rfl <;> trivial
    | broadcastFd srcFd srcRank =>
      have bounds : 0 ≤ srcRank ∧ srcRank < world.size := by
        simp only [BrokerCall.throws] at accepted
        split at accepted
        · exact absurd rfl accepted
        · omega
      simp only [List.mem_cons, List.not_mem_nil, or_false] at member
      rcases member with rfl | rfl
      · trivial
      · exact bounds

theorem schedule_admitted {history : List (BrokerCall world)} {index : Nat} {round : Round world}
    (found : (schedule history)[index]? = some round) :
    round.Admitted := by
  have each : ∀ calls : List (BrokerCall world), ∀ index, ∀ round ∈ roundsFrom index calls, round.Admitted := by
    intro calls
    induction calls with
    | nil => exact fun _ _ member => by cases member
    | cons request rest ih =>
      intro index round member
      rcases List.mem_append.mp member with here | later
      · exact rounds_admitted here
      · exact ih (index + 1) round later
  rcases List.mem_cons.mp (List.mem_of_getElem? found) with rfl | later
  · trivial
  · rcases List.mem_cons.mp later with rfl | later
    · trivial
    · exact each history 0 round later

/-- Rounds of calls come after the constructor's. -/
theorem schedule_after_bind {history : List (BrokerCall world)} {index : Nat} {round : Round world}
    (found : (schedule history)[index]? = some round)
    (called : round.call = some call) : 1 < index := by
  match index, found with
  | 0, found =>
    cases found
    cases called
  | 1, found =>
    cases found
    cases called
  | index + 2, _ => omega

theorem roundsFrom_append (index : Nat) (calls later : List (BrokerCall world)) :
    roundsFrom index (calls ++ later) = roundsFrom index calls ++ roundsFrom (index + calls.length) later := by
  induction calls generalizing index with
  | nil => rfl
  | cons request rest ih =>
    rw [List.cons_append, roundsFrom, roundsFrom, ih, List.append_assoc, List.length_cons, Nat.add_right_comm, Nat.add_assoc]

theorem schedule_prefix (history : List (BrokerCall world)) (calls : Nat) :
    schedule (history.take calls) <+: schedule history := by
  refine ⟨roundsFrom (0 + (history.take calls).length) (history.drop calls), ?_⟩
  rw [schedule, schedule, List.cons_append, List.cons_append, ← roundsFrom_append, List.take_append_drop]

/-- When a rank has returned from a call, it has left the barriers of all rounds of that call. -/
theorem Returned.round {history : List (BrokerCall world)} {round : Round world} (returned : Returned history state rank call)
    (found : history[call]? = some request) (member : round ∈ request.rounds call) :
    ∃ index < state.passes rank, (schedule history)[index]? = some round := by
  have listed : round ∈ schedule (history.take (call + 1)) := by
    have within := (List.getElem?_eq_some_iff.mp found).1
    rw [schedule, List.take_add_one, found, roundsFrom_append, List.length_take_of_le within.le, Nat.zero_add]
    simp [roundsFrom, member]
  obtain ⟨index, inside, here⟩ := List.mem_iff_getElem.mp listed
  refine ⟨index, lt_of_lt_of_le inside returned, ?_⟩
  obtain ⟨later, whole⟩ := schedule_prefix history (call + 1)
  rw [← whole, List.getElem?_append_left inside, List.getElem?_eq_getElem inside, here]

end Order

end Ooverlap.Broker
