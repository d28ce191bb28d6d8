import Mathlib.Algebra.BigOperators.Group.Finset.Basic
import Ooverlap.Fast.Calls
import Ooverlap.Fast.Observed
import Ooverlap.Fast.Wrapping

/-! What one call of each fast collective promises, for every interleaving of the CTAs and engines of all ranks. -/

namespace Ooverlap.Fast

open Interleaving Word

section Promises

variable {Value : Type*} (worldSize : Nat) (call : FastCall Value) (devices : Devices Value)

/-- The kernels of all ranks for one call. -/
abbrev callProgram : Program Agent Action (Devices Value) :=
  fastProgram devices.counter (collectivesOf worldSize [call])

/-- One CTA of a rank sends the element to the given rank, once, and from its own buffer. -/
def SentOnce (sender rank element : Nat) : Prop :=
  ∃! spot : Nat × Nat × Nat, SendsTo ((call.collective worldSize).launch sender) spot.1 spot.2.1 spot.2.2 rank
    (call.base rank + element) (call.base sender + element)

/-- Nothing is sent to a rank that has not loaded all its chunks. -/
def LoadedFirst : Prop :=
  ∀ state, (callProgram worldSize call devices).Reachable devices state →
    ∀ agent writer part (reader : Block) place,
      (callProgram worldSize call devices).Performed state agent (.send writer part reader.rank place) →
      ∀ loader element address, .load reader element address ∈ (callProgram worldSize call devices).code loader →
        (callProgram worldSize call devices).Performed state loader (.load reader element address)

/-- Nothing is sent to a rank of which not all CTAs have entered the kernel, or whose entry the sender has not polled. -/
def EntryObserved : Prop :=
  ∀ state, (callProgram worldSize call devices).Reachable devices state → ∀ agent writer part owner place,
    (callProgram worldSize call devices).Performed state agent (.send writer part owner place) →
      (∃ cta, (callProgram worldSize call devices).Performed state (.cta writer.rank cta)
        (.await writer.rank owner (readyValue call.epoch kLoadedReadyPhase))) ∧
      ∀ cta < ((call.collective worldSize).launch owner).ctaCount,
        (callProgram worldSize call devices).Performed state (.cta owner cta) (.enter 0 owner)

/-- A rank whose kernel is over has received everything that is sent to it. -/
def ReceivedAll : Prop :=
  ∀ state, (callProgram worldSize call devices).Reachable devices state → ∀ rank,
    ((call.collective worldSize).launch rank).ctaCount ≤ state.shared.exited rank →
      ∀ agent writer part place, .send writer part rank place ∈ (callProgram worldSize call devices).code agent →
        (callProgram worldSize call devices).Performed state agent (.send writer part rank place)

/-- No kernel of several CTAs takes its grid counter, as it counts their arrivals, past the end of its word. -/
def CountersFit : Prop :=
  ∀ rank < worldSize, ((call.collective worldSize).launch rank).ctaCount ≤ 1 ∨
    toUInt32 (devices.counter rank (call.collective worldSize).scratch + 1) +
      3 * ((call.collective worldSize).launch rank).ctaCount ≤ 2 ^ 32

instance (worldSize : Nat) (call : FastCall Value) (devices : Devices Value) :
    Decidable (CountersFit worldSize call devices) :=
  inferInstanceAs (Decidable (∀ rank < worldSize, _ ∨ _))

/-- All ranks end with the sums, and no chunk is reduced into before its owner has loaded it. -/
structure AllreduceProtocol [AddCommMonoid Value] : Prop where
  completes : Completes (callProgram worldSize call devices).Step (Program.start devices)
    (callProgram worldSize call devices).Finished
  sums : ∀ state, (callProgram worldSize call devices).Reachable devices state →
    (callProgram worldSize call devices).Finished state → ∀ rank < worldSize, ∀ element < call.count,
      state.shared.memory rank (call.base rank + element) =
        ∑ sender ∈ Finset.range worldSize, devices.memory sender (call.base sender + element)
  loadsFirst : LoadedFirst worldSize call devices

/-- Every rank sends each other rank's shard to it once, each owner's entry being observed before, and ends with its own
shard summed. -/
structure ReduceScatterProtocol [AddCommMonoid Value] : Prop where
  completes : Completes (callProgram worldSize call devices).Step (Program.start devices)
    (callProgram worldSize call devices).Finished
  covers : ∀ sender < worldSize, ∀ owner < worldSize, owner ≠ sender → ∀ element,
    InShard worldSize call.count owner element → SentOnce worldSize call sender owner element
  only : ∀ sender cta target spot owner position source,
    SendsTo ((call.collective worldSize).launch sender) cta target spot owner position source →
      owner < worldSize ∧ owner ≠ sender ∧ ∃ element, InShard worldSize call.count owner element ∧
        position = call.base owner + element ∧ source = call.base sender + element
  sums : ∀ state, (callProgram worldSize call devices).Reachable devices state →
    (callProgram worldSize call devices).Finished state → ∀ owner < worldSize, ∀ element,
      InShard worldSize call.count owner element → state.shared.memory owner (call.base owner + element) =
        ∑ sender ∈ Finset.range worldSize, devices.memory sender (call.base sender + element)
  observed : EntryObserved worldSize call devices

/-- Every rank sends its shard to each other rank once, all ranks end with all shards, and a rank whose kernel is over has
received everything. -/
structure AllGatherProtocol : Prop where
  completes : Completes (callProgram worldSize call devices).Step (Program.start devices)
    (callProgram worldSize call devices).Finished
  covers : ∀ sender < worldSize, ∀ rank < worldSize, rank ≠ sender → ∀ element,
    InShard worldSize call.count sender element → SentOnce worldSize call sender rank element
  only : ∀ sender cta target spot rank position source,
    SendsTo ((call.collective worldSize).launch sender) cta target spot rank position source →
      rank < worldSize ∧ rank ≠ sender ∧ ∃ element, InShard worldSize call.count sender element ∧
        position = call.base rank + element ∧ source = call.base sender + element
  gathers : ∀ state, (callProgram worldSize call devices).Reachable devices state →
    (callProgram worldSize call devices).Finished state → ∀ rank < worldSize, ∀ owner < worldSize, ∀ element,
      InShard worldSize call.count owner element →
        state.shared.memory rank (call.base rank + element) = devices.memory owner (call.base owner + element)
  received : ReceivedAll worldSize call devices

end Promises

section Calls

variable {Value : Type*} {worldSize : Nat} {call : FastCall Value} {calls : List (FastCall Value)}
variable {devices : Devices Value} {state : State Agent (Devices Value)}

theorem Issued.single (issued : Issued worldSize calls) (member : call ∈ calls) : Issued worldSize [call] where
  group := issued.group
  sizes _ isCall := List.mem_singleton.mp isCall ▸ issued.sizes call member
  shards _ isCall := List.mem_singleton.mp isCall ▸ issued.shards call member
  epochs := List.pairwise_singleton _ _
  words _ isCall := List.mem_singleton.mp isCall ▸ issued.words call member
  commutes _ isCall := List.mem_singleton.mp isCall ▸ issued.commutes call member

theorem found_single {collective : Collective Value} {launch : Nat}
    (found : (collectivesOf worldSize [call])[launch]? = some collective) :
    launch = 0 ∧ collective = call.collective worldSize := by
  obtain ⟨other, isCall, rfl⟩ := collective_call found
  obtain ⟨inRange, rfl⟩ := List.getElem?_eq_some_iff.mp isCall
  have first : launch = 0 := Nat.lt_one_iff.mp inRange
  subst first
  exact ⟨rfl, rfl⟩

/-- What is sent belongs to the call. -/
theorem send_found (issued : Issued worldSize [call])
    (sends : .send writer part rank place ∈ (callProgram worldSize call devices).code agent) :
    writer.launch = 0 ∧ (collectivesOf worldSize [call])[writer.launch]? = some (call.collective worldSize) := by
  obtain ⟨index, _, member⟩ := mem_code issued.launched.filled sends
  obtain ⟨_, _, _, collective, _, _, found, _⟩ := send_place member
  obtain ⟨first, rfl⟩ := found_single found
  exact ⟨first, found⟩

theorem load_found (issued : Issued worldSize [call])
    (loads : .load reader element address ∈ (callProgram worldSize call devices).code agent) : reader.launch = 0 := by
  obtain ⟨index, _, member⟩ := mem_code issued.launched.filled loads
  obtain ⟨_, _, collective, _, found, _⟩ := load_place member
  exact (found_single found).1

theorem performed_mem (performed : (callProgram worldSize call devices).Performed state agent action) :
    action ∈ (callProgram worldSize call devices).code agent :=
  let ⟨_, _, located⟩ := performed
  List.mem_of_getElem? located

theorem CountersFit.entry (fits : CountersFit worldSize call devices)
    (idle : Idle (collectivesOf worldSize [call]) devices) : Entry (collectivesOf worldSize [call]) devices where
  toIdle := idle
  unwrapped launch collective found rank := by
    obtain ⟨rfl, rfl⟩ := found_single found
    by_cases within : rank < worldSize
    · exact fits rank within
    · rw [collective_idle within]
      exact .inl (Nat.zero_le 1)

/-- The call has had its outcome on the memories with which it began. -/
theorem call_finished (issued : Issued worldSize [call]) (entry : Entry (collectivesOf worldSize [call]) devices)
    (reached : (callProgram worldSize call devices).Reachable devices state)
    (finished : (callProgram worldSize call devices).Finished state) :
    CallOutcome worldSize call devices.memory state.shared.memory := by
  obtain ⟨memories, first, last, outcomes⟩ := history_outcome issued.launched entry issued.separate reached finished
  have outcome := outcomes 0 (call.collective worldSize) rfl
  rw [first] at outcome
  rw [show state.shared.memory = memories 1 from last]
  exact call_outcome issued List.mem_cons_self outcome

/-- A rank's reduction of its peers' elements into its own, where reducing is adding. -/
theorem reductionOf_sum [AddCommMonoid Value] (adds : call.op = (· + ·)) (before : Nat → Nat → Value)
    (within : rank < worldSize) : reductionOf worldSize call before rank element =
      ∑ sender ∈ Finset.range worldSize, before sender (call.base sender + element) := by
  have folded : ∀ (senders : List Nat) (old : Value),
      senders.foldl (fun old sender => call.op old (before sender (call.base sender + element))) old =
        old + (senders.map fun sender => before sender (call.base sender + element)).sum := by
    intro senders
    induction senders with
    | nil => exact fun old => (add_zero old).symm
    | cons sender rest ih =>
      intro old
      rw [List.foldl_cons, ih, adds, List.map_cons, List.sum_cons, add_assoc]
  have split : (List.range worldSize).Perm (rank :: otherRanks worldSize rank) := by
    have distinct : (rank :: otherRanks worldSize rank).Nodup :=
      List.nodup_cons.mpr ⟨fun own => (mem_otherRanks.mp own).2 rfl, otherRanks_nodup _ _⟩
    refine (List.perm_ext_iff_of_nodup List.nodup_range distinct).mpr fun sender => ?_
    rw [List.mem_range, List.mem_cons, mem_otherRanks]
    constructor
    · exact fun inside => or_iff_not_imp_left.mpr fun apart => ⟨inside, apart⟩
    · rintro (rfl | both)
      · exact within
      · exact both.1
  calc reductionOf worldSize call before rank element
      = ((rank :: otherRanks worldSize rank).map fun sender => before sender (call.base sender + element)).sum :=
        folded _ _
    _ = ((List.range worldSize).map fun sender => before sender (call.base sender + element)).sum :=
        (split.map _).sum_eq.symm
    _ = _ := by rw [← List.toFinset_range, List.sum_toFinset _ List.nodup_range]

/-- What a rank sends to another, it sends once. -/
theorem sentOnce (issued : Issued worldSize [call]) (sends : Sends worldSize call sender rank element) :
    SentOnce worldSize call sender rank element := by
  have all := delivers issued List.mem_cons_self rank element
  obtain ⟨cta, target, spot, given⟩ := all.given sender ((mem_sendersOf issued List.mem_cons_self).mpr sends)
  refine ⟨(cta, target, spot), given, fun other again => ?_⟩
  obtain ⟨cta', target', spot'⟩ := other
  obtain ⟨rfl, rfl⟩ := all.once _ _ _ _ _ _ _ _ _ given again
  obtain ⟨job, goal, isJob, isGoal, _, _, place, _⟩ := given.work
  obtain ⟨job', goal', isJob', isGoal', _, _, place', _⟩ := again.work
  obtain rfl := Option.some.inj (isJob.symm.trans isJob')
  obtain rfl := Option.some.inj (isGoal.symm.trans isGoal')
  rw [Nat.add_left_cancel (place.trans place'.symm)]

/-- What a CTA sends is an element of what its rank sends. -/
theorem sendsTo_inside (issued : Issued worldSize [call])
    (sends : SendsTo ((call.collective worldSize).launch sender) cta target spot rank position source) :
    (rank < worldSize ∧ rank ≠ sender) ∧ ∃ element, Sends worldSize call sender rank element ∧
      position = call.base rank + element ∧ source = call.base sender + element := by
  obtain ⟨element, sent, place, taken⟩ := sendsTo_place sends
  exact ⟨((sends_iff issued List.mem_cons_self).mp sent).1.2, element, sent, place, taken⟩

/-- An engine of the call has its moves in its code. -/
theorem moves_code (moving : historyMoves (collectivesOf worldSize [call]) bulk = some moves) (member : action ∈ moves) :
    action ∈ (callProgram worldSize call devices).code (.engine bulk) := by
  change action ∈ engineCode (collectivesOf worldSize [call]) bulk
  rw [engineCode, moving]
  exact List.mem_cons_of_mem _ (List.mem_append_left _ member)

end Calls

section Protocols

variable {Value : Type*} {worldSize : Nat} {call : FastCall Value} {devices : Devices Value}

/-- A call of two ranks on floats. -/
def pairCall (kind : Kind) (count : Nat) : FastCall Nat where
  kind := kind
  op := (· + ·)
  epoch := 1
  dtype := .float32
  count := count
  base := fun _ => 0

/-- The two ranks of before, whose grid counters have some value. -/
def countedDevices (value : Nat) : Devices Nat :=
  { pairDevices with counter := fun _ _ => value }

theorem pairCall_issued (sizes : count < 2 ^ 64)
    (shards : ∀ rank < 2, ∀ share ∈ (pairCall kind count).shares 2 rank, 0 < share.length) :
    Issued 2 [pairCall kind count] where
  group := by decide
  sizes _ isCall := List.mem_singleton.mp isCall ▸ sizes
  shards _ isCall := List.mem_singleton.mp isCall ▸ shards
  epochs := List.pairwise_singleton _ _
  words _ isCall := List.mem_singleton.mp isCall ▸ (by decide : (0 : Int) < 1 ∧ (1 : Int) < 2 ^ 21)
  commutes _ isCall _ old new other := List.mem_singleton.mp isCall ▸ Nat.add_right_comm old new other

theorem countedDevices_idle (kind : Kind) (count value : Nat) :
    Idle (collectivesOf 2 [pairCall kind count]) (countedDevices value) where
  issued _ := rfl
  completed _ := rfl
  exited _ := rfl
  stale launch collective found owner waiter := by
    obtain ⟨_, rfl⟩ := found_single found
    exact (by decide : (0 : Int) < readyValue 1 kLoadedReadyPhase)

/-- At value 2 ^ 32 - 4 the first two targets of four CTAs wrap to zero and four, and the second CTA sends before anyone
else has done anything. -/
theorem pairCall_sends (kind : Kind) (count : Nat) (reduces : kind ≠ .allGather)
    (four : (((pairCall kind count).collective 2).launch 0).ctaCount = 4)
    (given : (((pairCall kind count).collective 2).launch 0).job 1 = some job)
    (isGoal : job.targets[0]? = some (1, place)) (nonempty : 0 < job.count) :
    ∃ state, (callProgram 2 (pairCall kind count) (countedDevices (2 ^ 32 - 4))).Reachable
        (countedDevices (2 ^ 32 - 4)) state ∧
      (callProgram 2 (pairCall kind count) (countedDevices (2 ^ 32 - 4))).Performed state (.engine ⟨⟨0, 0, 1⟩, 1⟩)
        (.send ⟨0, 0, 1⟩ 0 1 place) ∧
      ∀ agent, agent ≠ .cta 0 1 → (∀ index, agent ≠ .engine ⟨⟨0, 0, 1⟩, index⟩) → state.pc agent = 0 := by
  have unassigned : Kernel.assignedPeers (((pairCall kind count).collective 2).launch 0).peers
      (((pairCall kind count).collective 2).launch 0).ctaCount 1 = [] := by
    rw [four]
    rfl
  refine lone_sends (by rw [four]; decide) (by decide) unassigned (bne_iff_ne.mpr reduces) given isGoal nonempty ?_ ?_
  · rw [four]
    change toUInt32 (2 ^ 32 - 4 + 4) ≤ toUInt32 (2 ^ 32 - 4 + 1)
    decide
  · rw [four]
    change toUInt32 (2 ^ 32 - 4 + 2 * 4) ≤ toUInt32 (2 ^ 32 - 4 + 2)
    decide

/-- The all-reduce keeps its promise as long as no kernel of several CTAs takes its grid counter past the end of its
word. -/
theorem fastAllreduce_protocol [AddCommMonoid Value] (issued : Issued worldSize [call]) (kind : call.kind = .allreduce)
    (adds : call.op = (· + ·)) (idle : Idle (collectivesOf worldSize [call]) devices)
    (fits : CountersFit worldSize call devices) :
    AllreduceProtocol worldSize call devices where
  completes := fast_completes issued.launched (fits.entry idle) issued.separate
  sums state reached finished rank within element inside := by
    have outcome := call_finished issued (fits.entry idle) reached finished
    rw [outcome.reduced kind rank within element inside, reductionOf_sum adds devices.memory within]
  loadsFirst state reached agent writer part reader place sent loader element address loads := by
    obtain ⟨first, found⟩ := send_found issued (performed_mem sent)
    have reduces : call.kind ≠ .allGather := by
      rw [kind]
      decide
    have early : (call.collective worldSize).waitsEarly = true := bne_iff_ne.mpr reduces
    exact sent_loaded issued.launched (fits.entry idle) reached found early sent
      ((load_found issued loads).trans first.symm) loads

theorem fastAllreduce_protocol_pair : ∃ state : State Agent (Devices Nat),
    (callProgram 2 (pairCall .allreduce 65536) (countedDevices 0)).Reachable (countedDevices 0) state ∧
      (callProgram 2 (pairCall .allreduce 65536) (countedDevices 0)).Finished state ∧
      ∀ rank < 2, ∀ element < 65536, state.shared.memory rank element = 3 := by
  have protocol := fastAllreduce_protocol (pairCall_issued (by decide) (by decide +kernel)) rfl rfl
    (countedDevices_idle .allreduce 65536 0) (by decide +kernel)
  obtain ⟨state, reached, finished⟩ := protocol.completes _ .refl
  refine ⟨state, reached, finished, fun rank within element inside => ?_⟩
  exact Nat.zero_add element ▸ protocol.sums state reached finished rank within element inside

/-- At value 2 ^ 32 - 4 the targets of both first barriers wrap to zero and four, and the second CTA of a rank adds to a
chunk that the other rank has not loaded. -/
theorem fastAllreduce_overtakes : Issued 2 [pairCall .allreduce 65536] ∧
    Idle (collectivesOf 2 [pairCall .allreduce 65536]) (countedDevices (2 ^ 32 - 4)) ∧
    ¬LoadedFirst 2 (pairCall .allreduce 65536) (countedDevices (2 ^ 32 - 4)) := by
  refine ⟨pairCall_issued (by decide) (by decide +kernel), countedDevices_idle .., fun loadedFirst => ?_⟩
  obtain ⟨state, reached, sent, others⟩ := pairCall_sends .allreduce 65536 (by decide) rfl rfl rfl (by decide)
  have loads : .load ⟨0, 1, 1⟩ 0 16384 ∈
      (callProgram 2 (pairCall .allreduce 65536) (countedDevices (2 ^ 32 - 4))).code (.engine ⟨⟨0, 1, 1⟩, 0⟩) :=
    moves_code rfl (List.mem_map.mpr ⟨0, List.mem_range.mpr (by decide), rfl⟩)
  obtain ⟨place, begun, _⟩ := loadedFirst state reached _ _ _ ⟨0, 1, 1⟩ _ sent _ _ _ loads
  rw [others (.engine ⟨⟨0, 1, 1⟩, 0⟩) (by simp) (by simp)] at begun
  exact Nat.not_lt_zero place begun

/-- So does the reduce-scatter. -/
theorem fastReduceScatter_protocol [AddCommMonoid Value] (issued : Issued worldSize [call])
    (kind : call.kind = .reduceScatter) (adds : call.op = (· + ·))
    (idle : Idle (collectivesOf worldSize [call]) devices) (fits : CountersFit worldSize call devices) :
    ReduceScatterProtocol worldSize call devices where
  completes := fast_completes issued.launched (fits.entry idle) issued.separate
  covers sender isSender owner isOwner apart element inside := by
    refine sentOnce issued ((sends_iff issued List.mem_cons_self).mpr ⟨⟨isSender, isOwner, apart⟩, ?_⟩)
    rw [kind]
    exact inside
  only sender cta target spot owner position source sends := by
    obtain ⟨⟨isOwner, apart⟩, element, sent, place, taken⟩ := sendsTo_inside issued sends
    have inside := ((sends_iff issued List.mem_cons_self).mp sent).2
    rw [kind] at inside
    exact ⟨isOwner, apart, element, inside, place, taken⟩
  sums state reached finished owner within element inside := by
    have outcome := call_finished issued (fits.entry idle) reached finished
    rw [outcome.scattered kind owner within element inside, reductionOf_sum adds devices.memory within]
  observed state reached agent writer part owner place sent := by
    obtain ⟨first, found⟩ := send_found issued (performed_mem sent)
    have polled := sent_observed issued.launched (fits.entry idle) reached found sent
    refine ⟨polled, fun cta inGrid => ?_⟩
    have entering := sent_entered issued.launched (fits.entry idle) reached found sent inGrid
    rw [first] at entering
    exact entering

theorem fastReduceScatter_protocol_pair : ∃ state : State Agent (Devices Nat),
    (callProgram 2 (pairCall .reduceScatter 131072) (countedDevices 0)).Reachable (countedDevices 0) state ∧
      (callProgram 2 (pairCall .reduceScatter 131072) (countedDevices 0)).Finished state ∧
      ∀ element < 65536, state.shared.memory 0 element = 3 := by
  have protocol := fastReduceScatter_protocol (pairCall_issued (by decide) (by decide +kernel)) rfl rfl
    (countedDevices_idle .reduceScatter 131072 0) (by decide +kernel)
  obtain ⟨state, reached, finished⟩ := protocol.completes _ .refl
  refine ⟨state, reached, finished, fun element inside => ?_⟩
  exact Nat.zero_add element ▸ protocol.sums state reached finished 0 Nat.two_pos element ⟨Nat.zero_le element, inside⟩

/-- The second CTA of a rank adds to the other rank's shard before that rank has entered its kernel. -/
theorem fastReduceScatter_overtakes : Issued 2 [pairCall .reduceScatter 131072] ∧
    Idle (collectivesOf 2 [pairCall .reduceScatter 131072]) (countedDevices (2 ^ 32 - 4)) ∧
    ¬EntryObserved 2 (pairCall .reduceScatter 131072) (countedDevices (2 ^ 32 - 4)) := by
  refine ⟨pairCall_issued (by decide) (by decide +kernel), countedDevices_idle .., fun observed => ?_⟩
  obtain ⟨state, reached, sent, others⟩ := pairCall_sends .reduceScatter 131072 (by decide) rfl rfl rfl (by decide)
  obtain ⟨place, begun, _⟩ := (observed state reached _ _ _ _ _ sent).2 0 (by decide +kernel)
  rw [others (.cta 1 0) (by simp) (by simp)] at begun
  exact Nat.not_lt_zero place begun

/-- And so does the all-gather. -/
theorem fastAllGather_protocol (issued : Issued worldSize [call]) (kind : call.kind = .allGather)
    (idle : Idle (collectivesOf worldSize [call]) devices) (fits : CountersFit worldSize call devices) :
    AllGatherProtocol worldSize call devices where
  completes := fast_completes issued.launched (fits.entry idle) issued.separate
  covers sender isSender rank isRank apart element inside := by
    refine sentOnce issued ((sends_iff issued List.mem_cons_self).mpr ⟨⟨isSender, isRank, apart⟩, ?_⟩)
    rw [kind]
    exact inside
  only sender cta target spot rank position source sends := by
    obtain ⟨⟨isRank, apart⟩, element, sent, place, taken⟩ := sendsTo_inside issued sends
    have inside := ((sends_iff issued List.mem_cons_self).mp sent).2
    rw [kind] at inside
    exact ⟨isRank, apart, element, inside, place, taken⟩
  gathers state reached finished rank within owner isOwner element inside :=
    (call_finished issued (fits.entry idle) reached finished).gathered kind rank within owner isOwner element inside
  received state reached rank ended agent writer part place sends := by
    obtain ⟨first, found⟩ := send_found issued sends
    refine over_received issued.launched (fits.entry idle) reached found ?_ sends
    rw [first]
    exact ended

theorem fastAllGather_protocol_pair : ∃ state : State Agent (Devices Nat),
    (callProgram 2 (pairCall .allGather 65536) (countedDevices 0)).Reachable (countedDevices 0) state ∧
      (callProgram 2 (pairCall .allGather 65536) (countedDevices 0)).Finished state ∧
      ∀ rank < 2, ∀ element < 32768, state.shared.memory rank element = 1 := by
  have protocol := fastAllGather_protocol (pairCall_issued (by decide) (by decide +kernel)) rfl
    (countedDevices_idle .allGather 65536 0) (by decide +kernel)
  obtain ⟨state, reached, finished⟩ := protocol.completes _ .refl
  refine ⟨state, reached, finished, fun rank within element inside => ?_⟩
  exact Nat.zero_add element ▸
    protocol.gathers state reached finished rank within 0 Nat.two_pos element ⟨Nat.zero_le element, inside⟩

/-- The counter has come round twice, by launches of one CTA, and is at 2 ^ 32 - 6. -/
abbrev wrappedGather : Program Agent Action (Devices Nat) :=
  callProgram 2 (pairCall .allGather 65536) (countedDevices (3 * 2 ^ 32 - 6))

def gatherScratch : Scratch := ⟨.allGather, 0⟩

/-- What the first CTA of a rank does. -/
theorem wrappedGather_first : ∀ rank < 2, wrappedGather.code (.cta rank 0) =
    [.enter 0 rank, .issue ⟨⟨0, rank, 0⟩, 0⟩, .arrive rank gatherScratch, .wait rank gatherScratch (3 * 2 ^ 32 - 4),
      .publish rank (1 - rank) 1025, .await rank (1 - rank) 1025, .arrive rank gatherScratch,
      .wait rank gatherScratch (3 * 2 ^ 32 - 2), .finish ⟨⟨0, rank, 0⟩, 0⟩, .issue ⟨⟨0, rank, 0⟩, 1⟩,
      .finish ⟨⟨0, rank, 0⟩, 1⟩, .arrive rank gatherScratch, .wait rank gatherScratch (3 * 2 ^ 32),
      .publish rank (1 - rank) 1026, .await rank (1 - rank) 1026, .exit rank] := by
  decide +kernel

theorem wrappedGather_second : ∀ rank < 2, wrappedGather.code (.cta rank 1) =
    [.enter 0 rank, .issue ⟨⟨0, rank, 1⟩, 0⟩, .arrive rank gatherScratch, .wait rank gatherScratch (3 * 2 ^ 32 - 4),
      .arrive rank gatherScratch, .wait rank gatherScratch (3 * 2 ^ 32 - 2), .finish ⟨⟨0, rank, 1⟩, 0⟩,
      .issue ⟨⟨0, rank, 1⟩, 1⟩, .finish ⟨⟨0, rank, 1⟩, 1⟩, .arrive rank gatherScratch,
      .wait rank gatherScratch (3 * 2 ^ 32), .exit rank] := by
  decide +kernel

theorem word_reached {target value : Nat} (amount : Nat) (counted : value = amount)
    (word : toUInt32 target ≤ toUInt32 amount) : toUInt32 target ≤ toUInt32 value :=
  counted ▸ word

/-- The second rank is past its second barrier and has sent nothing, nor has the first rank's second CTA. -/
structure PairAhead (state : State Agent (Devices Nat)) : Prop where
  reached : wrappedGather.Reachable (countedDevices (3 * 2 ^ 32 - 6)) state
  first : state.pc (.cta 1 0) = 8
  second : state.pc (.cta 1 1) = 6
  waiting : ∀ bulk, bulk.block ≠ ⟨0, 0, 0⟩ → state.pc (.engine bulk) = 0
  counter : state.shared.counter 1 gatherScratch = 3 * 2 ^ 32 - 2
  issuedFirst : state.shared.issued ⟨⟨0, 1, 0⟩, 0⟩ = true
  issuedSecond : state.shared.issued ⟨⟨0, 1, 1⟩, 0⟩ = true
  exited : state.shared.exited 1 = 0

/-- Both ranks meet; of the first one, only the first CTA goes on past the second barrier. -/
theorem wrappedGather_meets : ∃ state : State Agent (Devices Nat), PairAhead state ∧ state.pc (.cta 0 0) = 8 ∧
    (∀ index, state.pc (.engine ⟨⟨0, 0, 0⟩, index⟩) = 0) ∧
    state.shared.counter 0 gatherScratch = 3 * 2 ^ 32 - 2 ∧ state.shared.issued ⟨⟨0, 0, 0⟩, 0⟩ = true := by
  have first := wrappedGather_first
  have second := wrappedGather_second
  have begins : wrappedGather.Reachable (countedDevices (3 * 2 ^ 32 - 6))
      ⟨fun _ => 0, countedDevices (3 * 2 ^ 32 - 6)⟩ := .refl
  -- the first rank's CTAs arrive twice, but for the first one that waits for the other rank
  have enters := Program.solo_steps 3 begins (first 0 (by decide)) rfl ⟨Nat.zero_le _, trivial, trivial, trivial⟩
  have arrives := Program.solo_steps 5 enters (second 0 (by decide)) rfl
    ⟨Nat.zero_le _, trivial, trivial, word_reached (3 * 2 ^ 32 - 4) rfl (by decide), trivial, trivial⟩
  have publishes := Program.solo_steps 2 arrives (first 0 (by decide)) rfl
    ⟨word_reached (3 * 2 ^ 32 - 3) rfl (by decide), trivial, trivial⟩
  -- the second rank's CTAs go through both barriers
  have entersToo := Program.solo_steps 3 publishes (first 1 (by decide)) rfl
    ⟨Nat.zero_le _, trivial, trivial, trivial⟩
  have arrivesToo := Program.solo_steps 5 entersToo (second 1 (by decide)) rfl
    ⟨Nat.zero_le _, trivial, trivial, word_reached (3 * 2 ^ 32 - 4) rfl (by decide), trivial, trivial⟩
  have meets := Program.solo_steps 5 arrivesToo (first 1 (by decide)) rfl
    ⟨word_reached (3 * 2 ^ 32 - 3) rfl (by decide), trivial, Int.le_refl _, trivial,
      word_reached (3 * 2 ^ 32 - 2) rfl (by decide), trivial⟩
  have passes := Program.solo_steps 1 meets (second 1 (by decide)) rfl
    ⟨word_reached (3 * 2 ^ 32 - 2) rfl (by decide), trivial⟩
  have ahead := Program.solo_steps 3 passes (first 0 (by decide)) rfl
    ⟨Int.le_refl _, trivial, word_reached (3 * 2 ^ 32 - 2) rfl (by decide), trivial⟩
  exact ⟨_, ⟨ahead, rfl, rfl, fun _ _ => rfl, rfl, rfl, rfl, rfl⟩, rfl, fun _ => rfl, rfl, rfl⟩

/-- The first CTA of the first rank passes the last barrier by itself and tells the second rank that it is done. -/
theorem wrappedGather_tells : ∃ state : State Agent (Devices Nat), PairAhead state ∧
    state.shared.inbox 0 1 = readyValue 1 kDoneReadyPhase := by
  have first := wrappedGather_first 0 (by decide)
  obtain ⟨⟨pc, shared⟩, ahead, here, waiting, counter, issued⟩ := wrappedGather_meets
  obtain ⟨_, _, later, sent, place, frame⟩ := gather_alone ⟨0, 0, 0⟩ ahead.reached here
    (by rw [first]; exact ⟨_, rfl⟩) rfl rfl waiting issued
  have told := Program.solo_steps 2 sent first place
    ⟨word_reached (3 * 2 ^ 32 - 1) (congrArg (· + 1) counter) (by decide), trivial, trivial⟩
  refine ⟨_, ⟨told, ?_, ?_, fun bulk apart => ?_, ahead.counter, ahead.issuedFirst, ahead.issuedSecond, ahead.exited⟩, rfl⟩
  · exact (frame (.cta 1 0) (by decide) (by simp)).trans ahead.first
  · exact (frame (.cta 1 1) (by decide) (by simp)).trans ahead.second
  · refine (frame (.engine bulk) (by simp) fun index same => apart ?_).trans (ahead.waiting bulk apart)
    rw [Agent.engine.inj same]
    rfl

/-- The second rank ends, and the first rank's second CTA has sent nothing. -/
theorem wrappedGather_overtakes : ∃ state : State Agent (Devices Nat),
    wrappedGather.Reachable (countedDevices (3 * 2 ^ 32 - 6)) state ∧ 2 ≤ state.shared.exited 1 ∧
      state.pc (.engine ⟨⟨0, 0, 1⟩, 1⟩) = 0 := by
  have first := wrappedGather_first 1 (by decide)
  have second := wrappedGather_second 1 (by decide)
  obtain ⟨⟨pc, shared⟩, ahead, told⟩ := wrappedGather_tells
  obtain ⟨_, _, later, sent, place, frame⟩ := gather_alone ⟨0, 1, 0⟩ ahead.reached ahead.first
    (by rw [first]; exact ⟨_, rfl⟩) rfl rfl (fun _ => ahead.waiting _ (by simp [Block.bulk])) ahead.issuedFirst
  have waiting (bulk : Bulk) (apart : bulk.block ≠ ⟨0, 0, 0⟩) (other : bulk.block ≠ ⟨0, 1, 0⟩) :
      later (.engine bulk) = 0 := by
    refine (frame (.engine bulk) (by simp) fun index same => other ?_).trans (ahead.waiting bulk apart)
    rw [Agent.engine.inj same]
    rfl
  obtain ⟨_, _, last, sentSecond, placeSecond, frameSecond⟩ := gather_alone ⟨0, 1, 1⟩ sent
    ((frame (.cta 1 1) (by decide) (by simp)).trans ahead.second) (by rw [second]; exact ⟨_, rfl⟩) rfl rfl
    (fun _ => waiting _ (by simp [Block.bulk]) (by simp [Block.bulk])) ahead.issuedSecond
  have left := Program.solo_steps 2 sentSecond second placeSecond
    ⟨word_reached (3 * 2 ^ 32) (congrArg (· + 2) ahead.counter) (by decide), trivial, trivial⟩
  have ended := Program.solo_steps 4 left first ((frameSecond (.cta 1 0) (by decide) (by simp)).trans place)
    ⟨word_reached (3 * 2 ^ 32) (congrArg (· + 2) ahead.counter) (by decide), trivial, told.ge, trivial, trivial⟩
  refine ⟨_, ended, (congrArg (· + 2) ahead.exited).ge, ?_⟩
  exact (frameSecond (.engine _) (by simp) (by simp [Block.bulk])).trans (waiting _ (by simp) (by simp))

/-- At value 3 * 2 ^ 32 - 6 the last target of two CTAs wraps to zero, and a rank ends before it has received all. -/
theorem fastAllGather_overtakes : Issued 2 [pairCall .allGather 65536] ∧
    Idle (collectivesOf 2 [pairCall .allGather 65536]) (countedDevices (3 * 2 ^ 32 - 6)) ∧
    ¬ReceivedAll 2 (pairCall .allGather 65536) (countedDevices (3 * 2 ^ 32 - 6)) := by
  refine ⟨pairCall_issued (by decide) (by decide +kernel), countedDevices_idle .., fun received => ?_⟩
  obtain ⟨state, reached, ended, unsent⟩ := wrappedGather_overtakes
  have sends : .send ⟨0, 0, 1⟩ 0 1 16384 ∈ wrappedGather.code (.engine ⟨⟨0, 0, 1⟩, 1⟩) :=
    moves_code rfl (List.mem_map.mpr ⟨0, List.mem_range.mpr (by decide), rfl⟩)
  obtain ⟨place, begun, _⟩ := received state reached 1 ended _ _ _ _ sends
  rw [unsent] at begun
  exact Nat.not_lt_zero place begun

end Protocols

end Ooverlap.Fast
