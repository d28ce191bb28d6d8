import Ooverlap.Fast.Independence

/-! The counters of the fast kernels: the grid counters, and the stream's own count of finished CTAs. -/

namespace Ooverlap.Fast

open Interleaving Word

section Grids

variable {Value : Type*} (history : List (Collective Value))

def gridOf (launch rank : Nat) : Nat :=
  match history[launch]? with
  | none => 0
  | some collective => (collective.launch rank).ctaCount

/-- The grid of a launch, if it uses the given counter. -/
def counterGrid (launch rank : Nat) (scratch : Scratch) : Nat :=
  match history[launch]? with
  | none => 0
  | some collective => if collective.scratch = scratch then (collective.launch rank).ctaCount else 0

variable {history}

theorem gridOf_found {history : List (Collective Value)} (found : history[launch]? = some collective) (rank : Nat) :
    gridOf history launch rank = (collective.launch rank).ctaCount := by
  rw [gridOf, found]

theorem counterGrid_found {history : List (Collective Value)} (found : history[launch]? = some collective) (rank : Nat) :
    counterGrid history launch rank collective.scratch = (collective.launch rank).ctaCount := by
  simp [counterGrid, found]

theorem counterGrid_inside {history : List (Collective Value)} (inside : cta < counterGrid history launch rank scratch) :
    ∃ collective, history[launch]? = some collective ∧ collective.scratch = scratch ∧
      cta < (collective.launch rank).ctaCount := by
  unfold counterGrid at inside
  split at inside
  · exact absurd inside (Nat.not_lt_zero _)
  · rename_i collective found
    split at inside
    · rename_i same
      exact ⟨collective, found, same, inside⟩
    · exact absurd inside (Nat.not_lt_zero _)

theorem gridOf_inside {history : List (Collective Value)} (inside : cta < gridOf history launch rank) :
    ∃ collective, history[launch]? = some collective ∧ cta < (collective.launch rank).ctaCount := by
  unfold gridOf at inside
  split at inside
  · exact absurd inside (Nat.not_lt_zero _)
  · rename_i collective found
    exact ⟨collective, found, inside⟩

theorem ctasBefore_sum (history : List (Collective Value)) (launch rank : Nat) :
    ctasBefore (history.take launch) rank = ∑ index ∈ Finset.range launch, gridOf history index rank := by
  induction launch with
  | zero => rfl
  | succ launch ih =>
    rw [Finset.sum_range_succ, ← ih, List.take_add_one]
    unfold gridOf
    cases found : history[launch]? <;> simp [ctasBefore]

theorem lastValue_sum (start : Nat → Scratch → Nat) (history : List (Collective Value)) (launch rank : Nat) (scratch : Scratch) :
    lastValue start (history.take launch) rank scratch =
      start rank scratch + ∑ index ∈ Finset.range launch, 3 * counterGrid history index rank scratch := by
  induction launch with
  | zero => rfl
  | succ launch ih =>
    rw [Finset.sum_range_succ, ← Nat.add_assoc, ← ih, List.take_add_one]
    unfold counterGrid
    cases found : history[launch]? with
    | none => simp
    | some collective =>
      by_cases same : collective.scratch = scratch
      · simp [lastValue, same, Nat.add_assoc]
      · simp [lastValue, same]

end Grids

section Members

/-- The CTAs of a grid. -/
def ctasOf (rank count : Nat) : Finset Agent :=
  (Finset.range count).image (Agent.cta rank)

theorem mem_ctasOf : agent ∈ ctasOf rank count ↔ ∃ cta < count, Agent.cta rank cta = agent := by
  simp [ctasOf]

theorem ctasOf_card (rank count : Nat) : (ctasOf rank count).card = count := by
  rw [ctasOf, Finset.card_image_of_injective _ fun _ _ same => (Agent.cta.inj same).2, Finset.card_range]

end Members

section Counters

variable {Value : Type*} (start : Nat → Scratch → Nat) (history : List (Collective Value))

/-- CTAs leave their kernel, and those of the next one wait for all of them. -/
def exitBarriers (rank : Nat) : Barriers Agent (Devices Value) where
  rounds := history.length
  members launch := ctasOf rank (gridOf history launch rank)
  place launch := stageWidth * launch + 22
  waiters launch := ctasOf rank (gridOf history (launch + 1) rank)
  gate launch := stageWidth * (launch + 1)
  counter devices := devices.exited rank
  base := 0

def arriveStage (round : Nat) : Nat :=
  if round = 0 then 6 else if round = 1 then 10 else 18

/-- The three grid barriers of every launch that uses one counter. -/
def gridBarriers (rank : Nat) (scratch : Scratch) : Barriers Agent (Devices Value) where
  rounds := 3 * history.length
  members round := ctasOf rank (counterGrid history (round / 3) rank scratch)
  place round := stageWidth * (round / 3) + arriveStage (round % 3)
  waiters round := ctasOf rank (counterGrid history (round / 3) rank scratch)
  gate round := stageWidth * (round / 3) + (arriveStage (round % 3) + 1)
  counter devices := devices.counter rank scratch
  base := start rank scratch

variable {start} {history}

theorem exitBarriers_target (launch rank : Nat) :
    (exitBarriers history rank).target launch = ctasBefore (history.take launch) rank := by
  rw [ctasBefore_sum, Barriers.target]
  simp only [exitBarriers, ctasOf_card, Nat.zero_add]

theorem gridBarriers_sum (rank : Nat) (scratch : Scratch) (launch : Nat) :
    ∑ round ∈ Finset.range (3 * launch), counterGrid history (round / 3) rank scratch =
      ∑ index ∈ Finset.range launch, 3 * counterGrid history index rank scratch := by
  induction launch with
  | zero => rfl
  | succ launch ih =>
    have parts : ∀ inner < 3, (3 * launch + inner) / 3 = launch := fun inner below => by omega
    rw [Nat.mul_succ, Finset.sum_range_add, ih, Finset.sum_range_succ _ launch]
    congr 1
    rw [Finset.sum_congr rfl fun inner below => by rw [parts inner (Finset.mem_range.mp below)]]
    simp

theorem gridBarriers_target {round : Nat} (rank : Nat) (scratch : Scratch) (launch : Nat) (within : round ≤ 3) :
    (gridBarriers start history rank scratch).target (3 * launch + round) =
      lastValue start (history.take launch) rank scratch + round * counterGrid history launch rank scratch := by
  have parts : ∀ inner < 3, (3 * launch + inner) / 3 = launch := fun inner below => by omega
  rw [lastValue_sum, Barriers.target, Nat.add_assoc (start rank scratch)]
  simp only [gridBarriers, ctasOf_card]
  rw [Finset.sum_range_add, gridBarriers_sum]
  congr 2
  rw [Finset.sum_congr rfl fun inner inside => by rw [parts inner ((Finset.mem_range.mp inside).trans_le within)]]
  simp

end Counters

section Rules

variable {Value : Type*}

/-- What the launchers make of the collectives of a group: grids of CTAs with chunks on all its ranks, whose peers are
all the other ranks and alone receive what is sent, under increasing epochs. -/
structure Launched (worldSize : Nat) (history : List (Collective Value)) : Prop where
  filled : Filled history
  grids : ∀ (launch : Nat) (collective : Collective Value), history[launch]? = some collective →
    ∀ rank, 0 < (collective.launch rank).ctaCount ↔ rank < worldSize
  peers : ∀ (launch : Nat) (collective : Collective Value), history[launch]? = some collective →
    ∀ rank < worldSize, ∀ peer, peer ∈ (collective.launch rank).peers ↔ peer < worldSize ∧ peer ≠ rank
  targets : ∀ (launch : Nat) (collective : Collective Value), history[launch]? = some collective → ∀ rank < worldSize,
    ∀ (cta : Nat) (job : Job), (collective.launch rank).job cta = some job →
      ∀ target ∈ job.targets, target.1 ∈ (collective.launch rank).peers
  epochs : ∀ (first second : Nat) (earlier later : Collective Value), first < second →
    history[first]? = some earlier → history[second]? = some later → earlier.epoch < later.epoch
  words : ∀ (launch : Nat) (collective : Collective Value), history[launch]? = some collective →
    0 < collective.epoch ∧ collective.epoch < 2 ^ 21

/-- The ranks before the first kernel: nothing under way, and only older values in the inboxes. -/
structure Idle (history : List (Collective Value)) (devices : Devices Value) : Prop where
  issued : ∀ bulk, devices.issued bulk = false
  completed : ∀ bulk, devices.completed bulk = false
  exited : ∀ rank, devices.exited rank = 0
  stale : ∀ (launch : Nat) (collective : Collective Value), history[launch]? = some collective → ∀ owner waiter,
    devices.inbox owner waiter < readyValue collective.epoch kLoadedReadyPhase

/-- No launch of several CTAs takes its grid counter, as it counts their arrivals, past the end of its word. -/
def Unwrapped (start : Nat → Scratch → Nat) (history : List (Collective Value)) : Prop :=
  ∀ (launch : Nat) (collective : Collective Value), history[launch]? = some collective → ∀ rank,
    (collective.launch rank).ctaCount ≤ 1 ∨
      toUInt32 (lastValue start (history.take launch) rank collective.scratch + 1) +
        3 * (collective.launch rank).ctaCount ≤ 2 ^ 32

/-- Idle ranks, whose grid counters do not wrap during a launch. -/
structure Entry (history : List (Collective Value)) (devices : Devices Value) : Prop extends Idle history devices where
  unwrapped : Unwrapped devices.counter history

variable {worldSize : Nat} {history : List (Collective Value)} {devices : Devices Value}

theorem stage_cta {start : Nat → Scratch → Nat} {history : List (Collective Value)}
    (found : history[launch]? = some collective) (inside : cta < (collective.launch rank).ctaCount)
    (given : (collective.launch rank).job cta = some job) (below : stage < stageWidth) :
    (historyStages start history).stage (stageWidth * launch + stage) (.cta rank cta) =
      ctaStage collective (lastValue start (history.take launch) rank collective.scratch) ⟨launch, rank, cta⟩ job stage := by
  rw [historyStages_stage below]
  simp only [launchStage, found, if_pos inside, given]

theorem effect_exited (history : List (Collective Value)) (action : Action) (devices : Devices Value) (rank : Nat) :
    (effect history action devices).exited rank = devices.exited rank + if action = .exit rank then 1 else 0 := by
  cases action <;> try simp [effect]
  case exit other =>
    by_cases same : rank = other
    · subst same
      simp
    · simp [Function.update_of_ne same, Ne.symm same]

theorem effect_counter (history : List (Collective Value)) (action : Action) (devices : Devices Value) (rank : Nat)
    (scratch : Scratch) : (effect history action devices).counter rank scratch =
      devices.counter rank scratch + if action = .arrive rank scratch then 1 else 0 := by
  cases action <;> try simp [effect]
  case arrive other third =>
    rw [Tables.store_apply]
    by_cases same : rank = other ∧ scratch = third
    · obtain ⟨rfl, rfl⟩ := same
      simp
    · rw [if_neg same, if_neg fun equal => same ⟨equal.1.symm, equal.2.symm⟩, Nat.add_zero]

/-- Only the last stage of a launch has exits, and it has nothing else. -/
theorem exit_iff {start : Nat → Scratch → Nat} (filled : Filled history)
    (member : action ∈ (historyStages start history).stage index agent) (rank : Nat) :
    action = .exit rank ↔ ∃ launch < history.length, index = stageWidth * launch + 22 ∧
      agent ∈ ctasOf rank (gridOf history launch rank) := by
  constructor
  · rintro rfl
    cases agent with
    | engine bulk =>
      obtain ⟨_, _, _, _, ⟨_, same⟩ | ⟨_, moves⟩ | ⟨_, same⟩⟩ := engine_stage member
      · cases same
      · exact moves.elim
      · cases same
    | cta other cta =>
      obtain ⟨collective, found, inside, job, given, rfl, last⟩ := cta_stage member
      refine ⟨index / stageWidth, (List.getElem?_eq_some_iff.mp found).1, ?_, mem_ctasOf.mpr ⟨cta, ?_, rfl⟩⟩
      · rw [← last, Nat.div_add_mod]
      · rwa [gridOf_found found]
  · rintro ⟨launch, inRange, rfl, isCta⟩
    obtain ⟨cta, inside, rfl⟩ := mem_ctasOf.mp isCta
    obtain ⟨collective, found, inside⟩ := gridOf_inside inside
    obtain ⟨job, given⟩ := filled launch collective found rank cta inside
    rw [stage_cta found inside given (by decide)] at member
    exact List.mem_singleton.mp member

/-- The arrivals of a launch are three stages of it, and these have nothing else. -/
theorem arrive_iff {start : Nat → Scratch → Nat} (filled : Filled history)
    (member : action ∈ (historyStages start history).stage index agent) (rank : Nat) (scratch : Scratch) :
    action = .arrive rank scratch ↔ ∃ round < 3 * history.length,
      index = stageWidth * (round / 3) + arriveStage (round % 3) ∧
        agent ∈ ctasOf rank (counterGrid history (round / 3) rank scratch) := by
  constructor
  · rintro rfl
    cases agent with
    | engine bulk =>
      obtain ⟨_, _, _, _, ⟨_, same⟩ | ⟨_, moves⟩ | ⟨_, same⟩⟩ := engine_stage member
      · cases same
      · exact moves.elim
      · cases same
    | cta other cta =>
      obtain ⟨collective, found, inside, job, given, rfl, rfl, stage⟩ := cta_stage member
      have inRange := (List.getElem?_eq_some_iff.mp found).1
      have isCta : Agent.cta rank cta ∈ ctasOf rank (counterGrid history (index / stageWidth) rank collective.scratch) :=
        mem_ctasOf.mpr ⟨cta, by rwa [counterGrid_found found], rfl⟩
      have split := Nat.div_add_mod index stageWidth
      have at_round : ∀ inner < 3, index % stageWidth = arriveStage inner →
          ∃ round < 3 * history.length, index = stageWidth * (round / 3) + arriveStage (round % 3) ∧
            Agent.cta rank cta ∈ ctasOf rank (counterGrid history (round / 3) rank collective.scratch) := by
        intro inner below same
        have whole : (3 * (index / stageWidth) + inner) / 3 = index / stageWidth := by omega
        have part : (3 * (index / stageWidth) + inner) % 3 = inner := by omega
        refine ⟨3 * (index / stageWidth) + inner, by omega, ?_, by rwa [whole]⟩
        rw [whole, part, ← same, split]
      rcases stage with first | second | third
      · exact at_round 0 (by decide) first
      · exact at_round 1 (by decide) second
      · exact at_round 2 (by decide) third
  · rintro ⟨round, inRange, rfl, isCta⟩
    obtain ⟨cta, inside, rfl⟩ := mem_ctasOf.mp isCta
    obtain ⟨collective, found, rfl, launched⟩ := counterGrid_inside inside
    obtain ⟨job, given⟩ := filled _ collective found rank cta launched
    have below : arriveStage (round % 3) < stageWidth := by
      unfold arriveStage stageWidth
      split
      · decide
      · split <;> decide
    rw [stage_cta found launched given below] at member
    unfold arriveStage at member
    split at member
    · exact List.mem_singleton.mp member
    · split at member
      · exact List.mem_singleton.mp member
      · exact List.mem_singleton.mp member

theorem exit_rule (launched : Launched worldSize history) (entry : Entry history devices) (rank : Nat) :
    (exitBarriers history rank).Rule (fastProgram devices.counter history) devices
      (historyStages devices.counter history) where
  code agent := agentCode_staged launched.filled agent
  initial := entry.exited rank
  ordered first _ second _ same := by
    change stageWidth * first + 22 = stageWidth * second + 22 at same
    unfold stageWidth at same
    omega
  single launch _ agent member := by
    obtain ⟨cta, inside, rfl⟩ := mem_ctasOf.mp member
    obtain ⟨collective, found, inside⟩ := gridOf_inside inside
    obtain ⟨job, given⟩ := launched.filled launch collective found rank cta inside
    change ((historyStages devices.counter history).stage (stageWidth * launch + 22) _).length = 1
    rw [stage_cta found inside given (by decide)]
    rfl
  counts agent index _ action member shared := by
    change (effect history action shared).exited rank = shared.exited rank + _
    rw [effect_exited, if_congr (exit_iff launched.filled member rank) rfl rfl]
    rfl
  waits launch _ agent waiting := by
    obtain ⟨cta, inside, rfl⟩ := mem_ctasOf.mp waiting
    obtain ⟨collective, found, inside⟩ := gridOf_inside inside
    obtain ⟨job, given⟩ := launched.filled (launch + 1) collective found rank cta inside
    have stage : (historyStages devices.counter history).stage (stageWidth * (launch + 1) + 0) (.cta rank cta) = _ :=
      stage_cta found inside given (by decide)
    refine ⟨.enter (launch + 1) rank, stage, ?_⟩
    intro shared _ allowed
    rw [exitBarriers_target]
    exact allowed
  linked state _ passed := by
    intro round later before inRange agent member begun
    induction later generalizing agent with
    | zero => exact absurd before (Nat.not_lt_zero _)
    | succ later ih =>
      have complete := passed later (Nat.lt_of_succ_lt inRange) agent member
        (begun.mono (by
          change stageWidth * (later + 1) + 1 ≤ stageWidth * (later + 1) + 22 + 1
          omega))
      rcases Nat.lt_succ_iff_lt_or_eq.mp before with earlier | rfl
      · obtain ⟨cta, inside, rfl⟩ := mem_ctasOf.mp member
        obtain ⟨collective, found, inside⟩ := gridOf_inside inside
        have isRank := (launched.grids (later + 1) collective found rank).mp (Nat.zero_lt_of_lt inside)
        obtain ⟨other, there⟩ : ∃ other, history[later]? = some other :=
          ⟨_, List.getElem?_eq_getElem (Nat.lt_of_succ_lt inRange)⟩
        have peopled : Agent.cta rank 0 ∈ ctasOf rank (gridOf history later rank) := by
          refine mem_ctasOf.mpr ⟨0, ?_, rfl⟩
          rw [gridOf_found there]
          exact (launched.grids later other there rank).mpr isRank
        exact ih earlier (Nat.lt_of_succ_lt inRange) _ peopled (complete _ peopled)
      · exact complete

/-- Once a CTA has entered a kernel, all CTAs of the earlier kernels of its rank have left theirs. -/
theorem entered (launched : Launched worldSize history) (entry : Entry history devices)
    (reached : (fastProgram devices.counter history).Reachable devices state)
    (inside : cta < gridOf history later rank)
    (begun : (historyStages devices.counter history).Reached state.pc (.cta rank cta) (stageWidth * later + 1))
    (before : launch < later) :
    ∀ other < gridOf history launch rank,
      (historyStages devices.counter history).Reached state.pc (.cta rank other) (stageWidth * launch + 23) := by
  have rule := exit_rule launched entry rank
  have met := Barriers.met_of_reachable rule reached
  obtain ⟨previous, rfl⟩ : ∃ previous, later = previous + 1 := Nat.exists_eq_succ_of_ne_zero (Nat.ne_zero_of_lt before)
  obtain ⟨collective, found, inGrid⟩ := gridOf_inside inside
  have inRange : previous + 1 < history.length := (List.getElem?_eq_some_iff.mp found).1
  have complete := met.passed previous (Nat.lt_of_succ_lt inRange) (.cta rank cta) (mem_ctasOf.mpr ⟨cta, inside, rfl⟩)
    begun
  intro other below
  have member : Agent.cta rank other ∈ ctasOf rank (gridOf history launch rank) := mem_ctasOf.mpr ⟨other, below, rfl⟩
  rcases Nat.lt_succ_iff_lt_or_eq.mp before with earlier | rfl
  · have isRank := (launched.grids (previous + 1) collective found rank).mp (Nat.zero_lt_of_lt inGrid)
    obtain ⟨last, there⟩ : ∃ last, history[previous]? = some last :=
      ⟨_, List.getElem?_eq_getElem (Nat.lt_of_succ_lt inRange)⟩
    have peopled : Agent.cta rank 0 ∈ ctasOf rank (gridOf history previous rank) := by
      refine mem_ctasOf.mpr ⟨0, ?_, rfl⟩
      rw [gridOf_found there]
      exact (launched.grids previous last there rank).mpr isRank
    exact rule.linked state reached met.passed launch previous earlier (Nat.lt_of_succ_lt inRange) _ peopled
      (complete _ peopled) _ member
  · exact complete _ member

theorem arriveStage_below (round : Nat) : arriveStage round + 1 < stageWidth := by
  unfold arriveStage stageWidth
  split
  · decide
  · split <;> decide

theorem arriveStage_inj (below : first < 3) (belowSecond : second < 3) (same : arriveStage first = arriveStage second) :
    first = second := by
  unfold arriveStage at same
  split_ifs at same <;> omega

theorem arriveStage_lt (before : first < second) (below : second < 3) :
    arriveStage first + 1 < arriveStage second := by
  unfold arriveStage
  split_ifs <;> omega

/-- An arrived CTA that the words let pass has seen all CTAs arrive. -/
theorem counter_passed {round : Nat} (unwrapped : count ≤ 1 ∨ toUInt32 (value + 1) + 3 * count ≤ 2 ^ 32)
    (below : round < 3) (grid : 0 < count) (counted : value + round * count < counter)
    (allowed : toUInt32 (value + (round + 1) * count) ≤ toUInt32 counter) : value + (round + 1) * count ≤ counter := by
  have next : (round + 1) * count = round * count + count := Nat.succ_mul round count
  have most : (round + 1) * count ≤ 3 * count := Nat.mul_le_mul_right count (Nat.succ_le_of_lt below)
  rcases unwrapped with alone | together
  · omega
  · rcases Nat.lt_or_ge counter (value + 3 * count) with inside | past
    · exact (toUInt32_le_iff together (by omega) (by omega) (by omega) (by omega)).mp allowed
    · omega

/-- The words let an arrived CTA pass when all CTAs have arrived. -/
theorem counter_open {round : Nat} (unwrapped : count ≤ 1 ∨ toUInt32 (value + 1) + 3 * count ≤ 2 ^ 32)
    (grid : 0 < count) (shown : value + (round + 1) * count ≤ counter)
    (most : counter ≤ value + 3 * count) (alone : count ≤ 1 → counter ≤ value + (round + 1) * count) :
    toUInt32 (value + (round + 1) * count) ≤ toUInt32 counter := by
  have next : (round + 1) * count = round * count + count := Nat.succ_mul round count
  rcases unwrapped with single | together
  · rw [Nat.le_antisymm shown (alone single)]
  · exact (toUInt32_le_iff together (by omega) (by omega) (by omega) (by omega)).mpr shown

theorem grid_rule (launched : Launched worldSize history) (entry : Entry history devices) (rank : Nat) (scratch : Scratch) :
    (gridBarriers devices.counter history rank scratch).Rule (fastProgram devices.counter history) devices
      (historyStages devices.counter history) where
  code agent := agentCode_staged launched.filled agent
  initial := rfl
  ordered first _ second _ same := by
    have below := arriveStage_below (first % 3)
    have belowSecond := arriveStage_below (second % 3)
    change stageWidth * (first / 3) + arriveStage (first % 3) = stageWidth * (second / 3) + arriveStage (second % 3)
      at same
    have whole : first / 3 = second / 3 := by
      unfold stageWidth at *
      omega
    rw [whole, Nat.add_left_cancel_iff] at same
    have part := arriveStage_inj (Nat.mod_lt _ (by decide)) (Nat.mod_lt _ (by decide)) same
    omega
  single round _ agent member := by
    obtain ⟨cta, inside, rfl⟩ := mem_ctasOf.mp member
    obtain ⟨collective, found, same, inGrid⟩ := counterGrid_inside inside
    obtain ⟨job, given⟩ := launched.filled _ collective found rank cta inGrid
    change ((historyStages devices.counter history).stage
      (stageWidth * (round / 3) + arriveStage (round % 3)) _).length = 1
    rw [stage_cta found inGrid given (Nat.lt_of_succ_lt (arriveStage_below _))]
    unfold arriveStage
    split
    · rfl
    · split <;> rfl
  counts agent index _ action member shared := by
    change (effect history action shared).counter rank scratch = shared.counter rank scratch + _
    rw [effect_counter, if_congr (arrive_iff launched.filled member rank scratch) rfl rfl]
    rfl
  waits round inRange agent waiting := by
    obtain ⟨cta, inside, rfl⟩ := mem_ctasOf.mp waiting
    obtain ⟨collective, found, rfl, inGrid⟩ := counterGrid_inside inside
    obtain ⟨job, given⟩ := launched.filled _ collective found rank cta inGrid
    have below := Nat.mod_lt round (show 0 < 3 by decide)
    refine ⟨.wait rank collective.scratch (lastValue devices.counter (history.take (round / 3)) rank collective.scratch +
      (round % 3 + 1) * (collective.launch rank).ctaCount), ?_, ?_⟩
    · change (historyStages devices.counter history).stage
        (stageWidth * (round / 3) + (arriveStage (round % 3) + 1)) _ = _
      rw [stage_cta found inGrid given (arriveStage_below _)]
      obtain first | second | third : round % 3 = 0 ∨ round % 3 = 1 ∨ round % 3 = 2 := by omega
      · rw [first, Nat.zero_add, Nat.one_mul]
        rfl
      · rw [second]
        rfl
      · rw [third]
        rfl
    · intro shared counts allowed
      have grid := counterGrid_found found rank
      have first : (gridBarriers devices.counter history rank collective.scratch).target
          (3 * (round / 3) + round % 3) = _ := gridBarriers_target rank collective.scratch (round / 3) below.le
      have last : (gridBarriers devices.counter history rank collective.scratch).target
          (3 * (round / 3) + (round % 3 + 1)) = _ :=
        gridBarriers_target rank collective.scratch (round / 3) (Nat.succ_le_of_lt below)
      rw [Nat.div_add_mod, grid] at first
      rw [← Nat.add_assoc, Nat.div_add_mod, grid] at last
      have counted := counts (mem_ctasOf.mpr ⟨cta, inside, rfl⟩) (Nat.lt_succ_self _)
      rw [first] at counted
      rw [last]
      exact counter_passed (entry.unwrapped _ collective found rank) below (Nat.zero_lt_of_lt inGrid) counted allowed
  linked state reached passed := by
    intro round later before inRange agent member begun
    obtain ⟨cta, inside, rfl⟩ := mem_ctasOf.mp member
    obtain ⟨collective, found, same, inGrid⟩ := counterGrid_inside inside
    rcases Nat.lt_or_eq_of_le (Nat.div_le_div_right (c := 3) before.le) with earlier | together
    · intro other isMember
      obtain ⟨index, below, rfl⟩ := mem_ctasOf.mp isMember
      obtain ⟨past, there, -, launchedThere⟩ := counterGrid_inside below
      have grid : cta < gridOf history (later / 3) rank := by rwa [gridOf_found found]
      have gridThere : index < gridOf history (round / 3) rank := by rwa [gridOf_found there]
      have left := entered launched entry reached grid
        (begun.mono (by
          change stageWidth * (later / 3) + 1 ≤ stageWidth * (later / 3) + arriveStage (later % 3) + 1
          omega)) earlier index gridThere
      have below := arriveStage_below (round % 3)
      exact left.mono (by
        change stageWidth * (round / 3) + arriveStage (round % 3) + 1 ≤ stageWidth * (round / 3) + 23
        unfold stageWidth at *
        omega)
    · have waiter : Agent.cta rank cta ∈ (gridBarriers devices.counter history rank scratch).waiters round := by
        change _ ∈ ctasOf rank (counterGrid history (round / 3) rank scratch)
        rw [together]
        exact member
      have apart : arriveStage (round % 3) + 1 < arriveStage (later % 3) :=
        arriveStage_lt (by omega) (Nat.mod_lt _ (by decide))
      refine passed round (before.trans inRange) _ waiter (begun.mono ?_)
      change stageWidth * (round / 3) + (arriveStage (round % 3) + 1) + 1 ≤
        stageWidth * (later / 3) + arriveStage (later % 3) + 1
      rw [together]
      omega

end Rules

end Ooverlap.Fast
