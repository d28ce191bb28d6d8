import Ooverlap.Lowering.Agreement
import Ooverlap.Plan.OneIsland
import Ooverlap.Semantics.AllGatherDelivery
import Ooverlap.Semantics.AllGatherIslandSlices
import Ooverlap.Semantics.AllReduceIslandSums
import Ooverlap.Semantics.ReduceScatterIslandSums

/-! Which planned ready tasks lowering accepts: those that the entry rendezvous of the kernel stands for. -/

namespace Ooverlap.Lowering

open Plan Semantics

section Accepting

/-- A ready task of the rank that the entry rendezvous stands for; other tasks pass. -/
def Prologue (rank : Int) (task : TransferTask) : Prop :=
  transferTaskIsReady task = true → transferReadyTaskIsKernelPrologue task rank = true

theorem collectFrom_prologue (collected : collectFrom rank seen tasks = some kept) :
    ∀ task ∈ tasks, task.executorRank = rank → Prologue rank task := by
  induction tasks generalizing seen kept with
  | nil => exact fun _ none => nomatch none
  | cons task rest ih =>
    have later : ∀ seen, (∃ kept, collectFrom rank seen rest = some kept) →
        (task.executorRank = rank → Prologue rank task) →
        ∀ other ∈ task :: rest, other.executorRank = rank → Prologue rank other := by
      intro seen ⟨kept, rested⟩ here other member
      rcases List.mem_cons.mp member with rfl | inRest
      · exact here
      · exact ih rested other inRest
    rw [collectFrom] at collected
    split at collected
    · next foreign => exact later _ ⟨_, collected⟩ fun own => absurd own foreign
    · split at collected
      · cases collected
      · split at collected
        · next barrier =>
          obtain ⟨others, rested, _⟩ := Option.map_eq_some_iff.mp collected
          refine later _ ⟨_, rested⟩ fun _ ready => ?_
          rw [barrier_not_ready barrier] at ready
          cases ready
        · split at collected
          · split at collected
            · cases collected
            · next accepted =>
              rw [Bool.or_eq_true, not_or, Bool.not_eq_true', Bool.not_eq_false] at accepted
              exact later _ ⟨_, collected⟩ fun _ _ => accepted.2
          · next unready =>
            split at collected
            · cases collected
            · obtain ⟨others, rested, _⟩ := Option.map_eq_some_iff.mp collected
              exact later _ ⟨_, rested⟩ fun _ ready => absurd ready unready

variable {limits : LoweringLimits} {binding : RankPointerBinding} {plan : TransferPlan}

/-- What a successful lowering has checked. -/
theorem lowered_accepts (lowered : (lowerTransferPlanForRank limits plan binding launchConfig options).1 = true) :
    (∃ ctx, makeLoweringContext limits binding launchConfig options = some ctx) ∧
      ∀ task ∈ rankTasks plan binding.currentRank, Prologue binding.currentRank task := by
  unfold lowerTransferPlanForRank at lowered
  split at lowered
  · next windowPlan numBlocks passes =>
    unfold lowerPasses at passes
    obtain ⟨ctx, made, passes⟩ := Option.bind_eq_some_iff.mp passes
    obtain ⟨first, collected, _⟩ := Option.bind_eq_some_iff.mp passes
    unfold collectRankTransferTasks at collected
    split at collected
    · cases collected
    · obtain ⟨kept, scanned, _⟩ := Option.bind_eq_some_iff.mp collected
      obtain ⟨_, current, _⟩ := makeLoweringContext_checked made
      refine ⟨⟨ctx, made⟩, fun task member => ?_⟩
      obtain ⟨inPlan, own⟩ := List.mem_filter.mp member
      have prologue := collectFrom_prologue scanned task inPlan
      rw [current] at prologue
      exact prologue (of_decide_eq_true own)
  · cases lowered

/-- A rank without tasks lowers to an empty launch. -/
theorem lower_nothing (made : makeLoweringContext limits binding launchConfig options = some ctx)
    (within : plan.tasks.length ≤ limits.maxTransferTasks) (idle : rankTasks plan binding.currentRank = []) :
    (lowerTransferPlanForRank limits plan binding launchConfig options).1 = true := by
  obtain ⟨_, current, _⟩ := makeLoweringContext_checked made
  have own : rankTasks plan ctx.currentRank = [] ++ [] := by rw [current, idle, List.append_nil]
  obtain ⟨first, buffer, collected, passed, empty, counted⟩ := collect_working within own
    (fun _ none => nomatch none) (fun _ none => nomatch none)
  have total := counted.total
  have barriers := counted.barriers
  have windows := counted.windows
  rw [empty, List.length_nil] at total
  have computed : computeLoweringShape limits ctx buffer = some { maxEndWindow := buffer.maxEndWindow } := by
    rw [computeLoweringShape, if_pos]
    omega
  have passes : lowerPasses limits plan binding launchConfig options = some ({}, 0) := by
    simp only [lowerPasses, made, collected, passed, computed, Option.bind_eq_bind, Option.bind_some]
    rfl
  rw [lowerTransferPlanForRank, passes]

end Accepting

section OneIsland

variable {input : TransferPlanBuildInput} {rank : Int}

/-- What a plan of one island holds for a rank: nothing, or entry signals before the work on its slice. -/
inductive RankOutline (input : TransferPlanBuildInput) (rank : Int) : List TransferTask → Prop
  | idle : RankOutline input rank []
  | working (several : input.worldSize ≠ 1) (active : ¬AllReduce.SliceSkipped input rank)
    (signals : ∀ task ∈ opening, EntrySignal input rank task) (bodies : ∀ task ∈ body, RankBody input rank task)
    (worker : ∃ task ∈ body, SliceWork input rank task) (few : body.length ≤ 3 * kPlannerMaxRanks) :
    RankOutline input rank (opening ++ body)

theorem entryReady_of_signal (signal : EntrySignal input rank task) (prologue : Prologue rank task) :
    EntryReady rank task := by
  obtain ⟨executor, op, hasWork, phase, _⟩ := signal
  have isReady : transferTaskIsReady task = true := by
    rcases op with op | op <;> simp [transferTaskIsReady, op]
  have accepted := prologue isReady
  simp only [transferReadyTaskIsKernelPrologue, Bool.and_eq_true, decide_eq_true_eq] at accepted
  exact ⟨executor, op, hasWork, phase, accepted.2⟩

theorem rankBody_not_ready (body : RankBody input rank task) : transferTaskIsReady task = false := by
  rcases body with ⟨op, _⟩ | work
  · simp [transferTaskIsReady, op]
  · exact windowed_not_ready (sliceWork_windowed work)

/-- Waits of a direct plan name a peer. -/
theorem directCode_owner {plan : TransferPlan} (workload : SliceWorkload input work)
    (code : (rankTasks plan rank).map TransferTask.unmarked = (directStages input work).code rank)
    (inPlace : input.outOfPlace = false) (inRange : rank ∈ intRange input.worldSize)
    (member : task ∈ rankTasks plan rank) (isWait : task.op = .readyWait) :
    task.readyRank ∈ peersOf rank input.worldSize := by
  have listed : task.unmarked ∈ (directStages input work).code rank := code ▸ List.mem_map_of_mem member
  have noInputs : inputCopies input rank = [] := by simp [inputCopies, inPlace]
  rw [directStages_code inRange, noInputs, List.nil_append] at listed
  rcases List.mem_append.mp listed with entry | works
  · rcases List.mem_append.mp entry with publish | wait
    · obtain ⟨channel, _, same⟩ := List.mem_map.mp publish
      have published := congrArg TransferTask.op same
      rw [show task.unmarked.op = task.op from rfl, isWait] at published
      cases published
    · obtain ⟨peer, isPeer, same⟩ := List.mem_map.mp wait
      have owner := congrArg TransferTask.readyRank same
      change peer = task.readyRank at owner
      exact owner ▸ isPeer
  · have moves := workload.moves rank inRange _ works
    change movesData task.unmarked at moves
    simp [movesData, TransferTask.unmarked, isWait] at moves

/-- A shape with waits that name peers is an outline. -/
theorem rankOutline_of_shape {plan : TransferPlan} (shape : RankShape input rank plan)
    (owners : ∀ task ∈ rankTasks plan rank, task.op = .readyWait → task.readyRank ∈ peersOf rank input.worldSize) :
    RankOutline input rank (rankTasks plan rank) := by
  by_cases idle : input.worldSize = 1 ∨ AllReduce.SliceSkipped input rank
  · rw [shape.idle idle]
    exact .idle
  · obtain ⟨opening, body, own, ready, bodies, worker, few⟩ := shape.working idle
    obtain ⟨several, active⟩ := not_or.mp idle
    rw [own]
    refine .working several active (fun task member => ?_) bodies worker few
    obtain ⟨executor, op, hasWork, phase, _⟩ := ready task member
    exact ⟨executor, op, hasWork, phase, owners task (own ▸ List.mem_append_left _ member)⟩

theorem buildTransferPlan_capacity (inPlace : input.outOfPlace = false) (single : AllReduce.OneIsland input)
    (built : (buildTransferPlan collective storage input).1 = true) :
    (buildTransferPlan collective storage input).2.tasks.length ≤ maxTransferTasks collective := by
  cases collective with
  | allReduce => exact (AllReduce.buildAllreduceTransferPlan_ranks inPlace single built).1
  | reduceScatter =>
    exact (buildReduceScatterTransferPlan_shape inPlace (buildReduceScatterTransferPlan_allDirect single built) built).1.capacity
  | allGather =>
    exact (buildAllGatherTransferPlan_shape inPlace (buildAllGatherTransferPlan_allDirect single built) built).1.capacity

/-- The in-place plan of one island holds for every rank nothing, or entry signals and then work on its slice. -/
theorem buildTransferPlan_outline (inPlace : input.outOfPlace = false) (single : AllReduce.OneIsland input)
    (built : (buildTransferPlan collective storage input).1 = true) (inRange : rank ∈ intRange input.worldSize) :
    RankOutline input rank (rankTasks (buildTransferPlan collective storage input).2 rank) := by
  cases collective with
  | allReduce =>
    obtain ⟨_, transports, reaches, ranks⟩ := AllReduce.buildAllreduceTransferPlan_ranks inPlace single built
    have small := ((validBuildInput_iff input).mp (runPlanner_ok built).1).1.2
    have own := ranks rank
    rw [if_pos inRange] at own
    change RankOutline input rank (rankTasks (AllReduce.buildAllreduceTransferPlan _ storage input).2 rank)
    rw [own]
    by_cases idle : AllReduce.SliceSkipped input rank ∨ peersOf rank input.worldSize = []
    · rw [AllReduce.directRankBlock_idle inPlace idle]
      exact .idle
    · obtain ⟨active, hasPeers⟩ := not_or.mp idle
      have several : 1 < input.worldSize := by
        by_contra alone
        exact hasPeers (peersOf_single (not_lt.mp alone) inRange)
      obtain ⟨signals, body, block, isSignal, bodies, worker, few⟩ := AllReduce.directRankBlock_opening inPlace
        ((reaches rank inRange).resolve_left active) small several active inRange
      rw [block]
      exact .working (by omega) active (fun task member => (isSignal task member).2) bodies worker few
  | reduceScatter =>
    have direct := buildReduceScatterTransferPlan_allDirect single built
    obtain ⟨_, _, transports, _, state, ran, same⟩ := buildReduceScatterTransferPlan_direct direct built
    refine rankOutline_of_shape ((buildReduceScatterTransferPlan_shape inPlace direct built).1.ranks rank inRange) ?_
    have code := directBuild_code (fun rank _ => ReduceScatter.emitSliceReductions_lists _ input transports rank)
      sliceReductions_workload.executor ran rank
    rw [← same] at code
    exact fun task member isWait => directCode_owner sliceReductions_workload code inPlace inRange member isWait
  | allGather =>
    have direct := buildAllGatherTransferPlan_allDirect single built
    obtain ⟨_, _, transports, _, state, ran, same⟩ := buildAllGatherTransferPlan_direct direct built
    refine rankOutline_of_shape ((buildAllGatherTransferPlan_shape inPlace direct built).1.ranks rank inRange) ?_
    have code := directBuild_code (fun rank _ => AllGather.emitAllGatherSourceCopies_lists _ input transports rank _ _ _ _)
      directCopies_workload.executor ran rank
    rw [← same] at code
    exact fun task member isWait => directCode_owner directCopies_workload code inPlace inRange member isWait

end OneIsland

section Staged

variable {input : TransferPlanBuildInput} {islands : IslandPlan} {rank : Int}

/-- A wait of the rank for a phase past the entry phase. -/
def WaitsLater (rank : Int) (tasks : List TransferTask) : Prop :=
  ∃ task ∈ tasks, task.executorRank = rank ∧ task.op = .readyWait ∧ task.readyPhase ≠ 0

theorem WaitsLater.refused (later : WaitsLater rank tasks) : ¬∀ task ∈ tasks, Prologue rank task := by
  obtain ⟨task, member, _, op, phase⟩ := later
  intro prologue
  have accepted := prologue task member (by simp [transferTaskIsReady, op])
  simp only [transferReadyTaskIsKernelPrologue, Bool.and_eq_true, decide_eq_true_eq] at accepted
  exact phase accepted.1.2

/-- What a listing waits for, the tasks it lists wait for as well. -/
theorem WaitsLater.of_unmarked {listing : List TransferTask}
    (same : ((tasks.map TransferTask.unmarked).filter keep) = listing.filter fun task => task.executorRank = rank)
    (later : WaitsLater rank listing) : WaitsLater rank tasks := by
  obtain ⟨task, member, own, op, phase⟩ := later
  have listed : task ∈ listing.filter fun task => task.executorRank = rank :=
    List.mem_filter.mpr ⟨member, decide_eq_true own⟩
  rw [← same] at listed
  obtain ⟨original, inTasks, rfl⟩ := List.mem_map.mp (List.mem_of_mem_filter listed)
  exact ⟨original, inTasks, own, op, phase⟩

/-- A group of several islands seen from one rank: its own island, and another one to hear from. -/
theorem island_and_another (partition : Partition input.worldSize islands) (several : 1 < islands.islandCount)
    (inRange : rank ∈ intRange input.worldSize) :
    islands.islandOfRank rank ∈ intRange islands.islandCount ∧ 0 ≤ islands.islandOfRank rank ∧
      ∃ other, other ∈ peersOf (islands.islandOfRank rank) islands.islandCount ∧ 0 ≤ other := by
  obtain ⟨other, isPeer⟩ := List.exists_mem_of_ne_nil _ (peersOf_busy several (islands.islandOfRank rank))
  have home := partition.home rank inRange
  exact ⟨home, (mem_intRange.mp home).1, other, isPeer, (mem_peersOf.mp isPeer).1.1⟩

theorem allReduce_waitsLater (partition : Partition input.worldSize islands) (several : 1 < islands.islandCount)
    (inRange : rank ∈ intRange input.worldSize) :
    WaitsLater rank (AllReduce.stagedTasks input transports islands) := by
  obtain ⟨home, lower, other, isPeer, nonnegative⟩ := island_and_another partition several inRange
  by_cases leads : islands.leaderRank (islands.islandOfRank rank) = rank
  · refine ⟨AllReduce.stagedWait input islands other rank, ?_, rfl, rfl, ?_⟩
    · simp only [AllReduce.stagedTasks, List.mem_append, List.mem_flatMap]
      refine Or.inr (Or.inr (Or.inr (Or.inl ⟨_, home, other, isPeer, ?_⟩)))
      rw [leads]
      exact List.mem_cons_self ..
    · change 1 + other ≠ 0
      omega
  · refine ⟨AllReduce.finalWait input islands (islands.islandOfRank rank) rank, ?_, rfl, rfl, ?_⟩
    · simp only [AllReduce.stagedTasks, List.mem_append, List.mem_flatMap]
      refine Or.inr (Or.inr (Or.inr (Or.inr ⟨_, home, Or.inr ⟨rank, ?_, List.mem_cons_self ..⟩⟩)))
      exact partition.mem_members.mpr ⟨⟨inRange, rfl⟩, Ne.symm leads⟩
    · change 1 + 16 + islands.islandOfRank rank ≠ 0
      omega

theorem reduceScatter_waitsLater (partition : Partition input.worldSize islands) (several : 1 < islands.islandCount)
    (inRange : rank ∈ intRange input.worldSize) :
    WaitsLater rank (ReduceScatter.stagedTasks input transports islands) := by
  obtain ⟨home, _, other, isPeer, nonnegative⟩ := island_and_another partition several inRange
  refine ⟨ReduceScatter.stagedWait input islands other rank, ?_, rfl, rfl, ?_⟩
  · simp only [ReduceScatter.stagedTasks, List.mem_append, List.mem_flatMap]
    refine Or.inr (Or.inr (Or.inr (Or.inr (Or.inr ⟨_, home, rank, ?_, other, isPeer, List.mem_cons_self ..⟩))))
    exact partition.mem_ranks.mpr ⟨inRange, rfl⟩
  · change 1 + 16 + other ≠ 0
    omega

theorem allGather_waitsLater (partition : Partition input.worldSize islands) (several : 1 < islands.islandCount)
    (inRange : rank ∈ intRange input.worldSize) :
    WaitsLater rank (AllGather.stagedTasks input transports islands) := by
  obtain ⟨home, lower, other, isPeer, nonnegative⟩ := island_and_another partition several inRange
  by_cases leads : islands.leaderRank (islands.islandOfRank rank) = rank
  · refine ⟨AllGather.stagedWait input islands other rank, ?_, rfl, rfl, ?_⟩
    · simp only [AllGather.stagedTasks, List.mem_append, List.mem_flatMap]
      refine Or.inr (Or.inr (Or.inr (Or.inr (Or.inr (Or.inl ⟨_, home, other, isPeer, ?_⟩)))))
      rw [leads]
      exact List.mem_cons_self ..
    · change 2 + other ≠ 0
      omega
  · refine ⟨AllGather.memberWait input islands other (islands.islandOfRank rank) rank, ?_, rfl, rfl, ?_⟩
    · simp only [AllGather.stagedTasks, List.mem_append, List.mem_flatMap]
      refine Or.inr (Or.inr (Or.inr (Or.inr (Or.inr (Or.inr ⟨_, home, other, isPeer, rank, ?_, List.mem_cons_self ..⟩)))))
      exact partition.mem_members.mpr ⟨⟨inRange, rfl⟩, Ne.symm leads⟩
    · change 2 + 16 + other * 16 + islands.islandOfRank rank ≠ 0
      omega

/-- Every rank of a staged plan waits for a later phase. -/
theorem buildTransferPlan_waitsLater (several : SeveralIslands input)
    (built : (buildTransferPlan collective storage input).1 = true) (inRange : rank ∈ intRange input.worldSize) :
    WaitsLater rank (rankTasks (buildTransferPlan collective storage input).2 rank) := by
  cases collective with
  | allReduce =>
    obtain ⟨_, transports, islands, ⟨staged, many⟩, kept, _⟩ := AllReduceIslands.stagedBuild several built
    exact (allReduce_waitsLater staged.toPartition many inRange).of_unmarked (kept rank)
  | reduceScatter =>
    obtain ⟨_, transports, islands, ⟨staged, many⟩, kept⟩ := ReduceScatterIslands.stagedBuild several built
    have all := kept rank
    rw [← List.filter_true (List.map TransferTask.unmarked _)] at all
    exact (reduceScatter_waitsLater staged.toPartition many inRange).of_unmarked all
  | allGather =>
    obtain ⟨transports, found, matrix, searched, many⟩ := several
    cases grouped : AllGather.buildAllGatherIslands input transports with
    | none =>
      obtain ⟨_, state, ran, _⟩ := runPlanner_ok built
      simp [AllGather.planAllGather, matrix, grouped, transferPlanAbortBuild] at ran
    | some islands =>
      have same : found = islands := by
        rw [AllGather.buildAllGatherIslands, searched, Option.bind_some] at grouped
        split at grouped
        · exact Option.some.inj grouped
        · cases grouped
      subst same
      obtain ⟨_, assigned, slots, staged, _, kept⟩ := AllGatherIslands.stagedBuild matrix grouped many built
      rw [← slots] at many
      have all := kept rank
      rw [← List.filter_true (List.map TransferTask.unmarked _)] at all
      exact (allGather_waitsLater staged.toPartition many inRange).of_unmarked all

end Staged

section Outcome

variable {input : TransferPlanBuildInput} {collective : Collective} {rank : Int} {binding : RankPointerBinding}

/-- CTA counts that lowering admits; an all-gather does not group its CTAs. -/
def LaunchCounts (collective : Collective) (launchConfig : LaunchConfig) : Prop :=
  (0 < launchConfig.maxCtas ∧ launchConfig.maxCtas ≤ 32) ∧
    (collective ≠ .allGather → 0 < launchConfig.maxCtasPerReduceTask ∧ launchConfig.maxCtasPerReduceTask ≤ 32)

theorem launchCounts_of_context
    (made : makeLoweringContext limits binding launchConfig (loweringOptions collective launchConfig) = some ctx) :
    LaunchCounts collective launchConfig := by
  have ctas : kWindowTaskMaxCtas = 32 := rfl
  unfold makeLoweringContext at made
  split at made
  · cases made
  · next accepted =>
    rw [ctas] at accepted
    refine ⟨by omega, fun groups => ?_⟩
    cases collective with
    | allGather => exact absurd rfl groups
    | allReduce =>
      simp only [loweringOptions, true_and] at accepted
      omega
    | reduceScatter =>
      simp only [loweringOptions, true_and] at accepted
      omega

theorem LaunchCounts.limits (counts : LaunchCounts collective launchConfig) :
    LaunchLimits { maxTransferTasks := maxTransferTasks collective } (maxTransferTasks collective) launchConfig
      (loweringOptions collective launchConfig) := by
  refine ⟨le_refl _, (by decide : 48 ≤ 112), le_refl 16, counts.1, ?_, ?_⟩
  · cases collective with
    | allGather => exact fun enabled => nomatch enabled
    | allReduce => exact fun _ => counts.2 (by decide)
    | reduceScatter => exact fun _ => counts.2 (by decide)
  · cases collective <;> rfl

/-- Lowering succeeds on a rank exactly when the entry rendezvous stands for all of its ready tasks. -/
theorem lowerForRank_succeeds_iff (inPlace : input.outOfPlace = false)
    (built : (buildTransferPlan collective storage input).1 = true)
    (small : ∀ task ∈ (buildTransferPlan collective storage input).2.tasks, transferTaskIsWindowed task = true →
      task.bytes ≤ kWindowTaskMaxBytes)
    (inRange : rank ∈ intRange input.worldSize) (mapped : Mapped input rank binding) :
    (lowerForRank collective (buildTransferPlan collective storage input).2 input.launchConfig binding).1 = true ↔
      LaunchCounts collective input.launchConfig ∧
        ∀ task ∈ rankTasks (buildTransferPlan collective storage input).2 rank, Prologue rank task := by
  constructor
  · intro lowered
    obtain ⟨⟨ctx, made⟩, prologue⟩ := lowered_accepts lowered
    rw [mapped.currentRank] at prologue
    exact ⟨launchCounts_of_context made, prologue⟩
  · rintro ⟨counts, prologue⟩
    have valid : validBuildInput input = true := by
      cases collective <;> exact (runPlanner_ok built).1
    obtain ⟨⟨_, few⟩, _, chunks, _⟩ := (validBuildInput_iff input).mp valid
    by_cases single : AllReduce.OneIsland input
    · have outline := buildTransferPlan_outline inPlace single built inRange
      have capacity := buildTransferPlan_capacity inPlace single built
      generalize own : rankTasks (buildTransferPlan collective storage input).2 rank = tasks at outline prologue
      cases outline with
      | idle =>
        rw [← mapped.currentRank] at own
        exact lower_nothing (makeLoweringContext_some mapped inRange few counts.limits) capacity own
      | working several active signals bodies worker length =>
        obtain ⟨work, inBody, isWork⟩ := worker
        have working : Working input rank (rankTasks (buildTransferPlan collective storage input).2 rank) := by
          rw [own]
          refine ⟨_, _, rfl, fun task member => ?_, bodies, ⟨work, inBody, isWork⟩, length⟩
          exact entryReady_of_signal (signals task member) (prologue task (List.mem_append_left _ member))
        have inPlan : work ∈ (buildTransferPlan collective storage input).2.tasks := by
          refine List.mem_of_mem_filter (p := fun task => decide (task.executorRank = rank)) ?_
          change work ∈ rankTasks _ rank
          rw [own]
          exact List.mem_append_right _ inBody
        have fits := small work inPlan (sliceWork_windowed isWork)
        rw [isWork.bytes] at fits
        exact (lower_working mapped inRange few chunks counts.limits capacity active working fits).1
    · have later := buildTransferPlan_waitsLater (severalIslands_of_not_one single) built inRange
      exact absurd prologue later.refused

end Outcome

end Ooverlap.Lowering
