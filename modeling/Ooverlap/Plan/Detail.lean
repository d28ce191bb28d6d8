import Ooverlap.Plan.Utils

/-! Emission steps that the three collective planners repeat word for word. -/

namespace Ooverlap.Plan

variable (cap : Nat) (input : TransferPlanBuildInput)

def pushCopyTask (executorRank srcRank dstRank : Int) (src dst : LogicalBufferRef) (bytes : Nat)
    (numWindows : Int) (transport : TransportKind) : BuildM Unit :=
  if bytes = 0 ∨ numWindows ≤ 0 then transferPlanAbortBuild
  else do
    let phase ← nextTaskPhase executorRank
    pushTaskOrAbort cap (makeCopyTransferTask executorRank srcRank dstRank src dst bytes numWindows
      input.launchConfig.windowChunks transport false phase)

/-- Reductions out of a staging slot are opted into the TMA reduce path. -/
def stagedReduceCapabilities (task : TransferTask) : TransferTask :=
  if task.src.role = .shmStaging then
    { task with requiresTmaLoad := true, requiresTmaStore := false, requiresTmaReduce := true,
                requiresNativeAtomic := true }
  else task

def pushReduceTask (executorRank srcRank dstRank : Int) (src dst : LogicalBufferRef) (bytes : Nat)
    (numWindows : Int) (transport : TransportKind) : BuildM Unit :=
  if bytes = 0 ∨ numWindows ≤ 0 then transferPlanAbortBuild
  else do
    let phase ← nextTaskPhase executorRank
    pushTaskOrAbort cap (stagedReduceCapabilities
      (makeReduceTransferTask executorRank srcRank dstRank src dst bytes numWindows
        input.launchConfig.windowChunks transport false phase))

theorem pushCopyTask_emits (executorRank srcRank dstRank : Int) (src dst : LogicalBufferRef)
    (bytes : Nat) (numWindows : Int) (transport : TransportKind) :
    Emits cap (pushCopyTask cap input executorRank srcRank dstRank src dst bytes numWindows transport)
      (¬(bytes = 0 ∨ numWindows ≤ 0))
      (.single executorRank (makeCopyTransferTask executorRank srcRank dstRank src dst bytes numWindows
        input.launchConfig.windowChunks transport false)) :=
  (Emits.guarded _ (Emits.push cap executorRank _)).congr (iff_of_eq (and_true _)) rfl

theorem pushReduceTask_emits (executorRank srcRank dstRank : Int) (src dst : LogicalBufferRef)
    (bytes : Nat) (numWindows : Int) (transport : TransportKind) :
    Emits cap (pushReduceTask cap input executorRank srcRank dstRank src dst bytes numWindows transport)
      (¬(bytes = 0 ∨ numWindows ≤ 0))
      (.single executorRank fun phase => stagedReduceCapabilities
        (makeReduceTransferTask executorRank srcRank dstRank src dst bytes numWindows
          input.launchConfig.windowChunks transport false phase)) :=
  (Emits.guarded _ (Emits.push cap executorRank _)).congr (iff_of_eq (and_true _)) rfl

def pushReadyPublishTask (publisherRank : Int) (channel : ReadySignalChannel) (readyPhase : Int) :
    BuildM Unit := do
  let phase ← nextTaskPhase publisherRank
  pushTaskOrAbort cap (makeReadyPublishTransferTask publisherRank channel phase readyPhase)

def pushReadyWaitTask (waiterRank ownerRank readyPhase : Int) : BuildM Unit := do
  let phase ← nextTaskPhase waiterRank
  pushTaskOrAbort cap (makeReadyWaitTransferTask waiterRank ownerRank
    (chooseReadySignalChannel input.topo waiterRank ownerRank) phase readyPhase)

def pushReadyPublishForWaiters (publisherRank : Int) (waiters : List Int) (readyPhase : Int) :
    BuildM Unit :=
  let listening := waiters.filter fun waiter =>
    validRank waiter input.worldSize && waiter != publisherRank
  (publishChannels input.topo publisherRank listening).forM fun channel =>
    pushReadyPublishTask cap publisherRank channel readyPhase

def emitEntryRendezvous : BuildM Unit :=
  (intRange input.worldSize).forM fun rank =>
    appendReadyRendezvousTasks cap input.topo rank input.worldSize

/-- Out-of-place calls first bring every rank's own input slice into its buffer. -/
def emitOptionalSliceCopies : BuildM Unit :=
  if !input.outOfPlace then pure ()
  else
    (intRange input.worldSize).forM fun rank =>
      pushCopyTask cap input rank rank rank (rankInputRef rank (sliceBeginBytes input rank))
        (rankBufferRef rank (sliceBeginBytes input rank)) (sliceBytes input rank)
        (sliceWindows input rank) .directNvlink

section Makers

variable (input : TransferPlanBuildInput) (transports : TransportMatrix) (rank : Int)

def localCopyMakers : List (Int → TransferTask) :=
  if input.outOfPlace then
    [makeCopyTransferTask rank rank rank (rankInputRef rank (sliceBeginBytes input rank))
      (rankBufferRef rank (sliceBeginBytes input rank)) (sliceBytes input rank)
      (sliceWindows input rank) input.launchConfig.windowChunks .directNvlink false]
  else []

def reduceMaker (peer phase : Int) : TransferTask :=
  stagedReduceCapabilities
    (makeReduceTransferTask rank peer rank (rankBufferRef peer (sliceBeginBytes input rank))
      (rankBufferRef rank (sliceBeginBytes input rank)) (sliceBytes input rank)
      (sliceWindows input rank) input.launchConfig.windowChunks (transports rank peer) false phase)

def copyMaker (peer phase : Int) : TransferTask :=
  makeCopyTransferTask rank rank peer (rankBufferRef rank (sliceBeginBytes input rank))
    (rankBufferRef peer (sliceBeginBytes input rank)) (sliceBytes input rank)
    (sliceWindows input rank) input.launchConfig.windowChunks (transports rank peer) false phase

/-- A rank whose slice is planned reaches every peer by a direct transport. -/
def PeersDirect : Prop :=
  ∀ peer ∈ peersOf rank input.worldSize, transportUsesDirectTma (transports rank peer) = true

end Makers

theorem emitPeers_emits (cap : Nat) (items : List Int) (blocked : Int → Bool) (step : Int → BuildM Unit)
    (rank : Int) (make : Int → Int → TransferTask)
    (each : ∀ item, Emits cap (step item) True (.single rank (make item))) :
    Emits cap (items.forM fun item => if blocked item then transferPlanAbortBuild else step item)
      (∀ item ∈ items, blocked item = false) (.sequence rank (items.map make)) := by
  have loop := Emits.forM cap items _ _ _ fun item _ =>
    Emits.guarded (blocked item = true) (each item)
  refine loop.congr (by simp) ?_
  rw [Emission.concat_singles]

/-- Marks the last task of one rank, if it has any. -/
def markLastTaskTerminal (rank : Int) : List TransferTask → List TransferTask
  | [] => []
  | task :: rest =>
    if task.executorRank = rank ∧ ∀ later ∈ rest, later.executorRank ≠ rank then
      task.setTerminal true :: rest
    else task :: markLastTaskTerminal rank rest

def markLastTaskPerRankTerminal (worldSize : Int) : BuildM Unit := fun state =>
  let cleared := state.plan.tasks.map fun task => task.setTerminal false
  let tasks := (intRange worldSize).foldl (fun tasks rank => markLastTaskTerminal rank tasks) cleared
  .ok ((), { state with plan := { state.plan with tasks } })

/-- Terminal flags as the marking loop leaves them: the last task of every marked rank. -/
def markedTerminal (ranks : List Int) : List TransferTask → List TransferTask
  | [] => []
  | task :: rest =>
    task.setTerminal (task.terminal ||
        decide (task.executorRank ∈ ranks ∧ ∀ later ∈ rest, later.executorRank ≠ task.executorRank)) ::
      markedTerminal ranks rest

theorem markedTerminal_executors (ranks : List Int) (tasks : List TransferTask) :
    (markedTerminal ranks tasks).map TransferTask.executorRank = tasks.map TransferTask.executorRank := by
  induction tasks with
  | nil => rfl
  | cons task rest ih => simp [markedTerminal, ih]

private theorem later_executor_iff {left right : List TransferTask}
    (same : left.map TransferTask.executorRank = right.map TransferTask.executorRank) (rank : Int) :
    (∀ later ∈ left, later.executorRank ≠ rank) ↔ ∀ later ∈ right, later.executorRank ≠ rank := by
  have onLeft : (∀ later ∈ left, later.executorRank ≠ rank) ↔
      rank ∉ left.map TransferTask.executorRank := by simp
  have onRight : (∀ later ∈ right, later.executorRank ≠ rank) ↔
      rank ∉ right.map TransferTask.executorRank := by simp
  rw [onLeft, onRight, same]

theorem markedTerminal_absent (absent : ∀ task ∈ tasks, task.executorRank ∉ ranks) :
    markedTerminal ranks tasks = tasks := by
  induction tasks with
  | nil => rfl
  | cons task rest ih =>
    have unmarked := absent task (List.mem_cons_self ..)
    rw [markedTerminal, ih fun other member => absent other (List.mem_cons_of_mem _ member)]
    simp [unmarked]

theorem markLastTaskTerminal_eq (rank : Int) (tasks : List TransferTask) :
    markLastTaskTerminal rank tasks = markedTerminal [rank] tasks := by
  induction tasks with
  | nil => rfl
  | cons task rest ih =>
    simp only [markLastTaskTerminal, markedTerminal]
    split
    · rename_i last
      rw [markedTerminal_absent (by simpa using last.2)]
      have flagged : decide (task.executorRank ∈ [rank] ∧
          ∀ later ∈ rest, later.executorRank ≠ task.executorRank) = true := by
        rw [decide_eq_true_eq, last.1]
        exact ⟨List.mem_singleton_self rank, last.2⟩
      rw [flagged, Bool.or_true]
    · rename_i notLast
      have unmarked : ¬(task.executorRank ∈ [rank] ∧
          ∀ later ∈ rest, later.executorRank ≠ task.executorRank) := by
        rintro ⟨member, last⟩
        have same : task.executorRank = rank := by simpa using member
        exact notLast ⟨same, same ▸ last⟩
      rw [ih, decide_eq_false unmarked, Bool.or_false, task.setTerminal_self]

theorem markedTerminal_trans (first second : List Int) (tasks : List TransferTask) :
    markedTerminal second (markedTerminal first tasks) = markedTerminal (first ++ second) tasks := by
  induction tasks with
  | nil => rfl
  | cons task rest ih =>
    have same := later_executor_iff (markedTerminal_executors first rest) task.executorRank
    simp only [markedTerminal, ih, same, TransferTask.setTerminal_setTerminal,
      TransferTask.setTerminal_terminal, TransferTask.setTerminal_executorRank, Bool.or_assoc,
      List.mem_append]
    congr 3
    rw [← Bool.decide_or]
    apply decide_eq_decide.mpr
    constructor
    · rintro (⟨member, last⟩ | ⟨member, last⟩)
      · exact ⟨Or.inl member, last⟩
      · exact ⟨Or.inr member, last⟩
    · rintro ⟨member | member, last⟩
      · exact Or.inl ⟨member, last⟩
      · exact Or.inr ⟨member, last⟩

theorem markTerminal_fold (ranks : List Int) (tasks : List TransferTask) :
    ranks.foldl (fun tasks rank => markLastTaskTerminal rank tasks) tasks = markedTerminal ranks tasks := by
  induction ranks generalizing tasks with
  | nil => exact (markedTerminal_absent (by simp)).symm
  | cons rank rest ih =>
    rw [List.foldl_cons, ih, markLastTaskTerminal_eq, markedTerminal_trans, List.singleton_append]

/-- Blocks executed by different ranks are marked independently. -/
theorem markedTerminal_append (ranks : List Int) (left right : List TransferTask)
    (apart : ∀ first ∈ left, ∀ second ∈ right, second.executorRank ≠ first.executorRank) :
    markedTerminal ranks (left ++ right) = markedTerminal ranks left ++ markedTerminal ranks right := by
  induction left with
  | nil => rfl
  | cons task rest ih =>
    have apartRest := ih fun first member => apart first (List.mem_cons_of_mem _ member)
    have apartTask := apart task (List.mem_cons_self ..)
    simp only [List.cons_append, markedTerminal, apartRest]
    congr 3
    apply decide_eq_decide.mpr
    constructor
    · rintro ⟨member, last⟩
      exact ⟨member, fun later inRest => last later (List.mem_append_left _ inRest)⟩
    · rintro ⟨member, last⟩
      exact ⟨member, fun later either => (List.mem_append.mp either).elim (last later) (apartTask later)⟩

theorem markedTerminal_flatMap (ranks items : List Int) (distinct : items.Nodup)
    (block : Int → List TransferTask)
    (executors : ∀ rank ∈ items, ∀ task ∈ block rank, task.executorRank = rank) :
    markedTerminal ranks (items.flatMap block) =
      items.flatMap fun rank => markedTerminal ranks (block rank) := by
  induction items with
  | nil => rfl
  | cons rank rest ih =>
    obtain ⟨fresh, distinctRest⟩ := List.nodup_cons.mp distinct
    have executorsRest := fun other member => executors other (List.mem_cons_of_mem _ member)
    rw [List.flatMap_cons, markedTerminal_append, ih distinctRest executorsRest, List.flatMap_cons]
    intro first inBlock second inRest same
    obtain ⟨other, member, inOther⟩ := List.mem_flatMap.mp inRest
    rw [executorsRest other member second inOther, executors rank (List.mem_cons_self ..) first inBlock]
      at same
    exact fresh (same ▸ member)

/-- In a block of one marked rank exactly the last task becomes terminal. -/
theorem markedTerminal_block (marked : rank ∈ ranks) (init : List TransferTask) (last : TransferTask)
    (uniform : ∀ task ∈ init ++ [last], task.executorRank = rank)
    (quiet : ∀ task ∈ init ++ [last], task.terminal = false) :
    markedTerminal ranks (init ++ [last]) = init ++ [last.setTerminal true] := by
  induction init with
  | nil =>
    have here : last.executorRank = rank := uniform last (by simp)
    simp [markedTerminal, here, marked]
  | cons task rest ih =>
    have ihRest := ih (fun other member => uniform other (List.mem_cons_of_mem _ member))
      fun other member => quiet other (List.mem_cons_of_mem _ member)
    have here : task.executorRank = rank := uniform task (by simp)
    have after : last.executorRank = rank := uniform last (by simp)
    have silent : task.terminal = false := quiet task (by simp)
    rw [List.cons_append, markedTerminal, ihRest]
    have notLast : ¬∀ later ∈ rest ++ [last], later.executorRank ≠ task.executorRank := fun none =>
      none last (by simp) (after.trans here.symm)
    rw [decide_eq_false (fun both => notLast both.2), Bool.or_false, task.setTerminal_self,
      List.cons_append]

theorem markLastTaskPerRankTerminal_run (worldSize : Int) (state : BuildState) :
    markLastTaskPerRankTerminal worldSize state =
      .ok ((), { state with plan := { state.plan with
        tasks := markedTerminal (intRange worldSize)
          (state.plan.tasks.map fun task => task.setTerminal false) } }) := by
  simp only [markLastTaskPerRankTerminal, markTerminal_fold]

/-- Islands of ranks connected by transports that are direct both ways. -/
structure IslandPlan where
  islandCount : Int := 0
  islandOfRank : Int → Int := fun _ => 0
  islandRanks : Int → List Int := fun _ => []
  leaderRank : Int → Int := fun _ => -1
  firstRank : Int → Int := fun _ => 0
  lastRank : Int → Int := fun _ => -1
  preferredNumaNode : Int → Int := fun _ => -1
  stagingSlot : Int → Int := fun _ => -1

/-- Breadth-first search state: islands found so far and the ranks already assigned. -/
structure IslandSearch where
  islandCount : Int := 0
  visited : Int → Bool := fun _ => false
  islandOfRank : Int → Int := fun _ => 0

def rankNumaNode (rank : Int) : Int :=
  match input.topo.topology, input.topo.rankDevices with
  | some topology, some rankDevices =>
    if !validRank rank input.worldSize then -1
    else
      match topology.nodes.find? fun node => node.device == rankDevices rank with
      | some node => node.numaNode
      | none => -1
  | _, _ => -1

def directBothWays (transports : TransportMatrix) (rank peer : Int) : Bool :=
  transportUsesDirectTma (transports rank peer) && transportUsesDirectTma (transports peer rank)

/-- One peer of the inner loop: an unvisited peer reachable both ways joins the island and the queue. -/
def visitPeer (transports : TransportMatrix) (island rank : Int)
    (found : IslandSearch × List Int) (peer : Int) : IslandSearch × List Int :=
  if found.1.visited peer ∨ !directBothWays transports rank peer then found
  else
    ({ found.1 with
        visited := Function.update found.1.visited peer true
        islandOfRank := Function.update found.1.islandOfRank peer island },
      found.2 ++ [peer])

/-- Drains the queue of one island. Every rank enters a queue once, so `fuel` bounds the pops. -/
def growIsland (transports : TransportMatrix) (worldSize island : Int) :
    Nat → IslandSearch × List Int → IslandSearch
  | 0, found => found.1
  | _ + 1, (search, []) => search
  | fuel + 1, (search, rank :: queue) =>
    growIsland transports worldSize island fuel
      ((intRange worldSize).foldl (visitPeer transports island rank) (search, queue))

def seedIsland (transports : TransportMatrix) (worldSize : Int) (search : IslandSearch) (seed : Int) :
    IslandSearch :=
  if search.visited seed then search
  else
    let island := search.islandCount
    growIsland transports worldSize island worldSize.toNat
      ({ islandCount := island + 1
         visited := Function.update search.visited seed true
         islandOfRank := Function.update search.islandOfRank seed island }, [seed])

def searchIslands (transports : TransportMatrix) (worldSize : Int) : IslandSearch :=
  (intRange worldSize).foldl (seedIsland transports worldSize) {}

/-- Islands with their ranks in increasing order; the smallest rank leads. -/
def buildIslands (transports : TransportMatrix) : Option IslandPlan :=
  if input.worldSize ≤ 0 ∨ input.worldSize > (kPlannerMaxRanks : Int) then none
  else
    let search := searchIslands transports input.worldSize
    let ranksOf := fun island =>
      (intRange input.worldSize).filter fun rank => search.islandOfRank rank == island
    let leader := fun island => (ranksOf island).headD (-1)
    some
      { islandCount := search.islandCount
        islandOfRank := search.islandOfRank
        islandRanks := ranksOf
        leaderRank := leader
        firstRank := fun island => (ranksOf island).headD input.worldSize
        lastRank := fun island => (ranksOf island).getLastD (-1)
        preferredNumaNode := fun island => rankNumaNode input (leader island) }

/-- First unused slot that passes `suits`, in slot order. -/
def firstUnusedSlot (used : List Int) (suits : Int → Bool) : Option Int :=
  (intRange input.stagingSlotCount).find? fun slot => !used.contains slot && suits slot

/-- Greedy choice of one unused slot per island, the leader's memory node preferred. -/
def assignStagingSlotsFrom (islands : IslandPlan) (requiredBytes : Int → Nat) :
    List Int → List Int → IslandPlan → Option IslandPlan
  | [], _, assigned => some assigned
  | island :: rest, used, assigned =>
    let valid := fun slot => stagingSliceValid input slot 0 (requiredBytes island)
    let preferredNuma := islands.preferredNumaNode island
    let preferred :=
      if preferredNuma ≥ 0 then
        firstUnusedSlot input used fun slot => stagingSlotNumaNode input slot == preferredNuma && valid slot
      else none
    match preferred.or (firstUnusedSlot input used valid) with
    | none => none
    | some slot =>
      assignStagingSlotsFrom islands requiredBytes rest (slot :: used)
        { assigned with stagingSlot := Function.update assigned.stagingSlot island slot }

/-- Ranks of an island other than its leader, in increasing order. -/
def islandMembers (islands : IslandPlan) (island : Int) : List Int :=
  (islands.islandRanks island).filter (· ≠ islands.leaderRank island)

theorem visitPeer_islandCount (transports : TransportMatrix) (island rank : Int)
    (found : IslandSearch × List Int) (peer : Int) :
    (visitPeer transports island rank found peer).1.islandCount = found.1.islandCount := by
  unfold visitPeer
  split <;> rfl

theorem visitPeer_visited (transports : TransportMatrix) (island rank : Int)
    (found : IslandSearch × List Int) (peer : Int) (seen : found.1.visited other = true) :
    (visitPeer transports island rank found peer).1.visited other = true := by
  unfold visitPeer
  split
  · exact seen
  · by_cases same : other = peer <;> simp [same, seen]

theorem visitPeers_islandCount (transports : TransportMatrix) (island rank : Int)
    (peers : List Int) (found : IslandSearch × List Int) :
    (peers.foldl (visitPeer transports island rank) found).1.islandCount = found.1.islandCount := by
  induction peers generalizing found with
  | nil => rfl
  | cons peer rest ih => rw [List.foldl_cons, ih, visitPeer_islandCount]

theorem visitPeers_visited (transports : TransportMatrix) (island rank : Int)
    (peers : List Int) (found : IslandSearch × List Int) (seen : found.1.visited other = true) :
    (peers.foldl (visitPeer transports island rank) found).1.visited other = true := by
  induction peers generalizing found with
  | nil => exact seen
  | cons peer rest ih => exact ih _ (visitPeer_visited transports island rank found peer seen)

/-- The neighbourhood loop visits every listed peer that is direct both ways. -/
theorem visitPeers_reaches (transports : TransportMatrix) (island rank : Int) (peers : List Int)
    (found : IslandSearch × List Int) (member : other ∈ peers)
    (reachable : directBothWays transports rank other = true) :
    (peers.foldl (visitPeer transports island rank) found).1.visited other = true := by
  induction peers generalizing found with
  | nil => cases member
  | cons peer rest ih =>
    rcases List.mem_cons.mp member with rfl | later
    · rw [List.foldl_cons]
      apply visitPeers_visited
      unfold visitPeer
      split
      · rename_i already
        simpa [reachable] using already
      · simp
    · exact ih _ later

theorem growIsland_islandCount (transports : TransportMatrix) (worldSize island : Int) (fuel : Nat)
    (found : IslandSearch × List Int) :
    (growIsland transports worldSize island fuel found).islandCount = found.1.islandCount := by
  induction fuel generalizing found with
  | zero => rfl
  | succ fuel ih =>
    obtain ⟨search, queue⟩ := found
    cases queue with
    | nil => rfl
    | cons rank queue => rw [growIsland, ih, visitPeers_islandCount]

theorem growIsland_visited (transports : TransportMatrix) (worldSize island : Int) (fuel : Nat)
    (found : IslandSearch × List Int) (seen : found.1.visited other = true) :
    (growIsland transports worldSize island fuel found).visited other = true := by
  induction fuel generalizing found with
  | zero => exact seen
  | succ fuel ih =>
    obtain ⟨search, queue⟩ := found
    cases queue with
    | nil => exact seen
    | cons rank queue => exact ih _ (visitPeers_visited transports island rank _ _ seen)

/-- A group whose transports are all direct is a single island. -/
theorem searchIslands_direct (transports : TransportMatrix) (worldSize : Int)
    (direct : ∀ src dst, transportUsesDirectTma (transports src dst) = true) :
    (searchIslands transports worldSize).islandCount ≤ 1 := by
  rcases Nat.eq_zero_or_pos worldSize.toNat with empty | positive
  · simp [searchIslands, intRange, empty]
  · obtain ⟨size, sizeEq⟩ := Nat.exists_eq_succ_of_ne_zero (Nat.ne_of_gt positive)
    have members : intRange worldSize = 0 :: (List.range size).map (fun index => Int.ofNat (index + 1)) := by
      simp [intRange, sizeEq, List.range_succ_eq_map, Function.comp_def]
    have bothWays : ∀ rank peer, directBothWays transports rank peer = true := fun rank peer => by
      simp [directBothWays, direct]
    have first : (seedIsland transports worldSize {} 0).islandCount = 1 ∧
        ∀ seed ∈ intRange worldSize, (seedIsland transports worldSize {} 0).visited seed = true := by
      unfold seedIsland
      rw [if_neg (by simp), sizeEq, growIsland]
      refine ⟨by rw [growIsland_islandCount, visitPeers_islandCount]; rfl, fun seed member => ?_⟩
      exact growIsland_visited _ _ _ _ _ (visitPeers_reaches _ _ _ _ _ member (bothWays 0 seed))
    have settled : ∀ seeds : List Int, (∀ seed ∈ seeds,
        (seedIsland transports worldSize {} 0).visited seed = true) →
        seeds.foldl (seedIsland transports worldSize) (seedIsland transports worldSize {} 0) =
          seedIsland transports worldSize {} 0 := by
      intro seeds visited
      induction seeds with
      | nil => rfl
      | cons seed rest ih =>
        rw [List.foldl_cons, seedIsland, if_pos (visited seed (List.mem_cons_self ..))]
        exact ih fun other member => visited other (List.mem_cons_of_mem _ member)
    rw [searchIslands, members, List.foldl_cons, settled]
    · exact le_of_eq first.1
    · intro seed member
      apply first.2
      rw [members]
      exact List.mem_cons_of_mem _ member

theorem buildIslands_direct (direct : ∀ src dst, transportUsesDirectTma (transports src dst) = true)
    (built : buildIslands input transports = some islands) : islands.islandCount ≤ 1 := by
  unfold buildIslands at built
  split at built
  · cases built
  · cases built
    exact searchIslands_direct transports input.worldSize direct

end Ooverlap.Plan
