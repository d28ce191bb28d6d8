import Ooverlap.Kernel.ReadyRendezvous
import Ooverlap.Kernel.WindowTaskExecutor
import Ooverlap.Lowering.ReadyTasks

/-! The entry rendezvous of the kernels: no rank starts its tasks before all its peers have signalled. -/

namespace Ooverlap.Kernel

open Interleaving Lowering Plan CounterBarrier

/-- What thread 0 of a CTA does up to the end of its stripe. -/
inductive KernelAction where
  | publish (owner waiter : Int)
  | await (waiter owner : Int)
  | arrive (rank : Int)
  | meet (rank : Int)
  | run (rank : Int) (item : Item WindowEvent)

/-- Inboxes by sender and receiver, and how many CTAs of each rank stand at its entry barrier. -/
structure Signals where
  inbox : Int → Int → Int
  arrived : Int → Nat := fun _ => 0

/-- The owner's store into the waiter's inbox. -/
def Signals.store (signals : Signals) (owner waiter value : Int) : Signals :=
  { signals with inbox := Function.update signals.inbox owner (Function.update (signals.inbox owner) waiter value) }

def Signals.arrive (signals : Signals) (rank : Int) : Signals :=
  { signals with arrived := Function.update signals.arrived rank (signals.arrived rank + 1) }

theorem Signals.store_inbox (signals : Signals) (owner waiter value : Int) (other receiver : Int) :
    (signals.store owner waiter value).inbox other receiver =
      if other = owner ∧ receiver = waiter then value else signals.inbox other receiver := by
  unfold Signals.store
  by_cases sameOwner : other = owner
  · subst sameOwner
    by_cases sameWaiter : receiver = waiter
    · subst sameWaiter
      simp
    · simp [sameWaiter]
  · simp [sameOwner]

/-- A kernel launched by one rank; without blocks it is not launched. -/
structure RankKernel where
  peers : List Int
  numBlocks : Nat
  stripe : Nat → List (Item WindowEvent)

section Code

variable (kernels : Int → RankKernel)

/-- The rendezvous of a CTA with the peers of its rank. -/
def entryRendezvous (rank : Int) (ctaIdx : Nat) : List KernelAction :=
  distributedReadyRendezvousForCta (.publish rank) (.await rank) (kernels rank).peers (kernels rank).numBlocks ctaIdx

def kernelCode (agent : Int × Nat) : List KernelAction :=
  if agent.2 < (kernels agent.1).numBlocks then
    entryRendezvous kernels agent.1 agent.2 ++
      .arrive agent.1 :: .meet agent.1 :: ((kernels agent.1).stripe agent.2).map (.run agent.1)
  else []

/-- The kernels of all ranks in one collective, whose entry signals carry `readyValue`. -/
def collectiveProgram (readyValue : Int) : Program (Int × Nat) KernelAction Signals where
  code := kernelCode kernels
  enabled action signals :=
    match action with
    | .await waiter owner => readyValue ≤ signals.inbox owner waiter
    | .meet rank => (kernels rank).numBlocks ≤ signals.arrived rank
    | _ => True
  effect action signals :=
    match action with
    | .publish owner waiter => signals.store owner waiter readyValue
    | .arrive rank => signals.arrive rank
    | _ => signals

end Code

section Positions

variable {kernels : Int → RankKernel} {rank : Int} {ctaIdx : Nat}

/-- The barrier stands right behind the rendezvous, and the stripe behind the barrier. -/
theorem kernelCode_cases (found : (kernelCode kernels (rank, ctaIdx))[position]? = some action) :
    ctaIdx < (kernels rank).numBlocks ∧
      (position < (entryRendezvous kernels rank ctaIdx).length ∧
          action ∈ entryRendezvous kernels rank ctaIdx ∨
        position = (entryRendezvous kernels rank ctaIdx).length ∧ action = .arrive rank ∨
        position = (entryRendezvous kernels rank ctaIdx).length + 1 ∧ action = .meet rank ∨
        (entryRendezvous kernels rank ctaIdx).length + 2 ≤ position ∧ ∃ item, action = .run rank item) := by
  unfold kernelCode at found
  split at found
  · next launched =>
    refine ⟨launched, ?_⟩
    rcases Nat.lt_or_ge position (entryRendezvous kernels rank ctaIdx).length with entry | later
    · rw [List.getElem?_append_left entry] at found
      exact Or.inl ⟨entry, List.mem_of_getElem? found⟩
    · rw [List.getElem?_append_right later] at found
      obtain ⟨beyond, rfl⟩ := Nat.exists_eq_add_of_le later
      rw [Nat.add_sub_cancel_left] at found
      match beyond with
      | 0 => exact Or.inr (Or.inl ⟨rfl, (Option.some.inj found).symm⟩)
      | 1 => exact Or.inr (Or.inr (Or.inl ⟨rfl, (Option.some.inj found).symm⟩))
      | beyond + 2 =>
        obtain ⟨item, _, rfl⟩ := List.mem_map.mp (List.mem_of_getElem? found)
        exact Or.inr (Or.inr (Or.inr ⟨by omega, item, rfl⟩))
  · cases found

theorem rendezvous_cases (member : action ∈ entryRendezvous kernels rank ctaIdx) :
    (ctaIdx = 0 ∧ ∃ peer ∈ (kernels rank).peers, action = .publish rank peer) ∨
      ∃ peer ∈ assignedPeers (kernels rank).peers (kernels rank).numBlocks ctaIdx, action = .await rank peer := by
  rcases List.mem_append.mp member with publish | await
  · exact Or.inl (mem_publishes publish)
  · exact Or.inr (mem_awaits await)

theorem kernelCode_arrive (found : (kernelCode kernels (rank, ctaIdx))[position]? = some (.arrive other)) :
    other = rank ∧ ctaIdx < (kernels rank).numBlocks ∧
      position = (entryRendezvous kernels rank ctaIdx).length := by
  obtain ⟨launched, ⟨_, entry⟩ | ⟨here, same⟩ | ⟨_, same⟩ | ⟨_, _, same⟩⟩ := kernelCode_cases found
  · rcases rendezvous_cases entry with ⟨_, _, _, same⟩ | ⟨_, _, same⟩ <;> cases same
  · cases same
    exact ⟨rfl, launched, here⟩
  · cases same
  · cases same

theorem kernelCode_meet (found : (kernelCode kernels (rank, ctaIdx))[position]? = some (.meet other)) :
    other = rank ∧ position = (entryRendezvous kernels rank ctaIdx).length + 1 := by
  obtain ⟨_, ⟨_, entry⟩ | ⟨_, same⟩ | ⟨here, same⟩ | ⟨_, _, same⟩⟩ := kernelCode_cases found
  · rcases rendezvous_cases entry with ⟨_, _, _, same⟩ | ⟨_, _, same⟩ <;> cases same
  · cases same
  · cases same
    exact ⟨rfl, here⟩
  · cases same

theorem kernelCode_publish {position : Nat}
    (found : (kernelCode kernels (rank, ctaIdx))[position]? = some (.publish owner waiter)) :
    owner = rank ∧ ctaIdx = 0 := by
  obtain ⟨_, ⟨_, entry⟩ | ⟨_, same⟩ | ⟨_, same⟩ | ⟨_, _, same⟩⟩ := kernelCode_cases found
  · rcases rendezvous_cases entry with ⟨first, _, _, same⟩ | ⟨_, _, same⟩
    · cases same
      exact ⟨rfl, first⟩
    · cases same
  · cases same
  · cases same
  · cases same

end Positions

section Rendezvous

variable {kernels : Int → RankKernel} {readyValue : Int}

/-- What was signalled, heard and met so far. -/
structure Rendezvous (kernels : Int → RankKernel) (readyValue : Int) (state : State (Int × Nat) Signals) : Prop where
  signalled : ∀ owner waiter, readyValue ≤ state.shared.inbox owner waiter →
    (collectiveProgram kernels readyValue).Performed state (owner, 0) (.publish owner waiter)
  heard : ∀ agent waiter owner, (collectiveProgram kernels readyValue).Performed state agent (.await waiter owner) →
    readyValue ≤ state.shared.inbox owner waiter
  counted : ∀ rank, ∃ ctas : Finset Nat, ctas.card = state.shared.arrived rank ∧ ∀ ctaIdx, ctaIdx ∈ ctas ↔
    ctaIdx < (kernels rank).numBlocks ∧
      (collectiveProgram kernels readyValue).Performed state (rank, ctaIdx) (.arrive rank)
  met : ∀ rank ctaIdx, (collectiveProgram kernels readyValue).Performed state (rank, ctaIdx) (.meet rank) →
    ∀ other < (kernels rank).numBlocks,
      (collectiveProgram kernels readyValue).Performed state (rank, other) (.arrive rank)

theorem rendezvous_start (stale : ∀ owner waiter, inbox owner waiter < readyValue) :
    Rendezvous kernels readyValue (Program.start { inbox }) where
  signalled owner waiter fresh := absurd fresh (not_le.mpr (stale owner waiter))
  heard agent _ _ performed := absurd performed (Program.not_performed_start _ agent _)
  counted rank := by
    refine ⟨∅, rfl, fun ctaIdx => iff_of_false (Finset.notMem_empty _) ?_⟩
    exact fun arrived => Program.not_performed_start _ (rank, ctaIdx) _ arrived.2
  met rank ctaIdx performed := absurd performed (Program.not_performed_start _ (rank, ctaIdx) _)

theorem rendezvous_step (before : Rendezvous kernels readyValue state)
    (taken : (collectiveProgram kernels readyValue).Step state after) : Rendezvous kernels readyValue after := by
  obtain ⟨actor, action, next, allowed⟩ := taken
  obtain ⟨signalled, heard, counted, met⟩ := before
  obtain ⟨rank, ctaIdx⟩ := actor
  obtain ⟨pc, shared⟩ := state
  have performed := fun shared' agent other =>
    @Program.performed_step _ _ _ _ (collectiveProgram kernels readyValue) _ _ shared shared' _ next agent other
  have kept : ∀ owner waiter, readyValue ≤ shared.inbox owner waiter →
      readyValue ≤ ((collectiveProgram kernels readyValue).effect action shared).inbox owner waiter := by
    intro owner waiter fresh
    cases action with
    | publish sender receiver =>
      change readyValue ≤ (shared.store sender receiver readyValue).inbox owner waiter
      rw [Signals.store_inbox]
      split
      · exact le_rfl
      · exact fresh
    | await | arrive | meet | run => exact fresh
  constructor
  · intro owner waiter fresh
    rw [performed]
    by_cases already : readyValue ≤ shared.inbox owner waiter
    · exact Or.inl (signalled owner waiter already)
    · cases action with
      | publish sender receiver =>
        change readyValue ≤ (shared.store sender receiver readyValue).inbox owner waiter at fresh
        rw [Signals.store_inbox] at fresh
        split at fresh
        · next same =>
          obtain ⟨rfl, rfl⟩ := same
          obtain ⟨rfl, rfl⟩ := kernelCode_publish next
          exact Or.inr ⟨rfl, rfl⟩
        · exact absurd fresh already
      | await | arrive | meet | run => exact absurd fresh already
  · intro agent waiter owner done
    rcases (performed _ agent _).mp done with earlier | ⟨_, same⟩
    · exact kept owner waiter (heard agent waiter owner earlier)
    · subst same
      exact allowed
  · intro other
    obtain ⟨ctas, size, each⟩ := counted other
    by_cases arrives : action = .arrive other
    · subst arrives
      obtain ⟨rfl, launched, position⟩ := kernelCode_arrive next
      have fresh : ctaIdx ∉ ctas := by
        intro member
        obtain ⟨_, earlier, lower, found⟩ := (each ctaIdx).mp member
        have again := (kernelCode_arrive found).2.2
        change earlier < pc (other, ctaIdx) at lower
        change pc (other, ctaIdx) = _ at position
        omega
      refine ⟨insert ctaIdx ctas, ?_, fun cta => ?_⟩
      · rw [Finset.card_insert_of_notMem fresh, size]
        exact (Function.update_self other (shared.arrived other + 1) shared.arrived).symm
      · rw [Finset.mem_insert, each, performed]
        constructor
        · rintro (rfl | ⟨inRange, earlier⟩)
          · exact ⟨launched, Or.inr ⟨rfl, rfl⟩⟩
          · exact ⟨inRange, Or.inl earlier⟩
        · rintro ⟨inRange, earlier | ⟨same, _⟩⟩
          · exact Or.inr ⟨inRange, earlier⟩
          · exact Or.inl (congrArg Prod.snd same)
    · refine ⟨ctas, ?_, fun cta => ?_⟩
      · rw [size]
        cases action with
        | arrive arriving =>
          have apart : other ≠ arriving := fun same => arrives (congrArg KernelAction.arrive same.symm)
          exact (Function.update_of_ne apart (shared.arrived arriving + 1) shared.arrived).symm
        | publish | await | meet | run => rfl
      · rw [each, performed, or_iff_left]
        exact fun done => arrives done.2.symm
  · intro other cta done peer launched
    rw [performed]
    rcases (performed _ (other, cta) _).mp done with earlier | ⟨_, same⟩
    · exact Or.inl (met other cta earlier peer launched)
    · subst same
      obtain ⟨rfl, _⟩ := kernelCode_meet next
      obtain ⟨ctas, size, each⟩ := counted other
      have full : (kernels other).numBlocks ≤ shared.arrived other := allowed
      have inside : ctas ⊆ Finset.range (kernels other).numBlocks :=
        fun member arrived => Finset.mem_range.mpr ((each member).mp arrived).1
      have all : ctas = Finset.range (kernels other).numBlocks :=
        Finset.eq_of_subset_of_card_le inside (by rw [Finset.card_range, size]; exact full)
      exact Or.inl ((each peer).mp (all ▸ Finset.mem_range.mpr launched)).2

theorem rendezvous_of_reachable (stale : ∀ owner waiter, inbox owner waiter < readyValue)
    (reached : (collectiveProgram kernels readyValue).Reachable { inbox } state) : Rendezvous kernels readyValue state :=
  invariant (Rendezvous kernels readyValue) (rendezvous_start stale) (fun _ _ => rendezvous_step) reached

/-- A CTA that runs a task has all peers of its rank behind it. -/
theorem Rendezvous.ordered (rendezvous : Rendezvous kernels readyValue state) (isPeer : owner ∈ (kernels rank).peers)
    (runs : (collectiveProgram kernels readyValue).Performed state (rank, ctaIdx) (.run rank item)) :
    (collectiveProgram kernels readyValue).Performed state (owner, 0) (.publish owner rank) := by
  obtain ⟨position, before, found⟩ := runs
  obtain ⟨launched, ⟨_, entry⟩ | ⟨_, same⟩ | ⟨_, same⟩ | ⟨behind, _⟩⟩ := kernelCode_cases found
  · rcases rendezvous_cases entry with ⟨_, _, _, same⟩ | ⟨_, _, same⟩ <;> cases same
  · cases same
  · cases same
  have code : ∀ cta < (kernels rank).numBlocks, kernelCode kernels (rank, cta) =
      entryRendezvous kernels rank cta ++
        .arrive rank :: .meet rank :: ((kernels rank).stripe cta).map (.run rank) := fun cta below => if_pos below
  have meets : (collectiveProgram kernels readyValue).Performed state (rank, ctaIdx) (.meet rank) := by
    refine ⟨(entryRendezvous kernels rank ctaIdx).length + 1, by omega, ?_⟩
    change (kernelCode kernels (rank, ctaIdx))[_]? = _
    rw [code ctaIdx launched, List.getElem?_append_right (Nat.le_add_right _ 1), Nat.add_sub_cancel_left]
    rfl
  obtain ⟨cta, below, assigned⟩ := assignedPeers_covers isPeer (Nat.zero_lt_of_lt launched)
  obtain ⟨arrival, earlier, arrives⟩ := rendezvous.met rank ctaIdx meets cta below
  have position := (kernelCode_arrive arrives).2.2
  have listed : KernelAction.await rank owner ∈ entryRendezvous kernels rank cta :=
    List.mem_append_right _ (List.mem_map_of_mem assigned)
  obtain ⟨index, found⟩ := List.mem_iff_getElem?.mp listed
  have inside := (List.getElem?_eq_some_iff.mp found).1
  refine rendezvous.signalled owner rank (rendezvous.heard (rank, cta) rank owner ⟨index, by omega, ?_⟩)
  change (kernelCode kernels (rank, cta))[index]? = _
  rw [code cta below, List.getElem?_append_left inside, found]

end Rendezvous

section Plans

variable {input : TransferPlanBuildInput} {collective : Collective} {binding : Int → RankPointerBinding}

/-- The kernels that the ranks launch for a plan, each with its own lowering of it packed for the launch. -/
def planKernels (collective : Collective) (input : TransferPlanBuildInput) (plan : TransferPlan)
    (binding : Int → RankPointerBinding) (destination : WindowTaskExecutorPlan) (rank : Int) : RankKernel :=
  let lowered := lowerForRank collective plan input.launchConfig (binding rank)
  { peers := peersOf rank input.worldSize
    numBlocks := lowered.2.2.toNat
    stripe := fun ctaIdx => stripeCode (executeWindowTaskStripe (windowTaskExecutorPlanPack lowered.2.1 destination) ctaIdx) }

/-- Ready tasks of the rank come before all its other tasks. -/
def ReadyFirst (tasks : List TransferTask) : Prop :=
  ∃ opening body, tasks = opening ++ body ∧ (∀ task ∈ opening, transferTaskIsReady task = true) ∧
    ∀ task ∈ body, transferTaskIsReady task = false

/-- No CTA of the waiting rank runs a task before the owner has published to it, whatever older values the inboxes hold. -/
def Enforced (kernels : Int → RankKernel) (readyValue : Int) (wait : TransferTask) : Prop :=
  ∀ inbox, (∀ owner waiter, inbox owner waiter < readyValue) →
    ∀ state, (collectiveProgram kernels readyValue).Reachable { inbox } state →
      ∀ ctaIdx item,
        (collectiveProgram kernels readyValue).Performed state (wait.executorRank, ctaIdx) (.run wait.executorRank item) →
        (collectiveProgram kernels readyValue).Performed state (wait.readyRank, 0)
          (.publish wait.readyRank wait.executorRank)

theorem rankOutline_readyFirst (outline : RankOutline input rank tasks) :
    ReadyFirst tasks ∧ ∀ wait ∈ tasks, wait.op = .readyWait →
      wait.executorRank = rank ∧ wait.readyRank ∈ peersOf rank input.worldSize := by
  cases outline with
  | idle => exact ⟨⟨[], [], rfl, by simp, by simp⟩, by simp⟩
  | working several active signals bodies worker few =>
    refine ⟨⟨_, _, rfl, fun task member => ?_, fun task member => rankBody_not_ready (bodies task member)⟩, ?_⟩
    · rcases (signals task member).op with op | op <;> simp [transferTaskIsReady, op]
    · intro wait member isWait
      rcases List.mem_append.mp member with signal | body
      · exact ⟨(signals wait signal).executor, (signals wait signal).owner isWait⟩
      · have unready := rankBody_not_ready (bodies wait body)
        simp [transferTaskIsReady, isWait] at unready

/-- Every ready task of a directly reachable group belongs to the entry rendezvous. -/
theorem allDirect_prologue (inPlace : input.outOfPlace = false) (direct : AllDirect input.topo input.worldSize)
    (built : (buildTransferPlan collective storage input).1 = true) (inRange : rank ∈ intRange input.worldSize) :
    ∀ task ∈ rankTasks (buildTransferPlan collective storage input).2 rank, Prologue rank task := by
  have shape := (buildTransferPlan_shape inPlace direct built).ranks rank inRange
  intro task member ready
  by_cases idle : input.worldSize = 1 ∨ AllReduce.SliceSkipped input rank
  · rw [shape.idle idle] at member
    cases member
  · obtain ⟨opening, body, own, isEntry, bodies, _⟩ := shape.working idle
    rw [own] at member
    rcases List.mem_append.mp member with entry | works
    · obtain ⟨executor, _, _, phase, channel⟩ := isEntry task entry
      simp [transferReadyTaskIsKernelPrologue, ready, executor, phase, channel]
    · rw [rankBody_not_ready (bodies task works)] at ready
      cases ready

/-- Lowering accepts a planned rank exactly when the entry rendezvous stands for its ready tasks, which it does on
directly reachable groups and never on staged ones; and then the kernels enforce every wait. -/
theorem buildTransferPlan_lowers (readyValue : Int) (destination : WindowTaskExecutorPlan)
    (inPlace : input.outOfPlace = false) (built : (buildTransferPlan collective storage input).1 = true)
    (small : ∀ task ∈ (buildTransferPlan collective storage input).2.tasks, transferTaskIsWindowed task = true →
      task.bytes ≤ kWindowTaskMaxBytes)
    (mapped : ∀ rank ∈ intRange input.worldSize, Mapped input rank (binding rank)) :
    (AllDirect input.topo input.worldSize → ∀ rank ∈ intRange input.worldSize,
      ∀ task ∈ rankTasks (buildTransferPlan collective storage input).2 rank, Prologue rank task) ∧
    (SeveralIslands input → ∀ rank ∈ intRange input.worldSize,
      (lowerForRank collective (buildTransferPlan collective storage input).2 input.launchConfig (binding rank)).1 =
        false) ∧
    ∀ rank ∈ intRange input.worldSize,
      ((lowerForRank collective (buildTransferPlan collective storage input).2 input.launchConfig (binding rank)).1 =
          true ↔
        LaunchCounts collective input.launchConfig ∧
          ∀ task ∈ rankTasks (buildTransferPlan collective storage input).2 rank, Prologue rank task) ∧
      ((lowerForRank collective (buildTransferPlan collective storage input).2 input.launchConfig (binding rank)).1 =
          true →
        ReadyFirst (rankTasks (buildTransferPlan collective storage input).2 rank) ∧
          ∀ wait ∈ rankTasks (buildTransferPlan collective storage input).2 rank, wait.op = .readyWait →
            Enforced (planKernels collective input (buildTransferPlan collective storage input).2 binding destination)
              readyValue wait) := by
  have succeeds := fun rank inRange => lowerForRank_succeeds_iff inPlace built small inRange (mapped rank inRange)
  refine ⟨fun direct rank inRange => allDirect_prologue inPlace direct built inRange, ?_, fun rank inRange =>
    ⟨succeeds rank inRange, fun lowered => ?_⟩⟩
  · intro several rank inRange
    have later := buildTransferPlan_waitsLater several built inRange
    exact eq_false_of_ne_true fun lowered => later.refused ((succeeds rank inRange).mp lowered).2
  · have prologue := ((succeeds rank inRange).mp lowered).2
    have single : AllReduce.OneIsland input := by
      by_contra several
      exact (buildTransferPlan_waitsLater (severalIslands_of_not_one several) built inRange).refused prologue
    obtain ⟨first, waits⟩ := rankOutline_readyFirst (buildTransferPlan_outline inPlace single built inRange)
    refine ⟨first, fun wait member isWait inbox stale state reached ctaIdx item runs => ?_⟩
    obtain ⟨executor, isPeer⟩ := waits wait member isWait
    rw [executor] at runs ⊢
    exact (rendezvous_of_reachable stale reached).ordered isPeer runs

/-- The second of three ranks that reach each other directly. -/
theorem buildTransferPlan_lowers_three :
    (lowerForRank .allReduce (buildTransferPlan .allReduce {} { worldSize := 3, count := 7, dtypeSize := 2 }).2 {}
        (mappedBinding 3 1)).1 = true ∧
      ReadyFirst (rankTasks (buildTransferPlan .allReduce {} { worldSize := 3, count := 7, dtypeSize := 2 }).2 1) := by
  have built : (buildTransferPlan .allReduce {} { worldSize := 3, count := 7, dtypeSize := 2 }).1 = true := by decide +kernel
  obtain ⟨direct, _, each⟩ := buildTransferPlan_lowers 1024 { tasks := List.replicate 112 {} } rfl built
    (by decide +kernel) fun rank _ => mappedBinding_mapped _ rank
  have inRange : (1 : Int) ∈ intRange 3 := by decide
  obtain ⟨lowers, ordered⟩ := each 1 inRange
  have lowered := lowers.mpr ⟨⟨by decide, fun _ => by decide⟩, direct (allDirect_of_absent rfl) 1 inRange⟩
  exact ⟨lowered, (ordered lowered).1⟩

/-- Of the staged plan for three ranks in two islands lowering takes no rank's part. -/
theorem buildTransferPlan_refused :
    (buildTransferPlan .allReduce {} twoIslandInput).1 = true ∧
      (∀ task ∈ (buildTransferPlan .allReduce {} twoIslandInput).2.tasks, transferTaskIsWindowed task = true →
        task.bytes ≤ kWindowTaskMaxBytes) ∧
      ∀ rank ∈ intRange 3, (lowerForRank .allReduce (buildTransferPlan .allReduce {} twoIslandInput).2
        twoIslandInput.launchConfig (mappedBinding 3 rank)).1 = false := by
  decide +kernel

end Plans

end Ooverlap.Kernel
