import Ooverlap.Fast.Outcome

/-! What a CTA of the fast kernels can do by itself when the words of its grid counter let it pass. -/

namespace Ooverlap.Fast

open Interleaving Tables Word

variable {Value : Type*}

section Runs

variable {history : List (Collective Value)}

/-- Loads and sends change memories and chunks only. -/
theorem run_moves (places : ∀ action ∈ actions, InEngine launch bulk action) (devices : Devices Value) :
    ∃ memory chunk, run history actions devices = { devices with memory := memory, chunk := chunk } := by
  induction actions generalizing devices with
  | nil => exact ⟨devices.memory, devices.chunk, rfl⟩
  | cons action rest ih =>
    have place := places action List.mem_cons_self
    obtain ⟨memory, chunk, ran⟩ :=
      ih (fun other member => places other (List.mem_cons_of_mem _ member)) (effect history action devices)
    refine ⟨memory, chunk, ran.trans ?_⟩
    cases action <;> first | rfl | exact place.elim

/-- The moves of an engine are free to be made. -/
theorem engineCode_allowed {start : Nat → Scratch → Nat} (moving : historyMoves history bulk = some moves)
    (issued : devices.issued bulk = true) :
    (fastProgram start history).Allowed (.begin bulk :: moves ++ [.complete bulk]) devices := by
  refine ⟨issued, Program.allowed_append (Program.allowed_of_free (fun action member shared => ?_) _) ⟨trivial, trivial⟩⟩
  obtain ⟨collective, _, _, step⟩ := historyMoves_some moving
  have place := mem_bulkMoves step member
  change enabled history action shared
  cases action <;> first | exact trivial | exact place.elim

/-- An engine makes its moves alone, once its copy is issued. -/
theorem engine_runs {start : Nat → Scratch → Nat} {devices shared : Devices Value} {pc : Agent → Nat}
    (reached : (fastProgram start history).Reachable devices ⟨pc, shared⟩) (waiting : pc (.engine bulk) = 0)
    (moving : historyMoves history bulk = some moves) (issued : shared.issued bulk = true) :
    ∃ memory chunk, (fastProgram start history).Reachable devices
      ⟨Function.update pc (.engine bulk) (moves.length + 2),
        { shared with
          memory := memory, chunk := chunk, completed := Function.update shared.completed bulk true }⟩ := by
  have code : (fastProgram start history).code (.engine bulk) = .begin bulk :: moves ++ [.complete bulk] := by
    change engineCode history bulk = _
    rw [engineCode, moving]
  have ahead : .begin bulk :: moves ++ [.complete bulk] <+:
      ((fastProgram start history).code (.engine bulk)).drop 0 := by
    rw [code]
    exact List.prefix_rfl
  have ran : (fastProgram start history).Reachable devices ⟨_, run history _ shared⟩ :=
    Program.solo_reachable reached waiting ahead (engineCode_allowed moving issued)
  have size : (Action.begin bulk :: moves ++ [Action.complete bulk]).length = moves.length + 2 := by simp
  rw [Nat.zero_add, size] at ran
  obtain ⟨collective, _, _, step⟩ := historyMoves_some moving
  obtain ⟨memory, chunk, moved⟩ : ∃ memory chunk, run history moves shared =
      { shared with memory := memory, chunk := chunk } :=
    run_moves (fun _ member => mem_bulkMoves step member) shared
  have all : run history (.begin bulk :: moves ++ [.complete bulk]) shared =
      effect history (.complete bulk) (run history moves shared) := run_append ..
  rw [all, moved] at ran
  exact ⟨memory, chunk, ran⟩

end Runs

section Lone

variable {collective : Collective Value} {devices : Devices Value} {rank cta : Nat}

/-- What a CTA that has no peer to publish to or to wait for does between its load and its first send. -/
def barrierActions (collective : Collective Value) (value rank cta : Nat) : List Action :=
  [.finish ⟨⟨0, rank, cta⟩, 0⟩, .arrive rank collective.scratch,
    .wait rank collective.scratch (value + (collective.launch rank).ctaCount), .arrive rank collective.scratch,
    .wait rank collective.scratch (value + 2 * (collective.launch rank).ctaCount), .issue ⟨⟨0, rank, cta⟩, 1⟩]

theorem lone_code {job : Job} (inside : cta < (collective.launch rank).ctaCount) (later : cta ≠ 0)
    (unassigned : Kernel.assignedPeers (collective.launch rank).peers (collective.launch rank).ctaCount cta = [])
    (early : collective.waitsEarly = true) (given : (collective.launch rank).job cta = some job)
    (sends : 0 < job.targets.length) (start : Nat → Scratch → Nat) :
    ∃ rest, agentCode start [collective] (.cta rank cta) =
      [.enter 0 rank, .issue ⟨⟨0, rank, cta⟩, 0⟩] ++
        (barrierActions collective (start rank collective.scratch) rank cta ++ rest) := by
  obtain ⟨count, several⟩ := Nat.exists_eq_succ_of_ne_zero (Nat.ne_of_gt sends)
  simp [agentCode, launchCode, ctaCode, inside, given, early, lastValue, arriveAndWait, readyRendezvous,
    Kernel.distributedReadyRendezvousForCta, Kernel.publishes, Kernel.awaits, later, unassigned, issueSends, several,
    List.range_succ_eq_map, Block.bulk, barrierActions]

/-- The words of the counter let the CTA pass both barriers on its own arrivals alone. -/
theorem barrierActions_allowed {start : Nat → Scratch → Nat} {history : List (Collective Value)}
    (complete : devices.completed ⟨⟨0, rank, cta⟩, 0⟩ = true)
    (counted : devices.counter rank collective.scratch = value)
    (first : toUInt32 (value + (collective.launch rank).ctaCount) ≤ toUInt32 (value + 1))
    (second : toUInt32 (value + 2 * (collective.launch rank).ctaCount) ≤ toUInt32 (value + 2)) :
    (fastProgram start history).Allowed (barrierActions collective value rank cta) devices := by
  have once : (effect history (.arrive rank collective.scratch) devices).counter rank collective.scratch = value + 1 := by
    rw [effect_counter, if_pos rfl, counted]
  have twice : (effect history (.arrive rank collective.scratch)
      (effect history (.arrive rank collective.scratch) devices)).counter rank collective.scratch = value + 2 := by
    rw [effect_counter, if_pos rfl, once]
  refine ⟨complete, trivial, ?_, trivial, ?_, trivial, trivial⟩
  · change toUInt32 _ ≤ toUInt32 ((effect history (.arrive rank collective.scratch) devices).counter rank _)
    rwa [once]
  · change toUInt32 _ ≤ toUInt32 ((effect history (.arrive rank collective.scratch)
      (effect history (.arrive rank collective.scratch) devices)).counter rank _)
    rwa [twice]

/-- If its counter's words let it pass two barriers, such a CTA sends before anyone else has done anything. -/
theorem lone_sends {job : Job} {goal : Nat × Nat} (inside : cta < (collective.launch rank).ctaCount) (later : cta ≠ 0)
    (unassigned : Kernel.assignedPeers (collective.launch rank).peers (collective.launch rank).ctaCount cta = [])
    (early : collective.waitsEarly = true) (given : (collective.launch rank).job cta = some job)
    (isGoal : job.targets[0]? = some goal) (nonempty : 0 < job.count)
    (first : toUInt32 (devices.counter rank collective.scratch + (collective.launch rank).ctaCount) ≤
      toUInt32 (devices.counter rank collective.scratch + 1))
    (second : toUInt32 (devices.counter rank collective.scratch + 2 * (collective.launch rank).ctaCount) ≤
      toUInt32 (devices.counter rank collective.scratch + 2)) :
    ∃ state, (fastProgram devices.counter [collective]).Reachable devices state ∧
      (fastProgram devices.counter [collective]).Performed state (.engine ⟨⟨0, rank, cta⟩, 1⟩)
        (.send ⟨0, rank, cta⟩ 0 goal.1 goal.2) ∧
      ∀ agent, agent ≠ .cta rank cta → (∀ index, agent ≠ .engine ⟨⟨0, rank, cta⟩, index⟩) → state.pc agent = 0 := by
  have sends := (List.getElem?_eq_some_iff.mp isGoal).1
  obtain ⟨rest, code⟩ := lone_code inside later unassigned early given sends devices.counter
  obtain ⟨loads, loading⟩ : ∃ loads, historyMoves [collective] ⟨⟨0, rank, cta⟩, 0⟩ = some loads := by
    obtain ⟨loads, moving⟩ := bulkMoves_load ⟨0, rank, cta⟩ given
    exact ⟨loads, (historyMoves_found rfl inside).trans moving⟩
  have storing : historyMoves [collective] ⟨⟨0, rank, cta⟩, 1⟩ = some ((List.range job.count).map fun element =>
      .send ⟨0, rank, cta⟩ element goal.1 (goal.2 + element)) := by
    rw [historyMoves_found rfl inside]
    simp [bulkMoves, given, isGoal]
  -- the CTA enters and issues its load, which its engine makes
  have begins : [.enter 0 rank, .issue ⟨⟨0, rank, cta⟩, 0⟩] <+:
      ((fastProgram devices.counter [collective]).code (.cta rank cta)).drop 0 := ⟨_, code.symm⟩
  have free : (fastProgram devices.counter [collective]).Allowed [.enter 0 rank, .issue ⟨⟨0, rank, cta⟩, 0⟩] devices :=
    ⟨Nat.zero_le _, trivial, trivial⟩
  have entered : (fastProgram devices.counter [collective]).Reachable devices
      ⟨Function.update (fun _ => 0) (.cta rank cta) 2,
        { devices with issued := Function.update devices.issued ⟨⟨0, rank, cta⟩, 0⟩ true }⟩ :=
    Program.solo_reachable .refl rfl begins free
  obtain ⟨memory, chunk, ran⟩ := engine_runs entered rfl loading (Function.update_self ..)
  -- it passes its barriers and issues its first send, which its engine begins
  have through : barrierActions collective (devices.counter rank collective.scratch) rank cta <+:
      ((fastProgram devices.counter [collective]).code (.cta rank cta)).drop 2 := by
    refine ⟨rest, ?_⟩
    change _ = (agentCode devices.counter [collective] (.cta rank cta)).drop 2
    rw [code]
    rfl
  have passed := Program.solo_reachable ran (by simp) through
    (barrierActions_allowed (Function.update_self ..) rfl first second)
  have stores : [.begin ⟨⟨0, rank, cta⟩, 1⟩, .send ⟨0, rank, cta⟩ 0 goal.1 goal.2] <+:
      ((fastProgram devices.counter [collective]).code (.engine ⟨⟨0, rank, cta⟩, 1⟩)).drop 0 := by
    obtain ⟨count, several⟩ := Nat.exists_eq_succ_of_ne_zero (Nat.ne_of_gt nonempty)
    change _ <+: engineCode [collective] _
    rw [engineCode, storing, several, List.range_succ_eq_map]
    exact ⟨_, rfl⟩
  have sent := Program.solo_reachable passed (by simp) stores ⟨Function.update_self .., trivial, trivial⟩
  refine ⟨_, sent, ⟨1, by simp, ?_⟩, fun agent notCta notEngine => ?_⟩
  · obtain ⟨later, split⟩ := stores
    rw [List.drop_zero] at split
    rw [← split]
    rfl
  · simp [notCta, notEngine]

end Lone

section Gather

variable {history : List (Collective Value)} {devices shared : Devices Value} {pc : Agent → Nat}

/-- A gathering CTA whose load is issued sends its chunk to its one peer and arrives at the last barrier by itself. -/
theorem gather_alone {start : Nat → Scratch → Nat} (block : Block)
    (reached : (fastProgram start history).Reachable devices ⟨pc, shared⟩)
    (here : pc (.cta block.rank block.cta) = position)
    (ahead : [.finish (block.bulk 0), .issue (block.bulk 1), .finish (block.bulk 1), .arrive block.rank scratch] <+:
      ((fastProgram start history).code (.cta block.rank block.cta)).drop position)
    (loading : historyMoves history (block.bulk 0) = some loads)
    (sending : historyMoves history (block.bulk 1) = some sends)
    (waiting : ∀ index, pc (.engine (block.bulk index)) = 0) (issued : shared.issued (block.bulk 0) = true) :
    ∃ memory chunk later, (fastProgram start history).Reachable devices ⟨later,
        { shared with
          memory := memory
          chunk := chunk
          issued := Function.update shared.issued (block.bulk 1) true
          completed := Function.update (Function.update shared.completed (block.bulk 0) true) (block.bulk 1) true
          counter := store shared.counter block.rank scratch (shared.counter block.rank scratch + 1) }⟩ ∧
      later (.cta block.rank block.cta) = position + 4 ∧
      ∀ agent, agent ≠ .cta block.rank block.cta → (∀ index, agent ≠ .engine (block.bulk index)) →
        later agent = pc agent := by
  obtain ⟨rest, split⟩ := ahead
  obtain ⟨_, _, loaded⟩ := engine_runs reached (waiting 0) loading issued
  have issues : [.finish (block.bulk 0), .issue (block.bulk 1)] <+:
      ((fastProgram start history).code (.cta block.rank block.cta)).drop position := ⟨_, split⟩
  have started := Program.solo_reachable loaded (by simpa using here) issues ⟨Function.update_self .., trivial, trivial⟩
  obtain ⟨memory, chunk, sent⟩ := engine_runs started (by simpa [Block.bulk] using waiting 1) sending
    (Function.update_self ..)
  have arrives : [.finish (block.bulk 1), .arrive block.rank scratch] <+:
      ((fastProgram start history).code (.cta block.rank block.cta)).drop (position + 2) := by
    rw [← List.drop_drop, ← split]
    exact ⟨rest, rfl⟩
  have arrived := Program.solo_reachable sent (by simp) arrives ⟨Function.update_self .., trivial, trivial⟩
  refine ⟨memory, chunk, _, arrived, by simp, fun agent notCta notEngine => ?_⟩
  simp [notCta, notEngine]

end Gather

end Ooverlap.Fast
