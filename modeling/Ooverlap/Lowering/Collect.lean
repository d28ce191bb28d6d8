import Ooverlap.Lowering.Lower

/-! What lowering collects of a plan for one rank. -/

namespace Ooverlap.Lowering

open Plan

/-- The tasks of a rank that its kernel executes as window tasks. -/
def executableTasks (plan : TransferPlan) (rank : Int) : List TransferTask :=
  (rankTasks plan rank).filter fun task => !transferTaskIsReady task

/-- What collection has checked of each task it keeps. -/
structure Executable (rank : Int) (task : TransferTask) : Prop where
  executor : task.executorRank = rank
  hasWork : transferTaskHasWork task = true
  kind : transferTaskIsBarrier task = true ∨ transferTaskIsWindowed task = true

theorem barrier_not_ready (barrier : transferTaskIsBarrier task = true) : transferTaskIsReady task = false := by
  simp only [transferTaskIsBarrier, decide_eq_true_eq] at barrier
  simp [transferTaskIsReady, barrier]

theorem barrier_not_windowed (barrier : transferTaskIsBarrier task = true) :
    transferTaskIsWindowed task = false := by
  simp only [transferTaskIsBarrier, decide_eq_true_eq] at barrier
  simp [transferTaskIsWindowed, barrier]

theorem windowed_not_ready (windowed : transferTaskIsWindowed task = true) :
    transferTaskIsReady task = false := by
  simp only [transferTaskIsWindowed, Bool.or_eq_true, decide_eq_true_eq] at windowed
  rcases windowed with ((op | op) | op) | op <;> simp [transferTaskIsReady, op]

theorem collectFrom_eq (collected : collectFrom rank seen tasks = some kept) :
    kept = (tasks.filter fun task => task.executorRank = rank).filter (fun task => !transferTaskIsReady task) ∧
      ∀ task ∈ kept, Executable rank task := by
  induction tasks generalizing seen kept with
  | nil =>
    cases collected
    exact ⟨rfl, by simp⟩
  | cons task rest ih =>
    simp only [collectFrom] at collected
    by_cases own : task.executorRank = rank
    · have keep : ∀ seen, transferTaskHasWork task = true →
          (transferTaskIsBarrier task = true ∨ transferTaskIsWindowed task = true) →
          (collectFrom rank seen rest).map (task :: ·) = some kept →
          kept = ((task :: rest).filter fun task => task.executorRank = rank).filter
            (fun task => !transferTaskIsReady task) ∧ ∀ task ∈ kept, Executable rank task := by
        intro seen hasWork kind kept'
        have unready : transferTaskIsReady task = false :=
          kind.elim barrier_not_ready windowed_not_ready
        obtain ⟨later, ranLater, rfl⟩ := Option.map_eq_some_iff.mp kept'
        obtain ⟨same, each⟩ := ih ranLater
        refine ⟨by simp [own, unready, same], fun other member => ?_⟩
        rcases List.mem_cons.mp member with rfl | inLater
        · exact ⟨own, hasWork, kind⟩
        · exact each other inLater
      rw [if_neg (not_not.mpr own)] at collected
      split at collected
      · cases collected
      · rename_i hasWork
        simp only [Bool.not_eq_true', Bool.not_eq_false] at hasWork
        split at collected
        · rename_i barrier
          exact keep _ hasWork (Or.inl barrier) collected
        · split at collected
          · rename_i ready
            split at collected
            · cases collected
            · obtain ⟨same, each⟩ := ih collected
              exact ⟨by simp [own, ready, same], each⟩
          · split at collected
            · cases collected
            · rename_i windowed
              simp only [Bool.not_eq_true', Bool.not_eq_false] at windowed
              exact keep _ hasWork (Or.inr windowed) collected
    · rw [if_pos own] at collected
      obtain ⟨same, each⟩ := ih collected
      exact ⟨by simp [own, same], each⟩

/-- Counts of a buffer that agree with the tasks counted into it. -/
structure Counted (tasks : List TransferTask) (buffer : RankTransferTaskBuffer) : Prop where
  total : buffer.barrierCount + buffer.windowCount = tasks.length
  barriers : 0 ≤ buffer.barrierCount
  windows : 0 ≤ buffer.windowCount
  reaches : ∀ task ∈ tasks, transferTaskIsWindowed task = true →
    0 < buffer.windowCount ∧ task.endWindow ≤ buffer.maxEndWindow
  occupied : 0 < buffer.windowCount → ∃ task ∈ tasks, transferTaskIsWindowed task = true
  attained : buffer.maxEndWindow = 0 ∨
    ∃ task ∈ tasks, transferTaskIsWindowed task = true ∧ buffer.maxEndWindow = task.endWindow

private theorem countRankTasks_invariant (before after : List TransferTask) (buffer result : RankTransferTaskBuffer)
    (whole : buffer.tasks = before ++ after)
    (counted : Counted before buffer)
    (ran : after.foldlM countRankTask buffer = some result) :
    result.tasks = buffer.tasks ∧ Counted result.tasks result := by
  induction after generalizing before buffer with
  | nil =>
    cases ran
    rw [List.append_nil] at whole
    exact ⟨rfl, whole ▸ counted⟩
  | cons task rest ih =>
    rw [List.foldlM_cons] at ran
    obtain ⟨middle, here, later⟩ := Option.bind_eq_some_iff.mp ran
    have split : buffer.tasks = (before ++ [task]) ++ rest := by simp [whole]
    obtain ⟨total, barriers, windows, reaches, occupied, attained⟩ := counted
    unfold countRankTask at here
    split at here
    · rename_i barrier
      cases here
      refine ih (before ++ [task]) { buffer with barrierCount := buffer.barrierCount + 1 } split
        ⟨?_, ?_, windows, ?_, ?_, ?_⟩ later
      · simp only [List.length_append, List.length_singleton]
        omega
      · simp only
        omega
      · intro other member windowed
        rcases List.mem_append.mp member with earlier | last
        · exact reaches other earlier windowed
        · rw [List.mem_singleton.mp last, barrier_not_windowed barrier] at windowed
          cases windowed
      · intro positive
        obtain ⟨other, member, windowed⟩ := occupied positive
        exact ⟨other, List.mem_append_left _ member, windowed⟩
      · refine attained.imp id ?_
        rintro ⟨other, member, attains⟩
        exact ⟨other, List.mem_append_left _ member, attains⟩
    · split at here
      · cases here
      · split at here
        · cases here
        · rename_i windowedTask
          simp only [Bool.not_eq_true', Bool.not_eq_false] at windowedTask
          cases here
          refine ih (before ++ [task])
            { buffer with
              windowCount := buffer.windowCount + 1
              maxEndWindow := max buffer.maxEndWindow task.endWindow } split ⟨?_, barriers, ?_, ?_, ?_, ?_⟩ later
          · simp only [List.length_append, List.length_singleton]
            omega
          · simp only
            omega
          · intro other member windowed
            simp only
            refine ⟨by omega, ?_⟩
            rcases List.mem_append.mp member with earlier | last
            · exact le_trans (reaches other earlier windowed).2 (le_max_left _ _)
            · rw [List.mem_singleton.mp last]
              exact le_max_right _ _
          · intro _
            exact ⟨task, List.mem_append_right _ (List.mem_singleton_self task), windowedTask⟩
          · simp only
            rcases le_total buffer.maxEndWindow task.endWindow with grows | stays
            · exact Or.inr ⟨task, List.mem_append_right _ (List.mem_singleton_self task), windowedTask,
                max_eq_right grows⟩
            · rw [max_eq_left stays]
              refine attained.imp id ?_
              rintro ⟨other, member, attains⟩
              exact ⟨other, List.mem_append_left _ member, attains⟩

theorem recompute_counted (ran : recomputeRankTransferTaskStats tasks = some buffer) :
    buffer.tasks = tasks ∧ Counted buffer.tasks buffer :=
  countRankTasks_invariant [] tasks { tasks } buffer rfl
    ⟨rfl, le_refl _, le_refl _, fun _ member => absurd member List.not_mem_nil,
      fun positive => absurd positive (lt_irrefl _), Or.inl rfl⟩ ran

/-- Successful collection and passes leave exactly the rank's executable tasks, counted. -/
theorem collect_passes (collected : collectRankTransferTasks limits plan ctx = some first)
    (passed : runTransferTaskLoweringPasses ctx first = some buffer) :
    buffer.tasks = executableTasks plan ctx.currentRank ∧ Counted buffer.tasks buffer ∧
      ∀ task ∈ buffer.tasks, Executable ctx.currentRank task := by
  unfold collectRankTransferTasks at collected
  split at collected
  · cases collected
  · obtain ⟨kept, scanned, recounted⟩ := Option.bind_eq_some_iff.mp collected
    obtain ⟨same, each⟩ := collectFrom_eq scanned
    obtain ⟨sameFirst, _⟩ := recompute_counted recounted
    have again : recomputeRankTransferTaskStats first.tasks = some buffer := by
      unfold runTransferTaskLoweringPasses at passed
      split at passed
      · exact passed
      · split at passed
        · cases passed
        · obtain ⟨counted, ran, kept⟩ := Option.bind_eq_some_iff.mp passed
          split at kept
          · cases kept
            exact ran
          · cases kept
    obtain ⟨sameBuffer, counted⟩ := recompute_counted again
    rw [sameFirst] at sameBuffer
    refine ⟨?_, counted, ?_⟩
    · rw [sameBuffer, same]
      rfl
    · rw [sameBuffer]
      exact each

end Ooverlap.Lowering
