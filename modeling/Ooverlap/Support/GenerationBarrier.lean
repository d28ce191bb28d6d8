import Mathlib.Data.Finset.Card
import Mathlib.Data.Finset.Filter
import Mathlib.Tactic.Common

/-! Barriers with a counter that the last arrival resets while it opens the next generation. -/

namespace Ooverlap.GenerationBarrier

/-- The shared words of a barrier. -/
structure Gate where
  count : Nat := 0
  generation : Nat := 0
  deriving DecidableEq, Repr

/-- Agents against the shared words: `passes` counts the barriers an agent has left, and an agent that
waits inside one is either held in the current generation or free to leave the previous one. -/
structure Consistent {Agent : Type*} (agents : Finset Agent) (gate : Gate) (passes : Agent → Nat)
    (waiting : Agent → Bool) : Prop where
  present : ∀ agent ∈ agents, waiting agent = false → passes agent = gate.generation
  inside : ∀ agent ∈ agents, waiting agent = true →
    passes agent = gate.generation ∨ passes agent + 1 = gate.generation
  count : gate.count = (agents.filter fun agent => waiting agent = true ∧ passes agent = gate.generation).card
  room : gate.count < agents.card

/-- The counters of all agents but one are what they were. -/
def Elsewhere {Agent : Type*} (actor : Agent) (passes passes' : Agent → Nat) (waiting waiting' : Agent → Bool) : Prop :=
  ∀ agent, agent ≠ actor → passes' agent = passes agent ∧ waiting' agent = waiting agent

variable {Agent : Type*} {agents : Finset Agent} {gate : Gate} {passes passes' : Agent → Nat}
  {waiting waiting' : Agent → Bool} {actor : Agent}

theorem consistent_start (nonempty : agents.Nonempty) :
    Consistent agents {} (fun _ => 0) (fun _ => false) where
  present _ _ _ := rfl
  inside := nofun
  count := by simp
  room := Finset.card_pos.mpr nonempty

namespace Consistent

theorem passes_le (consistent : Consistent agents gate passes waiting) (member : agent ∈ agents) :
    passes agent ≤ gate.generation := by
  cases held : waiting agent with
  | false => exact le_of_eq (consistent.present agent member held)
  | true =>
    have := consistent.inside agent member held
    omega

/-- Steps away from the barrier keep it consistent. -/
theorem stay (consistent : Consistent agents gate passes waiting) (elsewhere : Elsewhere actor passes passes' waiting waiting')
    (same : passes' actor = passes actor) (still : waiting' actor = waiting actor) :
    Consistent agents gate passes' waiting' := by
  have counts : passes' = passes := by
    funext agent
    by_cases here : agent = actor
    · rw [here, same]
    · exact (elsewhere agent here).1
  have waits : waiting' = waiting := by
    funext agent
    by_cases here : agent = actor
    · rw [here, still]
    · exact (elsewhere agent here).2
  rwa [counts, waits]

theorem arrive [DecidableEq Agent] (consistent : Consistent agents gate passes waiting) (member : actor ∈ agents)
    (outside : waiting actor = false) (early : gate.count + 1 ≠ agents.card)
    (elsewhere : Elsewhere actor passes passes' waiting waiting')
    (same : passes' actor = passes actor) (held : waiting' actor = true) :
    Consistent agents { gate with count := gate.count + 1 } passes' waiting' where
  present agent listed free := by
    by_cases here : agent = actor
    · rw [here, held] at free
      cases free
    · rw [(elsewhere agent here).1]
      exact consistent.present agent listed (by rwa [(elsewhere agent here).2] at free)
  inside agent listed waits := by
    by_cases here : agent = actor
    · rw [here, same]
      exact Or.inl (consistent.present actor member outside)
    · rw [(elsewhere agent here).1]
      exact consistent.inside agent listed (by rwa [(elsewhere agent here).2] at waits)
  count := by
    have grown : (agents.filter fun agent => waiting' agent = true ∧ passes' agent = gate.generation) =
        insert actor (agents.filter fun agent => waiting agent = true ∧ passes agent = gate.generation) := by
      ext agent
      simp only [Finset.mem_filter, Finset.mem_insert]
      by_cases here : agent = actor
      · subst here
        simp only [member, held, same, consistent.present agent member outside, true_and, true_or]
      · rw [(elsewhere agent here).1, (elsewhere agent here).2]
        simp [here]
    have fresh : actor ∉ agents.filter fun agent => waiting agent = true ∧ passes agent = gate.generation := by
      simp [outside]
    change gate.count + 1 = (agents.filter fun agent => waiting' agent = true ∧ passes' agent = gate.generation).card
    rw [grown, Finset.card_insert_of_notMem fresh, consistent.count]
  room := by
    have := consistent.room
    change gate.count + 1 < agents.card
    omega

/-- Before the last arrival everyone else is held in the current generation. -/
theorem others_held [DecidableEq Agent] (consistent : Consistent agents gate passes waiting) (member : actor ∈ agents)
    (outside : waiting actor = false) (last : gate.count + 1 = agents.card) :
    ∀ agent ∈ agents, agent ≠ actor → waiting agent = true ∧ passes agent = gate.generation := by
  have everyone : (agents.filter fun agent => waiting agent = true ∧ passes agent = gate.generation) =
      agents.erase actor := by
    refine Finset.eq_of_subset_of_card_le (fun agent chosen => ?_) ?_
    · obtain ⟨listed, waits, _⟩ := Finset.mem_filter.mp chosen
      refine Finset.mem_erase.mpr ⟨fun here => ?_, listed⟩
      rw [here, outside] at waits
      cases waits
    · rw [Finset.card_erase_of_mem member, ← consistent.count]
      omega
  intro agent listed apart
  have chosen := Finset.mem_erase.mpr ⟨apart, listed⟩
  rw [← everyone] at chosen
  exact (Finset.mem_filter.mp chosen).2

/-- With the last arrival the next generation frees everyone. -/
theorem arriveLast [DecidableEq Agent] (consistent : Consistent agents gate passes waiting) (member : actor ∈ agents)
    (outside : waiting actor = false) (last : gate.count + 1 = agents.card)
    (elsewhere : Elsewhere actor passes passes' waiting waiting')
    (more : passes' actor = passes actor + 1) (free : waiting' actor = false) :
    Consistent agents { count := 0, generation := gate.generation + 1 } passes' waiting' := by
  have others := consistent.others_held member outside last
  refine ⟨fun agent listed outside' => ?_, fun agent listed waits => ?_, ?_, Finset.card_pos.mpr ⟨actor, member⟩⟩
  · by_cases here : agent = actor
    · rw [here, more, consistent.present actor member outside]
    · rw [(elsewhere agent here).2, (others agent listed here).1] at outside'
      cases outside'
  · by_cases here : agent = actor
    · rw [here, free] at waits
      cases waits
    · rw [(elsewhere agent here).1, (others agent listed here).2]
      exact Or.inr rfl
  · refine (Finset.card_eq_zero.mpr (Finset.filter_eq_empty_iff.mpr fun agent listed held => ?_)).symm
    obtain ⟨waits, reached⟩ := held
    by_cases here : agent = actor
    · rw [here, free] at waits
      cases waits
    · rw [(elsewhere agent here).1, (others agent listed here).2] at reached
      exact absurd reached (Nat.ne_of_lt (Nat.lt_succ_self _))

theorem leave (consistent : Consistent agents gate passes waiting) (member : actor ∈ agents)
    (inside : waiting actor = true) (opened : passes actor ≠ gate.generation)
    (elsewhere : Elsewhere actor passes passes' waiting waiting')
    (more : passes' actor = passes actor + 1) (free : waiting' actor = false) :
    Consistent agents gate passes' waiting' where
  present agent listed outside := by
    by_cases here : agent = actor
    · rw [here, more]
      exact (consistent.inside actor member inside).resolve_left opened
    · rw [(elsewhere agent here).1]
      exact consistent.present agent listed (by rwa [(elsewhere agent here).2] at outside)
  inside agent listed waits := by
    by_cases here : agent = actor
    · rw [here, free] at waits
      cases waits
    · rw [(elsewhere agent here).1]
      exact consistent.inside agent listed (by rwa [(elsewhere agent here).2] at waits)
  count := by
    rw [consistent.count]
    congr 1
    refine Finset.filter_congr fun agent _ => ?_
    by_cases here : agent = actor
    · subst here
      simp [free, opened]
    · rw [(elsewhere agent here).1, (elsewhere agent here).2]
  room := consistent.room

/-- Never is everybody held. -/
theorem exists_free (consistent : Consistent agents gate passes waiting) :
    ∃ agent ∈ agents, waiting agent = false ∨ passes agent ≠ gate.generation := by
  by_contra all
  push Not at all
  have everyone : (agents.filter fun agent => waiting agent = true ∧ passes agent = gate.generation) = agents := by
    refine Finset.filter_true_of_mem fun agent listed => ?_
    obtain ⟨waits, held⟩ := all agent listed
    exact ⟨by simpa using waits, held⟩
  have counted := consistent.count
  have room := consistent.room
  rw [everyone] at counted
  omega

end Consistent

end Ooverlap.GenerationBarrier
