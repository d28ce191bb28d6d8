import Ooverlap.Overlap.SegmentSearch
import Ooverlap.Support.Interleaving

/-! Counting of finished tiles by the epilogue against the waits of the communication stream. -/

namespace Ooverlap.Overlap

open Relation Interleaving Blocks

/-- Segments that sum to the tile count, the packed position of every tile, and the arrivals each tile gets. -/
structure SignalPlan where
  cSEG : List Nat
  RA : Equiv.Perm (Fin cSEG.sum)
  expected : Fin cSEG.sum → Nat
  positive : ∀ tile, 1 ≤ expected tile

namespace SignalPlan

variable (plan : SignalPlan)

abbrev Tile : Type := Fin plan.cSEG.sum

/-- The packed position of a tile lies in a segment. -/
def InSegment (seg : Nat) (tile : plan.Tile) : Prop :=
  Inside plan.cSEG seg (plan.RA tile)

instance (seg : Nat) : DecidablePred (plan.InSegment seg) :=
  fun _ => inferInstanceAs (Decidable (Inside _ _ _))

end SignalPlan

/-- Segment counters, then arrivals by packed tile, are one array `mm`; the other fields record who has done what. -/
structure SignalState (plan : SignalPlan) where
  mm : Nat → Nat := fun _ => 0
  delivered : plan.Tile → Nat := fun _ => 0
  completing : plan.Tile → Bool := fun _ => false
  counted : plan.Tile → List Nat := fun _ => []
  waiting : Nat := 0

/-- Index of a tile's arrival counter. -/
def tileDone (plan : SignalPlan) (tile : plan.Tile) : Nat :=
  plan.cSEG.length + plan.RA tile

/-- One arrival of a tile, the counting of a finished tile, or a successful compare-and-swap of the stream's wait. -/
inductive SignalStep (plan : SignalPlan) (epilogue : Epilogue) : SignalState plan → SignalState plan → Prop where
  | arrive {state : SignalState plan} (tile : plan.Tile) (more : state.delivered tile < plan.expected tile) :
      SignalStep plan epilogue state
        { state with
          mm := Function.update state.mm (tileDone plan tile) (state.mm (tileDone plan tile) + 1)
          delivered := Function.update state.delivered tile (state.delivered tile + 1)
          completing := if state.mm (tileDone plan tile) = plan.expected tile - 1 then
            Function.update state.completing tile true else state.completing }
  | count {state : SignalState plan} {seg : Nat} (tile : plan.Tile) (last : state.completing tile = true)
      (found : epilogue.segment plan.cSEG (plan.RA tile) = some seg) :
      SignalStep plan epilogue state
        { state with
          mm := Function.update state.mm seg (state.mm seg + 1)
          completing := Function.update state.completing tile false
          counted := Function.update state.counted tile (state.counted tile ++ [seg]) }
  | wait {state : SignalState plan} {thisSeg : Nat} (next : plan.cSEG[state.waiting]? = some thisSeg)
      (equal : state.mm state.waiting = thisSeg) :
      SignalStep plan epilogue state
        { state with
          mm := Function.update state.mm state.waiting 0
          waiting := state.waiting + 1 }

section Protocol

variable {plan : SignalPlan} {epilogue : Epilogue} {state after : SignalState plan}

abbrev SignalReachable (plan : SignalPlan) (epilogue : Epilogue) (state : SignalState plan) : Prop :=
  ReflTransGen (SignalStep plan epilogue) {} state

/-- The stream has been through all its waits. -/
def AllWaited (state : SignalState plan) : Prop :=
  state.waiting = plan.cSEG.length

/-- Where a tile stands: arrivals missing, all in but not counted, or counted once in its own segment. -/
inductive TileStatus (state : SignalState plan) (tile : plan.Tile) : Prop where
  | arriving (quiet : state.completing tile = false) (uncounted : state.counted tile = [])
      (missing : state.delivered tile < plan.expected tile)
  | completing (last : state.completing tile = true) (uncounted : state.counted tile = [])
      (full : state.delivered tile = plan.expected tile)
  | counted (quiet : state.completing tile = false) (seg : Nat) (once : state.counted tile = [seg])
      (inside : plan.InSegment seg tile) (full : state.delivered tile = plan.expected tile)

/-- Tiles of a segment that have been counted. -/
def countedIn (state : SignalState plan) (seg : Nat) : Finset plan.Tile :=
  Finset.univ.filter fun tile => state.counted tile ≠ [] ∧ plan.InSegment seg tile

structure Counting (state : SignalState plan) : Prop where
  arrivals : ∀ tile, state.mm (tileDone plan tile) = state.delivered tile
  status : ∀ tile, TileStatus state tile
  counters : ∀ seg < plan.cSEG.length, state.waiting ≤ seg → state.mm seg = (countedIn state seg).card
  passed : ∀ seg < state.waiting, state.mm seg = 0 ∧ ∀ tile, plan.InSegment seg tile → state.counted tile ≠ []
  within : state.waiting ≤ plan.cSEG.length

theorem card_segment (found : plan.cSEG[seg]? = some thisSeg) :
    (Finset.univ.filter fun tile : plan.Tile => plan.InSegment seg tile).card = thisSeg := by
  rw [← card_inside found]
  refine Finset.card_bij (fun tile _ => plan.RA tile) (fun tile member => ?_) (fun _ _ _ _ same => plan.RA.injective same)
    fun position member => ?_
  · exact Finset.mem_filter.mpr ⟨Finset.mem_univ _, (Finset.mem_filter.mp member).2⟩
  · have inside := (Finset.mem_filter.mp member).2
    refine ⟨plan.RA.symm position, Finset.mem_filter.mpr ⟨Finset.mem_univ _, ?_⟩, plan.RA.apply_symm_apply position⟩
    rwa [SignalPlan.InSegment, plan.RA.apply_symm_apply]

theorem tileDone_injective (same : tileDone plan first = tileDone plan second) : first = second :=
  plan.RA.injective (Fin.ext (Nat.add_left_cancel same))

theorem tileDone_ne (within : seg < plan.cSEG.length) (tile : plan.Tile) : seg ≠ tileDone plan tile := by
  unfold tileDone
  omega

theorem counting_start (plan : SignalPlan) : Counting ({} : SignalState plan) where
  arrivals _ := rfl
  status tile := .arriving rfl rfl (plan.positive tile)
  counters seg _ _ := by
    refine (Finset.card_eq_zero.mpr (Finset.filter_eq_empty_iff.mpr ?_)).symm
    exact fun tile _ both => both.1 rfl
  passed _ before := absurd before (Nat.not_lt_zero _)
  within := Nat.zero_le _

theorem Counting.arrive (counting : Counting state) (tile : plan.Tile)
    (more : state.delivered tile < plan.expected tile) :
    Counting
      { state with
        mm := Function.update state.mm (tileDone plan tile) (state.mm (tileDone plan tile) + 1)
        delivered := Function.update state.delivered tile (state.delivered tile + 1)
        completing := if state.mm (tileDone plan tile) = plan.expected tile - 1 then
          Function.update state.completing tile true else state.completing } where
  arrivals other := by
    by_cases here : other = tile
    · subst here
      simp only [Function.update_self, counting.arrivals]
    · have apart : tileDone plan other ≠ tileDone plan tile := fun same => here (tileDone_injective same)
      simp only [Function.update_of_ne apart, Function.update_of_ne here]
      exact counting.arrivals other
  status other := by
    by_cases here : other = tile
    · subst here
      have some := plan.positive other
      rcases counting.status other with ⟨quiet, uncounted, _⟩ | ⟨_, _, full⟩ | ⟨_, _, _, _, full⟩
      · by_cases final : state.mm (tileDone plan other) = plan.expected other - 1
        · refine .completing ?_ uncounted ?_
          · simp only [if_pos final, Function.update_self]
          · rw [counting.arrivals] at final
            simp only [Function.update_self]
            omega
        · refine .arriving ?_ uncounted ?_
          · simp only [if_neg final]
            exact quiet
          · rw [counting.arrivals] at final
            simp only [Function.update_self]
            omega
      · omega
      · omega
    · have same : (if state.mm (tileDone plan tile) = plan.expected tile - 1 then
          Function.update state.completing tile true else state.completing) other = state.completing other := by
        split
        · exact Function.update_of_ne here ..
        · rfl
      rcases counting.status other with ⟨quiet, uncounted, missing⟩ | ⟨last, uncounted, full⟩ |
        ⟨quiet, seg, once, inside, full⟩
      · exact .arriving (same.trans quiet) uncounted (by simpa only [Function.update_of_ne here] using missing)
      · exact .completing (same.trans last) uncounted (by simpa only [Function.update_of_ne here] using full)
      · exact .counted (same.trans quiet) seg once inside (by simpa only [Function.update_of_ne here] using full)
  counters seg bound later := by
    simp only [Function.update_of_ne (tileDone_ne bound tile)]
    exact counting.counters seg bound later
  passed seg before := by
    have bound := lt_of_lt_of_le before counting.within
    simp only [Function.update_of_ne (tileDone_ne bound tile)]
    exact counting.passed seg before
  within := counting.within

theorem TileStatus.inside (status : TileStatus state tile) (counted : state.counted tile ≠ []) :
    state.delivered tile = plan.expected tile := by
  rcases status with ⟨_, uncounted, _⟩ | ⟨_, uncounted, _⟩ | ⟨_, _, _, _, full⟩
  · exact absurd uncounted counted
  · exact absurd uncounted counted
  · exact full

theorem Counting.count (counting : Counting state) (tile : plan.Tile) (last : state.completing tile = true)
    (inside : plan.InSegment seg tile) :
    Counting
      { state with
        mm := Function.update state.mm seg (state.mm seg + 1)
        completing := Function.update state.completing tile false
        counted := Function.update state.counted tile (state.counted tile ++ [seg]) } := by
  have bound : seg < plan.cSEG.length := inside.lt_length
  obtain ⟨uncounted, full⟩ : state.counted tile = [] ∧ state.delivered tile = plan.expected tile := by
    rcases counting.status tile with ⟨quiet, _, _⟩ | ⟨_, uncounted, full⟩ | ⟨quiet, _, _, _, _⟩
    · rw [quiet] at last
      cases last
    · exact ⟨uncounted, full⟩
    · rw [quiet] at last
      cases last
  have notPassed : state.waiting ≤ seg := by
    by_contra before
    exact (counting.passed seg (not_le.mp before)).2 tile inside uncounted
  have grows : ∀ other, plan.InSegment other tile → other = seg := fun other also => also.unique inside
  refine ⟨fun other => ?_, fun other => ?_, fun other bound' later => ?_, fun other before => ?_, counting.within⟩
  · simp only [Function.update_of_ne (tileDone_ne bound other).symm]
    exact counting.arrivals other
  · by_cases here : other = tile
    · subst here
      exact .counted (by simp) seg (by simp [uncounted]) inside full
    · rcases counting.status other with ⟨quiet, uncounted, missing⟩ | ⟨last, uncounted, full⟩ |
        ⟨quiet, seg, once, inside, full⟩
      · exact .arriving (by simpa [here] using quiet) (by simpa [here] using uncounted) missing
      · exact .completing (by simpa [here] using last) (by simpa [here] using uncounted) full
      · exact .counted (by simpa [here] using quiet) seg (by simpa [here] using once) inside full
  · by_cases here : other = seg
    · subst here
      have grown : countedIn { state with
          mm := Function.update state.mm other (state.mm other + 1)
          completing := Function.update state.completing tile false
          counted := Function.update state.counted tile (state.counted tile ++ [other]) } other =
            insert tile (countedIn state other) := by
        ext some
        simp only [countedIn, Finset.mem_filter, Finset.mem_univ, true_and, Finset.mem_insert]
        by_cases same : some = tile
        · subst same
          simp [inside]
        · simp [same]
      have fresh : tile ∉ countedIn state other := by
        simp [countedIn, uncounted]
      rw [grown, Finset.card_insert_of_notMem fresh]
      simp only [Function.update_self]
      rw [counting.counters other bound' later]
    · have same : countedIn { state with
          mm := Function.update state.mm seg (state.mm seg + 1)
          completing := Function.update state.completing tile false
          counted := Function.update state.counted tile (state.counted tile ++ [seg]) } other = countedIn state other := by
        ext some
        simp only [countedIn, Finset.mem_filter, Finset.mem_univ, true_and]
        by_cases same : some = tile
        · subst same
          have foreign : ¬plan.InSegment other some := fun also => here (grows other also)
          simp [foreign]
        · simp [same]
      rw [same]
      simp only [Function.update_of_ne here]
      exact counting.counters other bound' later
  · have apart : other ≠ seg := Nat.ne_of_lt (lt_of_lt_of_le before notPassed)
    simp only [Function.update_of_ne apart]
    refine ⟨(counting.passed other before).1, fun some member => ?_⟩
    by_cases same : some = tile
    · subst same
      simp
    · simpa [same] using (counting.passed other before).2 some member

/-- When a wait returns, its whole segment has been counted. -/
theorem Counting.wait (counting : Counting state) (next : plan.cSEG[state.waiting]? = some thisSeg)
    (equal : state.mm state.waiting = thisSeg) :
    Counting { state with mm := Function.update state.mm state.waiting 0, waiting := state.waiting + 1 } := by
  have bound := (List.getElem?_eq_some_iff.mp next).1
  have everyone : ∀ tile, plan.InSegment state.waiting tile → state.counted tile ≠ [] := by
    have counted := counting.counters state.waiting bound (le_refl _)
    have subset : countedIn state state.waiting ⊆
        Finset.univ.filter fun tile : plan.Tile => plan.InSegment state.waiting tile := by
      intro tile member
      simp only [countedIn, Finset.mem_filter, Finset.mem_univ, true_and] at member ⊢
      exact member.2
    have all := Finset.eq_of_subset_of_card_le subset (by rw [card_segment next, ← counted, equal])
    intro tile inside
    have member : tile ∈ countedIn state state.waiting := by
      rw [all]
      simpa using inside
    exact (Finset.mem_filter.mp member).2.1
  refine ⟨fun tile => ?_, fun tile => ?_, fun seg within later => ?_, fun seg before => ?_, bound⟩
  · simp only [Function.update_of_ne (tileDone_ne bound tile).symm]
    exact counting.arrivals tile
  · rcases counting.status tile with ⟨quiet, uncounted, missing⟩ | ⟨last, uncounted, full⟩ |
      ⟨quiet, seg, once, inside, full⟩
    · exact .arriving quiet uncounted missing
    · exact .completing last uncounted full
    · exact .counted quiet seg once inside full
  · have apart : seg ≠ state.waiting := Nat.ne_of_gt later
    simp only [Function.update_of_ne apart]
    exact counting.counters seg within (Nat.le_of_succ_le later)
  · rcases Nat.lt_succ_iff_lt_or_eq.mp before with earlier | rfl
    · simp only [Function.update_of_ne (Nat.ne_of_lt earlier)]
      exact counting.passed seg earlier
    · exact ⟨Function.update_self .., everyone⟩

theorem counting_step (counting : Counting state) (taken : SignalStep plan epilogue state after) : Counting after := by
  cases taken with
  | arrive tile more => exact counting.arrive tile more
  | count tile last found =>
    obtain ⟨index, inside⟩ := exists_inside (plan.RA tile).isLt
    rw [epilogue.segment_eq inside, Option.some.injEq] at found
    subst found
    exact counting.count tile last inside
  | wait next equal => exact counting.wait next equal

theorem counting_of_reachable (reached : SignalReachable plan epilogue state) : Counting state :=
  invariant Counting (counting_start plan) (fun _ _ before taken => counting_step before taken) reached

/-- The next wait succeeds as soon as everything has been counted. -/
theorem Counting.ready (counting : Counting state) (counted : ∀ tile, state.counted tile ≠ [])
    (next : plan.cSEG[state.waiting]? = some thisSeg) : state.mm state.waiting = thisSeg := by
  have bound := (List.getElem?_eq_some_iff.mp next).1
  rw [counting.counters state.waiting bound (le_refl _), ← card_segment next, countedIn]
  congr 1
  exact Finset.filter_congr fun tile _ => by simp [counted tile]

theorem signal_progress (counting : Counting state) :
    AllWaited state ∨ ∃ next, SignalStep plan epilogue state next := by
  by_cases ended : state.waiting = plan.cSEG.length
  · exact Or.inl ended
  · right
    by_cases counted : ∀ tile, state.counted tile ≠ []
    · have bound : state.waiting < plan.cSEG.length := lt_of_le_of_ne counting.within ended
      have next : plan.cSEG[state.waiting]? = some plan.cSEG[state.waiting] := List.getElem?_eq_getElem bound
      exact ⟨_, .wait next (counting.ready counted next)⟩
    · push Not at counted
      obtain ⟨tile, uncounted⟩ := counted
      rcases counting.status tile with ⟨_, _, missing⟩ | ⟨last, _, _⟩ | ⟨_, seg, once, _, _⟩
      · exact ⟨_, .arrive tile missing⟩
      · obtain ⟨index, inside⟩ := exists_inside (plan.RA tile).isLt
        exact ⟨_, .count tile last (epilogue.segment_eq inside)⟩
      · rw [uncounted] at once
        cases once

/-- Steps still to come: arrivals, tiles to count and waits. -/
def signalsLeft (state : SignalState plan) : Nat :=
  (∑ tile, (2 * (plan.expected tile - state.delivered tile) + if state.completing tile then 1 else 0)) +
    (plan.cSEG.length - state.waiting)

theorem signalsLeft_decreases (counting : Counting state) (taken : SignalStep plan epilogue state after) :
    signalsLeft after < signalsLeft state := by
  have oneTile : ∀ (first second : plan.Tile → Nat) tile, (∀ other, other ≠ tile → first other = second other) →
      first tile < second tile → ∑ tile, first tile < ∑ tile, second tile := by
    intro first second tile same less
    refine Finset.sum_lt_sum (fun other _ => ?_) ⟨tile, Finset.mem_univ _, less⟩
    by_cases here : other = tile
    · rw [here]
      exact less.le
    · exact (same other here).le
  cases taken with
  | arrive tile more =>
    refine Nat.add_lt_add_right (oneTile _ _ tile (fun other apart => ?_) ?_) _
    · simp only [Function.update_of_ne apart]
      split <;> simp [apart]
    · simp only [Function.update_self]
      rcases counting.status tile with ⟨quiet, _, _⟩ | ⟨_, _, full⟩ | ⟨_, _, _, _, full⟩
      · split <;> simp [quiet] <;> omega
      · omega
      · omega
  | count tile last found =>
    refine Nat.add_lt_add_right (oneTile _ _ tile (fun other apart => ?_) ?_) _
    · simp only [Function.update_of_ne apart]
    · simp [last]
  | wait next equal =>
    have bound := (List.getElem?_eq_some_iff.mp next).1
    refine Nat.add_lt_add_left ?_ _
    change plan.cSEG.length - (state.waiting + 1) < plan.cSEG.length - state.waiting
    omega

/-- What the waits of the stream and the counting of tiles promise to each other. -/
structure Signalled (plan : SignalPlan) (epilogue : Epilogue) : Prop where
  safe : ∀ state, SignalReachable plan epilogue state → ∀ seg < state.waiting, ∀ tile, plan.InSegment seg tile →
    state.delivered tile = plan.expected tile
  once : ∀ state, SignalReachable plan epilogue state → ∀ tile, state.counted tile = [] ∨
    ∃ seg, state.counted tile = [seg] ∧ plan.InSegment seg tile
  ready : ∀ state, SignalReachable plan epilogue state →
    (∀ tile, state.delivered tile = plan.expected tile ∧ state.completing tile = false) →
      (∀ tile, ∃ seg, state.counted tile = [seg]) ∧
        ∀ thisSeg, plan.cSEG[state.waiting]? = some thisSeg → state.mm state.waiting = thisSeg
  completes : Completes (SignalStep plan epilogue) {} AllWaited
  zero : ∀ state, SignalReachable plan epilogue state → AllWaited state →
    (∀ seg < plan.cSEG.length, state.mm seg = 0) ∧ ∀ tile, state.counted tile ≠ []
  inBounds : ∀ tile < plan.cSEG.sum,
    storeTailSegment plan.cSEG tile = some (signalDoneSegment plan.cSEG tile)

/-- Both epilogues signal every segment exactly when its tiles are finished. -/
theorem signalling_signalled (plan : SignalPlan) (epilogue : Epilogue) : Signalled plan epilogue where
  safe state reached seg before tile inside := by
    have counting := counting_of_reachable reached
    exact (counting.status tile).inside ((counting.passed seg before).2 tile inside)
  once state reached tile := by
    rcases (counting_of_reachable reached).status tile with ⟨_, uncounted, _⟩ | ⟨_, uncounted, _⟩ |
      ⟨_, seg, once, inside, _⟩
    · exact Or.inl uncounted
    · exact Or.inl uncounted
    · exact Or.inr ⟨seg, once, inside⟩
  ready state reached full := by
    have counting := counting_of_reachable reached
    have each : ∀ tile, ∃ seg, state.counted tile = [seg] := by
      intro tile
      obtain ⟨arrived, quiet⟩ := full tile
      rcases counting.status tile with ⟨_, _, missing⟩ | ⟨last, _, _⟩ | ⟨_, seg, once, _, _⟩
      · omega
      · rw [quiet] at last
        cases last
      · exact ⟨seg, once⟩
    refine ⟨each, fun thisSeg next => counting.ready (fun tile => ?_) next⟩
    obtain ⟨seg, once⟩ := each tile
    rw [once]
    exact List.cons_ne_nil _ _
  completes :=
    completes_of_progress Counting (counting_start plan) (fun _ _ before taken => counting_step before taken) AllWaited
      signalsLeft (fun _ _ before taken => signalsLeft_decreases before taken) fun _ here => signal_progress here
  zero state reached ended := by
    have counting := counting_of_reachable reached
    refine ⟨fun seg bound => (counting.passed seg (ended ▸ bound)).1, fun tile => ?_⟩
    obtain ⟨index, inside⟩ := exists_inside (plan.RA tile).isLt
    exact (counting.passed index (ended ▸ inside.lt_length)).2 tile inside
  inBounds tile within := by
    obtain ⟨index, inside⟩ := exists_inside within
    rw [storeTailSegment_eq inside, signalDoneSegment_eq inside]

end Protocol

end Ooverlap.Overlap
