import Mathlib.Data.List.FinRange
import Mathlib.Logic.Function.Basic
import Ooverlap.Tuning.Segmentation

/-! The stable hint: tiles that finish in the same window in every monitor sample. -/

namespace Ooverlap.Tuning

/-- One row of a sample tensor: the position at which each tile was finished. -/
abbrev Sample (tileNum : Nat) : Type := Fin tileNum → Int

/-- What the window loop carries besides the tiles it lists. -/
structure EffectiveGroup where
  effectiveGroup : Int
  fullWindowSeen : Bool := false

section Windows

variable {tileNum : Nat}

def inWindow (lo hi : Nat) (position : Int) : Bool := lo ≤ position && position < hi

/-- `count_in_window == sample_count`. -/
def exactMask (lo hi : Nat) (samples : List (Sample tileNum)) (tile : Fin tileNum) : Bool :=
  samples.countP (fun order => inWindow lo hi (order tile)) = samples.length

def stableMask (lo hi : Nat) (sampleRounds : List (List (Sample tileNum))) (tile : Fin tileNum) : Bool :=
  sampleRounds.foldl (fun mask samples => mask && exactMask lo hi samples tile) true

def windowLo (wSize w : Nat) : Nat := w * wSize

def windowHi (tileNum wSize w : Nat) : Nat := min ((w + 1) * wSize) tileNum

/-- `torch.where(stable_mask)[0]`. -/
def stableTiles (sampleRounds : List (List (Sample tileNum))) (wSize w : Nat) : List (Fin tileNum) :=
  (List.finRange tileNum).filter (stableMask (windowLo wSize w) (windowHi tileNum wSize w) sampleRounds)

def stablePerWindow (sampleRounds : List (List (Sample tileNum))) (wSize : Nat) : List (List (Fin tileNum)) :=
  (List.range (divUp tileNum wSize)).map (stableTiles sampleRounds wSize)

def EffectiveGroup.window (sampleRounds : List (List (Sample tileNum))) (wSize computeSms : Nat)
    (nominalMinGroupSize : Int) (group : EffectiveGroup) (w : Nat) : EffectiveGroup :=
  let stableCount := (stableTiles sampleRounds wSize w).length
  let windowEffectiveGroup := min ((stableCount / computeSms : Nat) : Int) nominalMinGroupSize
  if windowHi tileNum wSize w - windowLo wSize w = wSize then
    { effectiveGroup := min group.effectiveGroup windowEffectiveGroup, fullWindowSeen := true }
  else group

def effectiveGroupOf (sampleRounds : List (List (Sample tileNum))) (wSize computeSms : Nat)
    (nominalMinGroupSize : Int) : Int :=
  let group := (List.range (divUp tileNum wSize)).foldl
    (EffectiveGroup.window sampleRounds wSize computeSms nominalMinGroupSize) { effectiveGroup := nominalMinGroupSize }
  if group.fullWindowSeen then group.effectiveGroup
  else min nominalMinGroupSize (divUp tileNum computeSms : Nat)

/-- `hint` and `used`. -/
structure HintLoop (tileNum : Nat) where
  hint : List Int := []
  used : Fin tileNum → Bool := fun _ => false

def HintLoop.tile (loop : HintLoop tileNum) (tile : Fin tileNum) : HintLoop tileNum :=
  if loop.used tile then loop
  else { hint := loop.hint ++ [(tile : Int)], used := Function.update loop.used tile true }

def hintOf (perWindow : List (List (Fin tileNum))) : HintLoop tileNum :=
  perWindow.foldl (fun loop tiles => tiles.foldl HintLoop.tile loop) {}

/-- The answer with its hint and its effective group; `none` where the source raises. -/
def computeStableHintFromRounds (sampleRounds : List (List (Sample tileNum))) (wSize computeSms : Nat)
    (nominalMinGroupSize minEffectiveGroupSize : Int) : Option (Bool × List Int × Int) :=
  if sampleRounds = [] ∨ wSize = 0 ∨ computeSms = 0 then none
  else
    let effectiveGroup := effectiveGroupOf sampleRounds wSize computeSms nominalMinGroupSize
    if effectiveGroup < minEffectiveGroupSize then some (false, [], effectiveGroup)
    else some (true, (hintOf (stablePerWindow sampleRounds wSize)).hint, effectiveGroup)

end Windows

section Stability

variable {tileNum wSize : Nat} {sampleRounds : List (List (Sample tileNum))}

/-- The tile lies in one window in every sample of every round. -/
def StableIn (sampleRounds : List (List (Sample tileNum))) (wSize w : Nat) (tile : Fin tileNum) : Prop :=
  ∀ samples ∈ sampleRounds, ∀ order ∈ samples,
    (windowLo wSize w : Int) ≤ order tile ∧ order tile < windowHi tileNum wSize w

theorem exactMask_iff {samples : List (Sample tileNum)} : exactMask lo hi samples tile = true ↔
    ∀ order ∈ samples, (lo : Int) ≤ order tile ∧ order tile < hi := by
  rw [exactMask, decide_eq_true_eq, List.countP_eq_length]
  simp only [inWindow, Bool.and_eq_true, decide_eq_true_eq]

theorem foldl_and (mask : Bool) (rounds : List α) (exact : α → Bool) :
    rounds.foldl (fun mask samples => mask && exact samples) mask = (mask && rounds.all exact) := by
  induction rounds generalizing mask with
  | nil => rw [List.foldl_nil, List.all_nil, Bool.and_true]
  | cons samples rest ih => rw [List.foldl_cons, ih, List.all_cons, Bool.and_assoc]

theorem mem_stableTiles : tile ∈ stableTiles sampleRounds wSize w ↔ StableIn sampleRounds wSize w tile := by
  rw [stableTiles, List.mem_filter, stableMask, foldl_and, Bool.true_and, List.all_eq_true]
  simp only [List.mem_finRange, true_and, exactMask_iff, StableIn]

theorem stableTiles_nodup : (stableTiles sampleRounds wSize w).Nodup :=
  (List.nodup_finRange tileNum).filter _

/-- A tile that is stable anywhere is stable in one of the windows of the loop. -/
theorem StableIn.window (positive : 0 < wSize) (stable : StableIn sampleRounds wSize w tile) :
    ∃ v < divUp tileNum wSize, v ≤ w ∧ StableIn sampleRounds wSize v tile := by
  by_cases sampled : ∃ samples ∈ sampleRounds, samples ≠ []
  · obtain ⟨samples, listed, nonempty⟩ := sampled
    obtain ⟨order, drawn⟩ := List.exists_mem_of_ne_nil samples nonempty
    obtain ⟨low, high⟩ := stable samples listed order drawn
    refine ⟨w, ?_, le_rfl, stable⟩
    rw [← not_le, divUp_le_iff positive, Nat.mul_comm]
    unfold windowLo windowHi at *
    omega
  · have empty : ∀ samples ∈ sampleRounds, samples = [] := by
      intro samples listed
      by_contra nonempty
      exact sampled ⟨samples, listed, nonempty⟩
    refine ⟨0, ?_, Nat.zero_le w, fun samples listed order drawn => ?_⟩
    · have tiles := tile.isLt
      rw [← not_le, divUp_le_iff positive]
      omega
    · rw [empty samples listed] at drawn
      exact absurd drawn List.not_mem_nil

end Stability

section Hint

variable {tileNum : Nat} {loop : HintLoop tileNum} {hinted listed : List (Fin tileNum)}

/-- The list of hinted tiles and the mask beside it. -/
structure HintLoop.Lists (loop : HintLoop tileNum) (hinted : List (Fin tileNum)) : Prop where
  hint : loop.hint = hinted.map fun (tile : Fin tileNum) => ((tile : Nat) : Int)
  used : ∀ tile, loop.used tile = true ↔ tile ∈ hinted
  distinct : hinted.Nodup

theorem HintLoop.Lists.extend (lists : loop.Lists hinted) (distinct : listed.Nodup) :
    (listed.foldl HintLoop.tile loop).Lists (hinted ++ listed.filter fun tile => tile ∉ hinted) := by
  induction listed generalizing loop hinted with
  | nil =>
    rw [List.filter_nil, List.append_nil]
    exact lists
  | cons tile rest ih =>
    obtain ⟨fresh, distinct⟩ := List.nodup_cons.mp distinct
    rw [List.foldl_cons, HintLoop.tile]
    split
    · rename_i used
      have hint : tile ∈ hinted := (lists.used tile).mp used
      rw [List.filter_cons_of_neg (by simpa using hint)]
      exact ih lists distinct
    · rename_i unused
      have missing : tile ∉ hinted := fun listed => unused ((lists.used tile).mpr listed)
      have same : (rest.filter fun other => other ∉ hinted) = rest.filter fun other => other ∉ hinted ++ [tile] := by
        apply List.filter_congr
        intro other member
        have apart : other ≠ tile := fun same => fresh (same ▸ member)
        simp [apart]
      rw [List.filter_cons_of_pos (by simpa using missing), same, List.append_cons hinted]
      refine ih ?_ distinct
      constructor
      · rw [lists.hint, List.map_append, List.map_singleton]
      · intro other
        by_cases again : other = tile
        · simp [again]
        · simp [lists.used, again]
      · exact List.nodup_append.mpr ⟨lists.distinct, List.nodup_singleton tile, by
          intro other member new alone
          rw [List.mem_singleton.mp alone]
          exact fun same => missing (same ▸ member)⟩

/-- Earlier windows first. -/
def WindowOrdered (window : Nat → List (Fin tileNum)) (a b : Fin tileNum) : Prop :=
  ∀ w, b ∈ window w → ∃ v ≤ w, a ∈ window v

/-- The hint after `count` windows. -/
structure AfterWindows (window : Nat → List (Fin tileNum)) (count : Nat) (hinted : List (Fin tileNum)) : Prop where
  members : ∀ tile, tile ∈ hinted ↔ ∃ w < count, tile ∈ window w
  ordered : hinted.Pairwise (WindowOrdered window)

theorem AfterWindows.step {window : Nat → List (Fin tileNum)} (after : AfterWindows window count hinted) :
    AfterWindows window (count + 1) (hinted ++ (window count).filter fun tile => tile ∉ hinted) := by
  have late : ∀ tile ∉ hinted, ∀ w, tile ∈ window w → count ≤ w := by
    intro tile missing w stable
    by_contra early
    exact missing ((after.members tile).mpr ⟨w, not_le.mp early, stable⟩)
  constructor
  · intro tile
    simp only [List.mem_append, List.mem_filter, decide_eq_true_eq, after.members]
    constructor
    · rintro (⟨w, below, stable⟩ | ⟨stable, -⟩)
      · exact ⟨w, Nat.lt_succ_of_lt below, stable⟩
      · exact ⟨count, Nat.lt_succ_self count, stable⟩
    · rintro ⟨w, below, stable⟩
      by_cases earlier : ∃ v < count, tile ∈ window v
      · exact Or.inl earlier
      · have last : w = count := by
          by_contra other
          exact earlier ⟨w, by omega, stable⟩
        exact Or.inr ⟨last ▸ stable, earlier⟩
  · rw [List.pairwise_append]
    refine ⟨after.ordered, ?_, ?_⟩
    · apply List.pairwise_of_forall_mem_list
      intro a new b new' w stable
      obtain ⟨stableA, -⟩ := List.mem_filter.mp new
      obtain ⟨-, missing⟩ := List.mem_filter.mp new'
      exact ⟨count, late b (of_decide_eq_true missing) w stable, stableA⟩
    · intro a old b new w stable
      obtain ⟨-, missing⟩ := List.mem_filter.mp new
      obtain ⟨v, below, stableA⟩ := (after.members a).mp old
      have reached := late b (of_decide_eq_true missing) w stable
      exact ⟨v, by omega, stableA⟩

theorem hintOf_after (window : Nat → List (Fin tileNum)) (distinct : ∀ w, (window w).Nodup) (count : Nat) :
    ∃ hinted, (hintOf ((List.range count).map window)).Lists hinted ∧ AfterWindows window count hinted := by
  induction count with
  | zero =>
    refine ⟨[], ⟨rfl, ?_, List.nodup_nil⟩, ⟨?_, List.Pairwise.nil⟩⟩
    · simp [hintOf]
    · simp
  | succ count ih =>
    obtain ⟨hinted, lists, after⟩ := ih
    refine ⟨_, ?_, after.step⟩
    rw [List.range_succ, List.map_append, List.map_singleton, hintOf, List.foldl_append]
    exact lists.extend (distinct count)

/-- What an accepted hint is, as a list of tiles. -/
theorem computeStableHintFromRounds_accepted {sampleRounds : List (List (Sample tileNum))}
    (accepted : computeStableHintFromRounds sampleRounds wSize computeSms nominalMinGroupSize minEffectiveGroupSize =
      some (true, hint, effectiveGroup)) :
    ∃ hinted : List (Fin tileNum), hint = hinted.map (fun (tile : Fin tileNum) => ((tile : Nat) : Int)) ∧
      hinted.Nodup ∧ (∀ tile, tile ∈ hinted ↔ ∃ w, StableIn sampleRounds wSize w tile) ∧
      hinted.Pairwise fun a b => ∀ w, StableIn sampleRounds wSize w b → ∃ v ≤ w, StableIn sampleRounds wSize v a := by
  unfold computeStableHintFromRounds at accepted
  split at accepted
  · cases accepted
  · rename_i defined
    dsimp only at accepted
    split at accepted
    · cases accepted
    · simp only [Option.some.injEq, Prod.mk.injEq, true_and] at accepted
      obtain ⟨rfl, -⟩ := accepted
      have positive : 0 < wSize := by omega
      obtain ⟨hinted, lists, after⟩ := hintOf_after (stableTiles sampleRounds wSize) (fun _ => stableTiles_nodup)
        (divUp tileNum wSize)
      refine ⟨hinted, lists.hint, lists.distinct, fun tile => ?_, ?_⟩
      · rw [after.members]
        simp only [mem_stableTiles]
        constructor
        · rintro ⟨w, -, stable⟩
          exact ⟨w, stable⟩
        · rintro ⟨w, stable⟩
          obtain ⟨v, below, -, stable⟩ := stable.window positive
          exact ⟨v, below, stable⟩
      · apply after.ordered.imp
        intro a b ordered w stable
        obtain ⟨v, reached, stableA⟩ := ordered w (mem_stableTiles.mpr stable)
        exact ⟨v, reached, mem_stableTiles.mp stableA⟩

end Hint

end Ooverlap.Tuning
