import Ooverlap.Support.Placing
import Ooverlap.Tuning.StableHint

/-! From a hint to the order of all tiles: the map of the tuner, of the test, and of the saved solution. -/

namespace Ooverlap.Tuning

open Placing

section Maps

def assign (slots : List Int) (index value : Int) : Except String (List Int) :=
  match setItem slots index value with
  | some slots => .ok slots
  | none => .error "list assignment index out of range"

/-- `new_order[x] = i` for the entries of an enumeration. -/
def assignAll (slots : List Int) (entries : List (Int × Nat)) : Except String (List Int) :=
  entries.foldlM (fun slots entry => assign slots entry.1 entry.2) slots

/-- A turn of the second loop of the tuner's `reorder_indices`: `new_order` and `pos`. -/
def tailTile (loop : List Int × Nat) (tile : Nat) : List Int × Nat :=
  if loop.1.getD tile 0 < 0 then (loop.1.set tile loop.2, loop.2 + 1) else loop

/-- The list of the tuner's tensor. -/
def reorderIndices (tileNum : Nat) (hint : List Int) : Except String (List Int) := do
  let newOrder ← assignAll (List.replicate tileNum (-1)) hint.zipIdx
  return ((List.range tileNum).foldl tailTile (newOrder, hint.length)).1

/-- The list of the tensor in the test program. -/
def Test.reorderIndices (tileNum : Nat) (hint : List Int) : Except String (List Int) := do
  let newOrder ← assignAll (List.replicate tileNum (-1)) hint.zipIdx
  let tail := (List.range tileNum).filter fun (x : Nat) => (x : Int) ∉ hint
  assignAll newOrder ((tail.map Nat.cast).zipIdx hint.length)

/-- `used` and `stable_prefix`. -/
structure FullOrderLoop where
  used : Nat → Bool := fun _ => false
  stable : List Nat := []

def FullOrderLoop.entry (tileNum : Nat) (loop : FullOrderLoop) (x : Int) : Except String FullOrderLoop :=
  if x < 0 ∨ tileNum ≤ x then .error s!"Invalid tile id in hint: {x}"
  else if loop.used x.toNat then .ok loop
  else .ok { used := Function.update loop.used x.toNat true, stable := loop.stable ++ [x.toNat] }

structure FullOrder where
  fullTileOrder : List Nat
  reorderMap : List Int
  unstableTail : List Nat

def buildFullOrderAndReorderMap (tileNum : Nat) (hint : List Int) : Except String FullOrder := do
  let loop ← hint.foldlM (FullOrderLoop.entry tileNum) {}
  let unstableTail := (List.range tileNum).filter fun x => !loop.used x
  let fullTileOrder := loop.stable ++ unstableTail
  let reorderMap ← assignAll (List.replicate tileNum (-1)) ((fullTileOrder.map Nat.cast).zipIdx)
  return { fullTileOrder, reorderMap, unstableTail }

/-- The list of the tensor a saved solution is run with. -/
def makeReorderedArray (tileNum : Nat) (hint : List Int) (reorderMap : Option (List Int)) :
    Except String (List Int) :=
  match reorderMap with
  | some reorderMap =>
    if reorderMap.length ≠ tileNum then
      .error s!"reorder_map length={reorderMap.length}, expected={tileNum}"
    else .ok reorderMap
  | none => Test.reorderIndices tileNum hint

end Maps

section Order

variable {tileNum : Nat} {hinted : List Nat} {slots : List Int}

theorem assignAll_place (start : Nat) (order : List Nat) (inside : ∀ t ∈ order, t < slots.length) :
    assignAll slots ((order.map Nat.cast).zipIdx start) = .ok (place start order slots) := by
  induction order generalizing start slots with
  | nil => rfl
  | cons t rest ih =>
    have first : assign slots (t : Int) (start : Int) = .ok (slots.set t start) := by
      rw [assign, setItem_ofNat (inside t List.mem_cons_self)]
    rw [List.map_cons, List.zipIdx_cons, assignAll, List.foldlM_cons, first]
    refine ih (start + 1) fun other member => ?_
    rw [List.length_set]
    exact inside other (List.mem_cons_of_mem t member)

/-- The second loop places the tiles that the first one left out. -/
theorem foldl_tailTile (pos : Nat) (tiles : List Nat) (distinct : tiles.Nodup)
    (vacant : ∀ t ∈ tiles, slots.getD t 0 < 0 ↔ t ∉ hinted) :
    (tiles.foldl tailTile (slots, pos)).1 = place pos (tiles.filter fun t => t ∉ hinted) slots := by
  induction tiles generalizing slots pos with
  | nil => rfl
  | cons t rest ih =>
    obtain ⟨fresh, distinct⟩ := List.nodup_cons.mp distinct
    have first := vacant t List.mem_cons_self
    rw [List.foldl_cons, tailTile]
    by_cases member : t ∈ hinted
    · rw [if_neg (by rw [first]; exact not_not.mpr member), List.filter_cons_of_neg (by simpa using member)]
      exact ih pos distinct fun other listed => vacant other (List.mem_cons_of_mem t listed)
    · rw [if_pos (first.mpr member), List.filter_cons_of_pos (by simpa using member), place]
      refine ih (pos + 1) distinct fun other listed => ?_
      have apart : t ≠ other := fun same => fresh (same ▸ listed)
      rw [List.getD_eq_getElem?_getD, List.getElem?_set_ne apart, ← List.getD_eq_getElem?_getD]
      exact vacant other (List.mem_cons_of_mem t listed)

/-- Hinted tiles first, then the others as they are numbered. -/
def fullOrder (tileNum : Nat) (hinted : List Nat) : List Nat :=
  hinted ++ (List.range tileNum).filter fun t => t ∉ hinted

theorem fullOrder_perm (distinct : hinted.Nodup) (inside : ∀ t ∈ hinted, t < tileNum) :
    (fullOrder tileNum hinted).Perm (List.range tileNum) := by
  have whole : (fullOrder tileNum hinted).Nodup := by
    refine List.nodup_append'.mpr ⟨distinct, List.nodup_range.filter _, ?_⟩
    intro t member other
    exact absurd member (of_decide_eq_true (List.mem_filter.mp other).2)
  refine (List.perm_ext_iff_of_nodup whole List.nodup_range).mpr fun t => ?_
  rw [fullOrder, List.mem_append, List.mem_filter, decide_eq_true_eq]
  constructor
  · rintro (member | ⟨listed, -⟩)
    · exact List.mem_range.mpr (inside t member)
    · exact listed
  · intro listed
    by_cases member : t ∈ hinted
    · exact Or.inl member
    · exact Or.inr ⟨listed, member⟩

theorem reorderIndices_eq (distinct : hinted.Nodup) (inside : ∀ t ∈ hinted, t < tileNum) :
    reorderIndices tileNum (hinted.map Nat.cast) = .ok (ranks tileNum (fullOrder tileNum hinted)) := by
  have length : ∀ t ∈ hinted, t < (List.replicate tileNum (-1 : Int)).length := by
    intro t member
    rw [List.length_replicate]
    exact inside t member
  have vacant : ∀ t ∈ List.range tileNum,
      (place 0 hinted (List.replicate tileNum (-1))).getD t 0 < 0 ↔ t ∉ hinted := by
    intro t listed
    have below := List.mem_range.mp listed
    rw [List.getD_eq_getElem?_getD]
    by_cases member : t ∈ hinted
    · rw [place_get distinct (List.getElem?_idxOf member) (length t member)]
      simp [member]
    · rw [place_frame member, List.getElem?_replicate, if_pos below]
      simp [member]
  rw [reorderIndices, assignAll_place 0 hinted length, ← place_ranks (fullOrder_perm distinct inside) (-1),
    fullOrder, place_append, Nat.zero_add, ← foldl_tailTile _ _ List.nodup_range vacant, List.length_map]
  rfl

example : reorderIndices 4 [2, 0] = .ok [1, 2, 0, 3] := by decide

theorem Test.reorderIndices_eq (distinct : hinted.Nodup) (inside : ∀ t ∈ hinted, t < tileNum) :
    Test.reorderIndices tileNum (hinted.map Nat.cast) = .ok (ranks tileNum (fullOrder tileNum hinted)) := by
  have length : ∀ t ∈ hinted, t < (List.replicate tileNum (-1 : Int)).length := by
    intro t member
    rw [List.length_replicate]
    exact inside t member
  have tail : ((List.range tileNum).filter fun (x : Nat) => (x : Int) ∉ hinted.map Nat.cast) =
      (List.range tileNum).filter fun t => t ∉ hinted := by
    apply List.filter_congr
    intro t _
    simp
  rw [Test.reorderIndices, assignAll_place 0 hinted length, tail, List.length_map]
  have rest : ∀ t ∈ (List.range tileNum).filter fun t => t ∉ hinted,
      t < (place 0 hinted (List.replicate tileNum (-1))).length := by
    intro t member
    rw [place_length, List.length_replicate]
    exact List.mem_range.mp (List.mem_of_mem_filter member)
  refine (assignAll_place hinted.length _ rest).trans ?_
  rw [← place_ranks (fullOrder_perm distinct inside) (-1), fullOrder, place_append, Nat.zero_add]

/-- The mask of the loop holds what it has kept. -/
def FullOrderLoop.Marks (loop : FullOrderLoop) : Prop := ∀ t, loop.used t = true ↔ t ∈ loop.stable

theorem FullOrderLoop.Marks.entries {loop : FullOrderLoop} (marks : loop.Marks) (distinct : hinted.Nodup)
    (inside : ∀ t ∈ hinted, t < tileNum) (fresh : ∀ t ∈ hinted, t ∉ loop.stable) :
    ∃ after : FullOrderLoop, (hinted.map Nat.cast).foldlM (FullOrderLoop.entry tileNum) loop = .ok after ∧
      after.Marks ∧ after.stable = loop.stable ++ hinted := by
  induction hinted generalizing loop with
  | nil => exact ⟨loop, rfl, marks, (List.append_nil _).symm⟩
  | cons t rest ih =>
    obtain ⟨alone, distinct⟩ := List.nodup_cons.mp distinct
    have below := inside t List.mem_cons_self
    have missing := fresh t List.mem_cons_self
    have unused : ¬loop.used t = true := fun used => missing ((marks t).mp used)
    have entry : loop.entry tileNum (t : Int) =
        .ok { used := Function.update loop.used t true, stable := loop.stable ++ [t] } := by
      rw [FullOrderLoop.entry, if_neg (by omega), Int.toNat_natCast, if_neg unused]
    have marked : FullOrderLoop.Marks { used := Function.update loop.used t true, stable := loop.stable ++ [t] } := by
      intro other
      by_cases again : other = t
      · simp [again]
      · simp [again, marks other]
    have later : ∀ other ∈ rest, other ∉ loop.stable ++ [t] := by
      intro other member kept
      rcases List.mem_append.mp kept with old | new
      · exact fresh other (List.mem_cons_of_mem t member) old
      · exact alone (List.mem_singleton.mp new ▸ member)
    obtain ⟨after, run, marks, stable⟩ :=
      ih marked distinct (fun other member => inside other (List.mem_cons_of_mem t member)) later
    refine ⟨after, ?_, marks, ?_⟩
    · rw [List.map_cons, List.foldlM_cons, entry]
      exact run
    · rw [stable, List.append_assoc, List.singleton_append]

theorem buildFullOrderAndReorderMap_eq (distinct : hinted.Nodup) (inside : ∀ t ∈ hinted, t < tileNum) :
    buildFullOrderAndReorderMap tileNum (hinted.map Nat.cast) =
      .ok { fullTileOrder := fullOrder tileNum hinted
            reorderMap := ranks tileNum (fullOrder tileNum hinted)
            unstableTail := (List.range tileNum).filter fun t => t ∉ hinted } := by
  have start : FullOrderLoop.Marks {} := fun t => by simp
  obtain ⟨loop, run, marks, stable⟩ := start.entries distinct inside fun _ _ => List.not_mem_nil
  rw [List.nil_append] at stable
  have tail : ((List.range tileNum).filter fun x => !loop.used x) =
      (List.range tileNum).filter fun t => t ∉ hinted := by
    apply List.filter_congr
    intro t _
    rw [← stable, Bool.eq_iff_iff, decide_eq_true_eq, Bool.not_eq_true', ← marks, Bool.not_eq_true]
  have order := fullOrder_perm distinct inside
  have whole : ∀ t ∈ fullOrder tileNum hinted, t < (List.replicate tileNum (-1 : Int)).length := by
    intro t member
    rw [List.length_replicate]
    exact List.mem_range.mp (order.mem_iff.mp member)
  have map := assignAll_place 0 (fullOrder tileNum hinted) whole
  rw [place_ranks order] at map
  rw [buildFullOrderAndReorderMap, run]
  simp only [Bind.bind, Except.bind, tail, stable]
  rw [← fullOrder, map]
  rfl

end Order

section StableHints

variable {tileNum wSize computeSms : Nat} {nominalMinGroupSize minEffectiveGroupSize effectiveGroup : Int}
variable {sampleRounds : List (List (Sample tileNum))} {hint : List Int}

/-- The tiles that are in one window throughout, window by window. -/
structure StableHint (sampleRounds : List (List (Sample tileNum))) (wSize : Nat) (hint : List Int) : Prop where
  distinct : hint.Nodup
  inRange : ∀ tile ∈ hint, 0 ≤ tile ∧ tile < tileNum
  stable : ∀ tile : Fin tileNum, ((tile : Nat) : Int) ∈ hint ↔ ∃ w, StableIn sampleRounds wSize w tile
  ordered : hint.Pairwise fun a b => ∀ tile tile' : Fin tileNum, a = ((tile : Nat) : Int) → b = ((tile' : Nat) : Int) →
    ∀ w, StableIn sampleRounds wSize w tile' → ∃ v ≤ w, StableIn sampleRounds wSize v tile

/-- A permutation of all tiles that numbers the hinted ones first. -/
structure HintedFirst (tileNum : Nat) (hint reorderMap : List Int) : Prop where
  permutes : reorderMap.Perm ((List.range tileNum).map Nat.cast)
  hinted : ∀ (i : Nat) (tile : Int), hint[i]? = some tile → reorderMap[tile.toNat]? = some (i : Int)

/-- An accepted hint lists the stable tiles, and every builder makes of it one and the same map, a permutation in which
they come first. -/
theorem computeStableHintFromRounds_reorderMap
    (accepted : computeStableHintFromRounds sampleRounds wSize computeSms nominalMinGroupSize minEffectiveGroupSize =
      some (true, hint, effectiveGroup)) :
    StableHint sampleRounds wSize hint ∧
    ∃ full, buildFullOrderAndReorderMap tileNum hint = .ok full ∧
      HintedFirst tileNum hint full.reorderMap ∧
      reorderIndices tileNum hint = .ok full.reorderMap ∧
      Test.reorderIndices tileNum hint = .ok full.reorderMap ∧
      makeReorderedArray tileNum hint (some full.reorderMap) = .ok full.reorderMap := by
  obtain ⟨tiles, rfl, distinct, members, ordered⟩ := computeStableHintFromRounds_accepted accepted
  have listed : (tiles.map fun (tile : Fin tileNum) => ((tile : Nat) : Int)) = (tiles.map Fin.val).map Nat.cast := by
    rw [List.map_map]
    rfl
  have distinctVals : (tiles.map Fin.val).Nodup := distinct.map Fin.val_injective
  have inside : ∀ t ∈ tiles.map Fin.val, t < tileNum := by
    intro t member
    obtain ⟨tile, -, rfl⟩ := List.mem_map.mp member
    exact tile.isLt
  have order := fullOrder_perm distinctVals inside
  constructor
  · constructor
    · rw [listed]
      exact distinctVals.map Nat.cast_injective
    · intro tile member
      obtain ⟨tile, -, rfl⟩ := List.mem_map.mp member
      have below := tile.isLt
      omega
    · intro tile
      rw [← members, List.mem_map_of_injective]
      intro a b same
      dsimp only at same
      exact Fin.ext (by exact_mod_cast same)
    · rw [List.pairwise_map]
      apply ordered.imp
      intro a b before tile tile' same same'
      obtain rfl : a = tile := Fin.ext (by exact_mod_cast same)
      obtain rfl : b = tile' := Fin.ext (by exact_mod_cast same')
      exact before
  · rw [listed]
    refine ⟨_, buildFullOrderAndReorderMap_eq distinctVals inside, ?_, reorderIndices_eq distinctVals inside,
      Test.reorderIndices_eq distinctVals inside, ?_⟩
    · constructor
      · exact ranks_perm order
      · intro i tile found
        rw [List.getElem?_map, Option.map_eq_some_iff] at found
        obtain ⟨t, found, rfl⟩ := found
        rw [Int.toNat_natCast]
        apply ranks_get order
        rw [fullOrder, List.getElem?_append_left]
        · exact found
        · exact (List.getElem?_eq_some_iff.mp found).1
    · have length : (ranks tileNum (fullOrder tileNum (tiles.map Fin.val))).length = tileNum := by
        rw [ranks, List.length_map, List.length_range]
      rw [makeReorderedArray, if_neg (not_not.mpr length)]

/-- Two rounds in which the tiles of the first two windows are swapped. -/
def swappedRounds : List (List (Sample 3)) := [[![1, 0, 2], ![1, 0, 2]], [![1, 0, 2]]]

theorem computeStableHintFromRounds_reorderMap_swapped :
    StableHint swappedRounds 1 [1, 0, 2] ∧ ∃ full, buildFullOrderAndReorderMap 3 [1, 0, 2] = .ok full ∧
      HintedFirst 3 [1, 0, 2] full.reorderMap ∧ reorderIndices 3 [1, 0, 2] = .ok full.reorderMap ∧
      Test.reorderIndices 3 [1, 0, 2] = .ok full.reorderMap ∧
      makeReorderedArray 3 [1, 0, 2] (some full.reorderMap) = .ok full.reorderMap := by
  have accepted : computeStableHintFromRounds swappedRounds 1 1 1 1 = some (true, [1, 0, 2], 1) := by decide
  exact computeStableHintFromRounds_reorderMap accepted

end StableHints

end Ooverlap.Tuning
