import Ooverlap.Support.Strides

/-! The lanes of a CTA copy or add a byte range: whole vectors in an unrolled loop, and what is left one by one. -/

namespace Ooverlap.Kernel

open Strides

section Span

variable {unroll laneCount endVec : Nat}

/-- The unrolled loop of a lane: the vectors it touches, and the index at which it leaves off. -/
def unrolledTurns (unroll laneCount endVec base : Nat) : List Nat × Nat :=
  if base + (unroll - 1) * laneCount < endVec ∧ 0 < laneCount * unroll then
    let rest := unrolledTurns unroll laneCount endVec (base + laneCount * unroll)
    ((List.range unroll).map (fun u => base + u * laneCount) ++ rest.1, rest.2)
  else ([], base)
termination_by endVec - base
decreasing_by omega

/-- Vectors in the order of a lane's stores; the shapes that load all vectors of a turn first store them so too. -/
def vecSpan (unroll beginVec endVec lane laneCount : Nat) : List Nat :=
  let main := unrolledTurns unroll laneCount endVec (beginVec + lane)
  main.1 ++ strided endVec laneCount main.2

def copyVecSpan (unroll beginVec endVec lane laneCount : Nat) : List Nat :=
  vecSpan unroll beginVec endVec lane laneCount

def addF16U128VecSpan (unroll beginVec endVec lane laneCount : Nat) : List Nat :=
  vecSpan unroll beginVec endVec lane laneCount

theorem unrolledTurns_strided (unrolled : 0 < unroll) (lanes : 0 < laneCount) (base : Nat) :
    (unrolledTurns unroll laneCount endVec base).1 ++
      strided endVec laneCount (unrolledTurns unroll laneCount endVec base).2 = strided endVec laneCount base := by
  fun_induction unrolledTurns unroll laneCount endVec base with
  | case1 base turn rest ih =>
    obtain ⟨count, rfl⟩ : ∃ count, unroll = count + 1 := Nat.exists_eq_succ_of_ne_zero (Nat.ne_of_gt unrolled)
    rw [strided_unrolled lanes count turn.1, Nat.mul_comm (count + 1), ← ih]
    exact List.append_assoc _ _ _
  | case2 base done => rfl

/-- Unrolling changes nothing but the shape of the loop. -/
theorem vecSpan_strided (unrolled : 0 < unroll) (lanes : 0 < laneCount) (beginVec lane : Nat) :
    vecSpan unroll beginVec endVec lane laneCount = strided endVec laneCount (beginVec + lane) :=
  unrolledTurns_strided unrolled lanes _

theorem vecSpan_team (unrolled : 0 < unroll) (lanes : 0 < laneCount) (beginVec vecCount : Nat) :
    ((List.range laneCount).flatMap fun lane => vecSpan unroll beginVec (beginVec + vecCount) lane laneCount).Perm
      (List.range' beginVec vecCount) := by
  simp only [vecSpan_strided unrolled lanes]
  have team := team_perm lanes beginVec (beginVec + vecCount)
  rwa [Nat.add_sub_cancel_left] at team

/-- The index left off at is the largest one a lane computes. -/
theorem unrolledTurns_exit (base : Nat) :
    (unrolledTurns unroll laneCount endVec base).2 ≤ max base (endVec + laneCount) := by
  fun_induction unrolledTurns unroll laneCount endVec base with
  | case1 base turn rest ih =>
    obtain ⟨count, rfl⟩ : ∃ count, unroll = count + 1 := Nat.exists_eq_succ_of_ne_zero fun none => by
      rw [none, Nat.mul_zero] at turn
      exact absurd turn.2 (Nat.lt_irrefl 0)
    obtain ⟨below, -⟩ := turn
    rw [Nat.add_sub_cancel, Nat.mul_comm] at below
    rw [Nat.mul_succ] at ih
    refine ih.trans (max_le ?_ (le_max_right _ _))
    exact le_trans (by omega) (le_max_right _ _)
  | case2 base done => exact le_max_left _ _

/-- With the threads of a CTA and the vectors of an object, no `size_t` of the loops wraps around. -/
theorem unrolledTurns_words (threads : laneCount < 2 ^ 32) (turns : unroll < 2 ^ 31) (begins : beginVec ≤ 2 ^ 62)
    (ends : endVec ≤ 2 ^ 62) (member : lane < laneCount) :
    (unrolledTurns unroll laneCount endVec (beginVec + lane)).2 + laneCount * unroll < 2 ^ 64 := by
  have exit : (unrolledTurns unroll laneCount endVec (beginVec + lane)).2 ≤
      max (beginVec + lane) (endVec + laneCount) := unrolledTurns_exit (beginVec + lane)
  have step : laneCount * unroll ≤ 2 ^ 32 * 2 ^ 31 := Nat.mul_le_mul (Nat.le_of_lt threads) (Nat.le_of_lt turns)
  omega

end Span

section Range

variable {unroll laneCount byteOffset byteCount vecSize : Nat}

/-- The bytes a lane copies: each vector's in turn, then its own of the tail. -/
def copyByteRange (vecSize unroll byteOffset byteCount lane laneCount : Nat) : List Nat :=
  let vecBegin := byteOffset / vecSize
  let vecCount := byteCount / vecSize
  let tailBegin := byteOffset + vecCount * vecSize
  let tailEnd := byteOffset + byteCount
  (copyVecSpan unroll vecBegin (vecBegin + vecCount) lane laneCount).flatMap
      (fun i => List.range' (i * vecSize) vecSize) ++
    strided tailEnd laneCount (tailBegin + lane)

/-- The addresses of the two-byte elements a lane adds: eight to a vector, then its own of the tail. -/
def addF16U128ByteRange (unroll byteOffset byteCount lane laneCount : Nat) : List Nat :=
  let vecBegin := byteOffset / 16
  let vecCount := byteCount / 16
  let tailBegin := byteOffset + vecCount * 16
  let tailHalf := (byteCount - vecCount * 16) / 2
  (addF16U128VecSpan unroll vecBegin (vecBegin + vecCount) lane laneCount).flatMap
      (fun i => (List.range 8).map fun k => i * 16 + 2 * k) ++
    (strided tailHalf laneCount lane).map fun i => tailBegin + 2 * i

/-- What all lanes do, one lane after another. -/
def team (laneCount : Nat) (work : Nat → List Nat) : List Nat := (List.range laneCount).flatMap work

theorem team_append (laneCount : Nat) (work rest : Nat → List Nat) :
    (team laneCount fun lane => work lane ++ rest lane).Perm (team laneCount work ++ team laneCount rest) :=
  (List.flatMap_append_perm _ _ _).symm

theorem copyByteRange_perm (unrolled : 0 < unroll) (lanes : 0 < laneCount) (aligned : vecSize ∣ byteOffset) :
    (team laneCount fun lane => copyByteRange vecSize unroll byteOffset byteCount lane laneCount).Perm
      (List.range' byteOffset byteCount) := by
  have vectors : (team laneCount fun lane =>
      (copyVecSpan unroll (byteOffset / vecSize) (byteOffset / vecSize + byteCount / vecSize) lane laneCount).flatMap
        fun i => List.range' (i * vecSize) vecSize).Perm
      (List.range' byteOffset (byteCount / vecSize * vecSize)) := by
    rw [team, ← List.flatMap_assoc]
    refine ((vecSpan_team unrolled lanes _ _).flatMap_right _).trans ?_
    rw [flatMap_blocks, Nat.div_mul_cancel aligned]
  have tail := team_perm lanes (byteOffset + byteCount / vecSize * vecSize) (byteOffset + byteCount)
  rw [Nat.add_sub_add_left] at tail
  refine (team_append ..).trans ((vectors.append tail).trans ?_)
  rw [List.range'_append_1, Nat.add_sub_cancel' (Nat.div_mul_le_self _ _)]

/-- Addresses of consecutive elements. -/
theorem map_halves (first count : Nat) :
    (List.range' first count).map (fun h => 2 * h) = (List.range count).map fun k => 2 * first + 2 * k := by
  rw [List.range'_eq_map_range, List.map_map]
  apply List.map_congr_left
  intro k _
  simp only [Function.comp_apply, Nat.mul_add]

theorem addF16U128ByteRange_perm (unrolled : 0 < unroll) (lanes : 0 < laneCount) (aligned : 16 ∣ byteOffset) :
    (team laneCount fun lane => addF16U128ByteRange unroll byteOffset byteCount lane laneCount).Perm
      ((List.range (byteCount / 2)).map fun k => byteOffset + 2 * k) := by
  obtain ⟨vec, rfl⟩ := aligned
  have vecBegin : 16 * vec / 16 = vec := Nat.mul_div_cancel_left vec (by decide)
  have vectors : (team laneCount fun lane =>
      (addF16U128VecSpan unroll (16 * vec / 16) (16 * vec / 16 + byteCount / 16) lane laneCount).flatMap
        fun i => (List.range 8).map fun k => i * 16 + 2 * k).Perm
      ((List.range' (vec * 8) (byteCount / 16 * 8)).map fun h => 2 * h) := by
    have eight : (fun i => (List.range 8).map fun k => i * 16 + 2 * k) =
        fun i => (List.range' (i * 8) 8).map fun h => 2 * h := by
      funext i
      rw [map_halves]
      apply List.map_congr_left
      intro k _
      omega
    rw [eight, vecBegin, team, ← List.flatMap_assoc]
    refine ((vecSpan_team unrolled lanes _ _).flatMap_right _).trans ?_
    rw [← List.map_flatMap, flatMap_blocks]
  have tail : (team laneCount fun lane =>
      (strided ((byteCount - byteCount / 16 * 16) / 2) laneCount lane).map
        fun i => 16 * vec + byteCount / 16 * 16 + 2 * i).Perm
      ((List.range' (vec * 8 + byteCount / 16 * 8) ((byteCount - byteCount / 16 * 16) / 2)).map fun h => 2 * h) := by
    have halves := team_perm lanes 0 ((byteCount - byteCount / 16 * 16) / 2)
    simp only [Nat.zero_add, Nat.sub_zero] at halves
    rw [team, ← List.map_flatMap]
    refine (halves.map _).trans ?_
    rw [map_halves, ← List.range_eq_range']
    have same : (fun i => 16 * vec + byteCount / 16 * 16 + 2 * i) =
        fun k => 2 * (vec * 8 + byteCount / 16 * 8) + 2 * k := by
      funext i
      omega
    rw [same]
  refine (team_append ..).trans ((vectors.append tail).trans ?_)
  rw [← List.map_append, List.range'_append_1, map_halves]
  have count : byteCount / 16 * 8 + (byteCount - byteCount / 16 * 16) / 2 = byteCount / 2 := by omega
  have first : 2 * (vec * 8) = 16 * vec := by omega
  rw [count, first]

/-- In whatever order the lanes' stores interleave, the range is copied and the rest kept. -/
theorem copyByteRange_copies {Value : Type} (unrolled : 0 < unroll) (lanes : 0 < laneCount)
    (aligned : vecSize ∣ byteOffset) (src dst : Nat → Value) {stores : List Nat}
    (schedule : stores.Perm
      (team laneCount fun lane => copyByteRange vecSize unroll byteOffset byteCount lane laneCount)) (x : Nat) :
    touch (fun place _ => src place) stores dst x =
      if byteOffset ≤ x ∧ x < byteOffset + byteCount then src x else dst x := by
  have whole := schedule.trans (copyByteRange_perm unrolled lanes aligned)
  rw [touch_apply, whole.count_eq]
  split
  · rename_i inside
    rw [List.count_eq_one_of_mem List.nodup_range' (List.mem_range'_1.mpr inside)]
    rfl
  · rename_i outside
    rw [List.count_eq_zero_of_not_mem fun member => outside (List.mem_range'_1.mp member)]
    rfl

/-- Every element of the range is added to once, in whatever order the lanes' turns interleave. -/
theorem addF16U128ByteRange_adds {Half : Type} (unrolled : 0 < unroll) (lanes : 0 < laneCount)
    (aligned : 16 ∣ byteOffset) (hadd : Half → Half → Half) (src dst : Nat → Half) {turns : List Nat}
    (schedule : turns.Perm
      (team laneCount fun lane => addF16U128ByteRange unroll byteOffset byteCount lane laneCount)) (x : Nat) :
    touch (fun place value => hadd value (src place)) turns dst x =
      if ∃ k < byteCount / 2, x = byteOffset + 2 * k then hadd (dst x) (src x) else dst x := by
  have whole := schedule.trans (addF16U128ByteRange_perm unrolled lanes aligned)
  have distinct : ((List.range (byteCount / 2)).map fun k => byteOffset + 2 * k).Nodup := by
    apply List.nodup_range.map
    intro k k' same
    dsimp only at same
    omega
  have listed : x ∈ ((List.range (byteCount / 2)).map fun k => byteOffset + 2 * k) ↔
      ∃ k < byteCount / 2, x = byteOffset + 2 * k := by
    simp only [List.mem_map, List.mem_range, eq_comm]
  rw [touch_apply, whole.count_eq]
  split
  · rename_i inside
    rw [List.count_eq_one_of_mem distinct (listed.mpr inside)]
    rfl
  · rename_i outside
    rw [List.count_eq_zero_of_not_mem fun member => outside (listed.mp member)]
    rfl

/-- Over all lanes the loops copy every byte of the range once, and add every pair of bytes once. -/
theorem fastByteRange_covers (unrolled : 0 < unroll) (lanes : 0 < laneCount) (aligned : 16 ∣ byteOffset) :
    (∀ vecSize, vecSize ∣ 16 →
      (team laneCount fun lane => copyByteRange vecSize unroll byteOffset byteCount lane laneCount).Perm
        (List.range' byteOffset byteCount)) ∧
    (team laneCount fun lane => addF16U128ByteRange unroll byteOffset byteCount lane laneCount).Perm
      ((List.range (byteCount / 2)).map fun k => byteOffset + 2 * k) :=
  ⟨fun _ vector => copyByteRange_perm unrolled lanes (vector.trans aligned),
    addF16U128ByteRange_perm unrolled lanes aligned⟩

theorem fastByteRange_covers_uneven :
    (team 3 fun lane => copyByteRange 16 4 32 85 lane 3).Perm (List.range' 32 85) ∧
      (team 3 fun lane => addF16U128ByteRange 4 32 85 lane 3).Perm ((List.range 42).map fun k => 32 + 2 * k) := by
  obtain ⟨copies, adds⟩ : (∀ vecSize, vecSize ∣ 16 →
      (team 3 fun lane => copyByteRange vecSize 4 32 85 lane 3).Perm (List.range' 32 85)) ∧
        (team 3 fun lane => addF16U128ByteRange 4 32 85 lane 3).Perm ((List.range 42).map fun k => 32 + 2 * k) :=
    fastByteRange_covers (by decide) (by decide) (by decide)
  exact ⟨copies 16 (by decide), adds⟩

end Range

end Ooverlap.Kernel
