import Mathlib.Algebra.Order.Floor.Div
import Mathlib.Combinatorics.Enumerative.Composition
import Mathlib.Data.List.FinRange
import Mathlib.Tactic.Linarith
import Mathlib.Tactic.Ring

/-! Candidate segmentations: the enumeration of compositions and their expansion to tile counts. -/

namespace Ooverlap.Tuning

section Enumeration

/-- The recursion below `integer_partitions`: what is left is split off in front to back. -/
def partitionsRec (left : Nat) (path : List Nat) : List (List Nat) :=
  if left = 0 then [path]
  else (List.finRange left).flatMap fun i => partitionsRec (left - (i.val + 1)) (path ++ [i.val + 1])
termination_by left

def integerPartitions (n : Nat) : List (List Nat) := partitionsRec n []

theorem mem_partitionsRec (left : Nat) (path gp : List Nat) :
    gp ∈ partitionsRec left path ↔ ∃ rest : Composition left, gp = path ++ rest.blocks := by
  fun_induction partitionsRec left path with
  | case1 path =>
    constructor
    · intro member
      exact ⟨⟨[], by simp, rfl⟩, by simpa using member⟩
    · rintro ⟨rest, rfl⟩
      have none : rest.blocks = [] := by
        apply List.eq_nil_iff_forall_not_mem.mpr
        intro x member
        have positive := rest.blocks_pos member
        have bounded := rest.blocks_le member
        omega
      simp [none]
  | case2 left path nonzero ih =>
    rw [List.mem_flatMap]
    constructor
    · rintro ⟨i, -, member⟩
      obtain ⟨rest, rfl⟩ := (ih i).mp member
      refine ⟨⟨(i.val + 1) :: rest.blocks, ?_, ?_⟩, by simp⟩
      · intro x member
        rcases List.mem_cons.mp member with rfl | later
        · exact Nat.succ_pos _
        · exact rest.blocks_pos later
      · rw [List.sum_cons, rest.blocks_sum]
        have below := i.isLt
        omega
    · rintro ⟨rest, rfl⟩
      obtain ⟨blocks, positive, total⟩ := rest
      cases blocks with
      | nil => exact absurd total.symm nonzero
      | cons x blocks =>
        have first : 0 < x := positive List.mem_cons_self
        rw [List.sum_cons] at total
        refine ⟨⟨x - 1, by omega⟩, List.mem_finRange _, (ih _).mpr ?_⟩
        refine ⟨⟨blocks, fun member => positive (List.mem_cons_of_mem x member), ?_⟩, ?_⟩
        · dsimp only
          omega
        · have same : x - 1 + 1 = x := Nat.succ_pred_eq_of_pos first
          simp [same]

theorem partitionsRec_nodup (left : Nat) (path : List Nat) : (partitionsRec left path).Nodup := by
  fun_induction partitionsRec left path with
  | case1 path => exact List.nodup_singleton path
  | case2 left path nonzero ih =>
    refine List.nodup_flatMap.mpr ⟨fun i _ => ih i, ?_⟩
    apply (List.nodup_finRange left).imp
    intro i j apart gp member member'
    obtain ⟨rest, rfl⟩ := (mem_partitionsRec _ _ _).mp member
    obtain ⟨rest', same⟩ := (mem_partitionsRec _ _ _).mp member'
    have heads : i.val + 1 = j.val + 1 := by
      simp only [List.append_assoc, List.append_cancel_left_eq, List.singleton_append] at same
      exact (List.cons.inj same).1
    exact apart (Fin.ext (Nat.succ.inj heads))

theorem mem_integerPartitions (n : Nat) (gp : List Nat) :
    gp ∈ integerPartitions n ↔ ∃ c : Composition n, gp = c.blocks :=
  mem_partitionsRec n [] gp

theorem integerPartitions_nodup (n : Nat) : (integerPartitions n).Nodup := partitionsRec_nodup n []

end Enumeration

section Expansion

def divUp (x y : Nat) : Nat := (x + y - 1) / y

/-- The loop of `expand_partition_to_cseg`, `acc` tiles in: only the last group is cut to what is left. -/
def expandFrom (unit tileNum acc : Int) : List Nat → List Int
  | [] => []
  | [last] => [min (last * unit) (tileNum - acc)]
  | units :: rest => units * unit :: expandFrom unit tileNum (acc + units * unit) rest

def expandPartitionToCseg (gpUnits : List Nat) (computeSms searchGroupSize tileNum : Nat) : List Int :=
  expandFrom (computeSms * searchGroupSize : Nat) tileNum 0 gpUnits

/-- `normalized_wave_num`: the waves of all tiles, in search groups. -/
def normalizedWaveNum (tileNum computeSms searchGroupSize : Nat) : Nat :=
  divUp (divUp tileNum computeSms) searchGroupSize

theorem divUp_le_iff (positive : 0 < y) (k : Nat) : divUp x y ≤ k ↔ x ≤ y * k :=
  ceilDiv_le_iff_le_mul positive

/-- Rounding up twice is rounding up once. -/
theorem normalizedWaveNum_le_iff (tileNum : Nat) (sms : 0 < computeSms) (group : 0 < searchGroupSize) (k : Nat) :
    normalizedWaveNum tileNum computeSms searchGroupSize ≤ k ↔ tileNum ≤ computeSms * searchGroupSize * k := by
  rw [normalizedWaveNum, divUp_le_iff group, divUp_le_iff sms, Nat.mul_assoc]

/-- What is left takes all of the groups: one group fewer would not hold it. -/
structure Fits (unit left : Int) (gpUnits : List Nat) : Prop where
  holds : left ≤ gpUnits.sum * unit
  needed : (gpUnits.sum - 1) * unit < left

theorem normalizedWaveNum_fits (tiles : 0 < tileNum) (sms : 0 < computeSms) (group : 0 < searchGroupSize)
    (total : gpUnits.sum = normalizedWaveNum tileNum computeSms searchGroupSize) :
    Fits (computeSms * searchGroupSize : Nat) tileNum gpUnits := by
  have least := normalizedWaveNum_le_iff tileNum sms group
  have nonzero : 0 < gpUnits.sum := by
    by_contra zero
    have bound := (least 0).mp (by omega)
    omega
  constructor
  · have bound := (least gpUnits.sum).mp (Nat.le_of_eq total.symm)
    rw [Nat.mul_comm] at bound
    exact_mod_cast bound
  · have bound : ¬ tileNum ≤ computeSms * searchGroupSize * (gpUnits.sum - 1) := by
      rw [← least]
      omega
    rw [Nat.mul_comm] at bound
    have cast : ((gpUnits.sum : Int) - 1) = ((gpUnits.sum - 1 : Nat) : Int) := by omega
    rw [cast]
    exact_mod_cast Nat.lt_of_not_le bound

section Groups

variable {unit tileNum acc : Int} {gpUnits gpUnits' : List Nat}

theorem Fits.rest (fits : Fits unit (tileNum - acc) (units :: gpUnits)) :
    Fits unit (tileNum - (acc + units * unit)) gpUnits := by
  obtain ⟨holds, needed⟩ := fits
  rw [List.sum_cons, Nat.cast_add] at holds needed
  constructor
  · linarith
  · linarith

theorem expandFrom_sum (nonempty : gpUnits ≠ []) (fits : Fits unit (tileNum - acc) gpUnits) :
    (expandFrom unit tileNum acc gpUnits).sum = tileNum - acc := by
  fun_induction expandFrom unit tileNum acc gpUnits with
  | case1 => exact absurd rfl nonempty
  | case2 acc last =>
    have holds := fits.holds
    rw [List.sum_singleton] at holds ⊢
    exact min_eq_right holds
  | case3 acc units rest more ih =>
    rw [List.sum_cons, ih more fits.rest]
    ring

theorem expandFrom_pos (positive : 0 < unit) (blocks : ∀ units ∈ gpUnits, 0 < units)
    (fits : Fits unit (tileNum - acc) gpUnits) : ∀ segment ∈ expandFrom unit tileNum acc gpUnits, 0 < segment := by
  fun_induction expandFrom unit tileNum acc gpUnits with
  | case1 => exact fun _ member => nomatch member
  | case2 acc last =>
    intro segment member
    obtain rfl := List.mem_singleton.mp member
    have group : (1 : Int) ≤ last := by exact_mod_cast blocks last List.mem_cons_self
    have needed := fits.needed
    rw [List.sum_singleton] at needed
    have below : 0 ≤ ((last : Int) - 1) * unit := Int.mul_nonneg (by omega) (Int.le_of_lt positive)
    exact lt_min (by nlinarith) (by omega)
  | case3 acc units rest more ih =>
    intro segment member
    rcases List.mem_cons.mp member with rfl | later
    · have group : (0 : Int) < units := by exact_mod_cast blocks units List.mem_cons_self
      exact Int.mul_pos group positive
    · exact ih (fun units member => blocks units (List.mem_cons_of_mem _ member)) fits.rest segment later

@[simp] theorem expandFrom_length : (expandFrom unit tileNum acc gpUnits).length = gpUnits.length := by
  fun_induction expandFrom unit tileNum acc gpUnits with
  | case1 => rfl
  | case2 => rfl
  | case3 acc units rest more ih => rw [List.length_cons, List.length_cons, ih]

theorem expandFrom_dvd : ∀ segment ∈ (expandFrom unit tileNum acc gpUnits).dropLast, unit ∣ segment := by
  fun_induction expandFrom unit tileNum acc gpUnits with
  | case1 => exact fun _ member => nomatch member
  | case2 => exact fun _ member => nomatch member
  | case3 acc units rest more ih =>
    have nonempty : expandFrom unit tileNum (acc + units * unit) rest ≠ [] := by
      rw [← List.length_pos_iff, expandFrom_length, List.length_pos_iff]
      exact more
    rw [List.dropLast_cons_of_ne_nil nonempty]
    intro segment member
    rcases List.mem_cons.mp member with rfl | later
    · exact dvd_mul_left unit _
    · exact ih segment later

/-- The last group is found from the total, the others from their segments. -/
theorem expandFrom_injective (positive : 0 < unit) (total : gpUnits.sum = gpUnits'.sum)
    (same : expandFrom unit tileNum acc gpUnits = expandFrom unit tileNum acc gpUnits') : gpUnits = gpUnits' := by
  have lengths : gpUnits.length = gpUnits'.length := by
    have lengths := congrArg List.length same
    rwa [expandFrom_length, expandFrom_length] at lengths
  induction gpUnits generalizing gpUnits' acc with
  | nil => exact (List.length_eq_zero_iff.mp lengths.symm).symm
  | cons units rest ih =>
    obtain ⟨units', rest', rfl⟩ := List.exists_cons_of_length_eq_add_one lengths.symm
    rw [List.sum_cons, List.sum_cons] at total
    rw [List.length_cons, List.length_cons, Nat.add_right_cancel_iff] at lengths
    cases rest with
    | nil =>
      obtain rfl := List.length_eq_zero_iff.mp lengths.symm
      rw [List.sum_nil, Nat.add_right_cancel_iff] at total
      rw [total]
    | cons next later =>
      obtain ⟨next', later', rfl⟩ := List.exists_cons_of_length_eq_add_one lengths.symm
      obtain ⟨head, tail⟩ := List.cons.inj same
      have group : units = units' := by exact_mod_cast Int.eq_of_mul_eq_mul_right (Int.ne_of_gt positive) head
      subst group
      rw [ih (Nat.add_left_cancel total) tail lengths]

end Groups

/-- Segments the runtime can wait for: tiles in each, all tiles together, and whole groups before the last. -/
structure Segments (unit tileNum : Nat) (cSeg : List Int) : Prop where
  positive : ∀ segment ∈ cSeg, 0 < segment
  total : cSeg.sum = tileNum
  groups : ∀ segment ∈ cSeg.dropLast, (unit : Int) ∣ segment

theorem segments_of_mem (tiles : 0 < tileNum) (sms : 0 < computeSms) (group : 0 < searchGroupSize)
    (listed : gpUnits ∈ integerPartitions (normalizedWaveNum tileNum computeSms searchGroupSize)) :
    Segments (computeSms * searchGroupSize) tileNum
      (expandPartitionToCseg gpUnits computeSms searchGroupSize tileNum) := by
  obtain ⟨c, rfl⟩ := (mem_integerPartitions _ _).mp listed
  have fits := normalizedWaveNum_fits tiles sms group c.blocks_sum
  have unit : 0 < computeSms * searchGroupSize := Nat.mul_pos sms group
  rw [← Int.sub_zero (tileNum : Int)] at fits
  constructor
  · exact expandFrom_pos (by exact_mod_cast unit) (fun _ member => c.blocks_pos member) fits
  · have nonempty : c.blocks ≠ [] := by
      intro none
      have needed := fits.needed
      have holds := fits.holds
      rw [none, List.sum_nil] at holds
      omega
    rw [expandPartitionToCseg, expandFrom_sum nonempty fits, Int.sub_zero]
  · exact expandFrom_dvd

example : expandPartitionToCseg [1, 2] 2 1 5 = [2, 3] := by decide

/-- The search tries every composition of the waves once, and these become distinct segmentations of the tiles. -/
theorem expandPartitionToCseg_segmentations (tiles : 0 < tileNum) (sms : 0 < computeSms)
    (group : 0 < searchGroupSize) :
    ((integerPartitions (normalizedWaveNum tileNum computeSms searchGroupSize)).Nodup ∧
      ∀ gpUnits, gpUnits ∈ integerPartitions (normalizedWaveNum tileNum computeSms searchGroupSize) ↔
        (∀ units ∈ gpUnits, 0 < units) ∧
          gpUnits.sum = normalizedWaveNum tileNum computeSms searchGroupSize) ∧
    (∀ gpUnits ∈ integerPartitions (normalizedWaveNum tileNum computeSms searchGroupSize),
      Segments (computeSms * searchGroupSize) tileNum
        (expandPartitionToCseg gpUnits computeSms searchGroupSize tileNum)) ∧
    ∀ gpUnits ∈ integerPartitions (normalizedWaveNum tileNum computeSms searchGroupSize),
      ∀ gpUnits' ∈ integerPartitions (normalizedWaveNum tileNum computeSms searchGroupSize),
        expandPartitionToCseg gpUnits computeSms searchGroupSize tileNum =
          expandPartitionToCseg gpUnits' computeSms searchGroupSize tileNum → gpUnits = gpUnits' := by
  refine ⟨⟨integerPartitions_nodup _, fun gpUnits => ?_⟩, fun _ listed => segments_of_mem tiles sms group listed, ?_⟩
  · rw [mem_integerPartitions]
    constructor
    · rintro ⟨c, rfl⟩
      exact ⟨fun _ member => c.blocks_pos member, c.blocks_sum⟩
    · rintro ⟨positive, total⟩
      exact ⟨⟨gpUnits, fun member => positive _ member, total⟩, rfl⟩
  · intro gpUnits listed gpUnits' listed' same
    obtain ⟨c, rfl⟩ := (mem_integerPartitions _ _).mp listed
    obtain ⟨c', rfl⟩ := (mem_integerPartitions _ _).mp listed'
    have unit : 0 < computeSms * searchGroupSize := Nat.mul_pos sms group
    exact expandFrom_injective (by exact_mod_cast unit) (c.blocks_sum.trans c'.blocks_sum.symm) same

theorem expandPartitionToCseg_segmentations_five :
    (integerPartitions (normalizedWaveNum 5 2 1)).Nodup ∧ Segments (2 * 1) 5 (expandPartitionToCseg [1, 2] 2 1 5) := by
  have listed : [1, 2] ∈ integerPartitions (normalizedWaveNum 5 2 1) := by decide +kernel
  constructor
  · exact (expandPartitionToCseg_segmentations (by decide) (by decide) (by decide)).1.1
  · exact (expandPartitionToCseg_segmentations (by decide) (by decide) (by decide)).2.1 [1, 2] listed

end Expansion

section Search

variable {Dur : Type} [LinearOrder Dur]

/-- `min_dur` and `best_cSeg`. -/
structure Best (Dur : Type) where
  minDur : Dur
  bestCSeg : Option (List Int) := none

def Best.keepFaster (measure : List Int → Dur) (best : Best Dur) (cSeg : List Int) : Best Dur :=
  if measure cSeg < best.minDur then { minDur := measure cSeg, bestCSeg := some cSeg } else best

/-- `exhaustive_search`: the candidates run. -/
def exhaustiveSearch (perfRunning : List Int → Dur) (start : Dur) (computeSms tileNum : Nat) : Best Dur :=
  ((integerPartitions (divUp tileNum computeSms)).map fun gpUnits =>
    expandPartitionToCseg gpUnits computeSms 1 tileNum).foldl (Best.keepFaster perfRunning) { minDur := start }

/-- Many groups with a first one of more than two units are not predicted. -/
def skipsColdStart (gpUnits : List Nat) : Bool := gpUnits.length > 5 && gpUnits.headD 0 > 2

/-- `fast_search`: the candidates predicted. -/
def fastSearch (predictLat : List Int → Dur) (start : Dur) (computeSms searchGroupSize tileNum : Nat) : Best Dur :=
  (((integerPartitions (normalizedWaveNum tileNum computeSms searchGroupSize)).filter
    fun gpUnits => !skipsColdStart gpUnits).map fun gpUnits =>
      expandPartitionToCseg gpUnits computeSms searchGroupSize tileNum).foldl
        (Best.keepFaster predictLat) { minDur := start }

/-- The best of the candidates, if one is below the start value. -/
structure Best.Of (measure : List Int → Dur) (start : Dur) (candidates : List (List Int)) (best : Best Dur) : Prop where
  least : ∀ cSeg ∈ candidates, best.minDur ≤ measure cSeg
  below : best.minDur ≤ start
  found : ∀ cSeg ∈ best.bestCSeg, cSeg ∈ candidates ∧ measure cSeg = best.minDur
  missed : best.bestCSeg = none → best.minDur = start

theorem Best.Of.keepFaster {measure : List Int → Dur} {best : Best Dur} (of : best.Of measure start candidates)
    (cSeg : List Int) : (best.keepFaster measure cSeg).Of measure start (candidates ++ [cSeg]) := by
  unfold Best.keepFaster
  split
  · rename_i faster
    constructor
    · intro other member
      rcases List.mem_append.mp member with old | new
      · exact le_trans (le_of_lt faster) (of.least other old)
      · rw [List.mem_singleton.mp new]
    · exact le_trans (le_of_lt faster) of.below
    · intro other same
      obtain rfl := Option.some.inj same
      exact ⟨List.mem_append_right _ List.mem_cons_self, rfl⟩
    · exact fun none => nomatch none
  · rename_i slower
    constructor
    · intro other member
      rcases List.mem_append.mp member with old | new
      · exact of.least other old
      · rw [List.mem_singleton.mp new]
        exact not_lt.mp slower
    · exact of.below
    · intro other same
      exact ⟨List.mem_append_left _ (of.found other same).1, (of.found other same).2⟩
    · exact of.missed

theorem foldl_keepFaster (measure : List Int → Dur) (start : Dur) (candidates : List (List Int)) :
    (candidates.foldl (Best.keepFaster measure) { minDur := start }).Of measure start candidates := by
  induction candidates using List.reverseRecOn with
  | nil =>
    constructor
    · exact fun _ member => nomatch member
    · exact le_rfl
    · exact fun _ none => nomatch none
    · exact fun _ => rfl
  | append_singleton candidates cSeg ih =>
    rw [List.foldl_append]
    exact ih.keepFaster cSeg

/-- What the predictive search hands on can be run. -/
theorem fastSearch_segments (tiles : 0 < tileNum) (sms : 0 < computeSms) (group : 0 < searchGroupSize)
    (predictLat : List Int → Dur) (start : Dur) :
    ∀ cSeg ∈ (fastSearch predictLat start computeSms searchGroupSize tileNum).bestCSeg,
      Segments (computeSms * searchGroupSize) tileNum cSeg := by
  intro cSeg found
  obtain ⟨candidate, -⟩ := (foldl_keepFaster predictLat start _).found cSeg found
  obtain ⟨gpUnits, listed, rfl⟩ := List.mem_map.mp candidate
  exact segments_of_mem tiles sms group (List.mem_of_mem_filter listed)

theorem exhaustiveSearch_segments (tiles : 0 < tileNum) (sms : 0 < computeSms)
    (perfRunning : List Int → Dur) (start : Dur) :
    ∀ cSeg ∈ (exhaustiveSearch perfRunning start computeSms tileNum).bestCSeg, Segments computeSms tileNum cSeg := by
  intro cSeg found
  obtain ⟨candidate, -⟩ := (foldl_keepFaster perfRunning start _).found cSeg found
  obtain ⟨gpUnits, listed, rfl⟩ := List.mem_map.mp candidate
  have single : normalizedWaveNum tileNum computeSms 1 = divUp tileNum computeSms := Nat.div_one _
  rw [← single] at listed
  have segments := segments_of_mem tiles sms Nat.one_pos listed
  rwa [Nat.mul_one] at segments

end Search

end Ooverlap.Tuning
