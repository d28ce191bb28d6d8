import Mathlib.Algebra.Order.Field.Basic
import Mathlib.Data.List.MinMax
import Mathlib.Tactic.NormNum
import Ooverlap.Support.Rounding
import Ooverlap.Tuning.Policy

/-! The policy point nearest to a message size: which one the search returns, whatever the order of the points. -/

namespace Ooverlap.Tuning

open Lowering Rounding

variable {bits : Nat} {collective : Collective} {worldSize : Int} {requestedBytes : Nat}

/-- Fraction bits of `long double` where the source is built for x86-64. -/
def longDoubleBits : Nat := 63

/-- Quotients are at least one, and sizes convert to `long double` exactly; `bits` is its number of fraction bits. -/
def nearerPolicyPoint (bits requestedBytes : Nat) : Option PolicyPoint → Option PolicyPoint → Option PolicyPoint
  | none, next => next
  | some previous, none => some previous
  | some previous, some next =>
    if significand bits requestedBytes previous.bytes ≤ significand bits next.bytes requestedBytes then some previous
    else some next

def nearestPolicyPoint (bits : Nat) (collective : Collective) (worldSize : Int) (requestedBytes : Nat) :
    List PolicyPoint → Option PolicyPoint → Option PolicyPoint → Option PolicyPoint
  | [], previous, next => nearerPolicyPoint bits requestedBytes previous next
  | point :: rest, previous, next =>
    if point.collective ≠ collective ∨ point.worldSize ≠ worldSize then
      nearestPolicyPoint bits collective worldSize requestedBytes rest previous next
    else if point.bytes = requestedBytes then some point
    else if point.bytes < requestedBytes then
      let previous := if ∀ last ∈ previous, last.bytes < point.bytes then some point else previous
      nearestPolicyPoint bits collective worldSize requestedBytes rest previous next
    else
      let next := if ∀ first ∈ next, point.bytes < first.bytes then some point else next
      nearestPolicyPoint bits collective worldSize requestedBytes rest previous next

def selectNearestPolicyPoint (bits : Nat) (points : List PolicyPoint) (collective : Collective) (worldSize : Int)
    (requestedBytes : Nat) : Option PolicyPoint :=
  nearestPolicyPoint bits collective worldSize requestedBytes points none none

section Selected

/-- The points that the search does not pass over. -/
def Matches (collective : Collective) (worldSize : Int) (point : PolicyPoint) : Prop :=
  point.collective = collective ∧ point.worldSize = worldSize

instance : DecidablePred (Matches collective worldSize) := fun point =>
  inferInstanceAs (Decidable (point.collective = collective ∧ point.worldSize = worldSize))

/-- Matching points below the requested size. -/
def below (collective : Collective) (worldSize : Int) (requestedBytes : Nat) (points : List PolicyPoint) :
    List PolicyPoint :=
  points.filter fun point => Matches collective worldSize point ∧ point.bytes < requestedBytes

/-- Matching points above the requested size. -/
def above (collective : Collective) (worldSize : Int) (requestedBytes : Nat) (points : List PolicyPoint) :
    List PolicyPoint :=
  points.filter fun point => Matches collective worldSize point ∧ requestedBytes < point.bytes

theorem mem_below : point ∈ below collective worldSize requestedBytes points ↔
    point ∈ points ∧ Matches collective worldSize point ∧ point.bytes < requestedBytes := by
  simp [below]

theorem mem_above : point ∈ above collective worldSize requestedBytes points ↔
    point ∈ points ∧ Matches collective worldSize point ∧ requestedBytes < point.bytes := by
  simp [above]

theorem keep_argAux (better : PolicyPoint → PolicyPoint → Prop) [DecidableRel better] (kept : Option PolicyPoint)
    (point : PolicyPoint) :
    (if ∀ last ∈ kept, better point last then some point else kept) = List.argAux better kept point := by
  cases kept with
  | none => simp [List.argAux]
  | some last => simp [List.argAux]

/-- The loop returns the first point of the requested size, or compares the largest below with the smallest above. -/
theorem nearestPolicyPoint_eq (points : List PolicyPoint) (previous next : Option PolicyPoint) :
    nearestPolicyPoint bits collective worldSize requestedBytes points previous next =
      match points.find? (fun point => Matches collective worldSize point ∧ point.bytes = requestedBytes) with
      | some point => some point
      | none =>
        nearerPolicyPoint bits requestedBytes
          ((below collective worldSize requestedBytes points).foldl
            (List.argAux fun point last => last.bytes < point.bytes) previous)
          ((above collective worldSize requestedBytes points).foldl
            (List.argAux fun point first => point.bytes < first.bytes) next) := by
  induction points generalizing previous next with
  | nil => rfl
  | cons point rest ih =>
    unfold nearestPolicyPoint
    by_cases matching : Matches collective worldSize point
    · have skips : ¬(point.collective ≠ collective ∨ point.worldSize ≠ worldSize) := by
        rw [not_or, not_not, not_not]
        exact matching
      rw [if_neg skips]
      rcases Nat.lt_trichotomy point.bytes requestedBytes with smaller | same | larger
      · rw [if_neg smaller.ne, if_pos smaller]
        dsimp only
        rw [keep_argAux fun point last : PolicyPoint => last.bytes < point.bytes, ih]
        simp [below, above, matching, smaller, smaller.ne, Nat.not_lt.mpr smaller.le]
      · simp [matching, same]
      · rw [if_neg larger.ne', if_neg (Nat.not_lt.mpr larger.le)]
        dsimp only
        rw [keep_argAux fun point first : PolicyPoint => point.bytes < first.bytes, ih]
        simp [below, above, matching, larger, larger.ne', Nat.not_lt.mpr larger.le]
    · have skips : point.collective ≠ collective ∨ point.worldSize ≠ worldSize := not_and_or.mp matching
      rw [if_pos skips, ih]
      simp [below, above, matching]

theorem selectNearestPolicyPoint_eq (points : List PolicyPoint) :
    selectNearestPolicyPoint bits points collective worldSize requestedBytes =
      match points.find? (fun point => Matches collective worldSize point ∧ point.bytes = requestedBytes) with
      | some point => some point
      | none =>
        nearerPolicyPoint bits requestedBytes ((below collective worldSize requestedBytes points).argmax PolicyPoint.bytes)
          ((above collective worldSize requestedBytes points).argmin PolicyPoint.bytes) :=
  nearestPolicyPoint_eq points none none

end Selected

section Ratios

/-- The larger of two sizes over the smaller. -/
def exactRatio (requestedBytes : Nat) (point : PolicyPoint) : Rat :=
  (max point.bytes requestedBytes : Nat) / (min point.bytes requestedBytes : Nat)

/-- The same as `long double`, in units of its last place at one. -/
def longDoubleRatio (bits requestedBytes : Nat) (point : PolicyPoint) : Nat :=
  significand bits (max point.bytes requestedBytes) (min point.bytes requestedBytes)

variable {point other : PolicyPoint}

theorem exactRatio_of_le (least : point.bytes ≤ requestedBytes) :
    exactRatio requestedBytes point = (requestedBytes : Rat) / point.bytes := by
  rw [exactRatio, Nat.max_eq_right least, Nat.min_eq_left least]

theorem exactRatio_of_ge (least : requestedBytes ≤ point.bytes) :
    exactRatio requestedBytes point = (point.bytes : Rat) / requestedBytes := by
  rw [exactRatio, Nat.max_eq_left least, Nat.min_eq_right least]

theorem bytes_pos (point : PolicyPoint) : (0 : Rat) < point.bytes := by
  exact_mod_cast point.bytesNonzero

theorem exactRatio_below (le : other.bytes ≤ point.bytes) (least : point.bytes ≤ requestedBytes) :
    exactRatio requestedBytes point ≤ exactRatio requestedBytes other := by
  rw [exactRatio_of_le least, exactRatio_of_le (Nat.le_trans le least)]
  exact div_le_div_of_nonneg_left (Nat.cast_nonneg _) (bytes_pos other) (Nat.cast_le.mpr le)

theorem exactRatio_below_lt (lt : other.bytes < point.bytes) (least : point.bytes ≤ requestedBytes) :
    exactRatio requestedBytes point < exactRatio requestedBytes other := by
  have positive : (0 : Rat) < requestedBytes := lt_of_lt_of_le (bytes_pos point) (Nat.cast_le.mpr least)
  rw [exactRatio_of_le least, exactRatio_of_le (Nat.le_trans lt.le least)]
  exact div_lt_div_of_pos_left positive (bytes_pos other) (Nat.cast_lt.mpr lt)

theorem exactRatio_above (le : point.bytes ≤ other.bytes) (least : requestedBytes ≤ point.bytes) :
    exactRatio requestedBytes point ≤ exactRatio requestedBytes other := by
  rw [exactRatio_of_ge least, exactRatio_of_ge (Nat.le_trans least le)]
  exact div_le_div_of_nonneg_right (Nat.cast_le.mpr le) (Nat.cast_nonneg _)

theorem significand_zero (positive : 0 < num) : significand bits num 0 = 1 := by
  have large : 0 < num * 2 ^ bits := Nat.mul_pos positive (Nat.two_pow_pos bits)
  simp [significand, exponent, nearestEven, positive]

/-- Rounding to `long double` never turns the order of two ratios around. -/
theorem longDoubleRatio_mono (le : exactRatio requestedBytes point ≤ exactRatio requestedBytes other) :
    longDoubleRatio bits requestedBytes point ≤ longDoubleRatio bits requestedBytes other := by
  have positive := point.bytesNonzero
  have positive' := other.bytesNonzero
  rcases Nat.eq_zero_or_pos requestedBytes with empty | requested
  · subst empty
    unfold longDoubleRatio
    rw [Nat.min_zero, Nat.min_zero, significand_zero (by omega), significand_zero (by omega)]
  · have dens : 0 < min point.bytes requestedBytes := by omega
    have dens' : 0 < min other.bytes requestedBytes := by omega
    refine significand_mono dens dens' (by omega) ?_
    unfold exactRatio at le
    rw [div_le_div_iff₀ (Nat.cast_pos.mpr dens) (Nat.cast_pos.mpr dens')] at le
    exact_mod_cast le

theorem exactRatio_lt (lt : longDoubleRatio bits requestedBytes point < longDoubleRatio bits requestedBytes other) :
    exactRatio requestedBytes point < exactRatio requestedBytes other := by
  by_contra reached
  exact absurd (longDoubleRatio_mono (not_lt.mp reached)) (Nat.not_le.mpr lt)

end Ratios

section Nearest

/-- What the search promises of its answer. Only where two ratios round to the same `long double` may a larger size
that is exactly nearer lose against a smaller one. -/
structure NearestTo (bits : Nat) (points : List PolicyPoint) (collective : Collective) (worldSize : Int)
    (requestedBytes : Nat) (chosen : PolicyPoint) : Prop where
  listed : chosen ∈ points
  matching : Matches collective worldSize chosen
  least : ∀ other ∈ points, Matches collective worldSize other →
    longDoubleRatio bits requestedBytes chosen ≤ longDoubleRatio bits requestedBytes other
  exact : ∀ other ∈ points, Matches collective worldSize other →
    exactRatio requestedBytes other < exactRatio requestedBytes chosen →
      longDoubleRatio bits requestedBytes other = longDoubleRatio bits requestedBytes chosen ∧
        chosen.bytes < requestedBytes ∧ requestedBytes < other.bytes
  smaller : ∀ other ∈ points, Matches collective worldSize other →
    exactRatio requestedBytes other = exactRatio requestedBytes chosen → chosen.bytes ≤ other.bytes
  roundedTie : ∀ other ∈ points, Matches collective worldSize other →
    longDoubleRatio bits requestedBytes other = longDoubleRatio bits requestedBytes chosen →
      other.bytes < chosen.bytes → chosen.bytes ≤ requestedBytes

variable {points : List PolicyPoint} {chosen : PolicyPoint}

theorem exists_largest (member : point ∈ points) : ∃ last, points.argmax PolicyPoint.bytes = some last := by
  refine Option.ne_none_iff_exists'.mp fun none => ?_
  rw [List.argmax_eq_none.mp none] at member
  cases member

theorem exists_smallest (member : point ∈ points) : ∃ first, points.argmin PolicyPoint.bytes = some first := by
  refine Option.ne_none_iff_exists'.mp fun none => ?_
  rw [List.argmin_eq_none.mp none] at member
  cases member

theorem nearestTo_same (listed : chosen ∈ points) (matching : Matches collective worldSize chosen)
    (same : chosen.bytes = requestedBytes) : NearestTo bits points collective worldSize requestedBytes chosen := by
  have least : ∀ other : PolicyPoint, exactRatio requestedBytes chosen ≤ exactRatio requestedBytes other := by
    intro other
    rcases Nat.le_total other.bytes chosen.bytes with le | le
    · exact exactRatio_below le same.le
    · exact exactRatio_above le same.ge
  refine ⟨listed, matching, fun other _ _ => longDoubleRatio_mono (least other), fun other _ _ lt => ?_,
    fun other _ _ equal => ?_, fun _ _ _ _ _ => same.le⟩
  · exact absurd (least other) (not_le.mpr lt)
  · by_contra reached
    exact absurd equal (exactRatio_below_lt (Nat.not_le.mp reached) same.le).ne'

theorem nearestTo_previous (absent : ∀ point ∈ points, Matches collective worldSize point → point.bytes ≠ requestedBytes)
    (largest : chosen ∈ (below collective worldSize requestedBytes points).argmax PolicyPoint.bytes)
    (nearer : ∀ next ∈ (above collective worldSize requestedBytes points).argmin PolicyPoint.bytes,
      longDoubleRatio bits requestedBytes chosen ≤ longDoubleRatio bits requestedBytes next) :
    NearestTo bits points collective worldSize requestedBytes chosen := by
  obtain ⟨listed, matching, under⟩ := mem_below.mp (List.argmax_mem largest)
  have sides : ∀ other ∈ points, Matches collective worldSize other →
      other.bytes ≤ chosen.bytes ∨ requestedBytes < other.bytes ∧
        longDoubleRatio bits requestedBytes chosen ≤ longDoubleRatio bits requestedBytes other := by
    intro other member matches'
    rcases Nat.lt_or_gt_of_ne (absent other member matches') with lower | higher
    · exact Or.inl (List.le_of_mem_argmax (mem_below.mpr ⟨member, matches', lower⟩) largest)
    · right
      have inAbove := mem_above.mpr ⟨member, matches', higher⟩
      obtain ⟨next, first⟩ := exists_smallest inAbove
      obtain ⟨_, _, beyond⟩ := mem_above.mp (List.argmin_mem first)
      exact ⟨higher, Nat.le_trans (nearer next first)
        (longDoubleRatio_mono (exactRatio_above (List.le_of_mem_argmin inAbove first) beyond.le))⟩
  have least : ∀ other ∈ points, Matches collective worldSize other →
      longDoubleRatio bits requestedBytes chosen ≤ longDoubleRatio bits requestedBytes other := by
    intro other member matches'
    rcases sides other member matches' with lower | ⟨_, far⟩
    · exact longDoubleRatio_mono (exactRatio_below lower under.le)
    · exact far
  refine ⟨listed, matching, least, fun other member matches' lt => ?_, fun other member matches' equal => ?_,
    fun _ _ _ _ _ => under.le⟩
  · rcases sides other member matches' with lower | ⟨higher, _⟩
    · exact absurd (exactRatio_below lower under.le) (not_le.mpr lt)
    · exact ⟨Nat.le_antisymm (longDoubleRatio_mono lt.le) (least other member matches'), under, higher⟩
  · rcases sides other member matches' with lower | ⟨higher, _⟩
    · by_contra reached
      exact absurd equal (exactRatio_below_lt (Nat.not_le.mp reached) under.le).ne'
    · omega

theorem nearestTo_next (absent : ∀ point ∈ points, Matches collective worldSize point → point.bytes ≠ requestedBytes)
    (smallest : chosen ∈ (above collective worldSize requestedBytes points).argmin PolicyPoint.bytes)
    (nearer : ∀ previous ∈ (below collective worldSize requestedBytes points).argmax PolicyPoint.bytes,
      longDoubleRatio bits requestedBytes chosen < longDoubleRatio bits requestedBytes previous) :
    NearestTo bits points collective worldSize requestedBytes chosen := by
  obtain ⟨listed, matching, beyond⟩ := mem_above.mp (List.argmin_mem smallest)
  have sides : ∀ other ∈ points, Matches collective worldSize other →
      chosen.bytes ≤ other.bytes ∨
        longDoubleRatio bits requestedBytes chosen < longDoubleRatio bits requestedBytes other := by
    intro other member matches'
    rcases Nat.lt_or_gt_of_ne (absent other member matches') with lower | higher
    · right
      have inBelow := mem_below.mpr ⟨member, matches', lower⟩
      obtain ⟨previous, last⟩ := exists_largest inBelow
      obtain ⟨_, _, under⟩ := mem_below.mp (List.argmax_mem last)
      exact Nat.lt_of_lt_of_le (nearer previous last)
        (longDoubleRatio_mono (exactRatio_below (List.le_of_mem_argmax inBelow last) under.le))
    · exact Or.inl (List.le_of_mem_argmin (mem_above.mpr ⟨member, matches', higher⟩) smallest)
  refine ⟨listed, matching, fun other member matches' => ?_, fun other member matches' lt => ?_,
    fun other member matches' equal => ?_, fun other member matches' equal lt => ?_⟩
  · rcases sides other member matches' with higher | far
    · exact longDoubleRatio_mono (exactRatio_above higher beyond.le)
    · exact far.le
  · rcases sides other member matches' with higher | far
    · exact absurd (exactRatio_above higher beyond.le) (not_le.mpr lt)
    · exact absurd (exactRatio_lt far) (not_lt.mpr lt.le)
  · rcases sides other member matches' with higher | far
    · exact higher
    · exact absurd equal (exactRatio_lt far).ne'
  · rcases sides other member matches' with higher | far
    · omega
    · omega

theorem nearerPolicyPoint_some (found : nearerPolicyPoint bits requestedBytes previous next = some chosen)
    (under : ∀ last ∈ previous, last.bytes < requestedBytes) (beyond : ∀ first ∈ next, requestedBytes < first.bytes) :
    (chosen ∈ previous ∧ ∀ first ∈ next,
        longDoubleRatio bits requestedBytes chosen ≤ longDoubleRatio bits requestedBytes first) ∨
      (chosen ∈ next ∧ ∀ last ∈ previous,
        longDoubleRatio bits requestedBytes chosen < longDoubleRatio bits requestedBytes last) := by
  cases previous with
  | none => exact Or.inr ⟨found, fun _ none => nomatch none⟩
  | some last =>
    cases next with
    | none => exact Or.inl ⟨found, fun _ none => nomatch none⟩
    | some first =>
      have lower : longDoubleRatio bits requestedBytes last = significand bits requestedBytes last.bytes := by
        rw [longDoubleRatio, Nat.max_eq_right (under last rfl).le, Nat.min_eq_left (under last rfl).le]
      have upper : longDoubleRatio bits requestedBytes first = significand bits first.bytes requestedBytes := by
        rw [longDoubleRatio, Nat.max_eq_left (beyond first rfl).le, Nat.min_eq_right (beyond first rfl).le]
      rw [nearerPolicyPoint] at found
      split at found
      · rename_i le
        obtain rfl := Option.some.inj found
        refine Or.inl ⟨rfl, fun other same => ?_⟩
        obtain rfl := Option.some.inj same
        rwa [lower, upper]
      · rename_i gt
        obtain rfl := Option.some.inj found
        refine Or.inr ⟨rfl, fun other same => ?_⟩
        obtain rfl := Option.some.inj same
        rw [lower, upper]
        exact Nat.not_le.mp gt

theorem find?_same (found : points.find? (fun point => Matches collective worldSize point ∧ point.bytes = requestedBytes) =
    some chosen) : chosen ∈ points ∧ Matches collective worldSize chosen ∧ chosen.bytes = requestedBytes :=
  ⟨List.mem_of_find?_eq_some found, by simpa using List.find?_some found⟩

theorem find?_absent (missing : points.find? (fun point => Matches collective worldSize point ∧
    point.bytes = requestedBytes) = none) :
    ∀ point ∈ points, Matches collective worldSize point → point.bytes ≠ requestedBytes := by
  intro point member matching same
  have refused := List.find?_eq_none.mp missing point member
  simp [matching, same] at refused

theorem nearestTo_of_select
    (found : selectNearestPolicyPoint bits points collective worldSize requestedBytes = some chosen) :
    NearestTo bits points collective worldSize requestedBytes chosen := by
  rw [selectNearestPolicyPoint_eq] at found
  split at found
  · rename_i point same
    obtain rfl := Option.some.inj found
    obtain ⟨listed, matching, same⟩ := find?_same same
    exact nearestTo_same listed matching same
  · rename_i missing
    have absent := find?_absent missing
    rcases nearerPolicyPoint_some found (fun last member => (mem_below.mp (List.argmax_mem member)).2.2)
      (fun first member => (mem_above.mp (List.argmin_mem member)).2.2) with ⟨largest, nearer⟩ | ⟨smallest, nearer⟩
    · exact nearestTo_previous absent largest nearer
    · exact nearestTo_next absent smallest nearer

theorem nearerPolicyPoint_isSome (present : previous.isSome = true ∨ next.isSome = true) :
    (nearerPolicyPoint bits requestedBytes previous next).isSome = true := by
  cases previous with
  | none => exact present.resolve_left Bool.false_ne_true
  | some last =>
    cases next with
    | none => rfl
    | some first =>
      rw [nearerPolicyPoint]
      split <;> rfl

/-- The search only comes back empty-handed where no point matches. -/
theorem select_isSome (member : point ∈ points) (matching : Matches collective worldSize point) :
    (selectNearestPolicyPoint bits points collective worldSize requestedBytes).isSome = true := by
  rw [selectNearestPolicyPoint_eq]
  split
  · rfl
  · rename_i missing
    apply nearerPolicyPoint_isSome
    rcases Nat.lt_or_gt_of_ne (find?_absent missing point member matching) with lower | higher
    · exact Or.inl (Option.isSome_iff_exists.mpr (exists_largest (mem_below.mpr ⟨member, matching, lower⟩)))
    · exact Or.inr (Option.isSome_iff_exists.mpr (exists_smallest (mem_above.mpr ⟨member, matching, higher⟩)))

end Nearest

section Order

variable {points points' : List PolicyPoint}

/-- Matching points with one size are one point. -/
def SizesDistinct (collective : Collective) (worldSize : Int) (points : List PolicyPoint) : Prop :=
  ∀ point ∈ points, ∀ other ∈ points, Matches collective worldSize point → Matches collective worldSize other →
    point.bytes = other.bytes → point = other

/-- Two answers that both exist and agree in size are the same. -/
theorem option_eq_of_bytes {first second : Option PolicyPoint} (together : first = none ↔ second = none)
    (same : ∀ point ∈ first, ∀ other ∈ second, point = other) : first = second := by
  cases first with
  | none => exact (together.mp rfl).symm
  | some point =>
    cases second with
    | none => exact absurd (together.mpr rfl) (Option.some_ne_none point)
    | some other => rw [same point rfl other rfl]

theorem selectNearestPolicyPoint_perm (permuted : points'.Perm points)
    (distinct : SizesDistinct collective worldSize points) :
    selectNearestPolicyPoint bits points' collective worldSize requestedBytes =
      selectNearestPolicyPoint bits points collective worldSize requestedBytes := by
  have here : points'.find? (fun point => Matches collective worldSize point ∧ point.bytes = requestedBytes) =
      points.find? (fun point => Matches collective worldSize point ∧ point.bytes = requestedBytes) := by
    refine option_eq_of_bytes ?_ fun point found other found' => ?_
    · simp only [List.find?_eq_none, permuted.mem_iff]
    · obtain ⟨listed, matching, same⟩ := find?_same found
      obtain ⟨listed', matching', same'⟩ := find?_same found'
      exact distinct point (permuted.mem_iff.mp listed) other listed' matching matching' (same.trans same'.symm)
  have largest : (below collective worldSize requestedBytes points').argmax PolicyPoint.bytes =
      (below collective worldSize requestedBytes points).argmax PolicyPoint.bytes := by
    have together : (below collective worldSize requestedBytes points').Perm
        (below collective worldSize requestedBytes points) := permuted.filter _
    refine option_eq_of_bytes ?_ fun point found other found' => ?_
    · rw [List.argmax_eq_none, List.argmax_eq_none]
      exact ⟨fun empty => (empty ▸ together).nil_eq.symm, fun empty => (empty ▸ together).eq_nil⟩
    · have member := together.mem_iff.mp (List.argmax_mem found)
      have member' := List.argmax_mem found'
      obtain ⟨listed, matching, _⟩ := mem_below.mp member
      obtain ⟨listed', matching', _⟩ := mem_below.mp member'
      exact distinct point listed other listed' matching matching' (Nat.le_antisymm (List.le_of_mem_argmax member found')
        (List.le_of_mem_argmax (together.mem_iff.mpr member') found))
  have smallest : (above collective worldSize requestedBytes points').argmin PolicyPoint.bytes =
      (above collective worldSize requestedBytes points).argmin PolicyPoint.bytes := by
    have together : (above collective worldSize requestedBytes points').Perm
        (above collective worldSize requestedBytes points) := permuted.filter _
    refine option_eq_of_bytes ?_ fun point found other found' => ?_
    · rw [List.argmin_eq_none, List.argmin_eq_none]
      exact ⟨fun empty => (empty ▸ together).nil_eq.symm, fun empty => (empty ▸ together).eq_nil⟩
    · have member := together.mem_iff.mp (List.argmin_mem found)
      have member' := List.argmin_mem found'
      obtain ⟨listed, matching, _⟩ := mem_above.mp member
      obtain ⟨listed', matching', _⟩ := mem_above.mp member'
      exact distinct point listed other listed' matching matching' (Nat.le_antisymm
        (List.le_of_mem_argmin (together.mem_iff.mpr member') found) (List.le_of_mem_argmin member found'))
  rw [selectNearestPolicyPoint_eq, selectNearestPolicyPoint_eq, here, largest, smallest]

/-- The search finds a matching point whenever there is one, the answer is nearest up to the rounding of the two
ratios it compares, and where matching points differ in size it does not depend on their order. -/
theorem selectNearestPolicyPoint_nearest (bits : Nat) (points : List PolicyPoint) (collective : Collective)
    (worldSize : Int) (requestedBytes : Nat) :
    ((∃ point ∈ points, Matches collective worldSize point) →
        ∃ chosen, selectNearestPolicyPoint bits points collective worldSize requestedBytes = some chosen) ∧
      (∀ chosen, selectNearestPolicyPoint bits points collective worldSize requestedBytes = some chosen →
        NearestTo bits points collective worldSize requestedBytes chosen) ∧
      (SizesDistinct collective worldSize points → ∀ points' : List PolicyPoint, points'.Perm points →
        selectNearestPolicyPoint bits points' collective worldSize requestedBytes =
          selectNearestPolicyPoint bits points collective worldSize requestedBytes) := by
  refine ⟨?_, fun _ found => nearestTo_of_select found, fun distinct _ permuted =>
    selectNearestPolicyPoint_perm permuted distinct⟩
  rintro ⟨point, member, matching⟩
  exact Option.isSome_iff_exists.mp (select_isSome member matching)

/-- One point with the best-ranked defaults. -/
def measuredPoint (bytes : Nat) (nonzero : 0 < bytes) : PolicyPoint where
  collective := .allReduce
  worldSize := 2
  bytes := bytes
  ranked := [{ maxCtas := 32, maxCtasPerReduceTask := 8 }]
  groupNonempty := by decide
  bytesNonzero := nonzero
  measured := List.cons_ne_nil _ _
  valid := by decide

/-- Just below and just above 8 GiB the ratios differ by less than `long double` resolves. -/
theorem nearest_of_8GiB :
    let points := [measuredPoint (2 ^ 33 - 1) (by decide), measuredPoint (2 ^ 33 + 1) (by decide)]
    ∃ chosen ∈ points, ∃ other ∈ points,
      selectNearestPolicyPoint longDoubleBits points .allReduce 2 (2 ^ 33) = some chosen ∧
        Matches .allReduce 2 other ∧ exactRatio (2 ^ 33) other < exactRatio (2 ^ 33) chosen := by
  intro points
  refine ⟨_, List.mem_cons_self, _, List.mem_cons_of_mem _ List.mem_cons_self, ?_, by decide, ?_⟩
  · rfl
  · simp only [exactRatio, measuredPoint]
    norm_num

end Order

end Ooverlap.Tuning
