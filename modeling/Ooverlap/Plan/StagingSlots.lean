import Ooverlap.Plan.AllReduce
import Ooverlap.Plan.Islands
import Ooverlap.Plan.ReduceScatter

/-! The greedy choice of staging slots against the assignments that exist. -/

namespace Ooverlap.Plan

variable {input : TransferPlanBuildInput} {requiredBytes : Int → Nat}

/-- Slots for all islands: large enough for what is staged, and no slot for two of them. -/
structure Assigns (input : TransferPlanBuildInput) (requiredBytes : Int → Nat) (islandCount : Int)
    (slots : Int → Int) : Prop where
  valid : ∀ island ∈ intRange islandCount, stagingSliceValid input (slots island) 0 (requiredBytes island) = true
  apart : ∀ island ∈ intRange islandCount, ∀ other ∈ intRange islandCount, island ≠ other → slots island ≠ slots other

/-- A slot that one island fits in fits all of them. -/
def SlotsAlike (input : TransferPlanBuildInput) (requiredBytes : Int → Nat) (islandCount : Int) : Prop :=
  ∀ island ∈ intRange islandCount, ∀ other ∈ intRange islandCount, ∀ slot,
    stagingSliceValid input slot 0 (requiredBytes island) = true →
      stagingSliceValid input slot 0 (requiredBytes other) = true

theorem stagingSliceValid_inRange (valid : stagingSliceValid input slot offset bytes = true) :
    slot ∈ intRange input.stagingSlotCount := by
  unfold stagingSliceValid at valid
  split at valid
  · cases valid
  · exact mem_intRange.mpr (by omega)

/-- Assigning slots, which all-reduce and reduce-scatter do alike, leaves the islands as they were. -/
theorem assignStagingSlots_staged (partition : Partition input.worldSize islands)
    (assigned : ReduceScatter.assignStagingSlots input islands bytes = some slotted) :
    StagedIslands input.worldSize slotted ∧ { slotted with stagingSlot := islands.stagingSlot } = islands := by
  unfold ReduceScatter.assignStagingSlots at assigned
  split at assigned
  · cases assigned
  · exact assignStagingSlotsFrom_staged input _ partition assigned

theorem firstUnusedSlot_suits (found : firstUnusedSlot input used suits = some slot) : suits slot = true := by
  have suited := List.find?_some found
  simp only [Bool.and_eq_true] at suited
  exact suited.2

theorem firstUnusedSlot_found (suits : Int → Bool) (inRange : slot ∈ intRange input.stagingSlotCount) (unused : slot ∉ used)
    (suited : suits slot = true) : ∃ found, firstUnusedSlot input used suits = some found := by
  refine Option.isSome_iff_exists.mp (List.find?_isSome.mpr ⟨slot, inRange, ?_⟩)
  simp [unused, suited]

theorem assignStagingSlotsFrom_valid (islands : IslandPlan) (items used : List Int) (assigned : IslandPlan)
    (distinct : items.Nodup)
    (done : assignStagingSlotsFrom input islands requiredBytes items used assigned = some result) :
    ∀ island ∈ items, stagingSliceValid input (result.stagingSlot island) 0 (requiredBytes island) = true := by
  induction items generalizing used assigned with
  | nil => exact fun _ none => nomatch none
  | cons item rest ih =>
    obtain ⟨absent, distinctRest⟩ := List.nodup_cons.mp distinct
    rw [assignStagingSlotsFrom] at done
    split at done
    · cases done
    · rename_i slot chosen
      have here : result.stagingSlot item = slot := by
        rw [(assignStagingSlotsFrom_others input islands requiredBytes rest _ _ done).2 item absent]
        exact Function.update_self ..
      have valid : stagingSliceValid input slot 0 (requiredBytes item) = true := by
        rcases Option.or_eq_some_iff.mp chosen with preferred | ⟨_, any⟩
        · split at preferred
          · have suited := firstUnusedSlot_suits preferred
            simp only [Bool.and_eq_true] at suited
            exact suited.2
          · cases preferred
        · exact firstUnusedSlot_suits any
      intro island member
      rcases List.mem_cons.mp member with rfl | later
      · rwa [here]
      · exact ih _ _ distinctRest done island later

/-- While fewer slots are used than an assignment has, one of its slots is left. -/
theorem Assigns.unused (assigns : Assigns input requiredBytes islandCount slots) (used : List Int)
    (few : used.length < (intRange islandCount).length) :
    ∃ island ∈ intRange islandCount, slots island ∉ used := by
  by_contra all
  push Not at all
  have distinct : ((intRange islandCount).map slots).Nodup := by
    refine List.Nodup.map_on (fun island inRange other otherInRange same => ?_) (intRange_nodup _)
    by_contra differ
    exact assigns.apart island inRange other otherInRange differ same
  have subset : (intRange islandCount).map slots ⊆ used := by
    intro slot member
    obtain ⟨island, inRange, rfl⟩ := List.mem_map.mp member
    exact all island inRange
  have fewer := (List.subperm_of_subset distinct subset).length_le
  rw [List.length_map] at fewer
  omega

/-- Where slots are alike, taking any of them leaves enough for the islands to come. -/
theorem assignStagingSlotsFrom_complete (islands : IslandPlan) (assigns : Assigns input requiredBytes islandCount slots)
    (alike : SlotsAlike input requiredBytes islandCount) (items used : List Int) (assigned : IslandPlan)
    (listed : ∀ island ∈ items, island ∈ intRange islandCount)
    (room : used.length + items.length ≤ (intRange islandCount).length) :
    ∃ result, assignStagingSlotsFrom input islands requiredBytes items used assigned = some result := by
  induction items generalizing used assigned with
  | nil => exact ⟨assigned, rfl⟩
  | cons item rest ih =>
    rw [List.length_cons] at room
    have inRange := listed item (List.mem_cons_self ..)
    obtain ⟨island, islandInRange, free⟩ := assigns.unused used (by omega)
    have fits := assigns.valid island islandInRange
    obtain ⟨any, found⟩ := firstUnusedSlot_found
      (fun slot => stagingSliceValid input slot 0 (requiredBytes item)) (stagingSliceValid_inRange fits) free
      (alike island islandInRange item inRange _ fits)
    rw [assignStagingSlotsFrom]
    split
    · rename_i missing
      have none := (Option.or_eq_none_iff.mp missing).2
      rw [found] at none
      cases none
    · rename_i slot chosen
      refine ih _ _ (fun other member => listed other (List.mem_cons_of_mem _ member)) ?_
      rw [List.length_cons]
      omega

theorem assignStagingSlotsFrom_assigns (islands : IslandPlan)
    (done : assignStagingSlotsFrom input islands requiredBytes (intRange islands.islandCount) [] islands = some result) :
    Assigns input requiredBytes islands.islandCount result.stagingSlot where
  valid := assignStagingSlotsFrom_valid islands _ _ _ (intRange_nodup _) done
  apart := (assignStagingSlotsFrom_apart input islands requiredBytes _ _ _ (intRange_nodup _) done).apart

theorem assignStagingSlotsFrom_iff (islands : IslandPlan)
    (alike : ∀ slots, Assigns input requiredBytes islands.islandCount slots →
      SlotsAlike input requiredBytes islands.islandCount) :
    (∃ result, assignStagingSlotsFrom input islands requiredBytes (intRange islands.islandCount) [] islands =
        some result) ↔
      ∃ slots, Assigns input requiredBytes islands.islandCount slots := by
  constructor
  · rintro ⟨result, done⟩
    exact ⟨_, assignStagingSlotsFrom_assigns islands done⟩
  · rintro ⟨slots, assigns⟩
    exact assignStagingSlotsFrom_complete islands assigns (alike slots assigns) _ [] islands (fun _ member => member)
      (by simp)

/-- All slots hold the same number of bytes, as a group allocates them. -/
def SlotsEqual (input : TransferPlanBuildInput) : Prop :=
  ∀ slot ∈ intRange input.stagingSlotCount, ∀ other ∈ intRange input.stagingSlotCount,
    input.stagingBytes slot = input.stagingBytes other

/-- Equal slots are alike as soon as they suffice at all. -/
theorem SlotsEqual.alike (equal : SlotsEqual input) (assigns : Assigns input requiredBytes islandCount slots) :
    SlotsAlike input requiredBytes islandCount := by
  intro island _ other otherInRange slot fits
  have otherFits := assigns.valid other otherInRange
  have size := equal slot (stagingSliceValid_inRange fits) (slots other) (stagingSliceValid_inRange otherFits)
  simp only [stagingSliceValid, Bool.if_false_left, Bool.and_eq_true, Bool.not_eq_true', decide_eq_true_eq,
    decide_eq_false_iff_not] at fits otherFits ⊢
  omega

/-- What the three planners promise of their staging slots. -/
theorem assignStagingSlots_assigns (input : TransferPlanBuildInput) (islands : IslandPlan) (bytes : Nat) :
    (((∃ result, AllReduce.assignStagingSlots input islands bytes = some result) ↔
          bytes ≠ 0 ∧ ∃ slots, Assigns input (fun _ => bytes) islands.islandCount slots) ∧
        ∀ result, AllReduce.assignStagingSlots input islands bytes = some result →
          Assigns input (fun _ => bytes) islands.islandCount result.stagingSlot) ∧
      (((∃ result, ReduceScatter.assignStagingSlots input islands bytes = some result) ↔
          bytes ≠ 0 ∧ ∃ slots, Assigns input (fun _ => bytes) islands.islandCount slots) ∧
        ∀ result, ReduceScatter.assignStagingSlots input islands bytes = some result →
          Assigns input (fun _ => bytes) islands.islandCount result.stagingSlot) ∧
      (SlotsEqual input ∨ SlotsAlike input (AllGather.islandBlockBytes input islands) islands.islandCount →
        ((∃ result, AllGather.assignStagingSlots input islands = some result) ↔
          ∃ slots, Assigns input (AllGather.islandBlockBytes input islands) islands.islandCount slots)) ∧
      ∀ result, AllGather.assignStagingSlots input islands = some result →
        Assigns input (AllGather.islandBlockBytes input islands) islands.islandCount result.stagingSlot := by
  have uniform := @assignStagingSlotsFrom_iff input (fun _ => bytes) islands
    fun _ _ _ _ _ _ _ fits => fits
  refine ⟨⟨?_, ?_⟩, ⟨?_, ?_⟩, ?_, fun result done => assignStagingSlotsFrom_assigns islands done⟩
  · rw [AllReduce.assignStagingSlots, ← uniform]
    split <;> simp_all
  · intro result done
    rw [AllReduce.assignStagingSlots] at done
    split at done
    · cases done
    · exact assignStagingSlotsFrom_assigns islands done
  · rw [ReduceScatter.assignStagingSlots, ← uniform]
    split <;> simp_all
  · intro result done
    rw [ReduceScatter.assignStagingSlots] at done
    split at done
    · cases done
    · exact assignStagingSlotsFrom_assigns islands done
  · intro alike
    refine assignStagingSlotsFrom_iff islands fun slots assigns => ?_
    rcases alike with equal | alike
    · exact equal.alike assigns
    · exact alike

/-- Three ranks, of which the last two are linked, with a large and a small slot. -/
def twoSlots : TransferPlanBuildInput where
  worldSize := 3
  count := 3
  dtypeSize := 4
  stagingSlotCount := 2
  stagingBytes slot := if slot = 0 then 8 else 4

def lastTwoLinked : TransportMatrix := fun src dst => if src = 0 ∨ dst = 0 then .shm else .directNvlink

/-- The first island takes the large slot, although only the small one would leave room for the second. -/
theorem twoSlots_greedy :
    ∃ islands, AllGather.buildAllGatherIslands twoSlots lastTwoLinked = some islands ∧
      AllGather.assignStagingSlots twoSlots islands = none ∧
      Assigns twoSlots (AllGather.islandBlockBytes twoSlots islands) islands.islandCount (fun island => 1 - island) := by
  have accepted : (AllGather.buildAllGatherIslands twoSlots lastTwoLinked).isSome = true := by decide +kernel
  refine ⟨_, (Option.some_get accepted).symm, ?_, ?_, ?_⟩
  · refine Option.isNone_iff_eq_none.mp ?_
    decide +revert +kernel
  · decide +revert +kernel
  · decide +revert +kernel

end Ooverlap.Plan
