import Mathlib.Algebra.Order.Floor.Div
import Ooverlap.Support.Split
import Ooverlap.Support.Word

/-! Compile-time parameters, launch configurations and the shared window arithmetic. -/

namespace Ooverlap.Plan

open Word

def tmaTwoGpuPeerDefaultThreads : Int := 32
def tmaTwoGpuPeerDefaultMaxCtas : Int := 32
def tmaTwoGpuPeerMaxCtas : Int := 32
def tmaTwoGpuPeerDefaultWindowChunks : Int := 1
def tmaTwoGpuPeerDefaultChunkBytes : Int := 8 * 1024
def tmaTwoGpuPeerDefaultStageDepth : Int := 16
def tmaTwoGpuPeerSmallTaskBytes : Nat := 64 * 1024
def tmaTwoGpuPeerMaxFanoutDsts : Nat := 4

inductive AllReducePlanKind where
  | tmaCopy
  | seqFastCopyGmem
  | overlapFastCopyGmem
  deriving DecidableEq, Repr

inductive ReduceScatterPlanKind where
  | tmaReduce
  | seqFastAddGmem
  deriving DecidableEq, Repr

inductive AllGatherPlanKind where
  | tmaCopy
  | seqFastCopyGmem
  deriving DecidableEq, Repr

/-- Tagged counterpart of the `plan_for` field and the `plan` union it selects. -/
inductive CollectivePlanKind where
  | allReduce (plan : AllReducePlanKind)
  | reduceScatter (plan : ReduceScatterPlanKind)
  | allGather (plan : AllGatherPlanKind)
  deriving DecidableEq, Repr

structure LaunchConfig where
  threads : Int := tmaTwoGpuPeerDefaultThreads
  maxCtas : Int := tmaTwoGpuPeerDefaultMaxCtas
  maxCtasPerReduceTask : Int := 8
  windowChunks : Int := tmaTwoGpuPeerDefaultWindowChunks
  chunkBytes : Int := tmaTwoGpuPeerDefaultChunkBytes
  stageDepth : Int := tmaTwoGpuPeerDefaultStageDepth
  plan : CollectivePlanKind := .allReduce .tmaCopy
  deriving DecidableEq, Repr

def launchConfigValidCommon (config : LaunchConfig) : Bool :=
  !(config.threads ≤ 0 || config.threads > 1024) &&
  config.threads % 32 == 0 &&
  !(config.maxCtas ≤ 0 || config.maxCtas > tmaTwoGpuPeerMaxCtas) &&
  !(config.maxCtasPerReduceTask ≤ 0 || config.maxCtasPerReduceTask > tmaTwoGpuPeerMaxCtas) &&
  !(config.windowChunks ≤ 0) &&
  !(config.chunkBytes < 16) &&
  config.chunkBytes % 16 == 0 &&
  !(config.stageDepth < 2) &&
  config.stageDepth % 2 == 0

def launchConfigValidPlan (config : LaunchConfig) : Bool :=
  match config.plan with
  | .allReduce .overlapFastCopyGmem => config.maxCtas ≥ 2
  | _ => true

def launchConfigValid (config : LaunchConfig) : Bool :=
  launchConfigValidCommon config && launchConfigValidPlan config

theorem launchConfigValidCommon_iff (config : LaunchConfig) :
    launchConfigValidCommon config = true ↔
      (0 < config.threads ∧ config.threads ≤ 1024 ∧ config.threads % 32 = 0) ∧
      (0 < config.maxCtas ∧ config.maxCtas ≤ 32) ∧
      (0 < config.maxCtasPerReduceTask ∧ config.maxCtasPerReduceTask ≤ 32) ∧
      0 < config.windowChunks ∧ (16 ≤ config.chunkBytes ∧ config.chunkBytes % 16 = 0) ∧
      (2 ≤ config.stageDepth ∧ config.stageDepth % 2 = 0) := by
  simp only [launchConfigValidCommon, Bool.and_eq_true, Bool.not_eq_true', Bool.or_eq_false_iff,
    decide_eq_false_iff_not, beq_iff_eq]
  unfold tmaTwoGpuPeerMaxCtas
  omega

/-- Half-open range of window indices. -/
structure WindowRange where
  beginWindow : Int := 0
  endWindow : Int := 0
  deriving DecidableEq, Repr

/-- `int` ceiling division of the source, with the wrap-around of its intermediate sum. -/
def ceilDivInt (num den : Int) : Int :=
  if num ≤ 0 ∨ den ≤ 0 then 0
  else (toInt32 (num + den - 1)).tdiv den

/-- `size_t` ceiling division narrowed to `int`. -/
def ceilDivInt64ToInt (num den : Nat) : Int :=
  if num = 0 ∨ den = 0 then 0
  else toInt32 (toUInt64 (num + den - 1) / den : Nat)

def windowCountForChunks (numChunks chunksPerWindow : Int) : Int :=
  ceilDivInt numChunks chunksPerWindow

def windowCountForBytes (totalBytes chunkBytes : Nat) (chunksPerWindow : Int) : Int :=
  if totalBytes = 0 ∨ chunkBytes = 0 ∨ chunksPerWindow ≤ 0 then 0
  else windowCountForChunks (ceilDivInt64ToInt totalBytes chunkBytes) chunksPerWindow

def windowRangeCount (range : WindowRange) : Int :=
  if range.beginWindow < range.endWindow then range.endWindow - range.beginWindow else 0

def ctaCountForWindows (windowCount maxCtas : Int) : Int :=
  if windowCount ≤ 0 ∨ maxCtas ≤ 0 then 0 else min windowCount maxCtas

/-- Near-equal contiguous share of a window range for one CTA. -/
def ctaWindowRange (ctaIdx ctaCount : Int) (fullRange : WindowRange) : WindowRange :=
  let total := windowRangeCount fullRange
  if total ≤ 0 ∨ ctaCount ≤ 0 ∨ ctaIdx < 0 ∨ ctaIdx ≥ ctaCount then {}
  else
    let base := total / ctaCount
    let rem := total % ctaCount
    let localBegin := ctaIdx * base + (if ctaIdx < rem then ctaIdx else rem)
    let localCount := base + (if ctaIdx < rem then 1 else 0)
    { beginWindow := fullRange.beginWindow + localBegin
      endWindow := fullRange.beginWindow + localBegin + localCount }

theorem ceilDivInt_eq (positive : 0 < num) (denPositive : 0 < den) (fits : num + den - 1 < 2 ^ 31) :
    ceilDivInt num den = (num + den - 1) / den := by
  unfold ceilDivInt
  rw [if_neg (by omega), toInt32_of_inInt32 ⟨by omega, fits⟩]
  exact Int.tdiv_eq_ediv_of_nonneg (by omega)

theorem ceilDivInt_le_iff (positive : 0 < num) (denPositive : 0 < den) (fits : num + den - 1 < 2 ^ 31) :
    ceilDivInt num den ≤ bound ↔ num ≤ bound * den := by
  rw [ceilDivInt_eq positive denPositive fits, ← Int.lt_add_one_iff,
    Int.ediv_lt_iff_lt_mul denPositive, Int.add_mul]
  omega

theorem ceilDivInt_pos (positive : 0 < num) (denPositive : 0 < den) (fits : num + den - 1 < 2 ^ 31) :
    0 < ceilDivInt num den := by
  rw [← Int.not_le, ceilDivInt_le_iff positive denPositive fits]
  omega

theorem ceilDivInt64ToInt_eq (positive : 0 < num) (denPositive : 0 < den)
    (fits : num + den - 1 < 2 ^ 64) :
    ceilDivInt64ToInt num den = toInt32 ((num ⌈/⌉ den : Nat) : Int) := by
  unfold ceilDivInt64ToInt
  rw [if_neg (by omega), toUInt64_of_lt fits, Nat.ceilDiv_eq_add_pred_div]

/-- The CTA shares of a window range follow the near-equal split of its length. -/
theorem ctaWindowRange_eq (fullRange : WindowRange) (total ctaCount ctaIdx : Nat)
    (length : fullRange.endWindow = fullRange.beginWindow + total)
    (nonempty : 0 < total) (within : ctaIdx < ctaCount) :
    ctaWindowRange ctaIdx ctaCount fullRange =
      { beginWindow := fullRange.beginWindow + Split.offset total ctaCount ctaIdx
        endWindow := fullRange.beginWindow + Split.offset total ctaCount (ctaIdx + 1) } := by
  have count : windowRangeCount fullRange = total := by
    unfold windowRangeCount
    rw [length, if_pos (by omega)]
    omega
  unfold ctaWindowRange
  rw [count, if_neg (by omega)]
  simp only [Split.offset_succ, WindowRange.mk.injEq]
  unfold Split.offset Split.share
  by_cases early : ctaIdx < total % ctaCount
  · have earlyInt : (ctaIdx : Int) < (total : Int) % ctaCount := by exact_mod_cast early
    rw [Nat.min_eq_left (Nat.le_of_lt early), if_pos early, if_pos earlyInt, if_pos earlyInt]
    push_cast
    omega
  · have lateInt : ¬(ctaIdx : Int) < (total : Int) % ctaCount := by exact_mod_cast early
    rw [Nat.min_eq_right (Nat.not_lt.mp early), if_neg early, if_neg lateInt, if_neg lateInt]
    push_cast
    omega

/-- The CTA shares cover every window of the range exactly once. -/
theorem ctaWindowRange_cover (fullRange : WindowRange) (ordered : fullRange.beginWindow ≤ fullRange.endWindow)
    (positive : 0 < ctaCount) (window : Int) :
    ((List.range ctaCount).map fun cta : Nat =>
      Split.covers (ctaWindowRange cta ctaCount fullRange).beginWindow
        (ctaWindowRange cta ctaCount fullRange).endWindow window).sum =
      Split.covers fullRange.beginWindow fullRange.endWindow window := by
  obtain ⟨total, length⟩ : ∃ total : Nat, fullRange.endWindow = fullRange.beginWindow + total :=
    ⟨(fullRange.endWindow - fullRange.beginWindow).toNat, by omega⟩
  rcases Nat.eq_zero_or_pos total with empty | nonempty
  · have shares : ∀ cta : Nat, ctaWindowRange cta ctaCount fullRange = {} := by
      intro cta
      have none : windowRangeCount fullRange = 0 := by
        unfold windowRangeCount
        rw [if_neg (by omega)]
      simp [ctaWindowRange, none]
    have whole : fullRange.endWindow = fullRange.beginWindow := by omega
    simp [shares, whole]
  · let boundary : Nat → Int := fun cta => fullRange.beginWindow + Split.offset total ctaCount cta
    have monotone : ∀ cta, boundary cta ≤ boundary (cta + 1) := by
      intro cta
      have grows : Split.offset total ctaCount cta ≤ Split.offset total ctaCount (cta + 1) :=
        Split.offset_mono total ctaCount (Nat.le_succ cta)
      simp only [boundary]
      omega
    have shares : ∀ cta ∈ List.range ctaCount, Split.covers (ctaWindowRange cta ctaCount fullRange).beginWindow
        (ctaWindowRange cta ctaCount fullRange).endWindow window =
        Split.covers (boundary cta) (boundary (cta + 1)) window := by
      intro cta member
      rw [ctaWindowRange_eq fullRange total ctaCount cta length nonempty (List.mem_range.mp member)]
    rw [List.map_congr_left shares, Split.covers_sum boundary monotone]
    simp only [boundary, Split.offset_zero, Split.offset_parts positive, Nat.cast_zero, Int.add_zero, length]

end Ooverlap.Plan
