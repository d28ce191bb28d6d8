import Ooverlap.Api.Objects
import Ooverlap.Lowering.Agreement

/-! Plan requests: the key they are cached under, and the build input that their group and launch give. -/

namespace Ooverlap.Distribution

open Plan Lowering
open Api (OoStatus OoDtype ooDtypeSize OoReduceOp OoGroup)

def kOoMaxStagingSlots : Nat := 4

structure CollectiveLaunchState where
  worldSize : Int := 0
  dtypeSize : Nat := 0
  outOfPlace : Bool := false
  stagingSlotCount : Int := 0
  stagingBytes : Int → Nat := fun _ => 0
  stagingNumaNodes : Int → Int := fun _ => 0

/-- The launch fields that `prepare_collective_launch` copies from the group and that planning reads. -/
def prepareCollectiveLaunch (group : OoGroup) (dtype : OoDtype) : CollectiveLaunchState where
  worldSize := group.numDevices
  dtypeSize := ooDtypeSize dtype
  stagingSlotCount := (intRange kOoMaxStagingSlots).foldl (fun count slot =>
    if (group.stagingSlots slot).devicePtr ≠ 0 ∧ (group.stagingSlots slot).bytes ≠ 0 then slot + 1 else count) 0
  stagingBytes slot := (group.stagingSlots slot).bytes
  stagingNumaNodes slot := (group.stagingSlots slot).numaNode

/-- The collective that the tag of a launch configuration's plan selects. -/
def planFor (config : LaunchConfig) : Collective :=
  match config.plan with
  | .allReduce _ => .allReduce
  | .reduceScatter _ => .reduceScatter
  | .allGather _ => .allGather

/-- The CTAs of one reduction task are not compared: they only matter to lowering. -/
def sameLaunchConfig (a b : LaunchConfig) : Bool :=
  a.threads == b.threads && a.maxCtas == b.maxCtas && a.windowChunks == b.windowChunks &&
    a.chunkBytes == b.chunkBytes && a.stageDepth == b.stageDepth && a.plan == b.plan

structure TransferPlanRequestKey where
  collective : Collective := .allReduce
  worldSize : Int := 0
  count : Nat := 0
  dtypeSize : Nat := 0
  dtype : OoDtype := .float16
  op : OoReduceOp := .add
  outOfPlace : Bool := false
  config : LaunchConfig := {}
  deriving DecidableEq

def sameRequestKey (a b : TransferPlanRequestKey) : Bool :=
  a.collective == b.collective && a.worldSize == b.worldSize && a.count == b.count &&
    a.dtypeSize == b.dtypeSize && a.dtype == b.dtype && a.op == b.op && a.outOfPlace == b.outOfPlace &&
    sameLaunchConfig a.config b.config

def makeRequestKey (collective : Collective) (launch : CollectiveLaunchState) (count : Nat) (dtype : OoDtype)
    (op : OoReduceOp) (config : LaunchConfig) : TransferPlanRequestKey where
  collective := collective
  worldSize := launch.worldSize
  count := count
  dtypeSize := launch.dtypeSize
  dtype := dtype
  op := op
  outOfPlace := launch.outOfPlace
  config := config

def makeBuildInput (group : OoGroup) (launch : CollectiveLaunchState) (count : Nat) (config : LaunchConfig) :
    TransferPlanBuildInput :=
  let slots :=
    if launch.stagingSlotCount < kPlannerMaxStagingSlots then launch.stagingSlotCount else kPlannerMaxStagingSlots
  let slots := if slots < 0 then 0 else slots
  { topo :=
      { topology := group.topology
        rankDevices := some group.devices
        worldSize := group.numDevices }
    launchConfig := config
    worldSize := launch.worldSize
    count := count
    dtypeSize := launch.dtypeSize
    outOfPlace := launch.outOfPlace
    stagingSlotCount := slots
    stagingBytes := fun slot => if 0 ≤ slot ∧ slot < slots then launch.stagingBytes slot else 0
    stagingNumaNodes := fun slot => if 0 ≤ slot ∧ slot < slots then launch.stagingNumaNodes slot else 0 }

/-- The builder that a request hands to the cache, run on the plan storage the cache gives it. -/
def requestedBuild (group : OoGroup) (launch : CollectiveLaunchState) (count : Nat) (config : LaunchConfig)
    (collective : Collective) (storage : TransferPlan) : OoStatus × TransferPlan :=
  if group.numDevices ≠ launch.worldSize then (.invalidArgument, storage)
  else
    let built := buildTransferPlan collective storage (makeBuildInput group launch count config)
    (if built.1 then .success else .unsupported, built.2)

/-- A call of one of the three plan getters. -/
structure PlanRequest where
  collective : Collective := .allReduce
  count : Nat := 0
  dtype : OoDtype := .float16
  op : OoReduceOp := .add
  config : LaunchConfig := {}
  outOfPlace : Bool := false

namespace PlanRequest

/-- The launch prepared for the request; its placement may be overwritten after the preparation. -/
def launch (group : OoGroup) (request : PlanRequest) : CollectiveLaunchState :=
  { prepareCollectiveLaunch group request.dtype with outOfPlace := request.outOfPlace }

/-- All-gather has no reduction and is keyed under addition. -/
def key (group : OoGroup) (request : PlanRequest) : TransferPlanRequestKey :=
  makeRequestKey request.collective (request.launch group) request.count request.dtype
    (if request.collective = .allGather then .add else request.op) request.config

def buildInput (group : OoGroup) (request : PlanRequest) : TransferPlanBuildInput :=
  makeBuildInput group (request.launch group) request.count request.config

def build (group : OoGroup) (request : PlanRequest) (storage : TransferPlan) : OoStatus × TransferPlan :=
  requestedBuild group (request.launch group) request.count request.config request.collective storage

/-- What a fresh call of the matching builder makes of the request's build input. -/
def freshPlan (group : OoGroup) (request : PlanRequest) : Option TransferPlan :=
  let built := buildTransferPlan request.collective {} (request.buildInput group)
  if built.1 then some built.2 else none

end PlanRequest

section Reads

variable (cap : Nat) (input : TransferPlanBuildInput) (ctas : Int) (transports : TransportMatrix)

/-- The same build input but for the one launch setting that request keys do not compare. -/
def withReduceTaskCtas : TransferPlanBuildInput :=
  { input with launchConfig := { input.launchConfig with maxCtasPerReduceTask := ctas } }

theorem assignStagingSlotsFrom_reads (islands : IslandPlan) (bytes : Int → Nat) (pending used : List Int)
    (assigned : IslandPlan) :
    assignStagingSlotsFrom (withReduceTaskCtas input ctas) islands bytes pending used assigned =
      assignStagingSlotsFrom input islands bytes pending used assigned := by
  induction pending generalizing used assigned with
  | nil => rfl
  | cons island rest ih =>
    simp only [assignStagingSlotsFrom, ih]
    rfl

theorem emitCopyBatches_reads (srcRank : Int) (begins bytes : Nat) (windows : Int) (batch : List Int)
    (transport : TransportKind) (rest : List Int) :
    AllGather.emitCopyBatches cap (withReduceTaskCtas input ctas) transports srcRank begins bytes windows batch
        transport rest =
      AllGather.emitCopyBatches cap input transports srcRank begins bytes windows batch transport rest := by
  induction rest generalizing batch transport with
  | nil => rfl
  | cons dstRank rest ih =>
    simp only [AllGather.emitCopyBatches, ih]
    rfl

theorem emitAllGatherSourceCopies_reads (srcRank : Int) (ranks : List Int) (begins bytes : Nat) (windows : Int) :
    AllGather.emitAllGatherSourceCopies cap (withReduceTaskCtas input ctas) transports srcRank ranks begins bytes
        windows =
      AllGather.emitAllGatherSourceCopies cap input transports srcRank ranks begins bytes windows := by
  unfold AllGather.emitAllGatherSourceCopies
  rw [emitCopyBatches_reads]
  rfl

theorem planAllGather_reads :
    AllGather.planAllGather cap (withReduceTaskCtas input ctas) = AllGather.planAllGather cap input := by
  unfold AllGather.planAllGather AllGather.buildDirectAllGatherPlan AllGather.buildStagedIslandAllGatherPlan
    AllGather.emitIntraIslandAllGather AllGather.assignStagingSlots
  simp only [emitAllGatherSourceCopies_reads, assignStagingSlotsFrom_reads]
  rfl

theorem planAllreduce_reads :
    AllReduce.planAllreduce cap (withReduceTaskCtas input ctas) = AllReduce.planAllreduce cap input := by
  unfold AllReduce.planAllreduce AllReduce.buildStagedIslandAllreducePlan AllReduce.assignStagingSlots
  simp only [assignStagingSlotsFrom_reads]
  rfl

theorem planReduceScatter_reads :
    ReduceScatter.planReduceScatter cap (withReduceTaskCtas input ctas) =
      ReduceScatter.planReduceScatter cap input := by
  unfold ReduceScatter.planReduceScatter ReduceScatter.buildStagedIslandReduceScatterPlan
    ReduceScatter.assignStagingSlots
  simp only [assignStagingSlotsFrom_reads]
  rfl

/-- No builder reads the one launch setting that request keys do not compare. -/
theorem buildTransferPlan_reads (collective : Collective) (storage : TransferPlan) :
    buildTransferPlan collective storage (withReduceTaskCtas input ctas) =
      buildTransferPlan collective storage input := by
  cases collective with
  | allReduce =>
    unfold buildTransferPlan AllReduce.buildAllreduceTransferPlan
    rw [planAllreduce_reads]
    rfl
  | reduceScatter =>
    unfold buildTransferPlan ReduceScatter.buildReduceScatterTransferPlan
    rw [planReduceScatter_reads]
    rfl
  | allGather =>
    unfold buildTransferPlan AllGather.buildAllGatherTransferPlan
    rw [planAllGather_reads]
    rfl

end Reads

section Keys

theorem sameLaunchConfig_iff : sameLaunchConfig a b = true ↔
    ({ a with maxCtasPerReduceTask := b.maxCtasPerReduceTask } : LaunchConfig) = b := by
  obtain ⟨threads, maxCtas, perTask, windowChunks, chunkBytes, stageDepth, plan⟩ := a
  obtain ⟨threads', maxCtas', perTask', windowChunks', chunkBytes', stageDepth', plan'⟩ := b
  simp [sameLaunchConfig, and_assoc]

theorem sameRequestKey_iff : sameRequestKey a b = true ↔
    ({ a with config := { a.config with maxCtasPerReduceTask := b.config.maxCtasPerReduceTask } } :
      TransferPlanRequestKey) = b := by
  obtain ⟨collective, worldSize, count, dtypeSize, dtype, op, outOfPlace, config⟩ := a
  obtain ⟨collective', worldSize', count', dtypeSize', dtype', op', outOfPlace', config'⟩ := b
  simp [sameRequestKey, sameLaunchConfig_iff, and_assoc]

/-- Requests of one group with the same key build the same plan. -/
theorem freshPlan_of_sameRequestKey {group : OoGroup} {request other : PlanRequest}
    (same : sameRequestKey (request.key group) (other.key group) = true) :
    request.freshPlan group = other.freshPlan group := by
  have keys := sameRequestKey_iff.mp same
  simp only [PlanRequest.key, makeRequestKey, TransferPlanRequestKey.mk.injEq] at keys
  obtain ⟨collective, _, count, _, dtype, _, outOfPlace, config⟩ := keys
  have placed : request.outOfPlace = other.outOfPlace := outOfPlace
  have launches : request.launch group = other.launch group := by
    unfold PlanRequest.launch
    rw [dtype, placed]
  have input : withReduceTaskCtas (request.buildInput group) other.config.maxCtasPerReduceTask =
      other.buildInput group := by
    unfold PlanRequest.buildInput
    rw [launches, count, ← config]
    rfl
  unfold PlanRequest.freshPlan
  rw [← input, buildTransferPlan_reads, collective]

/-- A plan that every request of the group with the key would build afresh. -/
def PlanAnswers (group : OoGroup) (key : TransferPlanRequestKey) (plan : TransferPlan) : Prop :=
  ∀ request : PlanRequest, sameRequestKey key (request.key group) = true → request.freshPlan group = some plan

theorem planAnswers_fresh {group : OoGroup} {request : PlanRequest} (fresh : request.freshPlan group = some plan) :
    PlanAnswers group (request.key group) plan := by
  intro other same
  rw [← freshPlan_of_sameRequestKey same]
  exact fresh

end Keys

section Builds

/-- Where the plan is built does not matter to a successful build. -/
theorem buildTransferPlan_storage (collective : Collective) (storage other : TransferPlan)
    (input : TransferPlanBuildInput) :
    (buildTransferPlan collective storage input).1 = (buildTransferPlan collective other input).1 ∧
      ((buildTransferPlan collective storage input).1 = true →
        (buildTransferPlan collective storage input).2 = (buildTransferPlan collective other input).2 ∧
          validBuildInput input = true) := by
  have runs : ∀ planner : BuildM Unit, (runPlanner planner storage input).1 = (runPlanner planner other input).1 ∧
      ((runPlanner planner storage input).1 = true →
        (runPlanner planner storage input).2 = (runPlanner planner other input).2 ∧ validBuildInput input = true) := by
    intro planner
    refine ⟨?_, fun built => ⟨?_, (runPlanner_ok built).1⟩⟩
    · unfold runPlanner
      split <;> rfl
    · obtain ⟨valid, _⟩ := runPlanner_ok built
      unfold runPlanner
      rw [valid]
      rfl
  cases collective with
  | allReduce => exact runs _
  | reduceScatter => exact runs _
  | allGather => exact runs _

namespace PlanRequest

variable {group : OoGroup} {request : PlanRequest}

theorem freshPlan_eq_some_iff : request.freshPlan group = some plan ↔
    (buildTransferPlan request.collective {} (request.buildInput group)).1 = true ∧
      (buildTransferPlan request.collective {} (request.buildInput group)).2 = plan := by
  change (if _ then some _ else none) = some plan ↔ _
  rw [Option.ite_none_right_eq_some, Option.some.injEq]

/-- Only valid build inputs build. -/
theorem freshPlan_valid (fresh : request.freshPlan group = some plan) :
    validBuildInput (request.buildInput group) = true :=
  have built := (freshPlan_eq_some_iff.mp fresh).1
  ((buildTransferPlan_storage request.collective {} {} (request.buildInput group)).2 built).2

/-- The builder handed to a cache succeeds exactly on the requests that build afresh, with the same plan. -/
theorem build_cases (group : OoGroup) (request : PlanRequest) (storage : TransferPlan) :
    (request.build group storage).1 = .success ∧ request.freshPlan group = some (request.build group storage).2 ∨
      (request.build group storage).1 = .unsupported ∧ request.freshPlan group = none := by
  have placed := buildTransferPlan_storage request.collective storage {} (request.buildInput group)
  have world : group.numDevices = (request.launch group).worldSize := rfl
  have built : request.build group storage =
      (if (buildTransferPlan request.collective storage (request.buildInput group)).1 = true then .success
        else .unsupported, (buildTransferPlan request.collective storage (request.buildInput group)).2) := by
    unfold build requestedBuild
    rw [if_neg (not_not.mpr world)]
    rfl
  rw [built]
  cases outcome : (buildTransferPlan request.collective storage (request.buildInput group)).1 with
  | false =>
    rw [outcome] at placed
    refine Or.inr ⟨rfl, ?_⟩
    rw [freshPlan, ← placed.1]
    rfl
  | true =>
    rw [outcome] at placed
    exact Or.inl ⟨rfl, freshPlan_eq_some_iff.mpr ⟨placed.1.symm, (placed.2 rfl).1.symm⟩⟩

end PlanRequest

end Builds

end Ooverlap.Distribution
