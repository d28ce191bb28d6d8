import Ooverlap.Distribution.RequestKey
import Ooverlap.Tuning.NearestPoint

/-! Selection of launch configurations: the policy, the caps of the process, and the caches in front of both. -/

namespace Ooverlap.Tuning

open Plan Lowering

section Config

def defaultConfigForCollective : Collective → LaunchConfig
  | .allReduce => { plan := .allReduce .tmaCopy }
  | .reduceScatter => { plan := .reduceScatter .tmaReduce }
  | .allGather => { plan := .allGather .tmaCopy }

def applyRuntimeCaps (caps : RuntimeLaunchCaps) (config : LaunchConfig) : LaunchConfig :=
  let maxCtas := caps.maxCtas.elim config.maxCtas fun cap => min config.maxCtas (min cap tmaTwoGpuPeerMaxCtas)
  let maxCtasPerReduceTask := caps.maxCtasPerReduceTask.elim config.maxCtasPerReduceTask fun cap =>
    min config.maxCtasPerReduceTask (min cap tmaTwoGpuPeerMaxCtas)
  { config with maxCtas, maxCtasPerReduceTask := min maxCtasPerReduceTask maxCtas }

def fallbackConfig (caps : RuntimeLaunchCaps) (collective : Collective) : LaunchConfig :=
  let config := applyRuntimeCaps caps (defaultConfigForCollective collective)
  if launchConfigValid config then config else defaultConfigForCollective collective

def candidateFitsCaps (caps : RuntimeLaunchCaps) (candidate : RankedCtaCandidate) : Bool :=
  caps.maxCtas.all (candidate.maxCtas ≤ ·.val) &&
    caps.maxCtasPerReduceTask.all (candidate.maxCtasPerReduceTask ≤ ·.val)

def measuredConfig (collective : Collective) (selected : RankedCtaCandidate) : LaunchConfig :=
  { defaultConfigForCollective collective with
    maxCtas := selected.maxCtas
    maxCtasPerReduceTask := selected.maxCtasPerReduceTask }

/-- A measured pair that fits the caps, or else the best one, clamped. -/
def configFromPolicyPoint (caps : RuntimeLaunchCaps) (point : PolicyPoint) : LaunchConfig :=
  applyRuntimeCaps caps <|
    match (point.ranked.find? (candidateFitsCaps caps)).or point.ranked.head? with
    | some selected => measuredConfig point.collective selected
    | none => defaultConfigForCollective point.collective

/-- The part of a selection behind the caches. -/
def selectedConfig (bits : Nat) (caps : RuntimeLaunchCaps) (points : List PolicyPoint) (collective : Collective)
    (worldSize : Int) (bytes : Nat) : LaunchConfig :=
  if points ≠ [] ∧ 0 < worldSize ∧ 0 < bytes then
    match selectNearestPolicyPoint bits points collective worldSize bytes with
    | some point =>
      if launchConfigValid (configFromPolicyPoint caps point) then configFromPolicyPoint caps point
      else fallbackConfig caps collective
    | none => fallbackConfig caps collective
  else fallbackConfig caps collective

end Config

section Sound

variable {caps : RuntimeLaunchCaps} {config : LaunchConfig}

/-- A configuration that kernels may be launched with under the caps. -/
structure LaunchSound (caps : RuntimeLaunchCaps) (collective : Collective) (config : LaunchConfig) : Prop where
  valid : launchConfigValid config = true
  maxCtas : ∀ cap ∈ caps.maxCtas, config.maxCtas ≤ cap.val
  maxCtasPerReduceTask : ∀ cap ∈ caps.maxCtasPerReduceTask, config.maxCtasPerReduceTask ≤ cap.val
  perTask : config.maxCtasPerReduceTask ≤ config.maxCtas
  plans : Distribution.planFor config = collective

/-- A configuration whose plan sets no lower bound for the CTAs. -/
def Unconstrained (config : LaunchConfig) : Prop := config.plan ≠ .allReduce .overlapFastCopyGmem

theorem launchConfigValid_iff (config : LaunchConfig) (unconstrained : Unconstrained config) :
    launchConfigValid config = true ↔ launchConfigValidCommon config = true := by
  have plan : launchConfigValidPlan config = true := by
    unfold launchConfigValidPlan
    split
    · rename_i overlapped
      exact absurd overlapped unconstrained
    · rfl
  rw [launchConfigValid, plan, Bool.and_true]

theorem applyRuntimeCaps_maxCtas_le : (applyRuntimeCaps caps config).maxCtas ≤ config.maxCtas := by
  rw [applyRuntimeCaps]
  cases caps.maxCtas with
  | none => exact le_rfl
  | some cap => exact min_le_left _ _

theorem applyRuntimeCaps_perTask_le :
    (applyRuntimeCaps caps config).maxCtasPerReduceTask ≤ config.maxCtasPerReduceTask := by
  rw [applyRuntimeCaps]
  refine le_trans (min_le_left _ _) ?_
  cases caps.maxCtasPerReduceTask with
  | none => exact le_rfl
  | some cap => exact min_le_left _ _

theorem applyRuntimeCaps_maxCtas_pos (positive : 0 < config.maxCtas) : 0 < (applyRuntimeCaps caps config).maxCtas := by
  rw [applyRuntimeCaps]
  cases caps.maxCtas with
  | none => exact positive
  | some cap => exact lt_min positive (lt_min cap.property (by decide))

theorem applyRuntimeCaps_perTask_pos (positive : 0 < config.maxCtas) (perTask : 0 < config.maxCtasPerReduceTask) :
    0 < (applyRuntimeCaps caps config).maxCtasPerReduceTask := by
  refine lt_min ?_ (applyRuntimeCaps_maxCtas_pos positive)
  cases caps.maxCtasPerReduceTask with
  | none => exact perTask
  | some cap => exact lt_min perTask (lt_min cap.property (by decide))

/-- Capping a valid configuration gives a sound one: every cap is positive, and the inner limit follows the outer. -/
theorem applyRuntimeCaps_sound (caps : RuntimeLaunchCaps) (unconstrained : Unconstrained config)
    (valid : launchConfigValid config = true) :
    LaunchSound caps (Distribution.planFor config) (applyRuntimeCaps caps config) where
  valid := by
    rw [launchConfigValid_iff _ unconstrained, launchConfigValidCommon_iff] at valid
    obtain ⟨threads, ctas, perTask, rest⟩ := valid
    rw [launchConfigValid_iff (applyRuntimeCaps caps config) unconstrained, launchConfigValidCommon_iff]
    exact ⟨threads, ⟨applyRuntimeCaps_maxCtas_pos ctas.1, le_trans applyRuntimeCaps_maxCtas_le ctas.2⟩,
      ⟨applyRuntimeCaps_perTask_pos ctas.1 perTask.1, le_trans applyRuntimeCaps_perTask_le perTask.2⟩, rest⟩
  maxCtas cap member := by
    rw [applyRuntimeCaps, Option.mem_def.mp member]
    exact le_trans (min_le_right _ _) (min_le_left _ _)
  maxCtasPerReduceTask cap member := by
    rw [applyRuntimeCaps, Option.mem_def.mp member]
    exact le_trans (min_le_left _ _) (le_trans (min_le_right _ _) (min_le_left _ _))
  perTask := min_le_right _ _
  plans := rfl

theorem defaultConfig_unconstrained (collective : Collective) : Unconstrained (defaultConfigForCollective collective) := by
  cases collective <;> exact nofun

theorem defaultConfig_valid (collective : Collective) : launchConfigValid (defaultConfigForCollective collective) = true := by
  cases collective <;> decide

theorem defaultConfig_plans (collective : Collective) :
    Distribution.planFor (defaultConfigForCollective collective) = collective := by
  cases collective <;> rfl

theorem fallbackConfig_sound (caps : RuntimeLaunchCaps) (collective : Collective) :
    LaunchSound caps collective (fallbackConfig caps collective) := by
  have sound := applyRuntimeCaps_sound caps (defaultConfig_unconstrained collective)
    (defaultConfig_valid collective)
  rw [defaultConfig_plans] at sound
  rw [fallbackConfig]
  rwa [if_pos sound.valid]

/-- The checks of the parser are those of a launch configuration, and stricter. -/
theorem measuredConfig_valid (admitted : validCandidate selected = true) :
    launchConfigValid (measuredConfig collective selected) = true := by
  simp only [validCandidate, Bool.and_eq_true, decide_eq_true_eq] at admitted
  obtain ⟨⟨⟨⟨positive, atMost⟩, perTask⟩, _⟩, perTaskAtMost⟩ := admitted
  have unconstrained := defaultConfig_unconstrained collective
  have valid := defaultConfig_valid collective
  rw [launchConfigValid_iff _ unconstrained, launchConfigValidCommon_iff] at valid
  rw [launchConfigValid_iff (measuredConfig collective selected) unconstrained, launchConfigValidCommon_iff]
  obtain ⟨threads, _, _, rest⟩ := valid
  exact ⟨threads, ⟨positive, atMost⟩, ⟨perTask, perTaskAtMost⟩, rest⟩

theorem configFromPolicyPoint_sound (caps : RuntimeLaunchCaps) (point : PolicyPoint) :
    LaunchSound caps point.collective (configFromPolicyPoint caps point) := by
  rw [configFromPolicyPoint]
  split
  · rename_i selected found
    have member : selected ∈ point.ranked := by
      rcases Option.or_eq_some_iff.mp found with fitting | ⟨_, first⟩
      · exact List.mem_of_find?_eq_some fitting
      · exact List.mem_of_head? first
    have sound := @applyRuntimeCaps_sound (measuredConfig point.collective selected) caps
      (defaultConfig_unconstrained point.collective) (measuredConfig_valid (point.valid selected member))
    exact { sound with plans := defaultConfig_plans point.collective }
  · have sound := applyRuntimeCaps_sound caps (defaultConfig_unconstrained point.collective)
      (defaultConfig_valid point.collective)
    exact { sound with plans := defaultConfig_plans point.collective }

theorem selectedConfig_sound (bits : Nat) (caps : RuntimeLaunchCaps) (points : List PolicyPoint) (collective : Collective)
    (worldSize : Int) (bytes : Nat) :
    LaunchSound caps collective (selectedConfig bits caps points collective worldSize bytes) := by
  unfold selectedConfig
  split
  · split
    · rename_i point found
      have sound := configFromPolicyPoint_sound caps point
      rw [(nearestTo_of_select found).matching.1] at sound
      rwa [if_pos sound.valid]
    · exact fallbackConfig_sound caps collective
  · exact fallbackConfig_sound caps collective

end Sound

section Process

inductive TuningPreference where
  | bestPerformance
  | bestEfficiency
  deriving DecidableEq, Repr

structure SelectionRequest where
  collective : Collective
  worldSize : Int
  bytes : Nat
  preference : TuningPreference
  deriving DecidableEq, Repr

structure SelectionCacheKey where
  request : SelectionRequest
  caps : RuntimeLaunchCaps
  deriving DecidableEq

/-- Files and variables that a process reads once, with what its toolchain fixes. -/
structure TuningEnvironment where
  tuningPolicy : Option Json
  defaultPolicy : Option Json
  maxCtas : Option String
  maxCtasPerReduceTask : Option String
  strtod : String → Option Rat
  policySort : PolicySort
  longDoubleBits : Nat

namespace TuningEnvironment

variable (env : TuningEnvironment)

def runtimeLaunchCaps : RuntimeLaunchCaps where
  maxCtas := parsePositiveIntEnv env.maxCtas
  maxCtasPerReduceTask := parsePositiveIntEnv env.maxCtasPerReduceTask

/-- The default file is read where the named one gives no points. -/
def ensurePolicyLoaded : List PolicyPoint :=
  let points := loadPolicyFile env.strtod env.tuningPolicy
  env.policySort.sort (if points.isEmpty then loadPolicyFile env.strtod env.defaultPolicy else points)

def selected (request : SelectionRequest) : LaunchConfig :=
  selectedConfig env.longDoubleBits env.runtimeLaunchCaps env.ensurePolicyLoaded request.collective request.worldSize
    request.bytes

end TuningEnvironment

/-- The policy once it is loaded, the cache under the mutex, and the last selection of each thread. -/
structure TuningProcess (Thread : Type) where
  policy : Option (List PolicyPoint) := none
  selectionCache : SelectionCacheKey → Option LaunchConfig := fun _ => none
  localCached : Thread → Option (SelectionCacheKey × LaunchConfig) := fun _ => none

variable {Thread : Type} [DecidableEq Thread]

def selectLaunchConfigForCollective (env : TuningEnvironment) (process : TuningProcess Thread) (thread : Thread)
    (request : SelectionRequest) : TuningProcess Thread × LaunchConfig :=
  let caps := env.runtimeLaunchCaps
  let key : SelectionCacheKey := { request, caps }
  match (process.localCached thread).filter fun cached => cached.1 = key with
  | some cached => (process, cached.2)
  | none =>
    match process.selectionCache key with
    | some cached =>
      ({ process with localCached := Function.update process.localCached thread (some (key, cached)) }, cached)
    | none =>
      let points := process.policy.getD env.ensurePolicyLoaded
      let selected := selectedConfig env.longDoubleBits caps points request.collective request.worldSize request.bytes
      ({ policy := some points
         selectionCache := Function.update process.selectionCache key (some selected)
         localCached := Function.update process.localCached thread (some (key, selected)) }, selected)

/-- The selections of all threads, in the order in which they take effect. -/
def selections (env : TuningEnvironment) : TuningProcess Thread → List (Thread × SelectionRequest) →
    List (SelectionRequest × LaunchConfig)
  | _, [] => []
  | process, (thread, request) :: rest =>
    let (process, config) := selectLaunchConfigForCollective env process thread request
    (request, config) :: selections env process rest

/-- Whatever is cached is what a fresh selection gives. -/
structure Cached (env : TuningEnvironment) (process : TuningProcess Thread) : Prop where
  policy : ∀ points ∈ process.policy, points = env.ensurePolicyLoaded
  shared : ∀ request, ∀ config ∈ process.selectionCache { request, caps := env.runtimeLaunchCaps },
    config = env.selected request
  threads : ∀ thread request config,
    process.localCached thread = some ({ request, caps := env.runtimeLaunchCaps }, config) →
      config = env.selected request

variable {env : TuningEnvironment} {process : TuningProcess Thread}

omit [DecidableEq Thread] in
theorem cached_start (env : TuningEnvironment) : Cached env ({} : TuningProcess Thread) where
  policy := nofun
  shared := nofun
  threads := nofun

/-- A thread that keeps its selection keeps the invariant. -/
theorem Cached.keepLocal (cached : Cached env process) (thread : Thread) (request : SelectionRequest) :
    Cached env { process with
      localCached := Function.update process.localCached thread
        (some ({ request, caps := env.runtimeLaunchCaps }, env.selected request)) } where
  policy := cached.policy
  shared := cached.shared
  threads other request' config found := by
    by_cases same : other = thread
    · subst same
      simp only [Function.update_self, Option.some.injEq, Prod.mk.injEq, SelectionCacheKey.mk.injEq, and_true] at found
      rw [← found.2, found.1]
    · simp only [Function.update_of_ne same] at found
      exact cached.threads other request' config found

theorem Cached.select (cached : Cached env process) (thread : Thread) (request : SelectionRequest) :
    (selectLaunchConfigForCollective env process thread request).2 = env.selected request ∧
      Cached env (selectLaunchConfigForCollective env process thread request).1 := by
  unfold selectLaunchConfigForCollective
  dsimp only
  split
  · rename_i entry found
    obtain ⟨found, same⟩ := Option.filter_eq_some_iff.mp found
    obtain ⟨key, config⟩ := entry
    obtain rfl := of_decide_eq_true same
    exact ⟨cached.threads thread request config found, cached⟩
  · split
    · rename_i config found
      obtain rfl := cached.shared request config found
      exact ⟨rfl, cached.keepLocal thread request⟩
    · have points : process.policy.getD env.ensurePolicyLoaded = env.ensurePolicyLoaded := by
        cases loaded : process.policy with
        | none => rfl
        | some points => exact cached.policy points loaded
      rw [points]
      have stored : Cached env
          { process with
            policy := some env.ensurePolicyLoaded
            selectionCache := Function.update process.selectionCache { request, caps := env.runtimeLaunchCaps }
              (some (env.selected request)) } := by
        refine ⟨fun points loaded => (Option.some.inj loaded).symm, fun request' config found => ?_, cached.threads⟩
        by_cases same : request' = request
        · subst same
          simp only [Function.update_self] at found
          exact (Option.some.inj found).symm
        · have apart : ({ request := request', caps := env.runtimeLaunchCaps } : SelectionCacheKey) ≠
              { request, caps := env.runtimeLaunchCaps } := by simpa using same
          simp only [Function.update_of_ne apart] at found
          exact cached.shared request' config found
      exact ⟨rfl, stored.keepLocal thread request⟩

/-- The caches are invisible: every selection of every thread is the one of the loaded policy. -/
theorem selections_eq (cached : Cached env process) (requests : List (Thread × SelectionRequest)) :
    selections env process requests = requests.map fun entry => (entry.2, env.selected entry.2) := by
  induction requests generalizing process with
  | nil => rfl
  | cons entry rest ih =>
    obtain ⟨thread, request⟩ := entry
    obtain ⟨result, kept⟩ := cached.select thread request
    rw [selections]
    dsimp only
    rw [List.map_cons, ih kept, result]

/-- Whatever the policy files hold and the variables say, all configurations that a process selects are sound. -/
theorem selections_sound (env : TuningEnvironment) (requests : List (Thread × SelectionRequest)) :
    ∀ entry ∈ selections env {} requests, LaunchSound env.runtimeLaunchCaps entry.1.collective entry.2 := by
  intro entry member
  rw [selections_eq (cached_start env)] at member
  obtain ⟨⟨_, request⟩, _, rfl⟩ := List.mem_map.mp member
  exact selectedConfig_sound _ _ _ _ _ _

/-- Two message sizes of an all-reduce, measured on two ranks. -/
def measuredPolicy : Json :=
  .object [("entries", .array
    [.object [("collective", .string "allreduce"), ("world_size", .number 2), ("bytes", .number 4096),
        ("ranked", .array [.array [.number 16, .number 8], .array [.number 4, .number 2]])],
      .object [("collective", .string "allreduce"), ("world_size", .number 2), ("bytes", .number 65536),
        ("ranked", .array [.array [.number 2, .number 1]])]])]

/-- The CTAs are capped at four. -/
def measuredEnvironment : TuningEnvironment where
  tuningPolicy := some measuredPolicy
  defaultPolicy := none
  maxCtas := some "4"
  maxCtasPerReduceTask := none
  strtod _ := none
  policySort := insertionPolicySort
  longDoubleBits := longDoubleBits

/-- The nearer point's best pair does not fit the cap; its second one does and is taken. -/
theorem selections_sound_measured :
    ∃ config, config.maxCtas = 4 ∧ config.maxCtasPerReduceTask = 2 ∧
      LaunchSound measuredEnvironment.runtimeLaunchCaps .allReduce config ∧
      (⟨.allReduce, 2, 5000, .bestPerformance⟩, config) ∈
        selections measuredEnvironment {} [(0, ⟨.allReduce, 2, 5000, .bestPerformance⟩)] :=
  ⟨measuredEnvironment.selected ⟨.allReduce, 2, 5000, .bestPerformance⟩, by decide +kernel, by decide +kernel,
    selections_sound measuredEnvironment [((0 : Nat), ⟨.allReduce, 2, 5000, .bestPerformance⟩)] _ List.mem_cons_self,
    List.mem_cons_self⟩

end Process

end Ooverlap.Tuning
