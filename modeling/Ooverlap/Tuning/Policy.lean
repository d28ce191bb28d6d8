import Mathlib.Algebra.Order.Floor.Defs
import Mathlib.Data.List.Sort
import Mathlib.Data.Rat.Floor
import Ooverlap.Lowering.Agreement

/-! Tuning policies: what the parser accepts, and the caps of the process. -/

namespace Ooverlap.Tuning

open Plan Lowering Word

/-- Parsed JSON: a number is its value as a `double`, and an object has each key once. -/
inductive Json where
  | null
  | bool (value : Bool)
  | number (value : Rat)
  | string (value : String)
  | array (values : List Json)
  | object (members : List (String × Json))

namespace Json

def at? (value : Json) (key : String) : Option Json :=
  match value with
  | .object members => members.lookup key
  | _ => none

def elements? : Json → Option (List Json)
  | .array values => some values
  | _ => none

end Json

structure RankedCtaCandidate where
  maxCtas : Int := 0
  maxCtasPerReduceTask : Int := 0
  deriving DecidableEq, Repr

def validCandidate (candidate : RankedCtaCandidate) : Bool :=
  candidate.maxCtas > 0 && candidate.maxCtas ≤ tmaTwoGpuPeerMaxCtas && candidate.maxCtasPerReduceTask > 0 &&
    candidate.maxCtasPerReduceTask ≤ candidate.maxCtas && candidate.maxCtasPerReduceTask ≤ tmaTwoGpuPeerMaxCtas

/-- A measured message size, with the checks of its parser. -/
structure PolicyPoint where
  collective : Collective
  worldSize : Int
  bytes : Nat
  ranked : List RankedCtaCandidate
  groupNonempty : 0 < worldSize
  bytesNonzero : 0 < bytes
  measured : ranked ≠ []
  valid : ∀ candidate ∈ ranked, validCandidate candidate = true

section Parser

-- `strtod` on a whole text: absent on range errors and infinities.
variable (strtod : String → Option Rat)

def jsonNumberAsDouble : Json → Option Rat
  | .number value => some value
  | .string text => if text.isEmpty then none else strtod text
  | _ => none

def jsonValueAsInt (value : Json) : Option Int :=
  (jsonNumberAsDouble strtod value).bind fun parsed =>
    if parsed < -2 ^ 31 ∨ parsed > 2 ^ 31 - 1 ∨ ⌊parsed⌋ ≠ parsed then none else some ⌊parsed⌋

/-- `SIZE_MAX` is `2 ^ 64` as a `double`, and the conversion back wraps it to zero. -/
def jsonValueAsSize (value : Json) : Option Nat :=
  (jsonNumberAsDouble strtod value).bind fun parsed =>
    if parsed < 0 ∨ parsed > 2 ^ 64 ∨ ⌊parsed⌋ ≠ parsed then none else some (toUInt64 ⌊parsed⌋.toNat)

def jsonGetInt (object : Json) (key : String) : Option Int := (object.at? key).bind (jsonValueAsInt strtod)

def jsonGetSize (object : Json) (key : String) : Option Nat := (object.at? key).bind (jsonValueAsSize strtod)

def jsonGetString (object : Json) (key : String) : Option String :=
  (object.at? key).bind fun value =>
    match value with
    | .string text => some text
    | _ => none

def collectiveNameToPlanFor (name : String) : Option Collective :=
  if name ∈ ["allreduce", "all_reduce", "all-reduce", "ar"] then some .allReduce
  else if name ∈ ["reduce_scatter", "reduce-scatter", "reducescatter", "rs"] then some .reduceScatter
  else if name ∈ ["all_gather", "all-gather", "allgather", "ag"] then some .allGather
  else none

def parseRankedCandidate (value : Json) : Option RankedCtaCandidate :=
  match value with
  | .array [maxCtas, maxCtasPerReduceTask] =>
    (jsonValueAsInt strtod maxCtas).bind fun maxCtas =>
      (jsonValueAsInt strtod maxCtasPerReduceTask).bind fun maxCtasPerReduceTask =>
        if validCandidate { maxCtas, maxCtasPerReduceTask } then some { maxCtas, maxCtasPerReduceTask } else none
  | _ => none

theorem parseRankedCandidate_valid (parsed : parseRankedCandidate strtod value = some candidate) :
    validCandidate candidate = true := by
  unfold parseRankedCandidate at parsed
  split at parsed
  · simp only [Option.bind_eq_some_iff, Option.ite_none_right_eq_some, Option.some.injEq] at parsed
    obtain ⟨_, _, _, _, admitted, rfl⟩ := parsed
    exact admitted
  · cases parsed

/-- The loop over the ranked list: invalid and repeated candidates are passed over. -/
def rankedCandidates (ranked : List RankedCtaCandidate) : List Json → List RankedCtaCandidate
  | [] => ranked
  | value :: rest =>
    match parseRankedCandidate strtod value with
    | none => rankedCandidates ranked rest
    | some candidate =>
      if candidate ∈ ranked then rankedCandidates ranked rest else rankedCandidates (ranked ++ [candidate]) rest

theorem rankedCandidates_valid (values : List Json)
    (before : ∀ candidate ∈ ranked, validCandidate candidate = true) :
    ∀ candidate ∈ rankedCandidates strtod ranked values, validCandidate candidate = true := by
  induction values generalizing ranked with
  | nil => exact before
  | cons value rest ih =>
    unfold rankedCandidates
    cases parsed : parseRankedCandidate strtod value with
    | none => exact ih before
    | some candidate =>
      dsimp only
      split
      · exact ih before
      · apply ih
        intro other member
        rcases List.mem_append.mp member with old | new
        · exact before other old
        · obtain rfl := List.mem_singleton.mp new
          exact parseRankedCandidate_valid strtod parsed

def parsePolicyPoint (value : Json) : Option PolicyPoint :=
  (jsonGetInt strtod value "world_size").bind fun worldSize =>
    ((jsonGetString value "collective").bind collectiveNameToPlanFor).bind fun collective =>
      ((jsonGetSize strtod value "bytes").or (jsonGetSize strtod value "bytes_per_rank")).bind fun bytes =>
        (((value.at? "ranked").or (value.at? "candidates")).bind Json.elements?).bind fun values =>
          let ranked := rankedCandidates strtod [] values
          if accepted : 0 < worldSize ∧ 0 < bytes ∧ ranked ≠ [] then
            some
              { collective, worldSize, bytes, ranked
                groupNonempty := accepted.1
                bytesNonzero := accepted.2.1
                measured := accepted.2.2
                valid := rankedCandidates_valid strtod values (fun _ none => nomatch none) }
          else none

def parsePolicyPoints (values : Json) : List PolicyPoint :=
  match values with
  | .array values => values.filterMap (parsePolicyPoint strtod)
  | _ => (parsePolicyPoint strtod values).toList

/-- The points of a file, absent when it is missing or no JSON; without points the file does not count as loaded. -/
def loadPolicyFile (root : Option Json) : List PolicyPoint :=
  match root with
  | none => []
  | some root => parsePolicyPoints strtod (((root.at? "entries").or (root.at? "results")).getD root)

end Parser

/-- The comparison the points are sorted by. -/
def policyBefore (a b : PolicyPoint) : Prop :=
  if a.worldSize ≠ b.worldSize then a.worldSize < b.worldSize
  else if a.collective ≠ b.collective then a.collective.ctorIdx < b.collective.ctorIdx
  else a.bytes < b.bytes

/-- `std::sort` leaves the order of equal elements open. -/
structure PolicySort where
  sort : List PolicyPoint → List PolicyPoint
  permutes : ∀ points, (sort points).Perm points
  sorted : ∀ points, (sort points).Pairwise fun a b => ¬policyBefore b a

theorem policyBefore_iff (a b : PolicyPoint) :
    policyBefore a b ↔ a.worldSize < b.worldSize ∨ a.worldSize = b.worldSize ∧
      (a.collective.ctorIdx < b.collective.ctorIdx ∨
        a.collective.ctorIdx = b.collective.ctorIdx ∧ a.bytes < b.bytes) := by
  have same : a.collective = b.collective ↔ a.collective.ctorIdx = b.collective.ctorIdx := by
    cases a.collective <;> cases b.collective <;> decide
  unfold policyBefore
  simp only [ne_eq, same]
  split
  · omega
  · split <;> omega

instance (a b : PolicyPoint) : Decidable (policyBefore a b) :=
  decidable_of_iff _ (policyBefore_iff a b).symm

/-- One order that `std::sort` may leave. -/
def insertionPolicySort : PolicySort where
  sort points := points.insertionSort fun a b => ¬policyBefore b a
  permutes := List.perm_insertionSort _
  sorted points := by
    have total : Std.Total fun a b : PolicyPoint => ¬policyBefore b a := by
      constructor
      intro a b
      rw [policyBefore_iff, policyBefore_iff]
      omega
    have trans : IsTrans PolicyPoint fun a b => ¬policyBefore b a := by
      constructor
      intro a b c first second
      rw [policyBefore_iff] at first second ⊢
      omega
    exact List.pairwise_insertionSort _ points

section Caps

abbrev PositiveInt : Type := { value : Int // 0 < value }

/-- `strtol` in base 10 on a whole text; what it finds out of range is refused as well. -/
def strtol (text : List Char) : Option Int :=
  let text := text.dropWhile fun letter => letter.toNat ∈ [32, 9, 10, 11, 12, 13]
  let (sign, digits) := match text with
    | '-' :: digits => ((-1 : Int), digits)
    | '+' :: digits => (1, digits)
    | digits => (1, digits)
  if digits ≠ [] ∧ digits.all Char.isDigit then
    some (sign * digits.foldl (fun value digit => 10 * value + ((digit.toNat - 48 : Nat) : Int)) (0 : Int))
  else none

def parsePositiveIntEnv (text : Option String) : Option PositiveInt :=
  (text.bind fun text => strtol text.toList).bind fun value =>
    if positive : 0 < value ∧ value < 2 ^ 31 then some ⟨value, positive.1⟩ else none

structure RuntimeLaunchCaps where
  maxCtas : Option PositiveInt := none
  maxCtasPerReduceTask : Option PositiveInt := none
  deriving DecidableEq

end Caps

end Ooverlap.Tuning
