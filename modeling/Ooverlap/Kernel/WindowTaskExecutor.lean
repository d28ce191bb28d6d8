import Ooverlap.Lowering.Refines
import Ooverlap.Support.CounterBarrier

/-! The CTAs of one launch execute their stripes; barrier tasks meet on one device counter. -/

namespace Ooverlap.Kernel

open Lowering CounterBarrier Plan Word

/-- What a CTA does for a data task: it starts its windows one after the other, then waits for all of them. -/
inductive WindowEvent where
  | start (index : Nat) (window : Int)
  | complete (index : Nat) (windows : WindowRange)
  deriving DecidableEq

def windowStarts (index : Nat) (windows : WindowRange) : List WindowEvent :=
  (List.range (windows.endWindow - windows.beginWindow).toNat).map fun step : Nat =>
    .start index (windows.beginWindow + step)

/-- Code of one window task; a barrier task arrives at the counter and waits for its target. -/
def executeWindowTask (index : Nat) (task : WindowTask) : List (Item WindowEvent) :=
  match task.op, task.payload with
  | .none, _ => []
  | .barrier, .barrierTarget target => [.barrier target]
  | _, _ =>
    (windowStarts index (windowTaskWindows task)).map .work ++ [.work (.complete index (windowTaskWindows task))]

/-- Code of a stripe, task after task. -/
def stripeCode (stripe : List (Nat × WindowTask)) : List (Item WindowEvent) :=
  stripe.flatMap fun entry => executeWindowTask entry.1 entry.2

/-- The launched CTAs with their code; a load returns the counter's 32 bits. -/
def ctaSystem {Work : Type*} (ctaCount : Nat) (code : Nat → List (Item Work)) : System Nat Work where
  agents := Finset.range ctaCount
  items := code
  view := toUInt32

/-- A launch of a packed plan. -/
def launchSystem (plan : WindowTaskExecutorPlan) (ctaCount : Nat) : System Nat WindowEvent :=
  ctaSystem ctaCount fun ctaIdx => stripeCode (executeWindowTaskStripe plan ctaIdx)

section Counter

variable {Work : Type*} {ctaCount base : Nat} {code : Nat → List (Item Work)} {rounds : List Nat}

/-- Targets that count whole rounds of arrivals from the start of the launch on. -/
def CountsRounds (ctaCount base : Nat) (rounds : List Nat) : Prop :=
  ∀ round target, rounds[round]? = some target → target = toUInt32 (base + ctaCount * (round + 1))

/-- While the counter cannot wrap, its loads show exactly which rounds have arrived. -/
theorem faithful_small (counts : CountsRounds ctaCount base rounds)
    (small : base + ctaCount * rounds.length < 2 ^ 32) : Faithful (ctaSystem ctaCount code) base rounds := by
  intro round target found count lower upper reachable
  have within := (List.getElem?_eq_some_iff.mp found).1
  have card : (ctaSystem ctaCount code).agents.card = ctaCount := Finset.card_range ctaCount
  rw [card] at lower upper reachable ⊢
  have counted : ctaCount * (round + 1) ≤ ctaCount * rounds.length := Nat.mul_le_mul_left _ within
  rw [counts round target found]
  change (base + ctaCount * (round + 1)) % 2 ^ 32 ≤ count % 2 ^ 32 ↔ _
  rw [Nat.mod_eq_of_lt (by omega), Nat.mod_eq_of_lt (by omega)]

end Counter

section Stripes

variable {stripe : List (Nat × WindowTask)}

/-- Index and target of a barrier task. -/
def barrierEntry (entry : Nat × WindowTask) : Option (Nat × Nat) :=
  match entry.2.op, entry.2.payload with
  | .barrier, .barrierTarget target => some (entry.1, target)
  | _, _ => none

def stripeBarriers (stripe : List (Nat × WindowTask)) : List (Nat × Nat) :=
  stripe.filterMap barrierEntry

theorem executeWindowTask_targets (index : Nat) (task : WindowTask) :
    targets (executeWindowTask index task) = ((barrierEntry (index, task)).map Prod.snd).toList := by
  have data : ∀ events : List WindowEvent, targets (events.map Item.work) = [] := by
    intro events
    induction events with
    | nil => rfl
    | cons event rest ih => exact ih
  unfold executeWindowTask barrierEntry
  dsimp only
  split
  · rename_i idle
    rw [idle]
    rfl
  · rename_i barrier payload
    rw [barrier, payload]
    rfl
  · rename_i notNone notBarrier
    have noEntry : (match task.op, task.payload with
        | .barrier, .barrierTarget target => some (index, target)
        | _, _ => none) = none := by
      split
      · rename_i barrier payload
        exact absurd payload (notBarrier _ barrier)
      · rfl
    rw [noEntry]
    change targets _ = []
    rw [targets, List.filterMap_append]
    exact List.append_eq_nil_iff.mpr ⟨data _, rfl⟩

theorem stripeCode_targets (stripe : List (Nat × WindowTask)) :
    targets (stripeCode stripe) = (stripeBarriers stripe).map Prod.snd := by
  induction stripe with
  | nil => rfl
  | cons entry rest ih =>
    rw [stripeCode, List.flatMap_cons, targets, List.filterMap_append]
    change targets (executeWindowTask entry.1 entry.2) ++ targets (stripeCode rest) = _
    rw [executeWindowTask_targets, ih, stripeBarriers, stripeBarriers, List.filterMap_cons]
    cases barrierEntry entry <;> rfl

theorem barrierEntry_index (found : barrierEntry entry = some barrier) : barrier.1 = entry.1 := by
  unfold barrierEntry at found
  split at found
  · cases found
    rfl
  · cases found

theorem stripeBarriers_ordered (ordered : (stripe.map Prod.fst).Pairwise (· < ·)) :
    ((stripeBarriers stripe).map Prod.fst).Pairwise (· < ·) := by
  rw [List.pairwise_map] at ordered ⊢
  refine ordered.filterMap barrierEntry ?_
  intro first second before barrier found other foundOther
  rw [barrierEntry_index found, barrierEntry_index foundOther]
  exact before

end Stripes

end Ooverlap.Kernel
