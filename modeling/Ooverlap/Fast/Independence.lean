import Ooverlap.Fast.Stages

/-! Which actions of the fast kernels may be exchanged. -/

namespace Ooverlap.Fast

open Interleaving Tables

variable {Value : Type*}

/-- Elements of two collectives can be merged into one place in either order. -/
def Exchanges (history : List (Collective Value)) (first second : Nat) : Prop :=
  ∀ old new other, mergeOf history first (mergeOf history second old new) other =
    mergeOf history second (mergeOf history first old other) new

/-- Neither action touches what the other reads or writes, or both merge into one place in either order. -/
def Independent (history : List (Collective Value)) : Action → Action → Prop
  | .load block element _, .load other place _ => block = other → element ≠ place
  | .load block element position, .send other place rank target =>
    (block.rank = rank → position ≠ target) ∧ (block = other → element ≠ place)
  | .send other place rank target, .load block element position =>
    (block.rank = rank → position ≠ target) ∧ (block = other → element ≠ place)
  | .send block _ rank position, .send other _ place target =>
    rank = place → position = target → Exchanges history block.launch other.launch
  | .publish owner waiter _, .publish other place _ => owner = other → waiter ≠ place
  | _, _ => True

theorem Independent.symm {history : List (Collective Value)} {action other : Action}
    (free : Independent history action other) : Independent history other action := by
  cases action <;> cases other <;> try exact trivial
  case load.load => exact fun same apart => free same.symm apart.symm
  case load.send => exact free
  case publish.publish => exact fun same apart => free same.symm apart.symm
  case send.load => exact free
  case send.send =>
    intro rank position old new other
    exact (free rank.symm position.symm old other new).symm

/-- Raising two flags of a table, in either order. -/
theorem raise_comm {Flag : Type*} [DecidableEq Flag] (flags : Flag → Bool) (first second : Flag) :
    Function.update (Function.update flags first true) second true =
      Function.update (Function.update flags second true) first true := by
  by_cases same : first = second
  · rw [same]
  · exact Function.update_comm same _ _ _

theorem effect_comm {history : List (Collective Value)} {action other : Action}
    (free : Independent history action other) (devices : Devices Value) :
    effect history action (effect history other devices) = effect history other (effect history action devices) := by
  cases action <;> cases other <;> try rfl
  case issue.issue => simp only [effect, raise_comm]
  case complete.complete => simp only [effect, raise_comm]
  case arrive.arrive rank scratch other third =>
    by_cases same : other = rank ∧ third = scratch
    · rw [same.1, same.2]
    · have apart : other = rank → third ≠ scratch := fun line column => same ⟨line, column⟩
      have back : rank = other → scratch ≠ third := fun line column => same ⟨line.symm, column.symm⟩
      simp only [effect, store_of_ne apart, store_of_ne back, store_comm apart]
  case exit.exit rank other =>
    by_cases same : rank = other
    · rw [same]
    · simp only [effect, Function.update_of_ne same, Function.update_of_ne (Ne.symm same), Function.update_comm same]
  case publish.publish owner waiter value other place next =>
    simp only [effect, store_comm free]
  case load.load block element position other place spot =>
    simp only [effect, store_comm free]
  case load.send block element position other place rank target =>
    have kept : block = other → element ≠ place := free.2
    simp only [effect, store_of_ne free.1, store_of_ne fun same : other = block => (kept same.symm).symm]
  case send.load other place rank target block element position =>
    have kept : block = other → element ≠ place := free.2
    simp only [effect, store_of_ne free.1, store_of_ne fun same : other = block => (kept same.symm).symm]
  case send.send block element rank position other place third target =>
    by_cases same : rank = third ∧ position = target
    · obtain ⟨rfl, rfl⟩ := same
      simp only [effect, store_self, store_store, free rfl rfl _ _ _]
    · have apart : rank = third → position ≠ target := fun line column => same ⟨line, column⟩
      have back : third = rank → target ≠ position := fun line column => same ⟨line.symm, column.symm⟩
      simp only [effect, store_of_ne apart, store_of_ne back, store_comm apart]

end Ooverlap.Fast
