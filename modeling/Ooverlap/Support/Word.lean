import Mathlib.Data.Int.Init
import Mathlib.Data.Int.ModEq

/-! Fixed-width machine words represented by integers and explicit reductions. -/

namespace Ooverlap.Word

/-- Reduction of an unbounded integer to a two's-complement 32-bit signed word. -/
def toInt32 (value : Int) : Int :=
  Int.bmod value (2 ^ 32)

/-- Reduction of an unbounded integer to a two's-complement 64-bit signed word. -/
def toInt64 (value : Int) : Int :=
  Int.bmod value (2 ^ 64)

/-- Reduction of an unbounded natural number to a 32-bit unsigned word. -/
def toUInt32 (value : Nat) : Nat :=
  value % 2 ^ 32

/-- Reduction of an unbounded natural number to a 64-bit unsigned word. -/
def toUInt64 (value : Nat) : Nat :=
  value % 2 ^ 64

def InInt32 (value : Int) : Prop :=
  -2 ^ 31 ≤ value ∧ value < 2 ^ 31

instance (value : Int) : Decidable (InInt32 value) :=
  inferInstanceAs (Decidable (_ ∧ _))

theorem toInt32_of_inInt32 (bounded : InInt32 value) : toInt32 value = value := by
  unfold InInt32 at bounded
  exact Int.bmod_eq_of_le (by omega) (by omega)

theorem toInt32_natCast {value : Nat} (bounded : value < 2 ^ 31) : toInt32 value = value :=
  toInt32_of_inInt32 ⟨by omega, by omega⟩

/-- A natural number that its word does not change is below the sign bit. -/
theorem toInt32_natCast_iff {value : Nat} : toInt32 value = value ↔ value < 2 ^ 31 := by
  constructor
  · intro same
    have upper := Int.bmod_lt (x := value) (m := 2 ^ 32) (by decide)
    unfold toInt32 at same
    omega
  · exact toInt32_natCast

theorem toInt32_natCast_le (value : Nat) : toInt32 value ≤ value := by
  unfold toInt32
  rw [Int.bmod_def]
  omega

/-- A running sum kept in a word is the word of the sum. -/
theorem toInt32_foldl_add (entries : List Nat) (total : Int) :
    entries.foldl (fun (sum : Int) (entry : Nat) => toInt32 (sum + entry)) (toInt32 total) = toInt32 (total + entries.sum) := by
  induction entries generalizing total with
  | nil => simp
  | cons entry rest ih =>
    have next : toInt32 (toInt32 total + entry) = toInt32 (total + entry) := Int.bmod_add_bmod
    rw [List.foldl_cons, next, ih, List.sum_cons, Nat.cast_add, Int.add_assoc]

theorem toInt64_natCast {value : Nat} (bounded : value < 2 ^ 63) : toInt64 value = value :=
  Int.bmod_eq_of_le (by omega) (by omega)

theorem toInt32_eq_iff : toInt32 left = toInt32 right ↔ (2 ^ 32 : Int) ∣ left - right := by
  unfold toInt32
  constructor
  · intro same
    have related : left % ((2 ^ 32 : Nat) : Int) = right % ((2 ^ 32 : Nat) : Int) := by
      rw [← Int.bmod_emod (x := left), ← Int.bmod_emod (x := right), same]
    have divides := Int.ModEq.dvd (n := ((2 ^ 32 : Nat) : Int)) related.symm
    simpa using divides
  · rintro ⟨factor, difference⟩
    have split : left = right + ((2 ^ 32 : Nat) : Int) * factor := by
      push_cast
      omega
    rw [split]
    exact Int.add_mul_bmod_self_left right (2 ^ 32) factor

theorem toUInt32_lt (value : Nat) : toUInt32 value < 2 ^ 32 :=
  Nat.mod_lt _ (by decide)

theorem toUInt32_of_lt (bounded : value < 2 ^ 32) : toUInt32 value = value :=
  Nat.mod_eq_of_lt bounded

/-- Numbers from a run that does not cross the end of the words are ordered as their words. -/
theorem toUInt32_le_iff (together : toUInt32 first + width ≤ 2 ^ 32) (low : first ≤ left) (high : left < first + width)
    (lowRight : first ≤ right) (highRight : right < first + width) : toUInt32 left ≤ toUInt32 right ↔ left ≤ right := by
  have word : ∀ value, first ≤ value → value < first + width → toUInt32 value = toUInt32 first + (value - first) := by
    intro value after before
    unfold toUInt32 at together ⊢
    omega
  rw [word left low high, word right lowRight highRight]
  omega

theorem toUInt64_of_lt (bounded : value < 2 ^ 64) : toUInt64 value = value :=
  Nat.mod_eq_of_lt bounded

end Ooverlap.Word
