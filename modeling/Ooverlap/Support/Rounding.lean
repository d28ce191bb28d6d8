import Mathlib.Algebra.Order.Group.Nat
import Mathlib.Data.Nat.Log
import Mathlib.Tactic.Ring

/-! Quotients of natural numbers rounded to the nearest, ties to even, at a fixed number of significant bits. -/

namespace Ooverlap.Rounding

/-- The integer nearest to a fraction, the even one of two equally near. -/
def nearestEven (num den : Nat) : Nat :=
  if 2 * (num % den) < den then num / den
  else if den < 2 * (num % den) then num / den + 1
  else num / den + num / den % 2

section Nearest

variable {num den num' den' : Nat}

theorem div_le_nearestEven : num / den ≤ nearestEven num den := by
  unfold nearestEven
  split
  · exact le_rfl
  · split <;> omega

theorem nearestEven_le_succ : nearestEven num den ≤ num / den + 1 := by
  unfold nearestEven
  split
  · omega
  · split <;> omega

theorem nearestEven_le (positive : 0 < den) (below : num ≤ bound * den) : nearestEven num den ≤ bound := by
  rcases Nat.lt_or_ge (num / den) bound with under | least
  · exact Nat.le_trans nearestEven_le_succ under
  · have exact : num = bound * den := Nat.le_antisymm below ((Nat.le_div_iff_mul_le positive).mp least)
    rw [nearestEven, exact, Nat.mul_mod_left, Nat.mul_div_cancel bound positive, if_pos (by omega)]

theorem le_nearestEven (positive : 0 < den) (least : bound * den ≤ num) : bound ≤ nearestEven num den :=
  Nat.le_trans ((Nat.le_div_iff_mul_le positive).mpr least) div_le_nearestEven

/-- A larger fraction never has a smaller nearest integer. -/
theorem nearestEven_mono (positive : 0 < den) (positive' : 0 < den') (le : num * den' ≤ num' * den) :
    nearestEven num den ≤ nearestEven num' den' := by
  have quotients : num / den ≤ num' / den' := by
    rw [Nat.le_div_iff_mul_le positive']
    refine Nat.le_of_mul_le_mul_right (c := den) ?_ positive
    calc num / den * den' * den = num / den * den * den' := by ring
      _ ≤ num * den' := Nat.mul_le_mul_right den' (Nat.div_mul_le_self num den)
      _ ≤ num' * den := le
  rcases Nat.lt_or_eq_of_le quotients with apart | same
  · exact Nat.le_trans nearestEven_le_succ (Nat.le_trans apart div_le_nearestEven)
  · have remainders : num % den * den' ≤ num' % den' * den := by
      have whole := Nat.div_add_mod num den
      have whole' := Nat.div_add_mod num' den'
      rw [← same] at whole'
      have products : (den * (num / den) + num % den) * den' ≤ (den' * (num / den) + num' % den') * den := by
        rwa [whole, whole']
      have common : den * (num / den) * den' = den' * (num / den) * den := by ring
      rw [Nat.add_mul, Nat.add_mul, common] at products
      omega
    unfold nearestEven
    rw [← same]
    have halves : num % den * 2 * den' ≤ num' % den' * 2 * den := by
      calc num % den * 2 * den' = num % den * den' * 2 := by ring
        _ ≤ num' % den' * den * 2 := Nat.mul_le_mul_right 2 remainders
        _ = num' % den' * 2 * den := by ring
    by_cases low : 2 * (num % den) < den
    · rw [if_pos low]
      split
      · exact le_rfl
      · split <;> omega
    · have notLow : ¬2 * (num' % den') < den' := by
        intro low'
        have above : den * den' ≤ num % den * 2 * den' := Nat.mul_le_mul_right den' (by omega)
        have under : num' % den' * 2 * den < den' * den := Nat.mul_lt_mul_of_pos_right (by omega) positive
        rw [Nat.mul_comm den' den] at under
        omega
      rw [if_neg low, if_neg notLow]
      by_cases high : den < 2 * (num % den)
      · have high' : den' < 2 * (num' % den') := by
          by_contra reached
          have above : den * den' < num % den * 2 * den' := Nat.mul_lt_mul_of_pos_right (by omega) positive'
          have under : num' % den' * 2 * den ≤ den' * den := Nat.mul_le_mul_right den (by omega)
          rw [Nat.mul_comm den' den] at under
          omega
        rw [if_pos high, if_pos high']
      · rw [if_neg high]
        split <;> omega

end Nearest

section Significand

variable {bits num den num' den' : Nat}

/-- Binary exponent of a fraction that is at least one. -/
def exponent (num den : Nat) : Nat := Nat.log 2 (num / den)

/-- A fraction that is at least one with `bits + 1` significant bits, in units of `2 ^ -bits`. -/
def significand (bits num den : Nat) : Nat :=
  nearestEven (num * 2 ^ bits) (den * 2 ^ exponent num den) * 2 ^ exponent num den

theorem exponent_le (positive : 0 < den) (least : den ≤ num) : den * 2 ^ exponent num den ≤ num := by
  have quotient : num / den ≠ 0 := Nat.div_ne_zero_iff.mpr ⟨positive.ne', least⟩
  rw [Nat.mul_comm]
  exact (Nat.le_div_iff_mul_le positive).mp (Nat.pow_log_le_self 2 quotient)

theorem lt_exponent (positive : 0 < den) : num < den * 2 ^ (exponent num den + 1) := by
  rw [Nat.mul_comm]
  exact (Nat.div_lt_iff_lt_mul positive).mp (Nat.lt_pow_succ_log_self Nat.one_lt_two (num / den))

theorem exponent_mono (positive : 0 < den) (positive' : 0 < den') (le : num * den' ≤ num' * den) :
    exponent num den ≤ exponent num' den' := by
  refine Nat.log_mono_right ?_
  rw [Nat.le_div_iff_mul_le positive']
  refine Nat.le_of_mul_le_mul_right (c := den) ?_ positive
  calc num / den * den' * den = num / den * den * den' := by ring
    _ ≤ num * den' := Nat.mul_le_mul_right den' (Nat.div_mul_le_self num den)
    _ ≤ num' * den := le

theorem significand_le (positive : 0 < den) : significand bits num den ≤ 2 ^ (exponent num den + 1) * 2 ^ bits := by
  have scaled : 0 < den * 2 ^ exponent num den := Nat.mul_pos positive (Nat.two_pow_pos _)
  have near : nearestEven (num * 2 ^ bits) (den * 2 ^ exponent num den) ≤ 2 * 2 ^ bits := by
    refine nearestEven_le scaled ?_
    calc num * 2 ^ bits ≤ den * 2 ^ (exponent num den + 1) * 2 ^ bits :=
          Nat.mul_le_mul_right _ (lt_exponent positive).le
      _ = 2 * 2 ^ bits * (den * 2 ^ exponent num den) := by ring
  calc significand bits num den ≤ 2 * 2 ^ bits * 2 ^ exponent num den := Nat.mul_le_mul_right _ near
    _ = 2 ^ (exponent num den + 1) * 2 ^ bits := by ring

theorem le_significand (positive : 0 < den) (least : den ≤ num) :
    2 ^ exponent num den * 2 ^ bits ≤ significand bits num den := by
  have scaled : 0 < den * 2 ^ exponent num den := Nat.mul_pos positive (Nat.two_pow_pos _)
  rw [Nat.mul_comm, significand]
  refine Nat.mul_le_mul_right _ (le_nearestEven scaled ?_)
  rw [Nat.mul_comm]
  exact Nat.mul_le_mul_right _ (exponent_le positive least)

/-- Rounding to a number of bits keeps the order. -/
theorem significand_mono (positive : 0 < den) (positive' : 0 < den') (least' : den' ≤ num')
    (le : num * den' ≤ num' * den) : significand bits num den ≤ significand bits num' den' := by
  rcases Nat.lt_or_eq_of_le (exponent_mono positive positive' le) with apart | same
  · calc significand bits num den ≤ 2 ^ (exponent num den + 1) * 2 ^ bits := significand_le positive
      _ ≤ 2 ^ exponent num' den' * 2 ^ bits :=
        Nat.mul_le_mul_right _ (Nat.pow_le_pow_right Nat.two_pos apart)
      _ ≤ significand bits num' den' := le_significand positive' least'
  · unfold significand
    rw [← same]
    refine Nat.mul_le_mul_right _ (nearestEven_mono (Nat.mul_pos positive (Nat.two_pow_pos _))
      (Nat.mul_pos positive' (Nat.two_pow_pos _)) ?_)
    calc num * 2 ^ bits * (den' * 2 ^ exponent num den) = num * den' * (2 ^ bits * 2 ^ exponent num den) := by ring
      _ ≤ num' * den * (2 ^ bits * 2 ^ exponent num den) := Nat.mul_le_mul_right _ le
      _ = num' * 2 ^ bits * (den * 2 ^ exponent num den) := by ring

end Significand

end Ooverlap.Rounding
