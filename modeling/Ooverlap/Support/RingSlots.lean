import Mathlib.Data.Nat.ModEq

/-! Positions of a ring: indices that share a slot are at least a whole ring apart. -/

namespace Ooverlap.RingSlots

variable {size earlier later first second : Nat}

theorem slot_ne (before : earlier < later) (near : later < earlier + size) :
    later % size ≠ earlier % size := by
  intro same
  have divides := (Nat.modEq_iff_dvd' (Nat.le_of_lt before)).mp same.symm
  have none := Nat.eq_zero_of_dvd_of_lt divides (by omega)
  omega

theorem eq_of_slot (same : first % size = second % size) (above : first < second + size)
    (below : second < first + size) : first = second := by
  rcases Nat.lt_trichotomy first second with before | equal | after
  · exact absurd same.symm (slot_ne before below)
  · exact equal
  · exact absurd same (slot_ne after above)

theorem add_le_of_slot (before : earlier < later) (same : later % size = earlier % size) :
    earlier + size ≤ later := by
  by_contra near
  exact slot_ne before (by omega) same

end Ooverlap.RingSlots
