import Ooverlap.Api.Objects
import Ooverlap.Plan.Utils

/-! The partition of a tensor among ranks: its copies in the public interface, the planner and the fast kernels. -/

namespace Ooverlap.Api

open Plan Word

section Copies

/-- What a call leaves behind: a refusal, a division by zero, or the two outputs. -/
inductive Partition where
  | rejected
  | dividesByZero
  | slice (elementOffset count : Nat)
  deriving DecidableEq, Repr

/-- `static_cast<size_t>` of an `int`. -/
def toSize (value : Int) : Nat := (value % 2 ^ 64).toNat

/-- `rank_partition`, with both outputs given. -/
def rankPartition (count : Nat) (rank worldSize : Int) : Partition :=
  if worldSize ≤ 0 ∨ rank < 0 ∨ rank ≥ worldSize then .rejected
  else
    let world := toSize worldSize
    let r := toSize rank
    let base := count / world
    let rem := count % world
    .slice (toUInt64 (r * base + if r < rem then r else rem)) (toUInt64 (base + if r < rem then 1 else 0))

/-- `fill_rank_partition`, with both outputs given; neither the rank nor the world size is checked. -/
def fillRankPartition (rank worldSize : Int) (count : Nat) : Partition :=
  let world := toSize worldSize
  let r := toSize rank
  if world = 0 then .dividesByZero
  else
    let base := count / world
    let rem := count % world
    .slice (toUInt64 (r * base + if r < rem then r else rem)) (toUInt64 (base + if r < rem then 1 else 0))

def ooRankPartition (rank worldSize : Int) (count : Nat) : Partition := fillRankPartition rank worldSize count

/-- `compute_rank_partition` of the fast reduce-scatter, and of the fast all-gather. -/
def computeRankPartition (count : Nat) (rank worldSize : Int) : Partition :=
  if rank < 0 ∨ rank ≥ worldSize ∨ worldSize ≤ 0 then .rejected
  else
    let world := toSize worldSize
    let r := toSize rank
    let base := count / world
    let rem := count - base * world
    .slice (toUInt64 (r * base + if r < rem then r else rem)) (toUInt64 (base + if r < rem then 1 else 0))

end Copies

section Group

variable {rank worldSize : Int} {count : Nat}

/-- The arguments a group passes. -/
structure InGroup (rank worldSize : Int) : Prop where
  nonneg : 0 ≤ rank
  below : rank < worldSize

def offset (worldSize rank : Int) (count : Nat) : Nat := Split.offset count worldSize.toNat rank.toNat

def share (worldSize rank : Int) (count : Nat) : Nat := Split.share count worldSize.toNat rank.toNat

theorem InGroup.size (group : InGroup rank worldSize) (small : worldSize < 2 ^ 31) :
    toSize worldSize = worldSize.toNat ∧ toSize rank = rank.toNat := by
  obtain ⟨nonneg, below⟩ := group
  unfold toSize
  constructor
  · rw [Int.emod_eq_of_lt (by omega) (by omega)]
  · rw [Int.emod_eq_of_lt nonneg (by omega)]

theorem InGroup.end_le (group : InGroup rank worldSize) :
    offset worldSize rank count + share worldSize rank count ≤ count := by
  obtain ⟨nonneg, below⟩ := group
  exact Split.offset_add_share_le (by omega) count

/-- The quotient-and-remainder formula, in words wide enough for it. -/
theorem InGroup.formula (group : InGroup rank worldSize) (fits : count < 2 ^ 64) :
    Partition.slice
        (toUInt64 (rank.toNat * (count / worldSize.toNat) +
          if rank.toNat < count % worldSize.toNat then rank.toNat else count % worldSize.toNat))
        (toUInt64 (count / worldSize.toNat + if rank.toNat < count % worldSize.toNat then 1 else 0)) =
      .slice (offset worldSize rank count) (share worldSize rank count) := by
  have within : offset worldSize rank count + share worldSize rank count ≤ count := group.end_le
  have first : (if rank.toNat < count % worldSize.toNat then rank.toNat else count % worldSize.toNat) =
      min rank.toNat (count % worldSize.toNat) := by
    split
    · rename_i early
      rw [Nat.min_eq_left (Nat.le_of_lt early)]
    · rename_i late
      rw [Nat.min_eq_right (Nat.not_lt.mp late)]
  have offsetFits : toUInt64 (offset worldSize rank count) = offset worldSize rank count := toUInt64_of_lt (by omega)
  have shareFits : toUInt64 (share worldSize rank count) = share worldSize rank count := toUInt64_of_lt (by omega)
  rw [first]
  exact congrArg₂ Partition.slice offsetFits shareFits

theorem InGroup.rankPartition (group : InGroup rank worldSize) (small : worldSize < 2 ^ 31) (fits : count < 2 ^ 64) :
    rankPartition count rank worldSize = .slice (offset worldSize rank count) (share worldSize rank count) := by
  obtain ⟨world, r⟩ := group.size small
  have formula := group.formula fits
  obtain ⟨nonneg, below⟩ := group
  rw [Api.rankPartition, if_neg (by omega), world, r]
  exact formula

theorem InGroup.fillRankPartition (group : InGroup rank worldSize) (small : worldSize < 2 ^ 31)
    (fits : count < 2 ^ 64) :
    fillRankPartition rank worldSize count = .slice (offset worldSize rank count) (share worldSize rank count) := by
  obtain ⟨world, r⟩ := group.size small
  have formula := group.formula fits
  obtain ⟨nonneg, below⟩ := group
  rw [Api.fillRankPartition, world, r, if_neg (by omega)]
  exact formula

theorem InGroup.computeRankPartition (group : InGroup rank worldSize) (small : worldSize < 2 ^ 31)
    (fits : count < 2 ^ 64) :
    computeRankPartition count rank worldSize = .slice (offset worldSize rank count) (share worldSize rank count) := by
  obtain ⟨world, r⟩ := group.size small
  have formula := group.formula fits
  obtain ⟨nonneg, below⟩ := group
  have remainder : count - count / worldSize.toNat * worldSize.toNat = count % worldSize.toNat := by
    have split := Nat.div_add_mod' count worldSize.toNat
    omega
  rw [← remainder] at formula
  rw [Api.computeRankPartition, if_neg (by omega), world, r]
  exact formula

theorem InGroup.computeRankSliceBytesFast (group : InGroup rank worldSize) (elements : 0 < dtypeSize)
    (fits : count * dtypeSize < 2 ^ 64) :
    (computeRankSliceBytesFast count dtypeSize rank worldSize).1 / dtypeSize = offset worldSize rank count ∧
      (computeRankSliceBytesFast count dtypeSize rank worldSize).2 / dtypeSize = share worldSize rank count := by
  have within : offset worldSize rank count + share worldSize rank count ≤ count := group.end_le
  have bytes : ∀ length ≤ count, toUInt64 (length * dtypeSize) / dtypeSize = length := by
    intro length bound
    rw [toUInt64_of_lt (Nat.lt_of_le_of_lt (Nat.mul_le_mul_right dtypeSize bound) fits),
      Nat.mul_div_cancel length elements]
  rw [computeRankSliceBytesFast_eq]
  exact ⟨bytes (offset worldSize rank count) (by omega), bytes (share worldSize rank count) (by omega)⟩

end Group

section Agreement

/-- All copies name one slice, and it lies in the tensor. -/
structure OneSlice (count : Nat) (rank worldSize : Int) (first length : Nat) : Prop where
  utils : rankPartition count rank worldSize = .slice first length
  entryPoint : ooRankPartition rank worldSize count = .slice first length
  fast : computeRankPartition count rank worldSize = .slice first length
  planner : ∀ dtypeSize, 0 < dtypeSize → count * dtypeSize < 2 ^ 64 →
    (computeRankSliceBytesFast count dtypeSize rank worldSize).1 / dtypeSize = first ∧
      (computeRankSliceBytesFast count dtypeSize rank worldSize).2 / dtypeSize = length
  inside : first + length ≤ count

/-- Slices laid end to end over the whole tensor, of lengths at most one apart. -/
structure Tiles (count : Nat) (worldSize : Int) (first length : Int → Nat) : Prop where
  starts : first 0 = 0
  next : ∀ rank, InGroup rank worldSize → rank + 1 < worldSize → first (rank + 1) = first rank + length rank
  ends : first (worldSize - 1) + length (worldSize - 1) = count
  balanced : ∀ rank other, InGroup rank worldSize → InGroup other worldSize → length rank ≤ length other + 1

/-- One partition: the copies agree on the rank's slice, and the slices of all ranks share out the tensor. -/
def OnePartition (count : Nat) (rank worldSize : Int) : Prop :=
  ∃ first length : Int → Nat, OneSlice count rank worldSize (first rank) (length rank) ∧
    (∀ other, InGroup other worldSize → OneSlice count other worldSize (first other) (length other)) ∧
      Tiles count worldSize first length

variable {rank worldSize : Int} {count : Nat}

theorem InGroup.oneSlice (group : InGroup rank worldSize) (small : worldSize < 2 ^ 31) (fits : count < 2 ^ 64) :
    OneSlice count rank worldSize (offset worldSize rank count) (share worldSize rank count) where
  utils := group.rankPartition small fits
  entryPoint := group.fillRankPartition small fits
  fast := group.computeRankPartition small fits
  planner _ elements bytes := group.computeRankSliceBytesFast elements bytes
  inside := group.end_le

theorem tiles (positive : 0 < worldSize) (count : Nat) :
    Tiles count worldSize (fun rank => offset worldSize rank count) (fun rank => share worldSize rank count) where
  starts := Split.offset_zero count worldSize.toNat
  next rank group _ := by
    have successor : (rank + 1).toNat = rank.toNat + 1 := by
      have nonneg := group.nonneg
      omega
    rw [offset, successor, Split.offset_succ]
    rfl
  ends := by
    have last : (worldSize - 1).toNat + 1 = worldSize.toNat := by omega
    rw [offset, share, ← Split.offset_succ, last, Split.offset_parts (by omega)]
  balanced rank other _ _ := by
    unfold share Split.share
    split <;> split <;> omega

/-- The partitions of the repository give a rank one and the same slice exactly when the rank is one of the group. -/
theorem ooRankPartition_agrees_iff (count : UInt64) (rank worldSize : Int32) :
    OnePartition count.toNat rank.toInt worldSize.toInt ↔ InGroup rank.toInt worldSize.toInt := by
  constructor
  · rintro ⟨first, length, slice, -⟩
    have utils := slice.utils
    unfold rankPartition at utils
    split at utils
    · cases utils
    · exact ⟨by omega, by omega⟩
  · intro group
    have small := worldSize.toInt_lt
    have fits := count.toNat_lt
    have positive : 0 < worldSize.toInt := Int.lt_of_le_of_lt group.nonneg group.below
    exact ⟨_, _, group.oneSlice small fits, fun _ other => other.oneSlice small fits, tiles positive _⟩

/-- The public entry point divides by a world size of zero, and takes a rank past the world beyond the tensor. -/
theorem ooRankPartition_unchecked :
    ooRankPartition 0 0 10 = .dividesByZero ∧ ooRankPartition 5 2 10 = .slice 25 5 ∧
      ¬∀ (count : UInt64) (rank worldSize : Int32), OnePartition count.toNat rank.toInt worldSize.toInt := by
  refine ⟨by decide, by decide, fun all => ?_⟩
  obtain ⟨first, length, slice, -⟩ := all 10 0 0
  have divides : ooRankPartition 0 0 10 = .dividesByZero := by decide
  exact nomatch divides.symm.trans slice.entryPoint

end Agreement

section Tensors

/-- Bytes of a number of elements, refused where they do not fit a word. -/
def checkedElementOffsetBytes (elementOffset : Nat) (dtype : OoDtype) : Except OoStatus Nat :=
  if elementOffset > (2 ^ 64 - 1) / ooDtypeSize dtype then .error .invalidArgument
  else .ok (elementOffset * ooDtypeSize dtype)

structure OoTensorSlice where
  elementOffset : Nat
  count : Nat
  ptr : Nat
  deriving DecidableEq

/-- `fill_tensor_slice` for a slice that is asked for; `none` where the partition divides by zero. -/
def fillTensorSlice (buffer : OoBuffer) (rank worldSize : Int) (baseElementOffset count : Nat) (dtype : OoDtype) :
    Option (Except OoStatus OoTensorSlice) :=
  if buffer.ptr = 0 then some (.error .invalidArgument)
  else
    match fillRankPartition rank worldSize count with
    | .dividesByZero => none
    | .rejected => some (.error .invalidArgument)
    | .slice localOffset localCount =>
      let absoluteOffset := toUInt64 (baseElementOffset + localOffset)
      if absoluteOffset < baseElementOffset then some (.error .invalidArgument)
      else
        match checkedElementOffsetBytes absoluteOffset dtype with
        | .error status => some (.error status)
        | .ok absoluteOffsetBytes =>
          if localCount > (2 ^ 64 - 1) / ooDtypeSize dtype then some (.error .invalidArgument)
          else
            let localBytes := localCount * ooDtypeSize dtype
            if absoluteOffsetBytes > buffer.bytes ∨ localBytes > buffer.bytes - absoluteOffsetBytes then
              some (.error .invalidArgument)
            else
              some (.ok
                { elementOffset := absoluteOffset, count := localCount,
                  ptr := toUInt64 (buffer.ptr + absoluteOffsetBytes) })

/-- A filled slice is the rank's part of the elements from the base on, and lies in the buffer. -/
theorem fillTensorSlice_slice (group : InGroup rank worldSize) (small : worldSize < 2 ^ 31) (fits : count < 2 ^ 64)
    (filled : fillTensorSlice buffer rank worldSize baseElementOffset count dtype = some (.ok slice)) :
    slice.elementOffset = baseElementOffset + offset worldSize rank count ∧
      slice.count = share worldSize rank count ∧
      slice.elementOffset * ooDtypeSize dtype + slice.count * ooDtypeSize dtype ≤ buffer.bytes := by
  have within : offset worldSize rank count + share worldSize rank count ≤ count := group.end_le
  rw [fillTensorSlice, group.fillRankPartition small fits] at filled
  simp only [checkedElementOffsetBytes] at filled
  split at filled
  · cases filled
  · split at filled
    · cases filled
    · rename_i ahead
      split at filled
      · cases filled
      · rename_i bytes checked
        split at checked
        · cases checked
        · cases checked
          split at filled
          · cases filled
          · split at filled
            · cases filled
            · rename_i roomy
              cases filled
              unfold toUInt64 at ahead roomy ⊢
              refine ⟨?_, rfl, ?_⟩
              · dsimp only
                omega
              · dsimp only
                omega

end Tensors

end Ooverlap.Api
