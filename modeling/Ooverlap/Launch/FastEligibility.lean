import Ooverlap.Launch.PreparedLaunches
import Ooverlap.Plan.Config

/-! Which calls take the fast kernels: the tests of the three collectives, and the checks of their launchers. -/

namespace Ooverlap.Launch

open Api (OoStatus OoDtype ooDtypeSize Address computeRankPartition checkedElementOffsetBytes)
open Plan (tmaTwoGpuPeerSmallTaskBytes tmaTwoGpuPeerMaxFanoutDsts tmaTwoGpuPeerMaxCtas)
open Word

/-- `kFastAllreduceMaxPeers` and its two copies. -/
def kFastMaxPeers : Nat := tmaTwoGpuPeerMaxFanoutDsts

section Shards

variable (launch : CollectiveLaunchState) (count : Nat)

/-- The arguments that both tests and both launchers for the partitioned collectives refuse to go without. -/
def launchComplete : Bool :=
  !launch.outOfPlace && launch.localPtr != 0 && 2 ≤ launch.worldSize &&
    launch.peers.length = launch.worldSize - 1 && launch.peers.length ≤ kFastMaxPeers && launch.dtypeSize != 0 &&
    launch.bytes != 0 && count != 0 && count ≤ (2 ^ 64 - 1) / launch.dtypeSize &&
    count * launch.dtypeSize = launch.bytes && 0 < launch.collectiveEpoch

end Shards

section Tests

variable (group : LiveGroup) (isAllPeerToPeer : Bool)

variable (launch : CollectiveLaunchState) (count : Nat)

/-- `rank_ptrs`, from the own buffer and the peers'. -/
def launchRankPtr (rank : Nat) : Option Address :=
  if rank = launch.rank then some launch.localPtr
  else (launch.peers.find? fun peer => peer.rank = rank).map LaunchPeer.ptr

end Tests

section Launchers

variable (launch : CollectiveLaunchState) (count : Nat)

end Launchers

section Shapes

variable {launch : CollectiveLaunchState} {count rank : Nat}

/-- What every prepared launch of `count` elements is like. -/
structure Shaped (launch : CollectiveLaunchState) (count : Nat) : Prop where
  within : launch.rank < launch.worldSize
  size : launch.worldSize ≤ kOoMaxLocalDevices
  ranks : launch.peers.map LaunchPeer.rank = (List.range launch.worldSize).filter (· ≠ launch.rank)
  usable : ∀ peer ∈ launch.peers, peer.ptr ≠ 0 ∧ peer.publishSignal ≠ 0 ∧ peer.waitSignal ≠ 0
  localPtr : launch.localPtr ≠ 0
  inPlace : launch.outOfPlace = false
  dtype : launch.dtypeSize = 2 ∨ launch.dtypeSize = 4
  bytes : launch.bytes = count * launch.dtypeSize
  fits : launch.bytes < 2 ^ 64

theorem Shaped.count_lt (shaped : Shaped launch count) : count < 2 ^ 64 := by
  have bytes := shaped.bytes
  have fits := shaped.fits
  rcases shaped.dtype with two | four
  · rw [two] at bytes
    omega
  · rw [four] at bytes
    omega

/-- A rank's first element and its elements, in bytes. -/
def partBytes (launch : CollectiveLaunchState) (count rank : Nat) : Nat × Nat :=
  (Split.offset count launch.worldSize rank * launch.dtypeSize,
    Split.share count launch.worldSize rank * launch.dtypeSize)

/-- A part that is not empty and lies in whole 16 bytes. -/
def PartFits (launch : CollectiveLaunchState) (count rank : Nat) : Prop :=
  Split.share count launch.worldSize rank ≠ 0 ∧ (partBytes launch count rank).1 % 16 = 0 ∧
    (partBytes launch count rank).2 % 16 = 0

theorem Shaped.partition (shaped : Shaped launch count) (inside : rank < launch.worldSize) :
    computeRankPartition count rank launch.worldSize =
      .slice (Split.offset count launch.worldSize rank) (Split.share count launch.worldSize rank) := by
  have small : (launch.worldSize : Int) < 2 ^ 31 := by
    have size := shaped.size
    unfold kOoMaxLocalDevices at size
    omega
  have group : Api.InGroup rank launch.worldSize := ⟨Int.natCast_nonneg _, Int.ofNat_lt.mpr inside⟩
  rw [group.computeRankPartition small shaped.count_lt]
  rfl

theorem others_length {size own : Nat} (inside : own < size) :
    ((List.range size).filter (· ≠ own)).length = size - 1 := by
  have listed : own ∈ List.range size := List.mem_range.mpr inside
  have distinct : (List.range size).Nodup := List.nodup_range
  have others := congrArg List.length (distinct.erase_eq_filter own)
  rw [List.length_erase_of_mem listed, List.length_range] at others
  rw [others]
  congr 2
  funext rank
  exact Bool.eq_iff_iff.mpr (by simp)

theorem Shaped.peers_length (shaped : Shaped launch count) : launch.peers.length = launch.worldSize - 1 := by
  rw [← List.length_map, shaped.ranks, others_length shaped.within]

/-- Every buffer lies at whole 16 bytes. -/
def PtrsAligned (launch : CollectiveLaunchState) : Prop :=
  ∀ rank < launch.worldSize, ∀ ptr, launchRankPtr launch rank = some ptr → ptr % 16 = 0

end Shapes

section Conditions

variable {launch : CollectiveLaunchState} {count rank : Nat}

/-- What both tests for the partitioned collectives ask of a launch, whichever rank makes them. -/
structure FastFit (launch : CollectiveLaunchState) (count : Nat) : Prop where
  several : 2 ≤ launch.worldSize
  few : launch.worldSize - 1 ≤ kFastMaxPeers
  nonempty : count ≠ 0
  epoch : 0 < launch.collectiveEpoch
  parts : ∀ rank < launch.worldSize, PartFits launch count rank
  aligned : PtrsAligned launch

theorem Shaped.complete_iff (shaped : Shaped launch count) : launchComplete launch count = true ↔
    2 ≤ launch.worldSize ∧ launch.worldSize - 1 ≤ kFastMaxPeers ∧ count ≠ 0 ∧ 0 < launch.collectiveEpoch := by
  have fits := shaped.fits
  have bytes := shaped.bytes
  have positive : 0 < launch.dtypeSize := by
    rcases shaped.dtype with two | four <;> omega
  have whole : count ≤ 18446744073709551615 / launch.dtypeSize := by
    rw [Nat.le_div_iff_mul_le positive]
    omega
  have size : launch.bytes ≠ 0 ↔ count ≠ 0 := by
    rw [bytes, Nat.mul_ne_zero_iff]
    omega
  simp [launchComplete, shaped.inPlace, shaped.localPtr, shaped.peers_length, positive.ne', bytes, whole]
  tauto

variable {group : LiveGroup} {isAllPeerToPeer : Bool}

end Conditions

section Acceptance

variable {launch : CollectiveLaunchState} {count : Nat}

theorem FastFit.complete (fit : FastFit launch count) (shaped : Shaped launch count) :
    ¬(launchComplete launch count = false ∨ ¬launch.rank < launch.worldSize ∨ launch.peers.length = 0) := by
  have complete := shaped.complete_iff.mpr ⟨fit.several, fit.few, fit.nonempty, fit.epoch⟩
  have several := fit.several
  simp only [complete, shaped.within, shaped.peers_length, Bool.true_eq_false, not_true, false_or]
  omega

end Acceptance

end Ooverlap.Launch
