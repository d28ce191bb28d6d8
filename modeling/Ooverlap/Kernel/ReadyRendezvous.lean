import Mathlib.Logic.Basic

/-! The rendezvous that the ready signals give the CTAs of a kernel, over any peers and actions. -/

namespace Ooverlap.Kernel

section Rendezvous

variable {Peer Action : Type*} {peers : List Peer} {gridDim ctaIdx : Nat}

/-- Peers that a CTA waits for, every `gridDim.x`-th from its own index on. -/
def assignedPeers (peers : List Peer) (gridDim ctaIdx : Nat) : List Peer :=
  (peers.zipIdx.filter fun entry => entry.2 % gridDim = ctaIdx).map Prod.fst

/-- The store-release protocols: CTA 0 stores the value into every peer's inbox. -/
def publishes (publish : Peer → Action) (peers : List Peer) (ctaIdx : Nat) : List Action :=
  if ctaIdx = 0 then peers.map publish else []

def awaits (await : Peer → Action) (peers : List Peer) (gridDim ctaIdx : Nat) : List Action :=
  (assignedPeers peers gridDim ctaIdx).map await

/-- No CTA polls before it has published. -/
def distributedReadyRendezvousForCta (publish await : Peer → Action) (peers : List Peer) (gridDim ctaIdx : Nat) :
    List Action :=
  publishes publish peers ctaIdx ++ awaits await peers gridDim ctaIdx

theorem assignedPeers_subset (assigned : peer ∈ assignedPeers peers gridDim ctaIdx) : peer ∈ peers := by
  obtain ⟨⟨value, index⟩, kept, rfl⟩ := List.mem_map.mp assigned
  exact List.mem_of_getElem? (List.mem_zipIdx_iff_getElem?.mp (List.mem_filter.mp kept).1)

/-- Every peer is assigned to some CTA of the grid. -/
theorem assignedPeers_covers (isPeer : peer ∈ peers) (launched : 0 < gridDim) :
    ∃ ctaIdx < gridDim, peer ∈ assignedPeers peers gridDim ctaIdx := by
  obtain ⟨index, found⟩ := List.mem_iff_getElem?.mp isPeer
  refine ⟨index % gridDim, Nat.mod_lt _ launched, List.mem_map.mpr ⟨(peer, index), ?_, rfl⟩⟩
  exact List.mem_filter.mpr ⟨List.mem_zipIdx_iff_getElem?.mpr found, decide_eq_true rfl⟩

theorem mem_publishes {publish : Peer → Action} (member : action ∈ publishes publish peers ctaIdx) :
    ctaIdx = 0 ∧ ∃ peer ∈ peers, action = publish peer := by
  unfold publishes at member
  split at member
  · next first =>
    obtain ⟨peer, isPeer, rfl⟩ := List.mem_map.mp member
    exact ⟨first, peer, isPeer, rfl⟩
  · cases member

theorem mem_awaits {await : Peer → Action} (member : action ∈ awaits await peers gridDim ctaIdx) :
    ∃ peer ∈ assignedPeers peers gridDim ctaIdx, action = await peer := by
  obtain ⟨peer, assigned, rfl⟩ := List.mem_map.mp member
  exact ⟨peer, assigned, rfl⟩

end Rendezvous

end Ooverlap.Kernel
