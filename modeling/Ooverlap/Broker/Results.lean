import Ooverlap.Broker.Schedule

/-! What finished broker rounds leave behind, and the rounds that move bytes through the vault. -/

namespace Ooverlap.Broker

variable {world : LocalWorld} {rank : Rank world} {work : Work world} {shared shared' : BrokerState world}

/-- What every rank holds once a round is over, until its call's memory is written again. -/
def Settled (shared : BrokerState world) : Round world → Prop
  | .bind => ∀ rank, shared.bound rank = true
  | .load call size src => ∀ rank source : Rank world, ∀ offset < size,
      shared.dstBytes rank call (source * size + offset) = src source offset
  | .transfer call srcFd => ∀ rank position,
      shared.dstFds rank call position = if position = rank then none else some (srcFd position)
  | .broadcast call srcFd srcRank => ∀ rank : Rank world, (rank : Int) ≠ srcRank → shared.dstFd rank call = some srcFd
  | _ => True

/-- No datagram is in flight. -/
def Silent (shared : BrokerState world) : Prop :=
  ∀ sender receiver, shared.inbox sender receiver = []

section Actions

theorem Performs.act_eq (own : work.receives? = none) (performed : Performs rank work shared shared') :
    shared' = shared.act rank work := by
  cases performed with
  | act => rfl
  | receive receives =>
    rw [own] at receives
    cases receives

theorem Performs.receive_eq (receives : work.receives? = some call) (performed : Performs rank work shared shared') :
    ∃ sender datagram rest, shared.inbox sender rank = datagram :: rest ∧
      shared' = BrokerState.accept
        { shared with
          inbox := writeAt shared.inbox sender rank rest
          consumed := Function.update shared.consumed rank (shared.consumed rank ++ [(call, datagram)]) }
        rank datagram work := by
  cases performed with
  | act own =>
    rw [own] at receives
    cases receives
  | receive found queued =>
    rw [receives, Option.some.injEq] at found
    subst found
    exact ⟨_, _, _, queued, rfl⟩

theorem send_dstBytes (destination : Rank world) (datagram : Datagram) :
    (shared.send rank destination datagram).dstBytes = shared.dstBytes := by
  unfold BrokerState.send
  split <;> rfl

theorem send_dstFds (destination : Rank world) (datagram : Datagram) :
    (shared.send rank destination datagram).dstFds = shared.dstFds := by
  unfold BrokerState.send
  split <;> rfl

theorem send_dstFd (destination : Rank world) (datagram : Datagram) :
    (shared.send rank destination datagram).dstFd = shared.dstFd := by
  unfold BrokerState.send
  split <;> rfl

theorem send_bound (destination : Rank world) (datagram : Datagram) :
    (shared.send rank destination datagram).bound = shared.bound := by
  unfold BrokerState.send
  split <;> rfl

/-- The memory of a call in two states. -/
structure Keeps (call : Nat) (shared shared' : BrokerState world) : Prop where
  dstBytes : ∀ rank, shared'.dstBytes rank call = shared.dstBytes rank call
  dstFds : ∀ rank, shared'.dstFds rank call = shared.dstFds rank call
  dstFd : ∀ rank, shared'.dstFd rank call = shared.dstFd rank call

/-- Writing elsewhere keeps a cell. -/
theorem writeAt_other {First Second Value : Type*} [DecidableEq First] [DecidableEq Second]
    {memory : First → Second → Value} {first first' : First} {second second' : Second} {value : Value}
    (apart : second' ≠ second) : writeAt memory first second value first' second' = memory first' second' := by
  rw [writeAt_apply, if_neg fun both => apart both.2]

theorem Keeps.act (apart : work.call ≠ some call) : Keeps call shared (shared.act rank work) := by
  cases work with
  | createSocket => exact ⟨fun _ => rfl, fun _ => rfl, fun _ => rfl⟩
  | store offset byte => exact ⟨fun _ => rfl, fun _ => rfl, fun _ => rfl⟩
  | load index size source offset =>
    have other : call ≠ index := fun same => apart (congrArg some same.symm)
    exact ⟨fun _ => writeAt_other other, fun _ => rfl, fun _ => rfl⟩
  | clearFds index =>
    have other : call ≠ index := fun same => apart (congrArg some same.symm)
    exact ⟨fun _ => rfl, fun _ => writeAt_other other, fun _ => rfl⟩
  | startGather index srcFd => exact ⟨fun _ => rfl, fun _ => rfl, fun _ => rfl⟩
  | gather index => exact ⟨fun _ => rfl, fun _ => rfl, fun _ => rfl⟩
  | forward index source destination =>
    simp only [BrokerState.act]
    split
    · exact ⟨fun _ => rfl, fun _ => rfl, fun _ => rfl⟩
    · exact ⟨fun _ => by rw [send_dstBytes], fun _ => by rw [send_dstFds], fun _ => by rw [send_dstFd]⟩
  | keepGathered index =>
    have other : call ≠ index := fun same => apart (congrArg some same.symm)
    exact ⟨fun _ => rfl, fun _ => writeAt_other other, fun _ => rfl⟩
  | sendFd index srcFd destination =>
    simp only [BrokerState.act]
    exact ⟨fun _ => by rw [send_dstBytes], fun _ => by rw [send_dstFds], fun _ => by rw [send_dstFd]⟩
  | receive index => exact ⟨fun _ => rfl, fun _ => rfl, fun _ => rfl⟩
  | clearOwn index =>
    have other : call ≠ index := fun same => apart (congrArg some same.symm)
    exact ⟨fun _ => rfl, fun _ => writeAt_other other, fun _ => rfl⟩
  | receiveBroadcast index srcRank => exact ⟨fun _ => rfl, fun _ => rfl, fun _ => rfl⟩

theorem Keeps.accept (apart : work.call ≠ some call) (datagram : Datagram) :
    Keeps call shared (shared.accept rank datagram work) := by
  cases work with
  | gather index =>
    simp only [BrokerState.accept]
    split <;> exact ⟨fun _ => rfl, fun _ => rfl, fun _ => rfl⟩
  | receive index =>
    have other : call ≠ index := fun same => apart (congrArg some same.symm)
    simp only [BrokerState.accept]
    split
    · exact ⟨fun _ => rfl, fun _ => writeAt_other other, fun _ => rfl⟩
    · exact ⟨fun _ => rfl, fun _ => rfl, fun _ => rfl⟩
  | receiveBroadcast index srcRank =>
    have other : call ≠ index := fun same => apart (congrArg some same.symm)
    simp only [BrokerState.accept]
    split
    · exact ⟨fun _ => rfl, fun _ => rfl, fun _ => writeAt_other other⟩
    · exact ⟨fun _ => rfl, fun _ => rfl, fun _ => rfl⟩
  | _ => exact ⟨fun _ => rfl, fun _ => rfl, fun _ => rfl⟩

/-- An action leaves the memory of every other call alone. -/
theorem Performs.keeps (performed : Performs rank work shared shared') (apart : work.call ≠ some call) :
    Keeps call shared shared' := by
  cases performed with
  | act => exact Keeps.act apart
  | receive _ queued =>
    obtain ⟨dstBytes, dstFds, dstFd⟩ : Keeps call _ (BrokerState.accept _ rank _ work) := Keeps.accept apart _
    exact ⟨dstBytes, dstFds, dstFd⟩

theorem Performs.bound (performed : Performs rank work shared shared') (bound : shared.bound other = true) :
    shared'.bound other = true := by
  cases performed with
  | act =>
    cases work with
    | createSocket =>
      by_cases same : other = rank
      · simp [BrokerState.act, same]
      · simpa [BrokerState.act, same] using bound
    | forward index source destination =>
      simp only [BrokerState.act]
      split
      · exact bound
      · rwa [send_bound]
    | sendFd index srcFd destination =>
      simp only [BrokerState.act]
      rwa [send_bound]
    | _ => exact bound
  | receive _ _ =>
    cases work with
    | gather index =>
      simp only [BrokerState.accept]
      split <;> exact bound
    | receive index =>
      simp only [BrokerState.accept]
      split <;> exact bound
    | receiveBroadcast index srcRank =>
      simp only [BrokerState.accept]
      split <;> exact bound
    | _ => exact bound

theorem Settled.keep {round : Round world} (settled : Settled shared round) (performed : Performs rank work shared shared')
    (apart : ∀ call, round.settles = some call → work.call ≠ some call) : Settled shared' round := by
  cases round with
  | bind => exact fun other => performed.bound (settled other)
  | load call size src =>
    intro other source offset within
    rw [(performed.keeps (apart call rfl)).dstBytes]
    exact settled other source offset within
  | transfer call srcFd =>
    intro other position
    rw [(performed.keeps (apart call rfl)).dstFds]
    exact settled other position
  | broadcast call srcFd srcRank =>
    intro other receiver
    rw [(performed.keeps (apart call rfl)).dstFd]
    exact settled other receiver
  | enter => trivial
  | store => trivial
  | clear => trivial

end Actions

section Bytes

variable {left : Rank world → List (Work world)}

/-- Bytes that ranks have stored already. -/
def Stored (size : Nat) (src : Rank world → Nat → UInt8) (left : Rank world → List (Work world))
    (shared : BrokerState world) : Prop :=
  ∀ rank, ∀ offset < size, .store offset (src rank offset) ∉ left rank →
    shared.data (rank * vaultSizePerRank + offset) = src rank offset

/-- The vault holds the payloads, and what ranks have read of them already. -/
def Loaded (call size : Nat) (src : Rank world → Nat → UInt8) (left : Rank world → List (Work world))
    (shared : BrokerState world) : Prop :=
  (∀ source : Rank world, ∀ offset < size, shared.data (source * vaultSizePerRank + offset) = src source offset) ∧
    ∀ rank source : Rank world, ∀ offset < size, .load call size source offset ∉ left rank →
      shared.dstBytes rank call (source * size + offset) = src source offset

/-- Cells of different owners, or at different offsets, are different. -/
theorem cell_injective {first second : Nat} (within : offset < width) (within' : offset' < width)
    (same : first * width + offset = second * width + offset') : first = second ∧ offset = offset' := by
  have quotient : ∀ owner place, place < width → (owner * width + place) / width = owner := by
    intro owner place inside
    rw [Nat.mul_comm, Nat.mul_add_div (Nat.zero_lt_of_lt inside), Nat.div_eq_of_lt inside, Nat.add_zero]
  have owners : first = second := by
    rw [← quotient first offset within, ← quotient second offset' within', same]
  subst owners
  exact ⟨rfl, Nat.add_left_cancel same⟩

theorem stored_start (size : Nat) (src : Rank world → Nat → UInt8) :
    Stored size src (fun rank => Round.work rank (.store call size src)) shared := by
  intro rank offset within unstored
  exact absurd (List.mem_map.mpr ⟨offset, List.mem_range.mpr within, rfl⟩) unstored

theorem Stored.step (stored : Stored size src left shared) (bounded : size ≤ vaultSizePerRank)
    (next : left rank = work :: rest) (listed : work ∈ Round.work rank (.store call size src)) :
    Stored size src (Function.update left rank rest) (shared.act rank work) := by
  obtain ⟨place, inRange, rfl⟩ := List.mem_map.mp listed
  have inside := List.mem_range.mp inRange
  intro other offset within done
  simp only [BrokerState.act]
  by_cases here : other * vaultSizePerRank + offset = rank * vaultSizePerRank + place
  · obtain ⟨sameRank, rfl⟩ := cell_injective (lt_of_lt_of_le within bounded) (lt_of_lt_of_le inside bounded) here
    rw [here, Function.update_self, Fin.ext sameRank]
  · rw [Function.update_of_ne here]
    refine stored other offset within fun pending => done ?_
    by_cases same : other = rank
    · subst same
      rw [next] at pending
      rw [Function.update_self]
      refine (List.mem_cons.mp pending).resolve_left fun first => here ?_
      obtain ⟨rfl, _⟩ := Work.store.inj first
      rfl
    · rwa [Function.update_of_ne same]

theorem loaded_start (held : Stored size src (fun _ => []) shared) (call : Nat) :
    Loaded call size src (fun rank => Round.work rank (.load call size src)) shared := by
  refine ⟨fun source offset within => held source offset within List.not_mem_nil, ?_⟩
  intro rank source offset within unread
  refine absurd (List.mem_flatMap.mpr ⟨source, List.mem_finRange source, ?_⟩) unread
  exact List.mem_map.mpr ⟨offset, List.mem_range.mpr within, rfl⟩

theorem Loaded.step (loaded : Loaded call size src left shared) (next : left rank = work :: rest)
    (listed : work ∈ Round.work rank (.load call size src)) :
    Loaded call size src (Function.update left rank rest) (shared.act rank work) := by
  obtain ⟨held, read⟩ := loaded
  obtain ⟨source, _, inSource⟩ := List.mem_flatMap.mp listed
  obtain ⟨place, inRange, rfl⟩ := List.mem_map.mp inSource
  have inside := List.mem_range.mp inRange
  refine ⟨held, ?_⟩
  intro other origin offset within done
  simp only [BrokerState.act, writeAt_apply]
  by_cases same : other = rank
  · subst same
    rw [if_pos ⟨rfl, trivial⟩]
    by_cases here : origin * size + offset = source * size + place
    · obtain ⟨sameSource, rfl⟩ := cell_injective within inside here
      rw [here, Function.update_self, held source offset within, Fin.ext sameSource]
    · rw [Function.update_of_ne here]
      refine read other origin offset within fun pending => done ?_
      rw [next] at pending
      rw [Function.update_self]
      refine (List.mem_cons.mp pending).resolve_left fun first => here ?_
      obtain ⟨_, _, rfl, rfl⟩ := Work.load.inj first
      rfl
  · rw [if_neg fun both => same both.1]
    refine read other origin offset within fun pending => done ?_
    rwa [Function.update_of_ne same]

end Bytes

end Ooverlap.Broker
