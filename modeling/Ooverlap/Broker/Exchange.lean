import Ooverlap.Broker.Broadcast

/-! Whole runs of broker calls: what each call returns on each rank. -/

namespace Ooverlap.Broker

open BarrierRounds Interleaving

variable {world : LocalWorld} {history : List (BrokerCall world)}

/-- Vault and sockets when rank 0 has initialised the vault; the callers' memory is whatever it is. -/
def initVaultRank0 (dstBytes : Rank world → Nat → Nat → UInt8) (dstFds : Rank world → Nat → Rank world → Option File)
    (dstFd : Rank world → Nat → Option File) : BrokerState world :=
  { data := fun _ => 0, dstBytes, dstFds, dstFd }

section Invariant

/-- How far the current round is. -/
def Current (left : Rank world → List (Work world)) (shared : BrokerState world) : Option (Round world) → Prop
  | some .bind => Silent shared ∧ ∀ rank, .createSocket ∉ left rank → shared.bound rank = true
  | some (.store _ size src) => Silent shared ∧ Stored size src left shared
  | some (.load call size src) => Silent shared ∧ Loaded call size src left shared
  | some (.transfer call srcFd) => Transferring call srcFd left shared
  | some (.broadcast call srcFd srcRank) =>
    ∃ source : Rank world, (source : Int) = srcRank ∧ Broadcasting call srcFd source left shared
  | _ => Silent shared

/-- Finished rounds have left their results, and the current one is on its way. -/
structure Holds (history : List (BrokerCall world)) (round : Nat) (left : Rank world → List (Work world))
    (shared : BrokerState world) : Prop where
  settled : ∀ index < round, ∀ past, (schedule history)[index]? = some past → Settled shared past
  sound : Sound shared
  suffix : ∀ rank, left rank <:+ (brokerSystem history).segment round rank
  current : Current left shared (schedule history)[round]?

variable {round : Nat} {left : Rank world → List (Work world)} {shared shared' : BrokerState world}

theorem segment_eq {round : Nat} (found : (schedule history)[round]? = some here) (rank : Rank world) :
    (brokerSystem history).segment round rank = here.work rank := by
  simp [brokerSystem, found]

/-- Stores, loads and the like send nothing. -/
theorem act_silent (silent : Silent shared) (sound : Sound shared) {rank : Rank world} {item : Work world}
    {here : Round world} (listed : item ∈ here.work rank)
    (plain : here.settles = none ∨ ∃ call size src, here = .load call size src) :
    Silent (shared.act rank item) ∧ Sound (shared.act rank item) ∧ item.receives? = none := by
  have unchanged : (shared.act rank item).inbox = shared.inbox ∧ (shared.act rank item).thrown = shared.thrown ∧
      (shared.act rank item).consumed = shared.consumed ∧ item.receives? = none := by
    cases here with
    | enter => cases listed
    | bind =>
      obtain rfl := List.mem_singleton.mp listed
      exact ⟨rfl, rfl, rfl, rfl⟩
    | store call size src =>
      obtain ⟨_, _, rfl⟩ := List.mem_map.mp listed
      exact ⟨rfl, rfl, rfl, rfl⟩
    | load call size src =>
      obtain ⟨_, _, inSource⟩ := List.mem_flatMap.mp listed
      obtain ⟨_, _, rfl⟩ := List.mem_map.mp inSource
      exact ⟨rfl, rfl, rfl, rfl⟩
    | clear call =>
      obtain rfl := List.mem_singleton.mp listed
      exact ⟨rfl, rfl, rfl, rfl⟩
    | transfer call srcFd => simp [Round.settles] at plain
    | broadcast call srcFd srcRank => simp [Round.settles] at plain
  refine ⟨fun sender receiver => ?_, sound.congr unchanged.2.1 unchanged.2.2.1, unchanged.2.2.2⟩
  rw [unchanged.1]
  exact silent sender receiver

theorem Holds.bound (holds : Holds history round left shared) (later : 1 < round) (rank : Rank world) :
    shared.bound rank = true :=
  holds.settled 1 later .bind rfl rank

theorem Holds.work {rank : Rank world} (holds : Holds history round left shared) (next : left rank = item :: rest)
    (performed : Performs rank item shared shared') : Holds history round (Function.update left rank rest) shared' := by
  obtain ⟨settled, sound, suffix, current⟩ := id holds
  cases found : (schedule history)[round]? with
  | none =>
    have empty := suffix rank
    simp only [brokerSystem, found, Option.elim_none, next] at empty
    exact absurd (List.suffix_nil.mp empty) (List.cons_ne_nil _ _)
  | some here =>
    have part : left rank <:+ here.work rank := by
      have whole := suffix rank
      rwa [segment_eq found] at whole
    have listed : item ∈ here.work rank := part.subset (by rw [next]; exact List.mem_cons_self ..)
    rw [found] at current
    have both : Sound shared' ∧ Current (Function.update left rank rest) shared' (some here) := by
      cases here with
      | enter => cases listed
      | bind =>
        obtain ⟨silent', sound', own⟩ := act_silent current.1 sound listed (Or.inl rfl)
        rw [performed.act_eq own]
        refine ⟨sound', silent', fun other done => ?_⟩
        obtain rfl := List.mem_singleton.mp listed
        by_cases same : other = rank
        · subst same
          simp [BrokerState.act]
        · rw [Function.update_of_ne same] at done
          simpa [BrokerState.act, Function.update_of_ne same] using current.2 other done
      | store call size src =>
        obtain ⟨silent', sound', own⟩ := act_silent current.1 sound listed (Or.inl rfl)
        rw [performed.act_eq own]
        exact ⟨sound', silent', current.2.step (schedule_admitted found).2 next listed⟩
      | load call size src =>
        obtain ⟨silent', sound', own⟩ := act_silent current.1 sound listed (Or.inr ⟨_, _, _, rfl⟩)
        rw [performed.act_eq own]
        exact ⟨sound', silent', current.2.step next listed⟩
      | clear call =>
        obtain ⟨silent', sound', own⟩ := act_silent current sound listed (Or.inl rfl)
        rw [performed.act_eq own]
        exact ⟨sound', silent'⟩
      | transfer call srcFd =>
        have bound := holds.bound (schedule_after_bind found rfl)
        obtain ⟨after, sound'⟩ := current.step sound bound next part performed
        exact ⟨sound', after⟩
      | broadcast call srcFd srcRank =>
        have bound := holds.bound (schedule_after_bind found rfl)
        obtain ⟨source, rfl, broadcasting⟩ := current
        obtain ⟨after, sound'⟩ := broadcasting.step sound bound next part performed
        exact ⟨sound', source, rfl, after⟩
    refine ⟨fun index earlier past foundPast => ?_, both.1, fun other => ?_, by rw [found]; exact both.2⟩
    · refine (settled index earlier past foundPast).keep performed fun call settles touches => ?_
      exact schedule_apart earlier foundPast found settles (work_call listed touches)
    · by_cases same : other = rank
      · subst same
        rw [Function.update_self]
        refine List.IsSuffix.trans ?_ (suffix other)
        rw [next]
        exact List.suffix_cons ..
      · rw [Function.update_of_ne same]
        exact suffix other

/-- A round that everybody is through with has its results, and nothing is in flight. -/
theorem Current.finished {here : Round world} (current : Current (fun _ => []) shared (some here)) :
    Settled shared here ∧ Silent shared := by
  cases here with
  | enter => exact ⟨trivial, current⟩
  | bind => exact ⟨fun rank => current.2 rank List.not_mem_nil, current.1⟩
  | store call size src => exact ⟨trivial, current.1⟩
  | load call size src =>
    exact ⟨fun rank source offset within => current.2.2 rank source offset within List.not_mem_nil, current.1⟩
  | clear call => exact ⟨trivial, current⟩
  | transfer call srcFd => exact Transferring.finished current
  | broadcast call srcFd srcRank =>
    obtain ⟨source, rfl, broadcasting⟩ := current
    exact broadcasting.finished

theorem Holds.next (holds : Holds history round (fun _ => []) shared) (more : round < (schedule history).length) :
    Holds history (round + 1) ((brokerSystem history).segment (round + 1)) shared := by
  obtain ⟨settled, sound, suffix, current⟩ := holds
  have found : (schedule history)[round]? = some (schedule history)[round] := List.getElem?_eq_getElem more
  rw [found] at current
  obtain ⟨ended, silent⟩ := current.finished
  refine ⟨fun index earlier past foundPast => ?_, sound, fun rank => List.suffix_rfl, ?_⟩
  · rcases Nat.lt_succ_iff_lt_or_eq.mp earlier with before | rfl
    · exact settled index before past foundPast
    · rw [found, Option.some.injEq] at foundPast
      rwa [← foundPast]
  · cases foundNext : (schedule history)[round + 1]? with
    | none => exact silent
    | some here =>
      have segment : (brokerSystem history).segment (round + 1) = fun rank => here.work rank := by
        funext rank
        exact segment_eq foundNext rank
      rw [segment]
      cases here with
      | enter => exact silent
      | bind => exact ⟨silent, fun rank absent => absurd (List.mem_singleton_self _) absent⟩
      | store call size src => exact ⟨silent, stored_start size src⟩
      | load call size src =>
        have stored := schedule_load foundNext
        rw [found, Option.some.injEq] at stored
        rw [stored] at current
        exact ⟨silent, loaded_start current.2 call⟩
      | clear call => exact silent
      | transfer call srcFd => exact transferring_start silent
      | broadcast call srcFd srcRank =>
        obtain ⟨lower, upper⟩ : 0 ≤ srcRank ∧ srcRank < world.size := schedule_admitted foundNext
        obtain ⟨source, rfl⟩ := Int.eq_ofNat_of_zero_le lower
        exact ⟨⟨source, Int.ofNat_lt.mp upper⟩, rfl, broadcasting_start silent⟩

theorem holds_rule (history : List (BrokerCall world)) : RoundRule (brokerSystem history) (Holds history) where
  work _ _ _ _ _ _ _ holds next performed := holds.work next performed
  next _ _ more holds := holds.next more

theorem holds_start (dstBytes : Rank world → Nat → Nat → UInt8) (dstFds : Rank world → Nat → Rank world → Option File)
    (dstFd : Rank world → Nat → Option File) :
    Holds history 0 ((brokerSystem history).segment 0) (initVaultRank0 dstBytes dstFds dstFd) where
  settled _ impossible := absurd impossible (Nat.not_lt_zero _)
  sound := ⟨fun _ => rfl, fun _ _ member => by cases member⟩
  suffix _ := List.suffix_rfl
  current := fun _ _ => rfl

theorem Holds.moves (holds : Holds history round left shared) (busy : ∃ rank, left rank ≠ []) :
    ∃ rank item rest shared', left rank = item :: rest ∧ Performs rank item shared shared' := by
  obtain ⟨settled, sound, suffix, current⟩ := holds
  obtain ⟨rank, some'⟩ := busy
  obtain ⟨item, rest, next⟩ := List.exists_cons_of_ne_nil some'
  cases found : (schedule history)[round]? with
  | none =>
    have empty := suffix rank
    simp only [brokerSystem, found, Option.elim_none] at empty
    exact absurd (List.suffix_nil.mp empty) some'
  | some here =>
    have part : ∀ rank, left rank <:+ here.work rank := by
      intro rank
      have whole := suffix rank
      rwa [segment_eq found] at whole
    have listed : item ∈ here.work rank := (part rank).subset (by rw [next]; exact List.mem_cons_self ..)
    rw [found] at current
    have acts : Silent shared → (here.settles = none ∨ ∃ call size src, here = .load call size src) →
        ∃ rank item rest shared', left rank = item :: rest ∧ Performs rank item shared shared' := by
      intro silent plain
      exact ⟨rank, item, rest, _, next, .act (act_silent silent sound listed plain).2.2⟩
    cases here with
    | enter => cases listed
    | bind => exact acts current.1 (Or.inl rfl)
    | store call size src => exact acts current.1 (Or.inl rfl)
    | load call size src => exact acts current.1 (Or.inr ⟨_, _, _, rfl⟩)
    | clear call => exact acts current (Or.inl rfl)
    | transfer call srcFd => exact Transferring.moves current part ⟨rank, some'⟩
    | broadcast call srcFd srcRank =>
      obtain ⟨source, rfl, broadcasting⟩ := current
      exact broadcasting.moves part ⟨rank, some'⟩

end Invariant

section Outcome

variable {dstBytes : Rank world → Nat → Nat → UInt8} {dstFds : Rank world → Nat → Rank world → Option File}
  {dstFd : Rank world → Nat → Option File} {state : State (Rank world) (Work world) (BrokerState world)}

theorem holds_of_reachable (reached : Reachable (brokerSystem history) (initVaultRank0 dstBytes dstFds dstFd) state) :
    Holds history state.gate.generation (left (brokerSystem history) state) state.shared :=
  (holds_rule history).reachable (holds_start dstBytes dstFds dstFd) reached

/-- What a call leaves is there as soon as a rank has returned from it. -/
theorem returned_settled {round : Round world}
    (reached : Reachable (brokerSystem history) (initVaultRank0 dstBytes dstFds dstFd) state)
    (returned : Returned history state rank call) (found : history[call]? = some request)
    (member : round ∈ request.rounds call) : Settled state.shared round := by
  obtain ⟨index, before, here⟩ := returned.round found member
  have behind := (aligned_of_reachable reached).consistent.passes_le (Finset.mem_univ rank)
  exact (holds_of_reachable reached).settled index (lt_of_lt_of_le before behind) round here

theorem broker_completes (history : List (BrokerCall world)) (dstBytes : Rank world → Nat → Nat → UInt8)
    (dstFds : Rank world → Nat → Rank world → Option File) (dstFd : Rank world → Nat → Option File) :
    Completes (Step (brokerSystem history)) (start (brokerSystem history) (initVaultRank0 dstBytes dstFds dstFd))
      (Finished (brokerSystem history)) :=
  completes (holds_rule history) (holds_start dstBytes dstFds dstFd) fun _ _ _ holds busy => holds.moves busy

/-- A rank that reads the vault reads what was stored for the same call. -/
theorem reading_data (reached : Reachable (brokerSystem history) (initVaultRank0 dstBytes dstFds dstFd) state)
    (outside : state.held rank = none) (here : (schedule history)[state.passes rank]? = some (.load call size src)) :
    ∀ source : Rank world, ∀ offset < size,
      state.shared.data (source * vaultSizePerRank + offset) = src source offset := by
  have current := (holds_of_reachable reached).current
  rw [← (aligned_of_reachable reached).outside outside, here] at current
  exact current.2.1

/-- What `exchange_data` promises about whole runs. -/
structure DataExchanged (history : List (BrokerCall world))
    (initial : BrokerState world) : Prop where
  returns : ∀ state, Reachable (brokerSystem history) initial state →
    ∀ rank call size src, history[call]? = some (.exchangeData size src) → 0 < size → size ≤ vaultSizePerRank →
      Returned history state rank call → ∀ source : Rank world, ∀ offset < size,
        state.shared.dstBytes rank call (source * size + offset) = src source offset
  separates : ∀ state, Reachable (brokerSystem history) initial state → Separates state
  reading : ∀ state, Reachable (brokerSystem history) initial state →
    ∀ rank call size src, state.held rank = none →
      (schedule history)[state.passes rank]? = some (.load call size src) → ∀ source : Rank world, ∀ offset < size,
        state.shared.data (source * vaultSizePerRank + offset) = src source offset
  quiet : ∀ state, Reachable (brokerSystem history) initial state → ∀ rank, state.shared.thrown rank = none
  completes : Completes (Step (brokerSystem history)) (start (brokerSystem history) initial)
    (Finished (brokerSystem history))

/-- Every exchange returns the payloads of its own call on every rank, in every interleaving. -/
theorem exchangeData_exchanges (history : List (BrokerCall world)) (dstBytes : Rank world → Nat → Nat → UInt8)
    (dstFds : Rank world → Nat → Rank world → Option File) (dstFd : Rank world → Nat → Option File) :
    DataExchanged history (initVaultRank0 dstBytes dstFds dstFd) where
  returns state reached rank call size src found positive bounded returned := by
    have accepted : (BrokerCall.exchangeData size src : BrokerCall world).throws = none := by
      simp only [BrokerCall.throws]
      rw [if_neg (by omega)]
    have member : .load call size src ∈ (BrokerCall.exchangeData size src).rounds call := by
      simp [BrokerCall.rounds, accepted]
    exact returned_settled reached returned found member rank
  separates _ reached := (aligned_of_reachable reached).separates
  reading _ reached _ _ _ _ outside here := reading_data reached outside here
  quiet _ reached := (holds_of_reachable reached).sound.quiet
  completes := broker_completes history dstBytes dstFds dstFd

/-- What the descriptor calls promise about whole runs; a rank gets `-1` in its own position. -/
structure FdsExchanged (history : List (BrokerCall world)) (initial : BrokerState world) : Prop where
  returns : ∀ state, Reachable (brokerSystem history) initial state →
    ∀ rank call srcFd, history[call]? = some (.exchangeFds srcFd) → Returned history state rank call →
      ∀ position, state.shared.dstFds rank call position = if position = rank then none else some (srcFd position)
  broadcasts : ∀ state, Reachable (brokerSystem history) initial state →
    ∀ rank call srcFd (source : Rank world), history[call]? = some (.broadcastFd srcFd source) →
      Returned history state rank call → rank ≠ source → state.shared.dstFd rank call = some srcFd
  matched : ∀ state, Reachable (brokerSystem history) initial state →
    ∀ rank, ∀ entry ∈ state.shared.consumed rank, entry.2.call = entry.1
  quiet : ∀ state, Reachable (brokerSystem history) initial state → ∀ rank, state.shared.thrown rank = none
  completes : Completes (Step (brokerSystem history)) (start (brokerSystem history) initial)
    (Finished (brokerSystem history))

theorem exchangeFds_position (reached : Reachable (brokerSystem history) (initVaultRank0 dstBytes dstFds dstFd) state)
    (found : history[call]? = some (.exchangeFds srcFd)) (returned : Returned history state rank call) :
    ∀ position, state.shared.dstFds rank call position = if position = rank then none else some (srcFd position) := by
  have member : .transfer call srcFd ∈ (BrokerCall.exchangeFds srcFd).rounds call := by
    simp [BrokerCall.rounds, BrokerCall.throws]
  exact returned_settled reached returned found member rank

/-- Every descriptor reaches the same call on every other rank, whatever order datagrams of different senders take. -/
theorem exchangeFds_exchanges (history : List (BrokerCall world)) (dstBytes : Rank world → Nat → Nat → UInt8)
    (dstFds : Rank world → Nat → Rank world → Option File) (dstFd : Rank world → Nat → Option File) :
    FdsExchanged history (initVaultRank0 dstBytes dstFds dstFd) where
  returns _ reached _ _ _ found returned := exchangeFds_position reached found returned
  broadcasts state reached rank call srcFd source found returned apart := by
    have bounded := source.isLt
    have accepted : (BrokerCall.broadcastFd srcFd source : BrokerCall world).throws = none := by
      simp only [BrokerCall.throws]
      rw [if_neg (by omega)]
    have member : (.broadcast call srcFd source : Round world) ∈ (BrokerCall.broadcastFd srcFd source).rounds call := by
      simp [BrokerCall.rounds, accepted]
    refine returned_settled reached returned found member rank fun same => apart ?_
    exact Fin.ext (Int.ofNat_inj.mp same)
  matched _ reached := (holds_of_reachable reached).sound.matched
  quiet _ reached := (holds_of_reachable reached).sound.quiet
  completes := broker_completes history dstBytes dstFds dstFd

def twoRanks : LocalWorld := ⟨2, Nat.two_pos, by decide⟩

/-- Two ranks pass descriptors 3 and 4. -/
def twoFds : List (BrokerCall twoRanks) := [.exchangeFds fun rank => rank.val + 3]

/-- Rank 0 does not get its own descriptor 3 back. -/
theorem exchangeFds_own_position :
    ¬∀ state, Reachable (brokerSystem twoFds)
        (initVaultRank0 (fun _ _ _ => 0) (fun _ _ _ => none) fun _ _ => none) state →
      ∀ rank, Returned twoFds state rank 0 →
        ∀ position : Rank twoRanks, state.shared.dstFds rank 0 position = some (position.val + 3) := by
  intro claimed
  obtain ⟨final, reached, finished⟩ :=
    broker_completes twoFds (fun _ _ _ => 0) (fun _ _ _ => none) (fun _ _ => none) _ .refl
  have returned : Returned twoFds final twoRanks.rank0 0 := le_of_eq (finished twoRanks.rank0).1.symm
  have own := exchangeFds_position reached rfl returned twoRanks.rank0
  have promised := claimed final reached twoRanks.rank0 returned twoRanks.rank0
  rw [own, if_pos rfl] at promised
  cases promised

end Outcome

end Ooverlap.Broker
