import Ooverlap.Lowering.Lower

/-! Which transfer tasks lower, and the window task that carries out some of their windows. -/

namespace Ooverlap.Lowering

open Plan

/-- Window operation that carries out a transfer operation. -/
def windowOp : TransferOp → WindowTaskOp
  | .copy => .copyTma
  | .reduce => .reduceTma
  | .copyFanout => .copyTmaFanout
  | .reduceFanout => .reduceTmaFanout
  | .barrier => .barrier
  | _ => .none

section Payload

variable (limits : LoweringLimits) (binding : RankPointerBinding) (transfer : TransferTask)

def transferSrc : Pointer :=
  resolveLogicalConstPtr limits transfer.src binding

def transferDst : Pointer :=
  resolveLogicalMutPtr limits transfer.dst binding

def transferFanoutDsts : List Pointer :=
  (List.range transfer.fanoutDstCount.toNat).map fun index =>
    resolveLogicalMutPtr limits (transfer.fanoutDsts.getD index {}) binding

/-- Pointers, byte count and chunking of a transfer task for the windows `[beginWindow, endWindow)`. -/
def transferPayload (beginWindow endWindow : Int) : WindowTaskPayload :=
  match transfer.op with
  | .copyFanout =>
    .fanout
      { src := transferSrc limits binding transfer
        fanoutDsts := transferFanoutDsts limits binding transfer
        totalBytes := transfer.bytes
        beginWindow, endWindow
        windowChunks := transfer.windowChunks
        fanoutDstCount := transfer.fanoutDstCount.toNat }
  | .reduceFanout =>
    .fanout
      { src := transferSrc limits binding transfer
        fanoutDsts := transferFanoutDsts limits binding transfer
        totalBytes := transfer.bytes
        beginWindow, endWindow
        windowChunks := transfer.windowChunks
        fanoutDstCount := transfer.fanoutDstCount.toNat
        fanoutReduceScope :=
          (transfer.fanoutReduceScope.map fun scope => (scope % 256).toNat).take tmaTwoGpuPeerMaxFanoutDsts }
  | _ =>
    .window
      { src := transferSrc limits binding transfer
        dst := transferDst limits binding transfer
        totalBytes := transfer.bytes
        beginWindow, endWindow
        windowChunks := transfer.windowChunks }

/-- The window task for the windows `[beginWindow, endWindow)` of a transfer task. -/
def transferWindows (ctaMask : WindowTaskCtaMask) (beginWindow endWindow : Int) : WindowTask where
  op := windowOp transfer.op
  terminal := transfer.terminal
  ctaMask := ctaMask
  payload := transferPayload limits binding transfer beginWindow endWindow

/-- Sizes under which a window task can be made. -/
def Sized : Prop :=
  0 < transfer.windowChunks ∧ 0 < transfer.bytes ∧ transfer.bytes ≤ kWindowTaskMaxBytes

/-- Destination count and destinations that a fanout window task takes. -/
def FansOut : Prop :=
  (0 < transfer.fanoutDstCount ∧ transfer.fanoutDstCount ≤ tmaTwoGpuPeerMaxFanoutDsts) ∧
    ∀ dst ∈ transferFanoutDsts limits binding transfer, dst ≠ 0

/-- Whether the pointers, the sizes and the transport of a transfer task admit a window task. -/
def Lowerable : Prop :=
  transferSrc limits binding transfer ≠ 0 ∧ Sized transfer ∧
    match transfer.op with
    | .copy =>
      transferDst limits binding transfer ≠ 0 ∧
        (transferTransportDirect transfer.transport = true ∨ transferTaskUsesShmStaging transfer = true)
    | .reduce =>
      transferDst limits binding transfer ≠ 0 ∧
        (transferTransportDirect transfer.transport = true ∨
          (transfer.src.role = .shmStaging ∧ transfer.dst.role ≠ .shmStaging)) ∧
        transfer.requiresTmaReduce = true
    | .copyFanout =>
      FansOut limits binding transfer ∧ transferTransportDirect transfer.transport = true ∧
        transfer.requiresTmaLoad = true ∧ transfer.requiresTmaStore = true
    | .reduceFanout =>
      FansOut limits binding transfer ∧ transferTransportDirect transfer.transport = true ∧
        transfer.requiresTmaLoad = true ∧ transfer.requiresTmaReduce = true
    | _ => False

end Payload

section Lowered

variable {limits : LoweringLimits} {binding : RankPointerBinding} {transfer : TransferTask}
  (ctaMask : WindowTaskCtaMask) {beginWindow endWindow : Int}

theorem lowerWindows_empty (empty : endWindow ≤ beginWindow) :
    lowerWindows limits binding transfer ctaMask beginWindow endWindow = some { ctaMask } := by
  rw [lowerWindows, if_pos empty]

theorem guard_eq_some {condition : Prop} [Decidable condition] {value : Option α} :
    (if condition then none else value) = some result ↔ ¬condition ∧ value = some result := by
  split <;> simp_all

theorem lowerTransferTask_copy (nonempty : beginWindow < endWindow) (op : transfer.op = .copy) :
    lowerTransferTaskToWindowTask transfer src dst beginWindow endWindow = some task ↔
      (src ≠ 0 ∧ dst ≠ 0 ∧ Sized transfer ∧
        (transferTransportDirect transfer.transport = true ∨ transferTaskUsesShmStaging transfer = true)) ∧
      makeCopyTmaTask src dst transfer.bytes beginWindow endWindow transfer.windowChunks transfer.terminal =
        task := by
  unfold lowerTransferTaskToWindowTask
  dsimp only
  rw [guard_eq_some, guard_eq_some, op]
  simp [selectCopyWindowOp, transferShouldUseFastCopy, Sized]
  grind

theorem lowerTransferTask_reduce (nonempty : beginWindow < endWindow) (op : transfer.op = .reduce) :
    lowerTransferTaskToWindowTask transfer src dst beginWindow endWindow = some task ↔
      (src ≠ 0 ∧ dst ≠ 0 ∧ Sized transfer ∧
        (transferTransportDirect transfer.transport = true ∨
          (transfer.src.role = .shmStaging ∧ transfer.dst.role ≠ .shmStaging)) ∧
        transfer.requiresTmaReduce = true) ∧
      makeReduceTmaTask src dst transfer.bytes beginWindow endWindow transfer.windowChunks transfer.terminal =
        task := by
  unfold lowerTransferTaskToWindowTask
  dsimp only
  rw [guard_eq_some, guard_eq_some, op]
  simp [Sized]
  grind

theorem lowerTransferTask_other (copy : transfer.op ≠ .copy) (reduce : transfer.op ≠ .reduce) :
    lowerTransferTaskToWindowTask transfer src dst beginWindow endWindow = none := by
  unfold lowerTransferTaskToWindowTask
  dsimp only
  split
  · rfl
  · split
    · rfl
    · cases op : transfer.op <;> simp_all

theorem lowerFanout_copy (nonempty : beginWindow < endWindow) (op : transfer.op = .copyFanout) :
    lowerFanoutTransferTaskToWindowTask transfer src fanoutDsts beginWindow endWindow = some task ↔
      (src ≠ 0 ∧ Sized transfer ∧
        (0 < transfer.fanoutDstCount ∧ transfer.fanoutDstCount ≤ tmaTwoGpuPeerMaxFanoutDsts) ∧
        (∀ dst ∈ fanoutDsts, dst ≠ 0) ∧ transferTransportDirect transfer.transport = true ∧
        transfer.requiresTmaLoad = true ∧ transfer.requiresTmaStore = true) ∧
      makeCopyTmaFanoutTask src fanoutDsts transfer.bytes beginWindow endWindow transfer.windowChunks
        transfer.terminal = task := by
  unfold lowerFanoutTransferTaskToWindowTask
  rw [guard_eq_some, guard_eq_some, op]
  simp [Sized]
  grind

theorem lowerFanout_reduce (nonempty : beginWindow < endWindow) (op : transfer.op = .reduceFanout) :
    lowerFanoutTransferTaskToWindowTask transfer src fanoutDsts beginWindow endWindow = some task ↔
      (src ≠ 0 ∧ Sized transfer ∧
        (0 < transfer.fanoutDstCount ∧ transfer.fanoutDstCount ≤ tmaTwoGpuPeerMaxFanoutDsts) ∧
        (∀ dst ∈ fanoutDsts, dst ≠ 0) ∧ transferTransportDirect transfer.transport = true ∧
        transfer.requiresTmaLoad = true ∧ transfer.requiresTmaReduce = true) ∧
      makeReduceTmaFanoutTask src fanoutDsts transfer.fanoutReduceScope transfer.bytes beginWindow endWindow
        transfer.windowChunks transfer.terminal = task := by
  unfold lowerFanoutTransferTaskToWindowTask
  rw [guard_eq_some, guard_eq_some, op]
  simp [Sized]
  grind

theorem makeFanoutTask_eq (op : WindowTaskOp) (scopes : List Nat) (sized : Sized transfer)
    (few : transfer.fanoutDstCount ≤ tmaTwoGpuPeerMaxFanoutDsts) :
    makeFanoutTask op src (transferFanoutDsts limits binding transfer) scopes transfer.bytes beginWindow
      endWindow transfer.windowChunks transfer.terminal =
      { op
        terminal := transfer.terminal
        payload := .fanout
          { src
            fanoutDsts := transferFanoutDsts limits binding transfer
            totalBytes := transfer.bytes
            beginWindow, endWindow
            windowChunks := transfer.windowChunks
            fanoutDstCount := transfer.fanoutDstCount.toNat
            fanoutReduceScope := scopes.take tmaTwoGpuPeerMaxFanoutDsts } } := by
  have length : (transferFanoutDsts limits binding transfer).length = transfer.fanoutDstCount.toNat := by
    simp [transferFanoutDsts]
  have fits : (transferFanoutDsts limits binding transfer).length ≤ tmaTwoGpuPeerMaxFanoutDsts := by omega
  rw [makeFanoutTask, if_neg (not_lt.mpr sized.2.2), List.take_of_length_le fits, Nat.min_eq_left fits, length]

theorem fansOut_admitted (src : transferSrc limits binding transfer ≠ 0) (fans : FansOut limits binding transfer) :
    ¬(transferSrc limits binding transfer = 0 ∨ transfer.fanoutDstCount ≤ 0 ∨
        transfer.fanoutDstCount > tmaTwoGpuPeerMaxFanoutDsts) ∧
      ¬(transferFanoutDsts limits binding transfer).any (· = 0) = true := by
  obtain ⟨⟨several, few⟩, dsts⟩ := fans
  constructor
  · rintro (none | missing | many)
    · exact src none
    · exact absurd several (not_lt.mpr missing)
    · exact absurd few (not_le.mpr many)
  · intro null
    obtain ⟨dst, member, zero⟩ := List.any_eq_true.mp null
    exact dsts dst member (of_decide_eq_true zero)

/-- Nonempty windows lower exactly when the task may be lowered, and then to its own window task. -/
theorem lowerWindows_eq_some_iff (nonempty : beginWindow < endWindow) :
    lowerWindows limits binding transfer ctaMask beginWindow endWindow = some task ↔
      Lowerable limits binding transfer ∧
        transferWindows limits binding transfer ctaMask beginWindow endWindow = task := by
  have whole : lowerWindows limits binding transfer ctaMask beginWindow endWindow =
      if transfer.op = .copyFanout ∨ transfer.op = .reduceFanout then
        if transferSrc limits binding transfer = 0 ∨ transfer.fanoutDstCount ≤ 0 ∨
            transfer.fanoutDstCount > tmaTwoGpuPeerMaxFanoutDsts then none
        else if (transferFanoutDsts limits binding transfer).any (· = 0) then none
        else
          (lowerFanoutTransferTaskToWindowTask transfer (transferSrc limits binding transfer)
            (transferFanoutDsts limits binding transfer) beginWindow endWindow).map
              fun lowered => { lowered with ctaMask }
      else
        (lowerTransferTaskToWindowTask transfer (transferSrc limits binding transfer)
          (transferDst limits binding transfer) beginWindow endWindow).map
            fun lowered => { lowered with ctaMask } := by
    rw [lowerWindows, if_neg (not_le.mpr nonempty)]
    rfl
  rw [whole]
  cases op : transfer.op with
  | copy =>
    have made : ∀ sized : Sized transfer,
        { makeCopyTmaTask (transferSrc limits binding transfer) (transferDst limits binding transfer) transfer.bytes
            beginWindow endWindow transfer.windowChunks transfer.terminal with ctaMask } =
          transferWindows limits binding transfer ctaMask beginWindow endWindow := by
      intro sized
      rw [makeCopyTmaTask, makeWindowTask, if_neg (not_lt.mpr sized.2.2)]
      simp [transferWindows, transferPayload, windowOp, op]
    simp only [reduceCtorEq, or_self, if_false, Option.map_eq_some_iff, lowerTransferTask_copy nonempty op,
      Lowerable, op]
    constructor
    · rintro ⟨_, ⟨⟨src, dst, sized, route⟩, rfl⟩, rfl⟩
      exact ⟨⟨src, sized, dst, route⟩, (made sized).symm⟩
    · rintro ⟨⟨src, sized, dst, route⟩, rfl⟩
      exact ⟨_, ⟨⟨src, dst, sized, route⟩, rfl⟩, made sized⟩
  | reduce =>
    have made : ∀ sized : Sized transfer,
        { makeReduceTmaTask (transferSrc limits binding transfer) (transferDst limits binding transfer) transfer.bytes
            beginWindow endWindow transfer.windowChunks transfer.terminal with ctaMask } =
          transferWindows limits binding transfer ctaMask beginWindow endWindow := by
      intro sized
      rw [makeReduceTmaTask, makeWindowTask, if_neg (not_lt.mpr sized.2.2)]
      simp [transferWindows, transferPayload, windowOp, op]
    simp only [reduceCtorEq, or_self, if_false, Option.map_eq_some_iff, lowerTransferTask_reduce nonempty op,
      Lowerable, op]
    constructor
    · rintro ⟨_, ⟨⟨src, dst, sized, route⟩, rfl⟩, rfl⟩
      exact ⟨⟨src, sized, dst, route⟩, (made sized).symm⟩
    · rintro ⟨⟨src, sized, dst, route⟩, rfl⟩
      exact ⟨_, ⟨⟨src, dst, sized, route⟩, rfl⟩, made sized⟩
  | copyFanout =>
    have made : ∀ (sized : Sized transfer) (few : transfer.fanoutDstCount ≤ tmaTwoGpuPeerMaxFanoutDsts),
        { makeCopyTmaFanoutTask (transferSrc limits binding transfer) (transferFanoutDsts limits binding transfer)
            transfer.bytes beginWindow endWindow transfer.windowChunks transfer.terminal with ctaMask } =
          transferWindows limits binding transfer ctaMask beginWindow endWindow := by
      intro sized few
      rw [makeCopyTmaFanoutTask, makeFanoutTask_eq _ _ sized few]
      simp [transferWindows, transferPayload, windowOp, op]
    simp only [true_or, if_true, guard_eq_some, Option.map_eq_some_iff, lowerFanout_copy nonempty op,
      Lowerable, FansOut, op]
    constructor
    · rintro ⟨_, _, _, ⟨⟨src, sized, count, dsts, route⟩, rfl⟩, rfl⟩
      exact ⟨⟨src, sized, ⟨count, dsts⟩, route⟩, (made sized count.2).symm⟩
    · rintro ⟨⟨src, sized, fans, route⟩, rfl⟩
      obtain ⟨counted, resolved⟩ := fansOut_admitted src fans
      exact ⟨counted, resolved, _, ⟨⟨src, sized, fans.1, fans.2, route⟩, rfl⟩, made sized fans.1.2⟩
  | reduceFanout =>
    have made : ∀ (sized : Sized transfer) (few : transfer.fanoutDstCount ≤ tmaTwoGpuPeerMaxFanoutDsts),
        { makeReduceTmaFanoutTask (transferSrc limits binding transfer) (transferFanoutDsts limits binding transfer)
            transfer.fanoutReduceScope transfer.bytes beginWindow endWindow transfer.windowChunks
            transfer.terminal with ctaMask } =
          transferWindows limits binding transfer ctaMask beginWindow endWindow := by
      intro sized few
      rw [makeReduceTmaFanoutTask, makeFanoutTask_eq _ _ sized few]
      simp [transferWindows, transferPayload, windowOp, op]
    simp only [or_true, if_true, guard_eq_some, Option.map_eq_some_iff, lowerFanout_reduce nonempty op,
      Lowerable, FansOut, op]
    constructor
    · rintro ⟨_, _, _, ⟨⟨src, sized, count, dsts, route⟩, rfl⟩, rfl⟩
      exact ⟨⟨src, sized, ⟨count, dsts⟩, route⟩, (made sized count.2).symm⟩
    · rintro ⟨⟨src, sized, fans, route⟩, rfl⟩
      obtain ⟨counted, resolved⟩ := fansOut_admitted src fans
      exact ⟨counted, resolved, _, ⟨⟨src, sized, fans.1, fans.2, route⟩, rfl⟩, made sized fans.1.2⟩
  | none => simp [Lowerable, lowerTransferTask_other, op]
  | readyPublish => simp [Lowerable, lowerTransferTask_other, op]
  | readyWait => simp [Lowerable, lowerTransferTask_other, op]
  | barrier => simp [Lowerable, lowerTransferTask_other, op]

theorem transferWindows_hasWork (lowerable : Lowerable limits binding transfer) (nonempty : beginWindow < endWindow) :
    windowTaskHasWork (transferWindows limits binding transfer ctaMask beginWindow endWindow) = true := by
  obtain ⟨src, ⟨windowChunks, bytes, _⟩, kind⟩ := lowerable
  cases op : transfer.op <;> rw [op] at kind
  case copy => simp_all [windowTaskHasWork, transferWindows, transferPayload, windowOp]
  case reduce => simp_all [windowTaskHasWork, transferWindows, transferPayload, windowOp]
  case copyFanout => simp_all [windowTaskHasWork, transferWindows, transferPayload, windowOp, FansOut]
  case reduceFanout => simp_all [windowTaskHasWork, transferWindows, transferPayload, windowOp, FansOut]
  all_goals exact kind.elim

end Lowered

end Ooverlap.Lowering
