import Ooverlap.Support.Blocks

/-! Which segment a finished tile is counted in: the loops of the wrapper epilogue and of the patched epilogue. -/

namespace Ooverlap.Overlap

open Blocks

variable {cSEG : List Nat}

section Wrapper

/-- The wrapper's loop: past its bound it reads the next entry, and `none` is a read past the last one. -/
def advance (tile bound seg : Nat) : List Nat → Option Nat
  | [] => if bound ≤ tile then none else some seg
  | next :: rest => if bound ≤ tile then advance tile (bound + next) (seg + 1) rest else some seg

/-- `store_tail` of the wrapper epilogue. -/
def storeTailSegment (cSEG : List Nat) (tile : Nat) : Option Nat :=
  match cSEG with
  | [] => none
  | first :: rest => advance tile first 0 rest

theorem advance_eq (inside : Inside cSEG index tile) (rest : List Nat) (seg : Nat) (split : cSEG.drop (seg + 1) = rest)
    (before : start cSEG seg ≤ tile) : advance tile (start cSEG (seg + 1)) seg rest = some index := by
  induction rest generalizing seg with
  | nil =>
    have last : start cSEG (seg + 1) = cSEG.sum := start_past (List.drop_eq_nil_iff.mp split)
    have short := inside.lt_sum
    rw [advance, if_neg (by omega)]
    exact congrArg some (Inside.unique ⟨before, by omega⟩ inside)
  | cons next rest ih =>
    rw [advance]
    split_ifs with past
    · have found : cSEG[seg + 1]? = some next := by
        rw [← List.head?_drop, split, List.head?_cons]
      rw [← start_succ found]
      refine ih (seg + 1) ?_ past
      rw [← List.drop_drop, split, List.drop_one, List.tail_cons]
    · exact congrArg some (Inside.unique ⟨before, not_le.mp past⟩ inside)

/-- The wrapper finds the segment of every tile, without reading past the last entry. -/
theorem storeTailSegment_eq (inside : Inside cSEG index tile) : storeTailSegment cSEG tile = some index := by
  cases cSEG with
  | nil => exact absurd inside.lt_length (Nat.not_lt_zero _)
  | cons first rest => exact advance_eq inside rest 0 rfl (Nat.zero_le _)

theorem advance_none (rest : List Nat) (past : bound + rest.sum ≤ tile) : advance tile bound seg rest = none := by
  induction rest generalizing bound seg with
  | nil => exact if_pos past
  | cons next rest ih =>
    rw [List.sum_cons, ← Nat.add_assoc] at past
    have beyond : bound ≤ tile := Nat.le_trans (Nat.le_trans (Nat.le_add_right _ _) (Nat.le_add_right _ _)) past
    rw [advance, if_pos beyond]
    exact ih past

/-- The wrapper reads past the last entry for a tile that is in no segment. -/
theorem storeTailSegment_none (past : cSEG.sum ≤ tile) : storeTailSegment cSEG tile = none := by
  cases cSEG with
  | nil => rfl
  | cons first rest =>
    rw [List.sum_cons] at past
    exact advance_none rest past

end Wrapper

section Patch

/-- The patched epilogue's loop: the segment found so far, the tiles before the next entry, and its index. -/
structure Scan where
  seg : Nat := 0
  running : Nat := 0
  s : Nat := 0
  deriving DecidableEq, Repr

def Scan.next (tile : Nat) (scan : Scan) (entry : Nat) : Scan where
  seg := if scan.running ≤ tile ∧ tile < scan.running + entry then scan.s else scan.seg
  running := scan.running + entry
  s := scan.s + 1

/-- `ooverlap_signal_done_` of the patch. -/
def signalDoneSegment (cSEG : List Nat) (tile : Nat) : Nat :=
  (cSEG.foldl (Scan.next tile) {}).seg

theorem scan_take (inside : Inside cSEG index tile) (count : Nat) (within : count ≤ cSEG.length) :
    (cSEG.take count).foldl (Scan.next tile) {} =
      { seg := if index < count then index else 0, running := start cSEG count, s := count } := by
  induction count with
  | zero => rfl
  | succ count ih =>
    have found : cSEG[count]? = some cSEG[count] := List.getElem?_eq_getElem within
    rw [List.take_add_one, found, List.foldl_append, ih (Nat.le_of_succ_le within)]
    simp only [Option.toList_some, List.foldl_cons, List.foldl_nil, Scan.next, ← start_succ found, Scan.mk.injEq, and_true]
    by_cases here : index = count
    · subst here
      rw [if_pos ⟨inside.1, inside.2⟩, if_pos (Nat.lt_succ_self _)]
    · have elsewhere : ¬(start cSEG count ≤ tile ∧ tile < start cSEG (count + 1)) :=
        fun other => here (inside.unique other)
      rw [if_neg elsewhere]
      by_cases earlier : index < count
      · rw [if_pos earlier, if_pos (Nat.lt_succ_of_lt earlier)]
      · rw [if_neg earlier, if_neg (by omega)]

theorem signalDoneSegment_eq (inside : Inside cSEG index tile) : signalDoneSegment cSEG tile = index := by
  have scanned := scan_take inside cSEG.length (le_refl _)
  rw [List.take_length, if_pos inside.lt_length] at scanned
  rw [signalDoneSegment, scanned]

/-- Whatever the tile, the patched epilogue names a segment. -/
theorem signalDoneSegment_lt (segments : cSEG ≠ []) : signalDoneSegment cSEG tile < cSEG.length := by
  have counted : ∀ (entries : List Nat) (scan : Scan), scan.seg ≤ scan.s →
      (entries.foldl (Scan.next tile) scan).seg < scan.s + max entries.length 1 := by
    intro entries
    induction entries with
    | nil => exact fun scan before => Nat.lt_succ_of_le before
    | cons entry rest ih =>
      intro scan before
      have kept : (Scan.next tile scan entry).seg ≤ scan.s := by
        rw [Scan.next]
        split
        · exact le_refl _
        · exact before
      have later := ih (Scan.next tile scan entry) (Nat.le_succ_of_le kept)
      have moved : (Scan.next tile scan entry).s = scan.s + 1 := rfl
      cases rest with
      | nil => exact Nat.lt_succ_of_le kept
      | cons second rest =>
        rw [moved] at later
        simp only [List.length_cons, List.foldl_cons] at later ⊢
        omega
  have positive := List.length_pos_iff.mpr segments
  have found := counted cSEG {} (Nat.le_refl 0)
  have one : max cSEG.length 1 = cSEG.length := Nat.max_eq_left positive
  rwa [one, Nat.zero_add] at found

end Patch

/-- The epilogue that counts finished tiles. -/
inductive Epilogue where
  | wrapper
  | patched
  deriving DecidableEq, Repr

def Epilogue.segment : Epilogue → List Nat → Nat → Option Nat
  | .wrapper, cSEG, tile => storeTailSegment cSEG tile
  | .patched, cSEG, tile => some (signalDoneSegment cSEG tile)

theorem Epilogue.segment_eq (epilogue : Epilogue) (inside : Inside cSEG index tile) :
    epilogue.segment cSEG tile = some index := by
  cases epilogue with
  | wrapper => exact storeTailSegment_eq inside
  | patched => exact congrArg some (signalDoneSegment_eq inside)

theorem Epilogue.segment_lt (epilogue : Epilogue) (segments : cSEG ≠ []) (found : epilogue.segment cSEG tile = some seg) :
    seg < cSEG.length := by
  rcases Nat.lt_or_ge tile cSEG.sum with within | past
  · obtain ⟨index, inside⟩ := exists_inside within
    rw [epilogue.segment_eq inside] at found
    obtain rfl := Option.some.inj found
    exact inside.lt_length
  · cases epilogue with
    | wrapper =>
      rw [Epilogue.segment, storeTailSegment_none past] at found
      cases found
    | patched =>
      obtain rfl := Option.some.inj found
      exact signalDoneSegment_lt segments

end Ooverlap.Overlap
