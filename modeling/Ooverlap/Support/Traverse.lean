import Mathlib.Data.List.Forall2

/-! Traversals of lists by steps that may fail. -/

namespace Ooverlap.Traverse

variable {α β : Type*} {step : α → Option β}

theorem mapM_eq_some_iff {items : List α} {results : List β} :
    items.mapM step = some results ↔ List.Forall₂ (fun item result => step item = some result) items results := by
  induction items generalizing results with
  | nil => cases results <;> simp
  | cons item rest ih =>
    cases results with
    | nil => simp [Option.bind_eq_some_iff]
    | cons result later =>
      simp only [List.mapM_cons, Option.pure_def, Option.bind_eq_bind, Option.bind_eq_some_iff,
        Option.some.injEq, List.cons.injEq, List.forall₂_cons, ← ih]
      constructor
      · rintro ⟨_, here, _, there, rfl, rfl⟩
        exact ⟨here, there⟩
      · rintro ⟨here, there⟩
        exact ⟨result, here, later, there, rfl, rfl⟩

theorem mapM_isSome_iff {items : List α} :
    (items.mapM step).isSome = true ↔ ∀ item ∈ items, (step item).isSome = true := by
  induction items with
  | nil => simp
  | cons item rest ih =>
    rw [List.mapM_cons, List.forall_mem_cons, ← ih]
    cases step item with
    | none => simp
    | some result => cases rest.mapM step <;> simp

theorem mapM_length {items : List α} {results : List β} (ran : items.mapM step = some results) :
    results.length = items.length :=
  (mapM_eq_some_iff.mp ran).length_eq.symm

theorem mapM_getElem? {items : List α} {results : List β} {index : Nat} {item : α}
    (ran : items.mapM step = some results) (found : items[index]? = some item) :
    ∃ result, results[index]? = some result ∧ step item = some result := by
  obtain ⟨bound, rfl⟩ := List.getElem?_eq_some_iff.mp found
  have within : index < results.length := by
    rw [mapM_length ran]
    exact bound
  exact ⟨results[index], List.getElem?_eq_getElem within, (mapM_eq_some_iff.mp ran).get bound within⟩

theorem mapM_ok {ε : Type*} {fallible : α → Except ε β} {items : List α} {results : List β}
    (ran : items.mapM fallible = .ok results) :
    List.Forall₂ (fun item result => fallible item = .ok result) items results := by
  induction items generalizing results with
  | nil =>
    cases ran
    exact .nil
  | cons item rest ih =>
    rw [List.mapM_cons] at ran
    cases here : fallible item with
    | error failure =>
      rw [here] at ran
      cases ran
    | ok result =>
      rw [here] at ran
      cases there : rest.mapM fallible with
      | error failure =>
        simp only [bind, Except.bind, there] at ran
        cases ran
      | ok later =>
        simp only [bind, Except.bind, there] at ran
        rw [← Except.ok.inj ran]
        exact .cons here (ih there)

theorem exists_left {relation : α → β → Prop} {items : List α} {results : List β}
    (related : List.Forall₂ relation items results) {result : β} (member : result ∈ results) :
    ∃ item ∈ items, relation item result := by
  induction related with
  | nil => cases member
  | cons here _ ih =>
    rcases List.mem_cons.mp member with rfl | later
    · exact ⟨_, List.mem_cons_self, here⟩
    · obtain ⟨item, found, holds⟩ := ih later
      exact ⟨item, List.mem_cons_of_mem _ found, holds⟩

/-- Position `base * index + position` of equally long pieces laid end to end. -/
theorem flatten_getElem? {pieces : List (List β)} {piece : List β} {index width position : Nat}
    (widths : ∀ other ∈ pieces, other.length = width) (found : pieces[index]? = some piece)
    (within : position < width) : pieces.flatten[index * width + position]? = piece[position]? := by
  induction pieces generalizing index with
  | nil => simp at found
  | cons first rest ih =>
    have firstWidth := widths first (List.mem_cons_self ..)
    have restWidths := fun other member => widths other (List.mem_cons_of_mem _ member)
    rw [List.flatten_cons]
    cases index with
    | zero =>
      simp only [List.getElem?_cons_zero, Option.some.injEq] at found
      subst found
      rw [Nat.zero_mul, Nat.zero_add, List.getElem?_append_left (by omega)]
    | succ index =>
      have shifted : (index + 1) * width + position = first.length + (index * width + position) := by
        rw [firstWidth, Nat.succ_mul]
        omega
      rw [shifted, List.getElem?_append_right (Nat.le_add_right _ _), Nat.add_sub_cancel_left]
      exact ih restWidths found

end Ooverlap.Traverse
