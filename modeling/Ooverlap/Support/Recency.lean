import Mathlib.Data.Finset.Card
import Mathlib.Data.List.Dedup

/-! Lists of the items used most recently, of bounded length. -/

namespace Ooverlap.Recency

variable {Item : Type*} [DecidableEq Item] {item : Item} {items : List Item} {capacity : Nat}

/-- Moves the item to the front; a full list loses its last item for a new one. -/
def touch (capacity : Nat) (items : List Item) (item : Item) : List Item :=
  item :: (items.erase item).take (capacity - 1)

def recent (capacity : Nat) (history : List Item) : List Item :=
  history.foldl (touch capacity) []

theorem recent_append (capacity : Nat) (history : List Item) (item : Item) :
    recent capacity (history ++ [item]) = touch capacity (recent capacity history) item :=
  List.foldl_concat ..

theorem touch_nodup (distinct : items.Nodup) (capacity : Nat) (item : Item) : (touch capacity items item).Nodup := by
  refine List.nodup_cons.mpr ⟨?_, ((distinct.erase item).sublist (List.take_sublist _ _))⟩
  intro member
  exact distinct.not_mem_erase (List.mem_of_mem_take member)

theorem touch_length (positive : 0 < capacity) (items : List Item) (item : Item) :
    (touch capacity items item).length ≤ capacity := by
  rw [touch, List.length_cons, List.length_take]
  omega

theorem recent_nodup (capacity : Nat) (history : List Item) : (recent capacity history).Nodup := by
  induction history using List.reverseRecOn with
  | nil => exact List.nodup_nil
  | append_singleton rest item ih =>
    rw [recent_append]
    exact touch_nodup ih capacity item

theorem recent_length (positive : 0 < capacity) (history : List Item) :
    (recent capacity history).length ≤ capacity := by
  induction history using List.reverseRecOn with
  | nil => exact Nat.zero_le _
  | append_singleton rest item _ =>
    rw [recent_append]
    exact touch_length positive _ item

theorem touch_of_mem (member : item ∈ items) (bounded : items.length ≤ capacity) :
    touch capacity items item = item :: items.erase item := by
  have shorter := List.length_erase_of_mem member
  rw [touch, List.take_of_length_le (by omega)]

theorem touch_of_not_mem (absent : item ∉ items) :
    touch capacity items item = item :: items.take (capacity - 1) := by
  rw [touch, List.erase_of_not_mem absent]

theorem mem_of_mem_recent (member : item ∈ recent capacity history) : item ∈ history := by
  induction history using List.reverseRecOn with
  | nil => cases member
  | append_singleton rest next ih =>
    rw [recent_append] at member
    rcases List.mem_cons.mp member with rfl | kept
    · exact List.mem_append_right _ (List.mem_singleton_self item)
    · exact List.mem_append_left _ (ih (List.mem_of_mem_erase (List.mem_of_mem_take kept)))

/-- Erasing another item keeps this one, and what stands in front of it but the other. -/
theorem erase_around (front back : List Item) (apart : item ≠ next) :
    ∃ remains, (front ++ item :: back).erase next = front.erase next ++ item :: remains := by
  by_cases ahead : next ∈ front
  · exact ⟨back, List.erase_append_left _ ahead⟩
  · refine ⟨back.erase next, ?_⟩
    rw [List.erase_append_right _ ahead, List.erase_of_not_mem ahead, List.erase_cons_tail]
    simpa using apart

/-- In front of an item stand exactly those used since. -/
theorem recent_split (capacity : Nat) (before : List Item) (absent : item ∉ after)
    (few : after.toFinset.card < capacity) :
    ∃ front back, recent capacity (before ++ item :: after) = front ++ item :: back ∧ front.Nodup ∧
      ∀ other, other ∈ front ↔ other ∈ after := by
  induction after using List.reverseRecOn with
  | nil =>
    refine ⟨[], (touch capacity (recent capacity before) item).tail, ?_, List.nodup_nil, fun _ => .rfl⟩
    rw [recent_append]
    rfl
  | append_singleton rest next ih =>
    have subset : rest.toFinset ⊆ (rest ++ [next]).toFinset := by
      intro other member
      rw [List.mem_toFinset] at member ⊢
      exact List.mem_append_left _ member
    have absentRest : item ∉ rest := fun member => absent (List.mem_append_left _ member)
    have apart : item ≠ next := fun same => absent (by simp [same])
    obtain ⟨front, back, shape, distinct, same⟩ :=
      ih absentRest (Nat.lt_of_le_of_lt (Finset.card_le_card subset) few)
    have step : recent capacity (before ++ item :: (rest ++ [next])) =
        next :: ((front ++ item :: back).erase next).take (capacity - 1) := by
      rw [← List.cons_append, ← List.append_assoc, recent_append, shape]
      rfl
    have renewed : (next :: front.erase next).Nodup :=
      List.nodup_cons.mpr ⟨distinct.not_mem_erase, distinct.erase next⟩
    have members : ∀ other, other ∈ next :: front.erase next ↔ other ∈ rest ++ [next] := by
      intro other
      by_cases here : other = next
      · simp [here]
      · simp [here, List.mem_erase_of_ne here, same]
    have length : (next :: front.erase next).length < capacity := by
      have counted : (next :: front.erase next).toFinset = (rest ++ [next]).toFinset := by
        ext other
        rw [List.mem_toFinset, List.mem_toFinset]
        exact members other
      rw [← List.toFinset_card_of_nodup renewed, counted]
      exact few
    obtain ⟨remains, erased⟩ := erase_around front back apart
    refine ⟨next :: front.erase next, remains.take (capacity - 1 - (front.erase next).length - 1), ?_, renewed,
      members⟩
    rw [step, erased, List.take_append]
    rw [List.length_cons] at length
    have inside : (front.erase next).length ≤ capacity - 1 := by omega
    rw [List.take_of_length_le inside]
    obtain ⟨room, more⟩ : ∃ room, capacity - 1 - (front.erase next).length = room + 1 :=
      ⟨capacity - 1 - (front.erase next).length - 1, by omega⟩
    rw [more, List.take_succ_cons, Nat.add_sub_cancel]
    rfl

/-- In front of an item that is left stand all those used since. -/
theorem recent_front (before : List Item) (absent : item ∉ after)
    (left : item ∈ recent capacity (before ++ item :: after)) :
    ∃ front back, recent capacity (before ++ item :: after) = front ++ item :: back ∧ after ⊆ front := by
  induction after using List.reverseRecOn with
  | nil =>
    refine ⟨[], (touch capacity (recent capacity before) item).tail, ?_, List.nil_subset _⟩
    rw [recent_append]
    rfl
  | append_singleton rest next ih =>
    have absentRest : item ∉ rest := fun member => absent (List.mem_append_left _ member)
    have apart : item ≠ next := fun same => absent (by simp [same])
    have step : recent capacity (before ++ item :: (rest ++ [next])) =
        touch capacity (recent capacity (before ++ item :: rest)) next := by
      rw [← List.cons_append, ← List.append_assoc, recent_append]
    have kept : item ∈ ((recent capacity (before ++ item :: rest)).erase next).take (capacity - 1) := by
      rw [step] at left
      exact (List.mem_cons.mp left).resolve_left apart
    obtain ⟨front, back, shape, used⟩ := ih absentRest (List.mem_of_mem_erase (List.mem_of_mem_take kept))
    have distinct := recent_nodup capacity (before ++ item :: rest)
    rw [shape] at distinct
    have fresh : item ∉ front.erase next := fun member =>
      (List.nodup_middle.mp distinct).notMem (List.mem_append_left _ (List.mem_of_mem_erase member))
    obtain ⟨remains, erased⟩ := erase_around front back apart
    rw [shape, erased, List.take_append] at kept
    have inside := (List.mem_append.mp kept).resolve_left fun member => fresh (List.mem_of_mem_take member)
    obtain ⟨room, more⟩ : ∃ room, capacity - 1 - (front.erase next).length = room + 1 := by
      refine Nat.exists_eq_succ_of_ne_zero fun none => ?_
      rw [none] at inside
      cases inside
    refine ⟨next :: front.erase next, remains.take room, ?_, ?_⟩
    · rw [step, touch, shape, erased, List.take_append, List.take_of_length_le (by omega), more, List.take_succ_cons]
      rfl
    · intro other member
      by_cases here : other = next
      · exact here ▸ List.mem_cons_self
      · have earlier : other ∈ rest := by simpa [here] using member
        exact List.mem_cons_of_mem _ ((List.mem_erase_of_ne here).mpr (used earlier))

omit [DecidableEq Item] in
theorem lastUse (member : item ∈ history) : ∃ before after, history = before ++ item :: after ∧ item ∉ after := by
  obtain ⟨after, before, reversed, absent⟩ := List.eq_append_cons_of_mem (List.mem_reverse.mpr member)
  refine ⟨before.reverse, after.reverse, ?_, by simpa using absent⟩
  have same := congrArg List.reverse reversed
  simpa using same

/-- The items left are those used since which the list has been asked for fewer others than it can hold. -/
theorem mem_recent_iff (positive : 0 < capacity) (history : List Item) : item ∈ recent capacity history ↔
    ∃ before after, history = before ++ item :: after ∧ item ∉ after ∧ after.toFinset.card < capacity := by
  constructor
  · intro left
    obtain ⟨before, after, rfl, absent⟩ := lastUse (mem_of_mem_recent left)
    obtain ⟨front, back, shape, used⟩ := recent_front before absent left
    have length := recent_length positive (before ++ item :: after)
    have few := List.toFinset_card_le front
    have fewer := Finset.card_le_card fun other member =>
      List.mem_toFinset.mpr (used (List.mem_toFinset.mp member))
    rw [shape, List.length_append, List.length_cons] at length
    exact ⟨before, after, rfl, absent, by omega⟩
  · rintro ⟨before, after, rfl, absent, few⟩
    obtain ⟨front, back, shape, _⟩ := recent_split capacity before absent few
    rw [shape]
    simp

end Ooverlap.Recency
