import Mathlib.Logic.Relation

/-! Rules for the straight-line code of one thread whose hardware moves on its own. -/

namespace Ooverlap.Thread

/-- The effect of an instruction, absent while it blocks, and the moves the thread takes no part in. -/
structure Machine (Instr State : Type*) where
  exec : Instr → State → Option State
  engine : State → State → Prop

variable {Instr State : Type*} (machine : Machine Instr State)

/-- From some code and state to the code that is left and the state reached. -/
inductive Runs : List Instr → State → List Instr → State → Prop where
  | refl : Runs code state code state
  | perform (effect : machine.exec instr state = some after) (more : Runs code after rest final) :
      Runs (instr :: code) state rest final
  | drift (moved : machine.engine state after) (more : Runs code after rest final) :
      Runs code state rest final

variable {machine}

theorem Runs.trans (first : Runs machine code start mid between)
    (second : Runs machine mid between rest final) : Runs machine code start rest final := by
  induction first with
  | refl => exact second
  | perform effect _ ih => exact .perform effect (ih second)
  | drift moved _ ih => exact .drift moved (ih second)

theorem Runs.extend (run : Runs machine code start rest final) (tail : List Instr) :
    Runs machine (code ++ tail) start (rest ++ tail) final := by
  induction run with
  | refl => exact .refl
  | perform effect _ ih => exact .perform effect ih
  | drift moved _ ih => exact .drift moved ih

/-- A run of two pieces of code is still in the first, or has finished it. -/
theorem Runs.split {first second : List Instr} (run : Runs machine (first ++ second) start rest final) :
    (∃ left, rest = left ++ second ∧ Runs machine first start left final) ∨
      ∃ between, Runs machine first start [] between ∧ Runs machine second between rest final := by
  generalize joined : first ++ second = code at run
  induction run generalizing first with
  | refl => exact .inl ⟨first, joined.symm, .refl⟩
  | @perform instr before after code rest final effect more ih =>
    cases first with
    | nil =>
      subst joined
      exact .inr ⟨before, .refl, .perform effect more⟩
    | cons head tail =>
      obtain ⟨rfl, same⟩ := List.cons.inj joined
      rcases ih same with ⟨left, shape, run⟩ | ⟨between, run, later⟩
      · exact .inl ⟨left, shape, .perform effect run⟩
      · exact .inr ⟨between, .perform effect run, later⟩
  | drift moved _ ih =>
    rcases ih joined with ⟨left, shape, run⟩ | ⟨between, run, later⟩
    · exact .inl ⟨left, shape, .drift moved run⟩
    · exact .inr ⟨between, .drift moved run, later⟩

/-- An assertion that implies safety and that no move of the hardware breaks. -/
structure Steady (machine : Machine Instr State) (safe holds : State → Prop) : Prop where
  sound : ∀ state, holds state → safe state
  stable : ∀ state after, holds state → machine.engine state after → holds after

theorem Steady.runs_nil (steady : Steady machine safe holds) (here : holds start)
    (run : Runs machine [] start rest final) : rest = [] ∧ holds final := by
  generalize empty : ([] : List Instr) = code at run
  induction run with
  | refl => exact ⟨rfl, here⟩
  | perform _ _ _ => cases empty
  | drift moved _ ih => exact ih (steady.stable _ _ here moved) empty

theorem Steady.runs_single (before : Steady machine safe pre) (after : Steady machine safe post)
    (effect : ∀ state next, pre state → machine.exec instr state = some next → post next)
    (here : pre start) (run : Runs machine [instr] start rest final) :
    safe final ∧ (rest = [] → post final) := by
  generalize single : [instr] = code at run
  induction run with
  | refl =>
    subst single
    exact ⟨before.sound _ here, nofun⟩
  | perform done more _ =>
    obtain ⟨rfl, rfl⟩ := List.cons.inj single
    obtain ⟨-, reached⟩ := after.runs_nil (effect _ _ here done) more
    exact ⟨after.sound _ reached, fun _ => reached⟩
  | drift moved _ ih => exact ih (before.stable _ _ here moved) single

/-- Every state on the way is safe and the last one meets the postcondition; started calm, the
code can reach its end calm. -/
structure Triple (machine : Machine Instr State) (safe calm pre : State → Prop) (code : List Instr)
    (post : State → Prop) : Prop where
  always : ∀ start, pre start → ∀ rest final, Runs machine code start rest final →
    safe final ∧ (rest = [] → post final)
  finishes : ∀ start, pre start → calm start → ∃ final, Runs machine code start [] final ∧ calm final

namespace Triple

variable {safe calm pre mid post : State → Prop}

theorem nil (steady : Steady machine safe pre) : Triple machine safe calm pre [] pre where
  always start here rest final run := by
    obtain ⟨-, reached⟩ := steady.runs_nil here run
    exact ⟨steady.sound _ reached, fun _ => reached⟩
  finishes start _ quiet := ⟨start, .refl, quiet⟩

theorem vacuous (never : ∀ state, ¬ pre state) : Triple machine safe calm pre code post where
  always start here := absurd here (never start)
  finishes start here := absurd here (never start)

theorem single (before : Steady machine safe pre) (after : Steady machine safe post)
    (effect : ∀ state next, pre state → machine.exec instr state = some next → post next)
    (possible : ∀ state, pre state → calm state →
      ∃ final, Runs machine [instr] state [] final ∧ calm final) :
    Triple machine safe calm pre [instr] post where
  always _ here _ _ run := before.runs_single after effect here run
  finishes start here quiet := possible start here quiet

theorem append (first : Triple machine safe calm pre front mid)
    (second : Triple machine safe calm mid back post) :
    Triple machine safe calm pre (front ++ back) post where
  always start here rest final run := by
    rcases run.split with ⟨left, shape, early⟩ | ⟨between, early, late⟩
    · obtain ⟨good, ends⟩ := first.always _ here _ _ early
      refine ⟨good, fun empty => ?_⟩
      obtain ⟨noLeft, noBack⟩ := List.append_eq_nil_iff.mp (shape.symm.trans empty)
      subst noBack
      exact (second.always _ (ends noLeft) _ _ .refl).2 rfl
    · exact second.always _ ((first.always _ here _ _ early).2 rfl) _ _ late
  finishes start here quiet := by
    obtain ⟨between, early, stillQuiet⟩ := first.finishes start here quiet
    obtain ⟨final, late, endQuiet⟩ :=
      second.finishes between ((first.always _ here _ _ early).2 rfl) stillQuiet
    exact ⟨final, (early.extend back).trans late, endQuiet⟩

theorem weaken (triple : Triple machine safe calm pre code post) (stronger : ∀ state, pre' state → pre state)
    (weaker : ∀ state, post state → post' state) : Triple machine safe calm pre' code post' where
  always start here rest final run := by
    obtain ⟨good, ends⟩ := triple.always start (stronger _ here) rest final run
    exact ⟨good, fun empty => weaker _ (ends empty)⟩
  finishes start here quiet := triple.finishes start (stronger _ here) quiet

end Triple

/-- Code written out under thread-local variables. -/
def Emit (Local Instr : Type*) := Local → List Instr × Local

namespace Emit

variable {Local : Type*}

def emit (code : List Instr) : Emit Local Instr := fun vars => (code, vars)

def skip : Emit Local Instr := emit []

instance : Append (Emit Local Instr) where
  append first second := fun vars =>
    let (front, between) := first vars
    let (back, final) := second between
    (front ++ back, final)

def loop (body : Nat → Emit Local Instr) : (count first : Nat) → Emit Local Instr
  | 0, _ => skip
  | count + 1, first => body first ++ loop body count (first + 1)

@[simp] theorem append_apply (first second : Emit Local Instr) (vars : Local) :
    (first ++ second) vars =
      ((first vars).1 ++ (second (first vars).2).1, (second (first vars).2).2) := rfl

/-- The triple of the emitted code, with the variables before and after it. -/
def Holds (machine : Machine Instr State) (safe calm : State → Prop) (pre : Local → State → Prop)
    (code : Emit Local Instr) (post : Local → State → Prop) : Prop :=
  ∀ vars, Triple machine safe calm (pre vars) (code vars).1 (post (code vars).2)

variable {safe calm : State → Prop} {pre mid post : Local → State → Prop}

theorem Holds.emit (triple : ∀ vars, Triple machine safe calm (pre vars) code (post vars)) :
    Holds machine safe calm pre (emit code) post :=
  triple

theorem Holds.skip (steady : ∀ vars, Steady machine safe (pre vars)) :
    Holds machine safe calm pre skip pre :=
  fun vars => .nil (steady vars)

theorem Holds.append (first : Holds machine safe calm pre front mid)
    (second : Holds machine safe calm mid back post) :
    Holds machine safe calm pre (front ++ back) post :=
  fun vars => (first vars).append (second _)

theorem Holds.weaken (holds : Holds machine safe calm pre code post)
    (stronger : ∀ vars state, pre' vars state → pre vars state)
    (weaker : ∀ vars state, post vars state → post' vars state) :
    Holds machine safe calm pre' code post' :=
  fun vars => (holds vars).weaken (stronger vars) (weaker _)

theorem Holds.loop {body : Nat → Emit Local Instr} {invariant : Nat → Local → State → Prop}
    (count first : Nat) (steady : ∀ vars, Steady machine safe (invariant (first + count) vars))
    (turn : ∀ index, first ≤ index → index < first + count →
      Holds machine safe calm (invariant index) (body index) (invariant (index + 1))) :
    Holds machine safe calm (invariant first) (loop body count first) (invariant (first + count)) := by
  induction count generalizing first with
  | zero => exact Holds.skip steady
  | succ count ih =>
    rw [show first + (count + 1) = first + 1 + count by omega] at steady ⊢
    apply Holds.append (turn first (by omega) (by omega))
    apply ih (first + 1) steady
    intro index low high
    exact turn index (by omega) (by omega)

/-- Up to instructions that are not kept, the code is that of a plain version without variables. -/
def Erases (keep : Instr → Bool) (code : Emit Local Instr) (plain : Emit Unit Instr) : Prop :=
  ∀ vars, (code vars).1.filter keep = (plain ()).1

theorem Erases.emit (kept : ∀ instr ∈ code, keep instr = true) :
    Erases keep (Emit.emit code : Emit Local Instr) (Emit.emit code) :=
  fun _ => List.filter_eq_self.mpr kept

theorem Erases.append (first : Erases keep front plainFront) (second : Erases keep back plainBack) :
    Erases keep (front ++ back : Emit Local Instr) (plainFront ++ plainBack) := by
  intro vars
  rw [append_apply, append_apply, List.filter_append, first vars, second _]

theorem Erases.loop {body : Nat → Emit Local Instr} {plain : Nat → Emit Unit Instr}
    (turn : ∀ index, Erases keep (body index) (plain index)) (count first : Nat) :
    Erases keep (loop body count first) (loop plain count first) := by
  induction count generalizing first with
  | zero => exact fun _ => rfl
  | succ count ih => exact (turn first).append (ih (first + 1))

end Emit

end Ooverlap.Thread
