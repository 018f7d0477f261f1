import Mathlib.Tactic.TypeStar

/-!
# Runs of Labelled Transition Systems

Runs of a step relation, and the two rules that carry facts about one step over to whole
runs.

## Main results

- `Steps.invariant`: what one step preserves, a run preserves
- `Steps.refine`: if every step is a step of an abstract machine, a run is a run of it
- `Steps.of_foldlM`: what an interpreter computes is a run
- `Steps.of_checked`: so is what an interpreter computes that checks each step before it takes it
- `Steps.reach_of_checked`: so that a run to a state with some property is found by evaluation
- `Steps.history`: an invariant that also speaks of the labels so far
- `Steps.mem`: each step is one of the labels of its run
- `Steps.reach_cons`: how a run to a state with some property is built
- `Steps.guarded_invariant`: the invariant rule for machines with a guard and an effect
- `Steps.of_passes`: a list of labels whose guards hold one after the other is a run
- `Steps.length_add_le`: a run whose steps make a measure smaller is short
- `Steps.exists_stuck`: such a machine comes to a stop
- `Stutter.preserves`: what every step preserves, a step or none preserves
-/

namespace SimpleRpc.Lib

/-- A run of `step`, with the labels of its steps. -/
inductive Steps {σ α : Type*} (step : σ → α → σ → Prop) : σ → List α → σ → Prop
  | nil (s : σ) : Steps step s [] s
  | cons {s s' s'' : σ} {a : α} {as : List α} :
      step s a s' → Steps step s' as s'' → Steps step s (a :: as) s''

/-- **Invariant rule**: a property that every step preserves holds at the end of every run
    that starts in it. -/
theorem Steps.invariant {σ α : Type*} {step : σ → α → σ → Prop} {P : σ → Prop}
    (hstep : ∀ s a s', P s → step s a s' → P s') {s s' : σ} {as : List α}
    (hrun : Steps step s as s') (hs : P s) : P s' := by
  induction hrun with
  | nil => exact hs
  | cons hfirst _ ih => exact ih (hstep _ _ _ hs hfirst)

/-- **Refinement rule**: under an invariant, each step of the concrete machine is the same step
    of the abstract one. -/
theorem Steps.refine {σ τ α : Type*} {step : σ → α → σ → Prop} {astep : τ → α → τ → Prop}
    {P : σ → Prop} (abs : σ → τ)
    (hstep : ∀ s a s', P s → step s a s' → P s' ∧ astep (abs s) a (abs s')) {s s' : σ}
    {as : List α} (hrun : Steps step s as s') (hs : P s) :
    Steps astep (abs s) as (abs s') := by
  induction hrun with
  | nil => exact .nil _
  | cons hfirst _ ih =>
    obtain ⟨hinv, habs⟩ := hstep _ _ _ hs hfirst
    exact .cons habs (ih hinv)

/-- **Execution**: an interpreter that takes only steps of the machine computes a run. -/
theorem Steps.of_foldlM {σ α : Type*} {step : σ → α → σ → Prop} {exec : σ → α → Option σ}
    (hexec : ∀ s a s', exec s a = some s' → step s a s') {as : List α} {s s' : σ}
    (hrun : as.foldlM exec s = some s') : Steps step s as s' := by
  induction as generalizing s with
  | nil =>
    obtain rfl : s = s' := by simpa using hrun
    exact .nil s
  | cons a as ih =>
    rw [List.foldlM_cons] at hrun
    obtain ⟨s₁, hfirst, hrest⟩ := Option.bind_eq_some_iff.mp hrun
    exact .cons (hexec s a s₁ hfirst) (ih hrest)

/-- One step of an interpreter, if `check` has nothing against it. -/
def checked {σ α ε : Type*} (check : σ → α → Bool) (step : σ → α → Except ε σ) (s : σ) (a : α) :
    Option σ :=
  if check s a then (step s a).toOption else none

/-- **Checked execution**: each step was checked, and is what the interpreter does. -/
theorem Steps.of_checked {σ α ε : Type*} {check : σ → α → Bool} {step : σ → α → Except ε σ}
    {R : σ → α → σ → Prop} (hcheck : ∀ s a s', check s a = true → step s a = .ok s' → R s a s')
    {as : List α} {s s' : σ} (hrun : as.foldlM (checked check step) s = some s') :
    Steps R s as s' := by
  apply Steps.of_foldlM _ hrun
  intro s a s' hexec
  rw [checked] at hexec
  split at hexec
  case isTrue hok =>
    apply hcheck s a s' hok
    cases hstep : step s a with
    | error e => simp [hstep, Except.toOption] at hexec
    | ok s₁ => simpa [hstep, Except.toOption] using hexec
  case isFalse => cases hexec

/-- Such a run, and what it leads to, is found by evaluation. -/
theorem Steps.reach_of_checked {σ α ε : Type*} (check : σ → α → Bool) (step : σ → α → Except ε σ)
    {R : σ → α → σ → Prop} (hcheck : ∀ s a s', check s a = true → step s a = .ok s' → R s a s')
    {as : List α} {s : σ} {P : σ → Prop} [DecidablePred P]
    (hrun : (as.foldlM (checked check step) s).any (P ·) = true) : ∃ s', Steps R s as s' ∧ P s' := by
  obtain ⟨s', hexec, hP⟩ := (Option.any_eq_true _ _).mp hrun
  exact ⟨s', .of_checked hcheck hexec, of_decide_eq_true hP⟩

/-- **History rule**: an invariant that also speaks of the labels so far. -/
theorem Steps.history {σ α : Type*} {step : σ → α → σ → Prop} {P : List α → σ → Prop}
    (hstep : ∀ as s a s', P as s → step s a s' → P (as ++ [a]) s') {s s' : σ} {as past : List α}
    (hrun : Steps step s as s') (hs : P past s) : P (past ++ as) s' := by
  induction hrun generalizing past with
  | nil => simpa using hs
  | cons hfirst _ ih =>
    have hrest := ih (hstep _ _ _ _ hs hfirst)
    rwa [List.append_assoc, List.singleton_append] at hrest

/-- Runs one after the other are a run. -/
theorem Steps.append {σ α : Type*} {step : σ → α → σ → Prop} {s s' s'' : σ} {as as' : List α}
    (hrun : Steps step s as s') (hrun' : Steps step s' as' s'') : Steps step s (as ++ as') s'' := by
  induction hrun with
  | nil => exact hrun'
  | cons hfirst _ ih => exact .cons hfirst (ih hrun')

/-- The steps of a run are known by their labels. -/
theorem Steps.mem {σ α : Type*} {step : σ → α → σ → Prop} {s s' : σ} {as : List α}
    (hrun : Steps step s as s') : Steps (fun s a s' => a ∈ as ∧ step s a s') s as s' := by
  induction hrun with
  | nil s => exact .nil s
  | @cons s s₁ s' a as hfirst hrest ih =>
    apply Steps.cons ⟨List.mem_cons_self, hfirst⟩
    exact ih.refine id (P := fun _ => True)
      (fun _ _ _ _ h => ⟨trivial, List.mem_cons_of_mem _ h.1, h.2⟩) trivial

/-- A run, and what it leads to, is built from its first step. -/
theorem Steps.reach_cons {σ α : Type*} {step : σ → α → σ → Prop} {s s' : σ} {a : α} {as : List α}
    {P : σ → Prop} (hfirst : step s a s') (hrest : ∃ s'', Steps step s' as s'' ∧ P s'') :
    ∃ s'', Steps step s (a :: as) s'' ∧ P s'' := by
  obtain ⟨s'', hrun, hP⟩ := hrest
  exact ⟨s'', .cons hfirst hrun, hP⟩

theorem Steps.reach_nil {σ α : Type*} {step : σ → α → σ → Prop} {s : σ} {P : σ → Prop} (h : P s) :
    ∃ s'', Steps step s [] s'' ∧ P s'' :=
  ⟨s, .nil s, h⟩

/-! ## Runs that end -/

section Measure

variable {σ α : Type*} {step : σ → α → σ → Prop} {P : σ → Prop} {measure : σ → Nat}

/-- **Measure rule**: a run cannot be longer than what its steps take away from a measure. -/
theorem Steps.length_add_le
    (hstep : ∀ s a s', P s → step s a s' → P s' ∧ measure s' < measure s) {s s' : σ} {as : List α}
    (hrun : Steps step s as s') (hs : P s) : as.length + measure s' ≤ measure s := by
  induction hrun with
  | nil => simp
  | cons hfirst _ ih =>
    obtain ⟨hP, hlt⟩ := hstep _ _ _ hs hfirst
    have hrest := ih hP
    rw [List.length_cons]
    omega

/-- A machine whose steps make a measure smaller can run until no step is left. -/
theorem Steps.exists_stuck
    (hstep : ∀ s a s', P s → step s a s' → P s' ∧ measure s' < measure s) {s : σ} (hs : P s) :
    ∃ as s', Steps step s as s' ∧ ∀ a s'', ¬ step s' a s'' := by
  -- by induction on the measure: take any step that is left
  induction hn : measure s using Nat.strongRecOn generalizing s with
  | ind n ih =>
    by_cases hstuck : ∃ a s', step s a s'
    · obtain ⟨a, s', hfirst⟩ := hstuck
      obtain ⟨hP, hlt⟩ := hstep _ _ _ hs hfirst
      obtain ⟨as, s'', hrun, hend⟩ := ih (measure s') (hn ▸ hlt) hP rfl
      exact ⟨a :: as, s'', .cons hfirst hrun, hend⟩
    · exact ⟨[], s, .nil s, fun a s' hnext => hstuck ⟨a, s', hnext⟩⟩

end Measure

/-! ## Machines with a guard and an effect -/

/-- The steps of a machine whose labels have a guard and an effect. -/
def Guarded {σ α : Type*} (guard : σ → α → Prop) (effect : σ → α → σ) (s : σ) (a : α) (s' : σ) :
    Prop :=
  guard s a ∧ s' = effect s a

/-- **Invariant rule** for a machine with guards. -/
theorem Steps.guarded_invariant {σ α : Type*} {guard : σ → α → Prop} {effect : σ → α → σ}
    {P : σ → Prop} (hstep : ∀ s a, P s → guard s a → P (effect s a)) {s s' : σ} {as : List α}
    (hrun : Steps (Guarded guard effect) s as s') (hs : P s) : P s' := by
  apply hrun.invariant _ hs
  intro s a s' hs hnext
  obtain ⟨hguard, rfl⟩ := hnext
  exact hstep s a hs hguard

/-- Each label passes its guard when its turn comes. -/
def Passes {σ α : Type*} (guard : σ → α → Prop) (effect : σ → α → σ) : σ → List α → Prop
  | _, [] => True
  | s, a :: as => guard s a ∧ Passes guard effect (effect s a) as

instance Passes.decidable {σ α : Type*} {guard : σ → α → Prop} {effect : σ → α → σ}
    [∀ s a, Decidable (guard s a)] : ∀ s as, Decidable (Passes guard effect s as)
  | _, [] => isTrue trivial
  | s, a :: as =>
    have : Decidable (Passes guard effect (effect s a) as) := decidable (effect s a) as
    inferInstanceAs (Decidable (guard s a ∧ Passes guard effect (effect s a) as))

/-- **Execution** of a machine with guards. -/
theorem Steps.of_passes {σ α : Type*} {guard : σ → α → Prop} {effect : σ → α → σ} {as : List α}
    {s : σ} (h : Passes guard effect s as) :
    Steps (Guarded guard effect) s as (as.foldl effect s) := by
  induction as generalizing s with
  | nil => exact .nil s
  | cons a as ih => exact .cons ⟨h.1, rfl⟩ (ih h.2)

/-! ## A step or none -/

/-- A step of the machine, or none: what one step of a finer machine is for it. -/
def Stutter {σ α : Type*} (step : σ → α → σ → Prop) (s : σ) : Option α → σ → Prop
  | some a, s' => step s a s'
  | none, s' => s' = s

theorem Stutter.preserves {σ α : Type*} {step : σ → α → σ → Prop} {P : σ → Prop}
    (hstep : ∀ s a s', P s → step s a s' → P s') {s s' : σ} {a : Option α} (hs : P s)
    (h : Stutter step s a s') : P s' := by
  cases a with
  | none => exact h ▸ hs
  | some a => exact hstep s a s' hs h

end SimpleRpc.Lib
