import Mathlib.Data.List.Basic
import Mathlib.Order.WellFounded

/-!
# Runs of a labelled machine

A machine is a step function on states and actions, `none` where an action is not enabled. An action
carries every choice that the environment makes, so a list of actions determines the run. A guard is
a condition on a state and the action taken there; `Guarded` says that every step of a run meets it,
and `Always` that every state of a run has a property.

`Guarded.invariant` is the induction over runs: what holds at the start and is kept by every step
that meets the guard holds at the end. `Guarded.always_iff` and `always_iff_guarded` are the exact
condition of a property that single steps break, `Guarded.at_end_iff` that of one which no step
repairs. `not_infinite_of_measure` turns a measure that
every step decreases into the absence of infinite runs, and `length_add_measure` one that every step
decreases by one into the length of the runs. `Leads` says that some run ends in a state, and
composes. `Padded.run_eq` compares two runs: actions that change nothing may be inserted anywhere.
`run_follows` carries runs of one machine over to another one.
-/

namespace Machine

variable {σ α : Type*} (step : σ → α → Option σ)

/-- The state after a list of actions, `none` if one of them was not enabled. -/
def run : σ → List α → Option σ
  | s, [] => some s
  | s, a :: as => (step s a).bind (run · as)

/-- Every step of the run meets the guard. -/
def Guarded (guard : σ → α → Prop) : σ → List α → Prop
  | _, [] => True
  | s, a :: as => guard s a ∧ ∀ s', step s a = some s' → Guarded guard s' as

/-- Every state that the run passes through, the first and the last included, has the property. -/
def Always (prop : σ → Prop) : σ → List α → Prop
  | s, [] => prop s
  | s, a :: as => prop s ∧ ∀ s', step s a = some s' → Always prop s' as

@[simp] theorem run_nil (s : σ) : run step s [] = some s := rfl

@[simp] theorem run_cons (s : σ) (a : α) (as : List α) :
    run step s (a :: as) = (step s a).bind (run step · as) := rfl

/-- A guard that can be checked can be checked along a run. -/
instance decidableGuarded (guard : σ → α → Prop) [∀ s a, Decidable (guard s a)] :
    ∀ (s : σ) (as : List α), Decidable (Guarded step guard s as)
  | _, [] => isTrue trivial
  | s, a :: as =>
    match h : step s a with
    | none => decidable_of_iff (guard s a) (by simp [Guarded, h])
    | some s' =>
      have := decidableGuarded guard s' as
      decidable_of_iff (guard s a ∧ Guarded step guard s' as) (by simp [Guarded, h])

/-- A property that can be checked can be checked along a run. -/
instance decidableAlways (prop : σ → Prop) [DecidablePred prop] :
    ∀ (s : σ) (as : List α), Decidable (Always step prop s as)
  | s, [] => decidable_of_iff (prop s) Iff.rfl
  | s, a :: as =>
    match h : step s a with
    | none => decidable_of_iff (prop s) (by simp [Always, h])
    | some s' =>
      have := decidableAlways prop s' as
      decidable_of_iff (prop s ∧ Always step prop s' as) (by simp [Always, h])

variable {step}

/-- A guarded run, one step after the other. -/
theorem Guarded.cons {guard : σ → α → Prop} {s s' : σ} {a : α} {as : List α} (hguard : guard s a)
    (hstep : step s a = some s') (hrest : Guarded step guard s' as) :
    Guarded step guard s (a :: as) :=
  ⟨hguard, fun s'' h => by rwa [← Option.some.inj (hstep.symm.trans h)]⟩

/-- A run that meets a guard meets a weaker one. -/
theorem Guarded.mono {guard guard' : σ → α → Prop} (h : ∀ s a, guard s a → guard' s a) {s : σ}
    {as : List α} (hguarded : Guarded step guard s as) : Guarded step guard' s as := by
  induction as generalizing s with
  | nil => trivial
  | cons a as ih => exact ⟨h s a hguarded.1, fun s' hstep => ih (hguarded.2 s' hstep)⟩

/-- The first part of a guarded run is guarded. -/
theorem Guarded.of_append {guard : σ → α → Prop} {s : σ} {as bs : List α}
    (h : Guarded step guard s (as ++ bs)) : Guarded step guard s as := by
  induction as generalizing s with
  | nil => trivial
  | cons a as ih => exact ⟨h.1, fun s' hstep => ih (h.2 s' hstep)⟩

/-- A run of actions that all meet a guard is guarded. -/
theorem Guarded.of_forall_mem {guard : α → Prop} {as : List α} (h : ∀ a ∈ as, guard a) (s : σ) :
    Guarded step (fun _ => guard) s as := by
  induction as generalizing s with
  | nil => trivial
  | cons a as ih =>
    obtain ⟨ha, has⟩ := List.forall_mem_cons.mp h
    exact ⟨ha, fun s' _ => ih has s'⟩

/-- A property of every state of a run is a guard of its steps. -/
theorem Always.guarded {prop : σ → Prop} {s : σ} {as : List α} (h : Always step prop s as) :
    Guarded step (fun s _ => prop s) s as := by
  induction as generalizing s with
  | nil => trivial
  | cons a as ih => exact ⟨h.1, fun s' hstep => ih (h.2 s' hstep)⟩

/-- The induction over runs: an invariant that every guarded step keeps holds at the end of every
guarded run from a state that satisfies it. -/
theorem Guarded.invariant {guard : σ → α → Prop} {inv : σ → Prop}
    (hstep : ∀ s a s', inv s → guard s a → step s a = some s' → inv s') {s s' : σ} {as : List α}
    (hs : inv s) (hguard : Guarded step guard s as) (hrun : run step s as = some s') : inv s' := by
  induction as generalizing s with
  | nil =>
    obtain rfl : s = s' := by simpa using hrun
    exact hs
  | cons a as ih =>
    rw [run_cons] at hrun
    obtain ⟨s₁, h₁, hrun⟩ := Option.bind_eq_some_iff.mp hrun
    exact ih (hstep s a s₁ hs hguard.1 h₁) (hguard.2 s₁ h₁) hrun

/-- The induction over runs without a guard. -/
theorem run_invariant {inv : σ → Prop}
    (hstep : ∀ s a s', inv s → step s a = some s' → inv s') {s s' : σ} {as : List α}
    (hs : inv s) (hrun : run step s as = some s') : inv s' :=
  Guarded.invariant (fun s a s' hi (_ : True) => hstep s a s' hi) hs
    (Guarded.of_forall_mem (fun _ _ => trivial) s) hrun

/-- Where every action is enabled, every list of actions has a run. -/
theorem exists_run (htotal : ∀ s a, ∃ s', step s a = some s') (s : σ) (as : List α) :
    ∃ s', run step s as = some s' := by
  induction as generalizing s with
  | nil => exact ⟨s, rfl⟩
  | cons a as ih =>
    obtain ⟨s₁, h₁⟩ := htotal s a
    obtain ⟨s', hrun⟩ := ih s₁
    exact ⟨s', by rw [run_cons, h₁, Option.bind_some, hrun]⟩

/-- A run in two parts. -/
theorem run_append (s : σ) (as bs : List α) :
    run step s (as ++ bs) = (run step s as).bind fun s' => run step s' bs := by
  induction as generalizing s with
  | nil => rfl
  | cons a as ih =>
    rw [List.cons_append, run_cons, run_cons, Option.bind_assoc]
    exact congrArg _ (funext ih)

variable (step) in
/-- Actions that all meet a guard may lead from a state to another one. -/
def Leads (guard : α → Prop) (s s' : σ) : Prop :=
  ∃ as, (∀ a ∈ as, guard a) ∧ run step s as = some s'

/-- Nothing needs to happen. -/
theorem Leads.refl (guard : α → Prop) (s : σ) : Leads step guard s s :=
  ⟨[], fun _ h => absurd h List.not_mem_nil, rfl⟩

/-- One thing after the other happens. -/
theorem Leads.trans {guard : α → Prop} {s s' s'' : σ} (h : Leads step guard s s')
    (h' : Leads step guard s' s'') : Leads step guard s s'' := by
  obtain ⟨as, has, hrun⟩ := h
  obtain ⟨bs, hbs, hrun'⟩ := h'
  refine ⟨as ++ bs, fun a ha => ?_, by rw [run_append, hrun, Option.bind_some, hrun']⟩
  exact (List.mem_append.mp ha).elim (has a) (hbs a)

/-- An invariant of the actions that meet the guard holds where they lead. -/
theorem Leads.invariant {guard : α → Prop} {inv : σ → Prop}
    (hstep : ∀ s a s', inv s → guard a → step s a = some s' → inv s') {s s' : σ}
    (h : Leads step guard s s') (hs : inv s) : inv s' := by
  obtain ⟨as, has, hrun⟩ := h
  exact Guarded.invariant hstep hs (Guarded.of_forall_mem has s) hrun

/-- The second list is the first with actions of a kind inserted anywhere. -/
inductive Padded (idle : α → Prop) : List α → List α → Prop where
  /-- Nothing is left. -/
  | nil : Padded idle [] []
  /-- An action of both lists. -/
  | keep (a : α) {as as' : List α} (h : Padded idle as as') : Padded idle (a :: as) (a :: as')
  /-- An action that is inserted. -/
  | insert {a : α} (ha : idle a) {as as' : List α} (h : Padded idle as as') :
      Padded idle as (a :: as')

/-- Inserted actions that leave every state of the run as it is leave the run as it is. -/
theorem Padded.run_eq {inv : σ → Prop} {idle : α → Prop}
    (hinv : ∀ s a s', inv s → step s a = some s' → inv s')
    (hidle : ∀ s a, inv s → idle a → step s a = some s) {as as' : List α}
    (h : Padded idle as as') {s : σ} (hs : inv s) : run step s as' = run step s as := by
  induction h generalizing s with
  | nil => rfl
  | @keep a as as' _ ih =>
    rw [run_cons, run_cons]
    cases hstep : step s a with
    | none => rfl
    | some s₁ => exact ih (hinv s a s₁ hs hstep)
  | @insert a ha as as' _ ih =>
    rw [run_cons, hidle s a hs ha]
    exact ih hs

/-- One machine follows another: when every step of the first is a run of the second that shows the
same, so is every run. -/
theorem run_follows {τ β γ : Type*} {step' : τ → β → Option τ} {rel : σ → τ → Prop}
    {shown : α → Option γ} {shown' : β → Option γ}
    (hstep : ∀ s a s' t, rel s t → step s a = some s' →
      ∃ bs t', run step' t bs = some t' ∧ rel s' t' ∧ bs.filterMap shown' = (shown a).toList)
    {s s' : σ} {t : τ} {as : List α} (hrel : rel s t) (hrun : run step s as = some s') :
    ∃ bs t', run step' t bs = some t' ∧ rel s' t' ∧
      bs.filterMap shown' = as.filterMap shown := by
  induction as generalizing s t with
  | nil =>
    obtain rfl : s = s' := by simpa using hrun
    exact ⟨[], t, rfl, hrel, rfl⟩
  | cons a as ih =>
    rw [run_cons] at hrun
    obtain ⟨s₁, h₁, hrun⟩ := Option.bind_eq_some_iff.mp hrun
    obtain ⟨bs, t₁, hbs, hrel₁, hshown⟩ := hstep s a s₁ t hrel h₁
    obtain ⟨bs', t', hbs', hrel', hshown'⟩ := ih hrel₁ hrun
    refine ⟨bs ++ bs', t', by rw [run_append, hbs, Option.bind_some, hbs'], hrel', ?_⟩
    rw [List.filterMap_append, hshown, hshown', List.filterMap_cons]
    cases shown a <;> rfl

/-- A property of every state of a run holds at its end. -/
theorem Always.at_end {prop : σ → Prop} {s s' : σ} {as : List α} (h : Always step prop s as)
    (hrun : run step s as = some s') : prop s' := by
  induction as generalizing s with
  | nil =>
    obtain rfl : s = s' := by simpa using hrun
    exact h
  | cons a as ih =>
    rw [run_cons] at hrun
    obtain ⟨s₁, h₁, hrun⟩ := Option.bind_eq_some_iff.mp hrun
    exact ih (h.2 s₁ h₁) hrun

/-- A property that no step brings about held throughout a run if it holds at its end. -/
theorem Always.of_end {prop : σ → Prop} (hback : ∀ s a s', step s a = some s' → prop s' → prop s)
    {s s' : σ} {as : List α} (hrun : run step s as = some s') (h : prop s') :
    Always step prop s as := by
  induction as generalizing s with
  | nil =>
    obtain rfl : s = s' := by simpa using hrun
    exact h
  | cons a as ih =>
    rw [run_cons] at hrun
    obtain ⟨s₁, h₁, hrun⟩ := Option.bind_eq_some_iff.mp hrun
    have hrest := ih hrun
    have hs₁ : prop s₁ := by
      cases as with
      | nil => exact hrest
      | cons b as => exact hrest.1
    refine ⟨hback s a s₁ h₁ hs₁, fun s'' hs'' => ?_⟩
    rwa [← Option.some.inj (h₁.symm.trans hs'')]

/-- The exact condition of a property of the runs whose steps meet a premise: when a step from a
state with the property leads to one with it exactly if the step meets the guard, the property holds
throughout a run exactly if every step of the run meets the guard. An invariant of the steps that
meet the premise may be used. -/
theorem Guarded.always_iff {inv prop : σ → Prop} {premise guard : σ → α → Prop}
    (hinv : ∀ s a s', inv s → premise s a → step s a = some s' → inv s')
    (hprop : ∀ s a s', inv s → premise s a → prop s → step s a = some s' → (prop s' ↔ guard s a))
    (henabled : ∀ s a, step s a = none → guard s a) {s : σ} (hs : inv s) (h : prop s)
    {as : List α} (hpremise : Guarded step premise s as) :
    Always step prop s as ↔ Guarded step guard s as := by
  induction as generalizing s with
  | nil => exact iff_of_true h trivial
  | cons a as ih =>
    cases hstep : step s a with
    | none =>
      refine iff_of_true ⟨h, fun s' hs' => ?_⟩ ⟨henabled s a hstep, fun s' hs' => ?_⟩
      · exact absurd hs' (by simp [hstep])
      · exact absurd hs' (by simp [hstep])
    | some s₁ =>
      have hs₁ : inv s₁ := hinv s a s₁ hs hpremise.1 hstep
      have hiff : prop s₁ ↔ guard s a := hprop s a s₁ hs hpremise.1 h hstep
      have hpremise₁ : Guarded step premise s₁ as := hpremise.2 s₁ hstep
      constructor
      · rintro ⟨-, hrest⟩
        have h₁ : prop s₁ := by
          cases as with
          | nil => exact hrest s₁ hstep
          | cons b as => exact (hrest s₁ hstep).1
        refine ⟨hiff.mp h₁, fun s' hs' => ?_⟩
        obtain rfl : s₁ = s' := by simpa [hstep] using hs'
        exact (ih hs₁ h₁ hpremise₁).mp (hrest s₁ hstep)
      · rintro ⟨hguard, hrest⟩
        refine ⟨h, fun s' hs' => ?_⟩
        obtain rfl : s₁ = s' := by simpa [hstep] using hs'
        exact (ih hs₁ (hiff.mpr hguard) hpremise₁).mpr (hrest s₁ hstep)

/-- The exact condition of a property that single steps break and no step repairs: it holds at the
end of a run exactly if every step meets the guard. -/
theorem Guarded.at_end_iff {inv prop : σ → Prop} {premise guard : σ → α → Prop}
    (hinv : ∀ s a s', inv s → premise s a → step s a = some s' → inv s')
    (hprop : ∀ s a s', inv s → premise s a → prop s → step s a = some s' → (prop s' ↔ guard s a))
    (henabled : ∀ s a, step s a = none → guard s a)
    (hback : ∀ s a s', step s a = some s' → prop s' → prop s) {s s' : σ} (hs : inv s) (h : prop s)
    {as : List α} (hpremise : Guarded step premise s as) (hrun : run step s as = some s') :
    prop s' ↔ Guarded step guard s as := by
  rw [← Guarded.always_iff hinv hprop henabled hs h hpremise]
  exact ⟨fun h' => Always.of_end hback hrun h', fun h' => h'.at_end hrun⟩

/-- The exact condition of a property of all runs. -/
theorem always_iff_guarded {inv prop : σ → Prop} {guard : σ → α → Prop}
    (hinv : ∀ s a s', inv s → step s a = some s' → inv s')
    (hprop : ∀ s a s', inv s → prop s → step s a = some s' → (prop s' ↔ guard s a))
    (henabled : ∀ s a, step s a = none → guard s a) {s : σ} (hs : inv s) (h : prop s)
    (as : List α) : Always step prop s as ↔ Guarded step guard s as :=
  Guarded.always_iff (fun s a s' hs (_ : True) => hinv s a s' hs)
    (fun s a s' hs _ => hprop s a s' hs) henabled hs h
    (Guarded.of_forall_mem (fun _ _ => trivial) s)

/-- A measure in a well-founded order that every guarded step decreases rules out infinite runs of
guarded steps. -/
theorem not_infinite_of_measure {β : Type*} {r : β → β → Prop} (hwf : WellFounded r)
    {guard : α → Prop} (measure : σ → β)
    (hdec : ∀ s a s', guard a → step s a = some s' → r (measure s') (measure s)) :
    ¬ ∃ (states : ℕ → σ) (actions : ℕ → α),
      ∀ n, guard (actions n) ∧ step (states n) (actions n) = some (states (n + 1)) := by
  rintro ⟨states, actions, h⟩
  have hdesc : ∀ n, r (measure (states (n + 1))) (measure (states n)) :=
    fun n => hdec _ _ _ (h n).1 (h n).2
  exact (wellFounded_iff_isEmpty_descending_chain.mp hwf).false ⟨fun n => measure (states n), hdesc⟩

/-- A measure that every guarded step decreases by one counts the steps of guarded runs. -/
theorem length_add_measure {guard : α → Prop} (measure : σ → ℕ)
    (hdec : ∀ s a s', guard a → step s a = some s' → measure s' + 1 = measure s) {s s' : σ}
    {as : List α} (hguard : ∀ a ∈ as, guard a) (hrun : run step s as = some s') :
    as.length + measure s' = measure s := by
  induction as generalizing s with
  | nil =>
    obtain rfl : s = s' := by simpa using hrun
    exact Nat.zero_add _
  | cons a as ih =>
    obtain ⟨ha, has⟩ := List.forall_mem_cons.mp hguard
    obtain ⟨s₁, hstep, hrun⟩ := Option.bind_eq_some_iff.mp hrun
    have hone := hdec s a s₁ ha hstep
    have hrest := ih has hrun
    rw [List.length_cons]
    omega

end Machine
