import Mathlib.Logic.Relation

/-!
# Labelled machines

A machine on states `σ` with actions `α`: a set of initial states and a step
relation. What holds of a machine is proved in one of three ways:

* of every reachable state, from what the steps preserve
  (`Reachable.invariant`);
* from one state of a run on, from what the steps preserve (`Run.preserved`,
  `Run.stable`);
* of the runs that only take some of the steps, by restricting the machine to
  these (`Machine.restrict`, `Run.stable_restrict`).
-/

namespace Library

/-- A machine on the states `σ` with the actions `α`. -/
structure Machine (σ α : Type*) where
  /-- The initial states. -/
  init : σ → Prop
  /-- The steps. -/
  step : σ → α → σ → Prop

namespace Machine

variable {σ α : Type*} (m : Machine σ α)

/-- The states reachable from an initial state. -/
inductive Reachable : σ → Prop
  | init {s : σ} : m.init s → Reachable s
  | step {s s' : σ} {a : α} : Reachable s → m.step s a s' → Reachable s'

/-- A run from a state to another, through the given actions. -/
inductive Run : σ → List α → σ → Prop
  | nil (s : σ) : Run s [] s
  | cons {s s' s'' : σ} {a : α} {as : List α} :
      m.step s a s' → Run s' as s'' → Run s (a :: as) s''

/-- The machine that only takes the steps of `m` admitted by `C`. -/
def restrict (C : σ → α → σ → Prop) : Machine σ α where
  init := m.init
  step s a s' := m.step s a s' ∧ C s a s'

variable {m}

/-- What holds initially and is preserved by the steps from reachable states
    holds of every reachable state. -/
theorem Reachable.invariant {P : σ → Prop} (init : ∀ s, m.init s → P s)
    (step : ∀ s a s', m.Reachable s → P s → m.step s a s' → P s') {s : σ}
    (hs : m.Reachable s) : P s := by
  induction hs with
  | init h => exact init _ h
  | step hs h ih => exact step _ _ _ hs ih h

/-- A run from a reachable state ends in a reachable state. -/
theorem Reachable.run {s s' : σ} {as : List α} (hs : m.Reachable s) (hr : m.Run s as s') :
    m.Reachable s' := by
  induction hr with
  | nil => exact hs
  | cons h _ ih => exact ih (hs.step h)

/-- What the steps preserve, runs preserve. -/
theorem Run.preserved {P : σ → Prop} (step : ∀ s a s', P s → m.step s a s' → P s')
    {s s' : σ} {as : List α} (hr : m.Run s as s') (h : P s) : P s' := by
  induction hr with
  | nil => exact h
  | cons hstep _ ih => exact ih (step _ _ _ h hstep)

/-- What the steps from reachable states preserve, runs preserve. -/
theorem Run.stable {P : σ → Prop} (step : ∀ s a s', m.Reachable s → P s → m.step s a s' → P s')
    {s s' : σ} {as : List α} (hr : m.Run s as s') (hs : m.Reachable s) (h : P s) : P s' := by
  induction hr with
  | nil => exact h
  | cons hstep _ ih => exact ih (hs.step hstep) (step _ _ _ hs h hstep)

/-- What the admitted steps from reachable states preserve, runs of these preserve. -/
theorem Run.stable_restrict {C : σ → α → σ → Prop} {P : σ → Prop}
    (step : ∀ s a s', m.Reachable s → P s → m.step s a s' → C s a s' → P s')
    {s s' : σ} {as : List α} (hr : (m.restrict C).Run s as s') (hs : m.Reachable s) (h : P s) :
    P s' := by
  induction hr with
  | nil => exact h
  | cons hstep _ ih => exact ih (hs.step hstep.1) (step _ _ _ hs h hstep.1 hstep.2)

/-- Where the steps are the results of a function, the actions that it takes in turn make a
    run. -/
theorem run_of_foldlM {perform : σ → α → Option σ}
    (hstep : ∀ s a s', perform s a = some s' → m.step s a s') {s s' : σ} {as : List α}
    (h : as.foldlM perform s = some s') : m.Run s as s' := by
  induction as generalizing s with
  | nil =>
    obtain rfl := Option.some.inj h
    exact .nil s
  | cons a as ih =>
    rw [List.foldlM_cons] at h
    obtain ⟨t, hperform, hrest⟩ := Option.bind_eq_some_iff.1 h
    exact .cons (hstep _ _ _ hperform) (ih hrest)

/-- The state that they lead to is reachable, and where one of them may not be taken, the first
    one stands for it. -/
theorem Reachable.getD_foldlM {perform : σ → α → Option σ}
    (hstep : ∀ s a s', perform s a = some s' → m.step s a s') {s : σ} (hs : m.Reachable s)
    (as : List α) : m.Reachable ((as.foldlM perform s).getD s) := by
  cases h : as.foldlM perform s with
  | none => exact hs
  | some t => exact hs.run (run_of_foldlM hstep h)

/-- A run of a restricted machine is a run of the machine. -/
theorem Run.of_restrict {C : σ → α → σ → Prop} {s s' : σ} {as : List α}
    (hr : (m.restrict C).Run s as s') : m.Run s as s' := by
  induction hr with
  | nil => exact .nil _
  | cons h _ ih => exact .cons h.1 ih

/-- Every state a restricted machine reaches, the machine reaches. -/
theorem Reachable.of_restrict {C : σ → α → σ → Prop} {s : σ}
    (hs : (m.restrict C).Reachable s) : m.Reachable s := by
  induction hs with
  | init h => exact .init h
  | step _ h ih => exact ih.step h.1

/-- What a restricted machine reaches, one that admits more reaches. -/
theorem Reachable.mono {C C' : σ → α → σ → Prop} (hC : ∀ s a s', C s a s' → C' s a s') {s : σ}
    (hs : (m.restrict C).Reachable s) : (m.restrict C').Reachable s := by
  induction hs with
  | init h => exact .init h
  | step _ h ih => exact ih.step ⟨h.1, hC _ _ _ h.2⟩

end Machine

end Library
