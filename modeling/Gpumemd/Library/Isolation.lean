import Mathlib.Data.List.Basic

/-!
# Calls that have nothing to do with each other

The calls of a component have keys. They are *isolated* if what a call answers, and what it leaves at
its key, depends only on what there is at its key, and it changes nothing at others (`Isolated`).
Then the calls at a key do what they would do if there were no others (`Isolated.filter`), so calls
may come in another order, as long as those at each key keep theirs (`Isolated.reorder`).
-/

namespace Library

variable {σ α β κ ν : Type*}

/-- The state after the calls. -/
def stateAfter (perform : σ → α → σ × β) (s : σ) (as : List α) : σ :=
  as.foldl (fun s a => (perform s a).1) s

/-- The calls, each with its answer. -/
def callsAnswered (perform : σ → α → σ × β) : σ → List α → List (α × β)
  | _, [] => []
  | s, a :: as => (a, (perform s a).2) :: callsAnswered perform (perform s a).1 as

/-- A call depends only on what there is at its key, and only changes that. -/
structure Isolated (perform : σ → α → σ × β) (key : α → κ) (view : σ → κ → ν) : Prop where
  answer : ∀ s t a, view s (key a) = view t (key a) → (perform s a).2 = (perform t a).2
  change : ∀ s t a, view s (key a) = view t (key a) →
    view (perform s a).1 (key a) = view (perform t a).1 (key a)
  frame : ∀ s a k, key a ≠ k → view (perform s a).1 k = view s k

namespace Isolated

variable {perform : σ → α → σ × β} {key : α → κ} {view : σ → κ → ν} [DecidableEq κ] {s t : σ} {k : κ}

/-- The calls at a key do the same without the others. -/
theorem filter (h : Isolated perform key view) (hview : view s k = view t k) (as : List α) :
    view (stateAfter perform s as) k = view (stateAfter perform t (as.filter (key · = k))) k ∧
      (callsAnswered perform s as).filter (key ·.1 = k) =
        callsAnswered perform t (as.filter (key · = k)) := by
  induction as generalizing s t with
  | nil => exact ⟨hview, rfl⟩
  | cons a as ih =>
    rw [callsAnswered]
    by_cases hk : key a = k
    · rw [List.filter_cons_of_pos (by simpa using hk), List.filter_cons_of_pos (by simpa using hk)]
      subst hk
      obtain ⟨hstate, hcalls⟩ := ih (h.change s t a hview)
      rw [callsAnswered, h.answer s t a hview, hcalls]
      exact ⟨hstate, rfl⟩
    · rw [List.filter_cons_of_neg (by simpa using hk), List.filter_cons_of_neg (by simpa using hk)]
      exact ih ((h.frame s a k hk).trans hview)

/-- The order of calls at different keys makes no difference. -/
theorem reorder (h : Isolated perform key view) {as bs : List α}
    (hcalls : as.filter (key · = k) = bs.filter (key · = k)) :
    view (stateAfter perform s as) k = view (stateAfter perform s bs) k ∧
      (callsAnswered perform s as).filter (key ·.1 = k) =
        (callsAnswered perform s bs).filter (key ·.1 = k) := by
  obtain ⟨hstate, hanswers⟩ := h.filter (s := s) (k := k) rfl as
  obtain ⟨hstate', hanswers'⟩ := h.filter (s := s) (k := k) rfl bs
  rw [hcalls] at hstate hanswers
  exact ⟨hstate.trans hstate'.symm, hanswers.trans hanswers'.symm⟩

end Isolated

end Library
