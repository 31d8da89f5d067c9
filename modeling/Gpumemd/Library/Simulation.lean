import Gpumemd.Library.Machine

/-!
# Refinement mappings

A map from the states of a machine to those of another is a *refinement* if it takes
initial states to initial states, and every step from a reachable state to a step or to no
change. What the one machine reaches is then mapped to what the other one reaches
(`Refines.reachable`), and so are its runs (`Refines.run`): what holds of every reachable
state of the other machine holds of the images.
-/

namespace Library

namespace Machine

variable {σ α τ β : Type*}

/-- The map takes the steps of `c` to steps of `m`, or to no change. -/
structure Refines (c : Machine σ α) (m : Machine τ β) (f : σ → τ) : Prop where
  init : ∀ s, c.init s → m.init (f s)
  step : ∀ s a s', c.Reachable s → c.step s a s' → (∃ b, m.step (f s) b (f s')) ∨ f s' = f s

namespace Refines

variable {c : Machine σ α} {m : Machine τ β} {f : σ → τ} {s s' : σ}

theorem reachable (h : c.Refines m f) (hs : c.Reachable s) : m.Reachable (f s) := by
  induction hs with
  | init hinit => exact .init (h.init _ hinit)
  | step hs hstep ih =>
    rcases h.step _ _ _ hs hstep with ⟨b, hb⟩ | hsame
    · exact ih.step hb
    · rw [hsame]
      exact ih

/-- A run from a reachable state is mapped to a run. -/
theorem run (h : c.Refines m f) {as : List α} (hr : c.Run s as s') (hs : c.Reachable s) :
    ∃ bs, m.Run (f s) bs (f s') := by
  induction hr with
  | nil => exact ⟨[], .nil _⟩
  | cons hstep _ ih =>
    obtain ⟨bs, hbs⟩ := ih (hs.step hstep)
    rcases h.step _ _ _ hs hstep with ⟨b, hb⟩ | hsame
    · exact ⟨b :: bs, .cons hb hbs⟩
    · exact ⟨bs, hsame ▸ hbs⟩

end Refines

end Machine

end Library
