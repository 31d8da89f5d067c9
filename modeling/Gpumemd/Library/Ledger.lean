import Mathlib.Data.Multiset.AddSub
import Mathlib.Algebra.Ring.Nat

/-!
# Ledgers

Whoever gives out resources keeps a ledger: what it has given out and not taken back
(`live`), and whether something was named that it had not given out (`stale`). A resource
may be given out more than once.

What the holders still know of and what they have lost track of are the two parts of what
is given out (`Accounts`). As long as holders only name what they know of, nothing is stale
(`Accounts.use`), and nothing is given back twice (`Accounts.giveBack`).
-/

namespace Library

/-- What has been given out. -/
structure Ledger (ρ : Type*) where
  /-- What has been given out and not been taken back. -/
  live : Multiset ρ := 0
  /-- Something was named that was not given out. -/
  stale : Bool := false

namespace Ledger

variable {ρ : Type*}

/-- Gives the resource out. -/
def grant (l : Ledger ρ) (r : ρ) : Ledger ρ := { l with live := r ::ₘ l.live }

/-- Nothing is stale, and what is given out is held or lost. -/
structure Accounts (l : Ledger ρ) (held lost : Multiset ρ) : Prop where
  fresh : l.stale = false
  live : l.live = held + lost

variable {l : Ledger ρ} {r : ρ} {held lost : Multiset ρ}

theorem Accounts.empty : Accounts ({} : Ledger ρ) 0 0 := ⟨rfl, rfl⟩

theorem Accounts.mem_live (h : Accounts l held lost) (hr : r ∈ held) : r ∈ l.live := by
  rw [h.live]
  exact Multiset.mem_add.2 (.inl hr)

theorem Accounts.grant (h : Accounts l held lost) (r : ρ) :
    Accounts (l.grant r) (r ::ₘ held) lost := by
  refine ⟨h.fresh, ?_⟩
  rw [Ledger.grant, h.live, Multiset.cons_add]

/-- What is held may be lost track of. -/
theorem Accounts.lose (h : Accounts l (r ::ₘ held) lost) : Accounts l held (r ::ₘ lost) := by
  refine ⟨h.fresh, ?_⟩
  rw [h.live, Multiset.cons_add, Multiset.add_cons]

variable [DecidableEq ρ]

/-- The resource is named. -/
def use (l : Ledger ρ) (r : ρ) : Ledger ρ := { l with stale := l.stale || r ∉ l.live }

/-- The resource is named to be taken back, which may be refused. -/
def giveBack (l : Ledger ρ) (r : ρ) (taken : Bool) : Ledger ρ :=
  { l.use r with live := if taken then l.live.erase r else l.live }

/-- What is held may be named. -/
theorem Accounts.use (h : Accounts l held lost) (hr : r ∈ held) : l.use r = l := by
  have hstale : (l.stale || decide (r ∉ l.live)) = l.stale := by
    simp [h.mem_live hr]
  rw [Ledger.use, hstale]

/-- What is held may be given back, once. -/
theorem Accounts.giveBack (h : Accounts l (r ::ₘ held) lost) :
    Accounts (l.giveBack r true) held lost := by
  refine ⟨?_, ?_⟩
  · rw [Ledger.giveBack, h.use (Multiset.mem_cons_self r held)]
    exact h.fresh
  · show l.live.erase r = held + lost
    rw [h.live, Multiset.cons_add, Multiset.erase_cons_head]

/-- Where it is not taken back, it is still given out. -/
theorem Accounts.refuse (h : Accounts l held lost) (hr : r ∈ held) :
    l.giveBack r false = l := by
  rw [Ledger.giveBack, h.use hr]
  rfl

/-- What is given back is taken, or lost track of. -/
theorem Accounts.drop (h : Accounts l (r ::ₘ held) lost) (taken : Bool) :
    Accounts (l.giveBack r taken) held (if taken then lost else r ::ₘ lost) := by
  cases taken with
  | true => exact h.giveBack
  | false =>
    rw [h.refuse (Multiset.mem_cons_self r held)]
    exact h.lose

end Ledger

end Library
