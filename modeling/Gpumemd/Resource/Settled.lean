import Gpumemd.Resource.Pass

/-!
# No waiting request fits

Whenever the lock is free, every queued request asks for more than what is free
(`Settled`, `reachable_free_lt`): whoever frees memory or queues a request makes a
grant pass, which ends with nothing left that fits, and the operations that make
none only take memory or shorten the queue.

This does not depend on the accounts being right.
-/

namespace Gpumemd

open Library

namespace ResourceManager

variable {s t : ResourceManager} {now : TimePoint} {n : ℕ} {name id : Str} {bytes : Bytes}

/-- No queued request fits in what is free. -/
def Settled (s : ResourceManager) : Prop := ∀ r ∈ s.pending, s.free < r.bytes

theorem settled_grantWaitersLocked (s : ResourceManager) (now : TimePoint) :
    (s.grantWaitersLocked now).Settled :=
  free_lt_of_grantWaitersLocked s now

namespace Settled

/-- Taking memory and shortening the queue leave nothing that fits. -/
theorem mono (h : s.Settled) (hpending : t.pending ⊆ s.pending) (hfree : t.free ≤ s.free) :
    t.Settled := by
  intro r hr
  have hlt := h r (hpending hr)
  exact UInt64.lt_of_le_of_lt hfree hlt

theorem waitLoop (h : s.Settled) : (s.waitLoop n now).1.Settled := by
  have hpass := settled_grantWaitersLocked s now
  rw [ResourceManager.waitLoop]
  split
  · exact h
  · dsimp only
    split
    · exact hpass
    · exact hpass

theorem tryAcquire (h : s.Settled) : (s.tryAcquire name bytes now).1.Settled := by
  rw [ResourceManager.tryAcquire]
  split_ifs
  · exact h
  · exact h
  · exact h
  · exact h
  · exact settled_grantWaitersLocked _ now

theorem acquire (h : s.Settled) {options : AcquireOptions} {later : TimePoint} :
    (s.acquire name bytes options now later).1.Settled := by
  obtain ⟨t, ht, hacquires⟩ := s.acquires name bytes options now later
  generalize s.acquire name bytes options now later = call at hacquires
  cases hacquires with
  | refuses => rcases ht with rfl | rfl <;> exact h
  | tries => exact h.tryAcquire
  | grants _ _ _ hempty =>
    -- nobody is queued
    intro r hr
    exact absurd (hempty ▸ hr : r ∈ []) List.not_mem_nil
  | queues => exact (settled_grantWaitersLocked _ now).waitLoop

theorem expireWait (h : s.Settled) : (s.expireWait n now).1.Settled := by
  rw [ResourceManager.expireWait]
  split
  · exact h
  · exact h.mono List.filter_sublist.subset (UInt64.le_refl _)

theorem release (h : s.Settled) : (s.release name now).1.Settled := by
  rw [ResourceManager.release]
  split_ifs
  · exact h
  · split
    · exact h
    · exact settled_grantWaitersLocked _ now

theorem acquireModel (h : s.Settled) : (s.acquireModel id bytes).1.Settled := by
  rw [ResourceManager.acquireModel]
  split_ifs with _ _ _ hfit
  · exact h
  · exact h
  · exact h
  · exact h
  · exact h.mono (List.Subset.refl _) (free_charge_le (UInt64.not_lt.1 hfit))

theorem releaseModel (h : s.Settled) : (s.releaseModel id now).1.Settled := by
  rw [ResourceManager.releaseModel]
  split_ifs
  · exact h
  · split
    · exact h
    · exact settled_grantWaitersLocked _ now

theorem sumEvictions (h : s.Settled) (evictions : List Str) (evictedBytes : Bytes) :
    (sumEvictions evictions evictedBytes s).1.Settled := by
  induction evictions generalizing s evictedBytes with
  | nil => exact h
  | cons eviction evictions ih =>
    rw [ResourceManager.sumEvictions]
    split
    · exact h
    · exact ih (s := s.noteAdd _ _) h _

theorem replaceModelReservations (h : s.Settled) {evictions : List Str} :
    (s.replaceModelReservations evictions id bytes now).1.Settled := by
  have hsum := h.sumEvictions evictions 0
  rw [ResourceManager.replaceModelReservations]
  split_ifs
  · exact h
  · exact h
  · exact h
  · split
    next heq => exact (congrArg Prod.fst heq ▸ hsum :)
    next t total heq =>
      have ht : t.Settled := (congrArg Prod.fst heq ▸ hsum :)
      dsimp only
      split_ifs
      · exact ht
      · exact settled_grantWaitersLocked _ now
  · exact h

theorem perform (h : s.Settled) (a : Action) : (s.perform a).1.Settled := by
  cases a with
  | tryAcquire => exact h.tryAcquire
  | acquire => exact h.acquire
  | wake n => exact waitLoop (s := s.resume n) h
  | expireWait => exact h.expireWait
  | release => exact h.release
  | acquireModel => exact h.acquireModel
  | releaseModel => exact h.releaseModel
  | replaceModelReservations => exact h.replaceModelReservations
  | cancelWaiters => exact nofun

end Settled

theorem reachable_settled (hs : machine.Reachable s) : s.Settled := by
  refine hs.invariant ?_ ?_
  · rintro s ⟨capacity, policy, h⟩
    obtain rfl := eq_of_create h
    exact nofun
  · rintro s a t _ h ⟨_, rfl⟩
    exact h.perform a

/-- In every state of a run, every queued request is larger than the free memory. -/
theorem reachable_free_lt (hs : machine.Reachable s) :
    ∀ r ∈ s.pending, s.capacity - s.used < r.bytes :=
  reachable_settled hs

theorem reachable_perform (hs : machine.Reachable s) {a : Action} (ha : s.Enabled a) :
    machine.Reachable (s.perform a).1 :=
  hs.step ⟨ha, rfl⟩

/-- A manager of ten bytes, all of them held, with a call blocked for five bytes and one
    for six: the first has been notified, the second waits. -/
def contended : ResourceManager :=
  let s : ResourceManager := { capacity := 10, schedulingPolicy := .priorityFifo }
  let s := (s.perform (.tryAcquire (ascii "holder") 10 0)).1
  let s := (s.perform (.acquire (ascii "first") 5 {} 0 0)).1
  (s.perform (.acquire (ascii "second") 6 {} 0 0)).1

theorem contended_reachable : machine.Reachable contended := by
  have hidle : machine.Reachable { capacity := 10, schedulingPolicy := .priorityFifo } :=
    .init ⟨10, .priorityFifo, rfl⟩
  have hheld := reachable_perform hidle (a := .tryAcquire (ascii "holder") 10 0) trivial
  have hfirst := reachable_perform hheld (a := .acquire (ascii "first") 5 {} 0 0) trivial
  exact reachable_perform hfirst (a := .acquire (ascii "second") 6 {} 0 0) trivial

theorem contended_free_lt :
    contended.pending.length = 2 ∧ ∀ r ∈ contended.pending, contended.capacity - contended.used < r.bytes :=
  ⟨by decide, reachable_free_lt contended_reachable⟩

end ResourceManager

end Gpumemd
