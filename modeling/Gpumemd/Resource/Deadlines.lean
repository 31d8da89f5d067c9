import Gpumemd.Resource.Settled
import Gpumemd.Resource.WakeUps

/-!
# Requests without a deadline

A request that is queued without a deadline stays until it is granted or cancelled. Only
`acquire` queues requests, and only one that asks for more than what is free stays in the
queue after the grant pass that follows (`grantWaitersLocked_of_last_fits`). So the
queue gets a request without a deadline only from the calls that `QueuesForever` tells
(`Timed.perform`).
-/

namespace Gpumemd

open Library

namespace ResourceManager

variable {s t : ResourceManager} {now later : TimePoint} {name : Str} {bytes : Bytes}
  {options : AcquireOptions}

/-- Every queued request has a deadline. -/
def Timed (s : ResourceManager) : Prop := ∀ r ∈ s.pending, r.deadline ≠ TimePoint.max

/-- A call of `acquire` leaves a request in the queue that has no deadline. -/
def QueuesForever (s : ResourceManager) (name : Str) (bytes : Bytes) (options : AcquireOptions)
    (now : TimePoint) : Prop :=
  validName name = true ∧ s.free < bytes ∧ bytes ≤ s.capacity ∧ 0 < options.timeout ∧
    0 ≤ options.estimatedCost ∧ s.hasNameLocked name = false ∧
    deadline now options.timeout = TimePoint.max

instance : Decidable (s.QueuesForever name bytes options now) :=
  inferInstanceAs (Decidable (_ ∧ _ ∧ _ ∧ _ ∧ _ ∧ _ ∧ _))

theorem Timed.mono (h : s.Timed) (hpending : t.pending ⊆ s.pending) : t.Timed :=
  fun r hr => h r (hpending hr)

/-- A call that queues a request leaves none without a deadline, unless it asks for more
    than what is free. -/
theorem Timed.enqueue (h : s.Timed) (hsettled : s.Settled)
    (hnot : ¬ (s.free < bytes ∧ deadline now options.timeout = TimePoint.max)) (n : ℕ) :
    (((s.enqueue name bytes options now).grantWaitersLocked now).waitLoop n later).1.Timed := by
  have hwait :
      (((s.enqueue name bytes options now).grantWaitersLocked now).waitLoop n later).1.pending ⊆
        ((s.enqueue name bytes options now).grantWaitersLocked now).pending :=
    pending_waitLoop_sublist.subset
  by_cases hforever : deadline now options.timeout = TimePoint.max
  · have hfits : bytes ≤ s.free := UInt64.not_lt.1 fun hlt => hnot ⟨hlt, hforever⟩
    have hpass := (grantWaitersLocked_of_last_fits (s := s.enqueue name bytes options now) now rfl
      hsettled hfits (PendingRequest.not_expired_iff.2 (.inl hforever))).2
    rw [hpass] at hwait
    exact h.mono fun r hr => List.mem_of_mem_filter (hwait hr)
  · intro r hr
    have hmem : r ∈ (s.enqueue name bytes options now).pending :=
      pending_grantWaitersLocked_sublist.subset (hwait hr)
    rcases List.mem_append.1 hmem with hmem | hmem
    · exact h r hmem
    · obtain rfl := List.mem_singleton.1 hmem
      exact hforever

theorem Timed.acquire (h : s.Timed) (hsettled : s.Settled)
    (hnot : ¬ s.QueuesForever name bytes options now) :
    (s.acquire name bytes options now later).1.Timed := by
  obtain ⟨t, ht, hacquires⟩ := s.acquires name bytes options now later
  have htimed : t.Timed := by rcases ht with rfl | rfl <;> exact h
  have hsettled' : t.Settled := by rcases ht with rfl | rfl <;> exact hsettled
  have hfree : t.free = s.free := by rcases ht with rfl | rfl <;> rfl
  generalize s.acquire name bytes options now later = call at hacquires
  cases hacquires with
  | refuses => exact htimed
  | tries => exact h.mono pending_tryAcquire_sublist.subset
  | grants => exact htimed
  | queues hname _ htimeout hcapacity hheld hcost =>
    -- the call has been found good before it is queued
    refine htimed.enqueue hsettled' ?_ _
    rintro ⟨hlt, hforever⟩
    exact hnot ⟨hname, hfree ▸ hlt, hcapacity, htimeout, hcost, hheld, hforever⟩

/-- The other operations queue nothing. -/
theorem Timed.perform (h : s.Timed) (hsettled : s.Settled) {a : Action}
    (hnot : ∀ name bytes options now later, a = .acquire name bytes options now later →
      ¬ s.QueuesForever name bytes options now) : (s.perform a).1.Timed := by
  by_cases hacquire : ∃ name bytes options now later, a = .acquire name bytes options now later
  · obtain ⟨name, bytes, options, now, later, rfl⟩ := hacquire
    exact h.acquire hsettled (hnot _ _ _ _ _ rfl)
  · refine h.mono (pending_perform_sublist fun name bytes options now later heq => hacquire ?_).subset
    exact ⟨name, bytes, options, now, later, heq⟩

end ResourceManager

end Gpumemd
