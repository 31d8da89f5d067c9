import Gpumemd.Resource.Outcomes

/-!
# Who may go on

A call that is blocked in `condition_.wait` stays blocked until it runs itself: whatever the
others do, they notify it at most (`blocked_perform`). When it runs, it returns if its request
is completed (`wake_returns`) or if its deadline has come (`expireWait_returns`). Only a call
whose request is queued without a deadline depends on the others.
-/

namespace Gpumemd

namespace ResourceManager

variable {s t : ResourceManager} {a : Action} {n m : ℕ} {now : TimePoint}

/-! ## Blocked calls stay blocked -/

theorem blocked_congr (hwaiting : t.waiting = s.waiting) (hnotified : t.notified = s.notified)
    (h : s.Blocked n) : t.Blocked n := by
  rwa [Blocked, hwaiting, hnotified]

/-- A grant pass notifies the calls that wait. -/
theorem blocked_grantWaitersLocked (h : s.Blocked n) : (s.grantWaitersLocked now).Blocked n := by
  rw [Blocked, notified_grantWaitersLocked, Finset.mem_union]
  exact .inr h.symm

theorem blocked_wait (m : ℕ) (h : s.Blocked n) : (s.wait m).Blocked n := by
  by_cases hn : n = m
  · exact .inl (hn ▸ Finset.mem_insert_self _ _)
  · exact h.imp (Finset.mem_insert_of_mem ·) (Finset.mem_erase.2 ⟨hn, ·⟩)

theorem blocked_resume (hn : n ≠ m) (h : s.Blocked n) : (s.resume m).Blocked n :=
  h.imp (Finset.mem_erase.2 ⟨hn, ·⟩) (Finset.mem_erase.2 ⟨hn, ·⟩)

theorem blocked_waitLoop (m : ℕ) (h : s.Blocked n) : (s.waitLoop m now).1.Blocked n := by
  rw [waitLoop]
  split
  next => exact h
  next =>
    dsimp only
    split
    next => exact blocked_grantWaitersLocked h
    next => exact blocked_wait m (blocked_grantWaitersLocked h)

theorem blocked_tryAcquire (name : Str) (bytes : Bytes) (now : TimePoint) (h : s.Blocked n) :
    (s.tryAcquire name bytes now).1.Blocked n := by
  rw [tryAcquire]
  split_ifs
  any_goals exact h
  exact blocked_grantWaitersLocked (blocked_congr rfl rfl h)

theorem blocked_acquire (name : Str) (bytes : Bytes) (options : AcquireOptions)
    (now later : TimePoint) (h : s.Blocked n) :
    (s.acquire name bytes options now later).1.Blocked n := by
  obtain ⟨t, ht, hacquires⟩ := s.acquires name bytes options now later
  have hnoted : t.Blocked n := by rcases ht with rfl | rfl <;> exact h
  generalize s.acquire name bytes options now later = call at hacquires ⊢
  cases hacquires with
  | refuses => exact hnoted
  | tries => exact blocked_tryAcquire name bytes now h
  | grants => exact hnoted
  | queues => exact blocked_waitLoop _ (blocked_grantWaitersLocked (blocked_congr rfl rfl hnoted))

theorem blocked_sumEvictions (evictions : List Str) (evictedBytes : Bytes) (h : s.Blocked n) :
    (sumEvictions evictions evictedBytes s).1.Blocked n := by
  induction evictions generalizing s evictedBytes with
  | nil => exact h
  | cons eviction evictions ih =>
    rw [sumEvictions]
    split
    next => exact h
    next => exact ih _ (blocked_congr rfl rfl h)

theorem blocked_dropEvictions (evictions : List Str) (h : s.Blocked n) :
    (dropEvictions evictions s).Blocked n := by
  induction evictions generalizing s with
  | nil => exact h
  | cons eviction evictions ih =>
    rw [dropEvictions]
    split
    next => exact ih h
    next => exact ih (blocked_congr rfl rfl h)

theorem blocked_replaceModelReservations (evictions : List Str) (id : Str) (bytes : Bytes)
    (now : TimePoint) (h : s.Blocked n) :
    (s.replaceModelReservations evictions id bytes now).1.Blocked n := by
  have hsum := blocked_sumEvictions evictions 0 h
  rw [replaceModelReservations]
  split_ifs
  any_goals exact h
  split
  next hnone =>
    rw [hnone] at hsum
    exact hsum
  next t evictedBytes hsome =>
    rw [hsome] at hsum
    dsimp only
    split_ifs
    · exact hsum
    · exact blocked_grantWaitersLocked
        (blocked_congr rfl rfl (blocked_dropEvictions evictions (blocked_congr rfl rfl hsum)))

theorem blocked_expireWait (hn : n ≠ m) (h : s.Blocked n) : (s.expireWait m now).1.Blocked n := by
  rw [expireWait]
  split
  next => exact blocked_resume hn h
  next => exact blocked_resume hn h

/-- The call that a step lets run. -/
def Action.resumed : Action → Option ℕ
  | .wake n _ => some n
  | .expireWait n _ => some n
  | _ => none

/-- A blocked call stays blocked until it runs. -/
theorem blocked_perform (hn : a.resumed ≠ some n) (h : s.Blocked n) : (s.perform a).1.Blocked n := by
  cases a with
  | tryAcquire name bytes now => exact blocked_tryAcquire name bytes now h
  | acquire name bytes options now later => exact blocked_acquire name bytes options now later h
  | wake m now => exact blocked_waitLoop m (blocked_resume (fun heq => hn (congrArg some heq.symm)) h)
  | expireWait m now => exact blocked_expireWait (fun heq => hn (congrArg some heq.symm)) h
  | release name now =>
    show (s.release name now).1.Blocked n
    rw [release]
    split_ifs
    · exact h
    · split
      next => exact h
      next => exact blocked_grantWaitersLocked (blocked_congr rfl rfl h)
  | acquireModel id bytes =>
    show (s.acquireModel id bytes).1.Blocked n
    rw [acquireModel]
    split_ifs <;> exact h
  | releaseModel id now =>
    show (s.releaseModel id now).1.Blocked n
    rw [releaseModel]
    split_ifs
    · exact h
    · split
      next => exact h
      next => exact blocked_grantWaitersLocked (blocked_congr rfl rfl h)
  | replaceModelReservations evictions id bytes now =>
    exact blocked_replaceModelReservations evictions id bytes now h
  | cancelWaiters =>
    refine .inr (Finset.mem_union.2 ?_)
    exact h.symm

/-! ## Blocked calls that may return -/

/-- A call that runs again waits again, unless it returns. -/
theorem blocked_of_wake (h : (s.wake n now).2 = none) : (s.wake n now).1.Blocked n :=
  .inl ((result_of_waitLoop _ _ _).2 h)

/-- A call that queues its request waits, unless it returns. -/
theorem blocked_of_acquire {name : Str} {bytes : Bytes} {options : AcquireOptions}
    {later : TimePoint} (h : (s.acquire name bytes options now later).2 = none) :
    (s.acquire name bytes options now later).1.Blocked s.nextSequence := by
  obtain ⟨t, -, hacquires⟩ := s.acquires name bytes options now later
  generalize s.acquire name bytes options now later = call at hacquires h ⊢
  cases hacquires with
  | refuses => cases h
  | tries => cases h
  | grants => cases h
  | queues => exact .inl ((result_of_waitLoop _ _ _).2 h)

/-- So does a call whose wait times out. -/
theorem expireWait_returns (n : ℕ) (now : TimePoint) : (s.expireWait n now).2 ≠ none := by
  rw [expireWait]
  split
  next result _ => exact Option.some_ne_none result
  next => exact Option.some_ne_none _

/-- The request of the call `n` is queued, and nothing but the others completes it. -/
def Unbounded (s : ResourceManager) (n : ℕ) : Prop :=
  ∃ r ∈ s.pending, r.sequence = n ∧ r.deadline = TimePoint.max

/-- A request without a deadline stays in the queue when a call wakes up, as nothing that is
    queued fits. -/
theorem mem_pending_wake (hs : s.Settled) {r : PendingRequest} (hr : r ∈ s.pending)
    (hdeadline : r.deadline = TimePoint.max) : r ∈ (s.wake m now).1.pending := by
  have hkept : r ∈ ((s.resume m).grantWaitersLocked now).pending := by
    rw [grantWaitersLocked_of_unfit (s := s.resume m) hs]
    refine List.mem_filter.2 ⟨hr, ?_⟩
    simp [PendingRequest.expired, hdeadline]
  rw [wake, waitLoop]
  split
  next => exact hr
  next =>
    dsimp only
    split
    next => exact hkept
    next => exact hkept

theorem unbounded_wake (hs : s.Settled) (h : s.Unbounded n) (m : ℕ) (now : TimePoint) :
    (s.wake m now).1.Unbounded n := by
  obtain ⟨r, hr, hn, hdeadline⟩ := h
  exact ⟨r, mem_pending_wake hs hr hdeadline, hn, hdeadline⟩

/-- A call whose request is queued without a deadline wakes up in vain. -/
theorem wake_of_unbounded (hs : machine.Reachable s) (hblocked : s.Blocked n) (h : s.Unbounded n) :
    (s.wake n now).2 = none := by
  obtain ⟨r, hr, rfl, -⟩ := unbounded_wake (reachable_settled hs) h n now
  have ht := reachable_inv (reachable_perform hs (a := .wake _ now) hblocked)
  have hresult : (s.wake r.sequence now).2 = (s.wake r.sequence now).1.outcome r.sequence :=
    (result_of_waitLoop _ _ _).1
  rw [hresult]
  exact ht.tracked.outcome_of_pending hr

/-- Its wait does not time out. -/
theorem not_enabled_expireWait (hs : Tracked s) (h : s.Unbounded n) :
    ¬ s.Enabled (.expireWait n now) := by
  obtain ⟨r, hr, rfl, hdeadline⟩ := h
  rintro ⟨-, request, hrequest, hexpired⟩
  rw [hs.request?_eq (List.mem_append_left _ hr)] at hrequest
  obtain rfl := Option.some.inj hrequest
  exact (PendingRequest.expired_iff.1 hexpired).1 hdeadline

end ResourceManager

end Gpumemd
