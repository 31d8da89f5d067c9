import Gpumemd.Resource.Requests

/-!
# The outcome of a queued request

A request can be completed by a grant pass of any call, by the expiry of its own
wait, or by a cancellation, and these race. Whichever comes first is final:

* a call returns the outcome of its request (`result_of_perform`);
* the request succeeds if it was granted, exactly once
  (`Tracked.outcome_eq_success_iff`), and times out if it was cancelled or reached
  its deadline (`Tracked.outcome_eq_timeout_iff`), never having been granted
  (`Tracked.outcome_eq_timeout_iff_not_granted`);
* the outcome does not change any more (`reachable_outcomes`).
-/

namespace Gpumemd

open Library

namespace ResourceManager

variable {s : ResourceManager} {now : TimePoint} {n : ℕ}

/-! ## What the calls return -/

section Calls

variable {name : Str} {bytes : Bytes} {options : AcquireOptions} {later : TimePoint}

/-- The loop of `acquire` ends with the outcome of the request, or waits for it. -/
theorem result_of_waitLoop (s : ResourceManager) (n : ℕ) (now : TimePoint) :
    (s.waitLoop n now).2 = (s.waitLoop n now).1.outcome n ∧
      ((s.waitLoop n now).2 = none → n ∈ (s.waitLoop n now).1.waiting) := by
  rw [waitLoop]
  split
  next result hout => exact ⟨hout.symm, fun hnone => absurd hnone (Option.some_ne_none result)⟩
  next =>
    dsimp only
    split
    next result hout => exact ⟨hout.symm, fun hnone => absurd hnone (Option.some_ne_none result)⟩
    next hout => exact ⟨hout.symm, fun _ => Finset.mem_insert_self _ _⟩

theorem nextSequence_tryAcquire :
    (s.tryAcquire name bytes now).1.nextSequence = s.nextSequence := by
  rw [tryAcquire]
  split_ifs
  any_goals rfl
  exact nextSequence_grantWaitersLocked

/-- A call of `acquire` that queues its request enters the loop. -/
theorem acquire_of_queued (h : Accounted s)
    (hqueued : s.nextSequence < (s.acquire name bytes options now later).1.nextSequence) :
    ∃ t : ResourceManager,
      s.acquire name bytes options now later = t.waitLoop s.nextSequence later := by
  have hacquires := h.acquires name bytes options now later
  generalize s.acquire name bytes options now later = call at hacquires hqueued ⊢
  cases hacquires with
  | refuses => exact absurd hqueued (lt_irrefl _)
  | tries =>
    rw [nextSequence_tryAcquire] at hqueued
    exact absurd hqueued (lt_irrefl _)
  | grants => exact absurd hqueued (lt_irrefl _)
  | queues => exact ⟨_, rfl⟩

theorem result_of_acquire (h : Accounted s)
    (hqueued : s.nextSequence < (s.acquire name bytes options now later).1.nextSequence) :
    (s.acquire name bytes options now later).2 =
        (s.acquire name bytes options now later).1.outcome s.nextSequence ∧
      ((s.acquire name bytes options now later).2 = none →
        s.nextSequence ∈ (s.acquire name bytes options now later).1.waiting) := by
  obtain ⟨t, ht⟩ := acquire_of_queued h hqueued
  rw [ht]
  exact result_of_waitLoop t s.nextSequence later

/-- A call whose wait times out returns the outcome of its request. -/
theorem result_of_expireWait (h : Inv s) (hn : n < s.nextSequence)
    (hreq : ∃ r, s.request? n = some r ∧ r.expired now = true) :
    (s.expireWait n now).2 = (s.expireWait n now).1.outcome n ∧ (s.expireWait n now).2 ≠ none := by
  obtain ⟨r, hr, hexp⟩ := hreq
  have hresume : Inv (s.resume n) := h.move (.resume s n)
  rw [expireWait]
  split
  next result hout => exact ⟨hout.symm, Option.some_ne_none _⟩
  next hout =>
    have hend := hresume.move (.expireRequest (not_blocked_resume n) hout hr hexp)
    refine ⟨Eq.symm ?_, Option.some_ne_none _⟩
    obtain ⟨q, hq, hqn⟩ := hresume.tracked.mem_pending_of_outcome hn hout
    refine hend.tracked.outcome_eq_some_iff.2 ⟨q.complete ⟨.timeout, 0⟩, ?_, hqn, rfl⟩
    refine List.mem_append_right _ (List.mem_map_of_mem ?_)
    exact List.mem_filter.2 ⟨hq, by simpa using hqn⟩

end Calls

/-- The call with a queued request that a step from `s` to `t` runs. -/
def Action.caller (s t : ResourceManager) : Action → Option ℕ
  | .acquire .. => if s.nextSequence < t.nextSequence then some s.nextSequence else none
  | .wake n _ => some n
  | .expireWait n _ => some n
  | _ => none

/-- A call returns the outcome of its request, or waits again without one. -/
theorem result_of_perform (h : Inv s) {a : Action} (ha : s.Enabled a)
    (hn : a.caller s (s.perform a).1 = some n) :
    (s.perform a).2 = (s.perform a).1.outcome n ∧
      ((s.perform a).2 = none → n ∈ (s.perform a).1.waiting) := by
  cases a with
  | acquire name bytes options now later =>
    rw [Action.caller] at hn
    split_ifs at hn with hqueued
    obtain rfl := Option.some.inj hn
    exact result_of_acquire h.accounted hqueued
  | wake m now =>
    obtain rfl : m = n := Option.some.inj hn
    exact result_of_waitLoop _ m now
  | expireWait m now =>
    obtain rfl : m = n := Option.some.inj hn
    obtain ⟨hblocked, hreq⟩ := ha
    obtain ⟨hresult, hsome⟩ := result_of_expireWait h (h.parked.queued m hblocked) hreq
    exact ⟨hresult, fun hnone => absurd hnone hsome⟩
  | _ => cases hn

/-! ## Success and timeout -/

namespace Tracked

/-- A request succeeds if it was granted, once and for good. -/
theorem outcome_eq_success_iff (h : Tracked s) {bytes : Bytes} :
    s.outcome n = some ⟨.none, bytes⟩ ↔
      ∃ g, s.closings n = [.granted g] ∧ g.request.bytes = bytes ∧ g.Real := by
  rw [h.outcome_eq_some_iff_closings]
  constructor
  · rintro ⟨e, he, hsound, hresult⟩
    cases e with
    | granted g =>
      exact ⟨g, he, congrArg OperationResult.amount (Option.some.inj hresult), hsound⟩
    | _ => cases hresult
  · rintro ⟨g, hg, rfl, hreal⟩
    exact ⟨_, hg, hreal, rfl⟩

/-- A request times out if it was cancelled or reached its deadline. -/
theorem outcome_eq_timeout_iff (h : Tracked s) :
    s.outcome n = some ⟨.timeout, 0⟩ ↔ (∃ r, s.closings n = [.cancelled r]) ∨
      ∃ r now, s.closings n = [.expired r now] ∧ r.deadline ≠ TimePoint.max ∧ r.deadline ≤ now := by
  rw [h.outcome_eq_some_iff_closings]
  constructor
  · rintro ⟨e, he, hsound, hresult⟩
    cases e with
    | expired r now => exact .inr ⟨r, now, he, hsound⟩
    | cancelled r => exact .inl ⟨r, he⟩
    | _ => cases hresult
  · rintro (⟨r, hr⟩ | ⟨r, now, hr, hreached⟩)
    · exact ⟨_, hr, trivial, rfl⟩
    · exact ⟨_, hr, hreached, rfl⟩

/-- There is no other outcome. -/
theorem outcome_cases (h : Tracked s) {result : OperationResult} (hout : s.outcome n = some result) :
    result.error = .none ∨ result = ⟨.timeout, 0⟩ := by
  obtain ⟨e, _, _, hresult⟩ := h.outcome_eq_some_iff_closings.1 hout
  cases e with
  | atOnce => cases hresult
  | granted g => exact .inl (Option.some.inj hresult ▸ rfl)
  | expired => exact .inr (Option.some.inj hresult).symm
  | cancelled => exact .inr (Option.some.inj hresult).symm

/-- A request with an outcome timed out if it was never granted. -/
theorem outcome_eq_timeout_iff_not_granted (h : Tracked s) (hout : s.outcome n ≠ none) :
    s.outcome n = some ⟨.timeout, 0⟩ ↔ ∀ g, .granted g ∈ s.history → g.request.sequence ≠ n := by
  constructor
  · rintro htimeout g hg rfl
    -- the grant is the only event that closes the request, so no timeout does
    have hclosings : s.closings g.request.sequence = [.granted g] := h.closings_of_mem hg rfl
    rcases h.outcome_eq_timeout_iff.1 htimeout with ⟨r, hr⟩ | ⟨r, now, hr, _⟩
    · rw [hclosings] at hr
      cases hr
    · rw [hclosings] at hr
      cases hr
  · intro hne
    obtain ⟨result, hresult⟩ := Option.ne_none_iff_exists'.1 hout
    obtain ⟨e, he, hsound, hresult'⟩ := h.outcome_eq_some_iff_closings.1 hresult
    have hmem : e ∈ s.closings n := he ▸ List.mem_singleton_self e
    obtain ⟨hmem, hn⟩ := List.mem_filter.1 hmem
    -- what closed it was no grant, and everything else is a timeout
    cases e with
    | atOnce => cases hresult'
    | granted g => exact absurd (Option.some.inj (beq_iff_eq.1 hn)) (hne g hmem)
    | expired => rw [hresult, ← hresult']; rfl
    | cancelled => rw [hresult, ← hresult']; rfl

end Tracked

/-- In every state of a run, every queued request is found once, and has an outcome
    that is final: success if one grant reserved its bytes before its deadline,
    timeout if none did and it was cancelled or its deadline was reached. A request
    with an outcome is not queued. A call that is still blocked on one has been
    notified, and a call that returns does so with the outcome of its request. -/
theorem reachable_outcomes (hs : machine.Reachable s) :
    (∀ n, n < s.nextSequence ↔ ∃ r ∈ s.requests, r.sequence = n) ∧
      (s.requests.map (·.sequence)).Nodup ∧
      (∀ n bytes, s.outcome n = some ⟨.none, bytes⟩ ↔
        ∃ g, s.closings n = [.granted g] ∧ g.request.bytes = bytes ∧ g.Real) ∧
      (∀ n, s.outcome n = some ⟨.timeout, 0⟩ ↔ (∃ r, s.closings n = [.cancelled r]) ∨
        ∃ r now, s.closings n = [.expired r now] ∧
          r.deadline ≠ TimePoint.max ∧ r.deadline ≤ now) ∧
      (∀ n, s.outcome n ≠ none → (s.outcome n = some ⟨.timeout, 0⟩ ↔
        ∀ g, .granted g ∈ s.history → g.request.sequence ≠ n)) ∧
      (∀ n result, s.outcome n = some result →
        (result.error = .none ∨ result = ⟨.timeout, 0⟩) ∧ ∀ r ∈ s.pending, r.sequence ≠ n) ∧
      (∀ n, s.Blocked n → s.outcome n ≠ none → n ∈ s.notified) ∧
      (∀ a n, s.Enabled a → a.caller s (s.perform a).1 = some n →
        (s.perform a).2 = (s.perform a).1.outcome n ∧
          ((s.perform a).2 = none → n ∈ (s.perform a).1.waiting)) ∧
      (∀ as t, machine.Run s as t → ∀ n result, s.outcome n = some result →
        t.outcome n = some result) := by
  have h := reachable_inv hs
  refine ⟨fun n => h.tracked.mem_requests_iff.symm, h.tracked.nodup,
    fun n bytes => h.tracked.outcome_eq_success_iff, fun n => h.tracked.outcome_eq_timeout_iff,
    fun n => h.tracked.outcome_eq_timeout_iff_not_granted, ?_, ?_,
    fun a n ha => result_of_perform h ha, ?_⟩
  · rintro n result hout
    refine ⟨h.tracked.outcome_cases hout, ?_⟩
    rintro r hr rfl
    rw [h.tracked.outcome_of_pending hr] at hout
    cases hout
  · rintro n (hwaiting | hnotified) hout
    · exact absurd (h.parked.unsettled n hwaiting) hout
    · exact hnotified
  · intro as t hrun n result
    refine hrun.stable (P := fun t => t.outcome n = some result) ?_ hs
    rintro s a t hs hout ⟨ha, rfl⟩
    have h := reachable_inv hs
    have hmoves := reachable_moves hs ha
    exact h.tracked.outcome_stable (h.moves hmoves).tracked (history_prefix_of_moves hmoves) hout

/-- Once the holder releases its memory, the first of the two calls has succeeded. -/
theorem contended_release_outcome :
    ∃ g, (contended.perform (.release (ascii "holder") 1)).1.closings 0 = [.granted g] ∧
      g.request.bytes = 5 ∧ g.Real := by
  have hs := reachable_perform contended_reachable (a := .release (ascii "holder") 1) trivial
  obtain ⟨_, _, hsuccess, _⟩ := reachable_outcomes hs
  exact (hsuccess 0 5).1 (by decide)

end ResourceManager

end Gpumemd
