import Gpumemd.Library.Keyed
import Gpumemd.Resource.Accounting

/-!
# Requests

A queued request is completed by one of four pieces of code: a grant, the expiry
of its deadline in a grant pass, the expiry of its own wait, a cancellation.
Each leaves one event in the history, and the request objects dropped from the
queue are exactly what these events made of them (`Tracked`).

A blocked call waits only as long as its request is not completed, and is
notified otherwise (`Parked`).

Together with the right accounts these are the invariants of the resource
manager (`Inv`, `reachable_inv`).
-/

namespace Gpumemd

open Library

/-- The grant reserved the bytes of its request under a name that held none, and
    added them to `used_`, before the deadline of the request. -/
structure Grant.Real (g : Grant) : Prop where
  unreserved : g.heldBefore = none
  reserved : g.heldAfter = some g.request.bytes
  added : g.usedAfter.toNat = g.usedBefore.toNat + g.request.bytes.toNat
  live : g.request.deadline = TimePoint.max ∨ g.now < g.request.deadline

namespace Event

/-- The request object as the event leaves it. -/
def completed? : Event → Option PendingRequest
  | .atOnce .. => none
  | .granted g => some (g.request.complete ⟨.none, g.request.bytes⟩)
  | .expired request _ => some (request.complete ⟨.timeout, 0⟩)
  | .cancelled request => some (request.complete ⟨.timeout, 0⟩)

/-- The sequence number of the request that the event completes. -/
def sequence? (e : Event) : Option ℕ := e.completed?.map (·.sequence)

/-- The event happened for a reason: a grant is real, and what expired had reached
    its deadline. -/
def Sound : Event → Prop
  | .granted g => g.Real
  | .expired request now => request.deadline ≠ TimePoint.max ∧ request.deadline ≤ now
  | _ => True

theorem completed_of_completed? {e : Event} {r : PendingRequest} (h : e.completed? = some r) :
    r.completed = true := by
  cases e with
  | atOnce => cases h
  | granted g => cases h; rfl
  | expired request now => cases h; rfl
  | cancelled request => cases h; rfl

end Event

namespace ResourceManager

variable {s t : ResourceManager} {now : TimePoint} {n : ℕ}

/-- All request objects, queued or dropped from the queue. -/
def requests (s : ResourceManager) : List PendingRequest := s.pending ++ s.completed

/-- The events that complete the request of the call `n`. -/
def closings (s : ResourceManager) (n : ℕ) : List Event :=
  s.history.filter fun e => e.sequence? == some n

/-! ## What became of the requests -/

/-- Every request ever queued is queued and not completed, or was completed by
    exactly one event. -/
structure Tracked (s : ResourceManager) : Prop where
  ordered : s.pending.Pairwise (·.sequence < ·.sequence)
  numbered : (s.requests.map (·.sequence)).Perm (List.range s.nextSequence)
  incomplete : ∀ r ∈ s.pending, r.completed = false
  completed_eq : s.completed = s.history.filterMap Event.completed?
  sound : ∀ e ∈ s.history, e.Sound

namespace Tracked

section

variable (h : Tracked s)

include h

theorem nodup : (s.requests.map (·.sequence)).Nodup :=
  h.numbered.nodup_iff.2 List.nodup_range

theorem mem_requests_iff : (∃ r ∈ s.requests, r.sequence = n) ↔ n < s.nextSequence := by
  rw [← List.mem_range, ← h.numbered.mem_iff, List.mem_map]

theorem completed_of_mem {r : PendingRequest} (hr : r ∈ s.completed) : r.completed = true := by
  rw [h.completed_eq, List.mem_filterMap] at hr
  obtain ⟨e, _, he⟩ := hr
  exact Event.completed_of_completed? he

/-- The sequence number of a request identifies it. -/
theorem request?_eq {r : PendingRequest} (hr : r ∈ s.requests) :
    s.request? r.sequence = some r :=
  find?_key h.nodup hr

theorem outcome_of_pending {r : PendingRequest} (hr : r ∈ s.pending) :
    s.outcome r.sequence = none := by
  rw [outcome, h.request?_eq (List.mem_append_left _ hr)]
  simp [h.incomplete r hr]

theorem outcome_of_completed {r : PendingRequest} (hr : r ∈ s.completed) :
    s.outcome r.sequence = some r.result := by
  rw [outcome, h.request?_eq (List.mem_append_right _ hr)]
  simp [h.completed_of_mem hr]

theorem outcome_eq_some_iff {result : OperationResult} :
    s.outcome n = some result ↔ ∃ r ∈ s.completed, r.sequence = n ∧ r.result = result := by
  constructor
  · intro hout
    by_cases hn : n < s.nextSequence
    · obtain ⟨r, hr, rfl⟩ := h.mem_requests_iff.2 hn
      rcases List.mem_append.1 hr with hr | hr
      · -- a queued request has no outcome yet
        rw [h.outcome_of_pending hr] at hout
        cases hout
      · rw [h.outcome_of_completed hr] at hout
        exact ⟨r, hr, rfl, Option.some.inj hout⟩
    · -- the number was never given out
      have hnone : s.request? n = none := by
        rw [request?, List.find?_eq_none]
        intro r hr heq
        exact hn (h.mem_requests_iff.1 ⟨r, hr, by simpa using heq⟩)
      rw [outcome, hnone] at hout
      cases hout
  · rintro ⟨r, hr, rfl, rfl⟩
    exact h.outcome_of_completed hr

theorem outcome_eq_none_iff : s.outcome n = none ↔ ∀ r ∈ s.completed, r.sequence ≠ n := by
  constructor
  · rintro hout r hr rfl
    rw [h.outcome_of_completed hr] at hout
    cases hout
  · intro hne
    rw [Option.eq_none_iff_forall_ne_some]
    intro result hout
    obtain ⟨r, hr, heq, _⟩ := h.outcome_eq_some_iff.1 hout
    exact hne r hr heq

/-- A request without an outcome is queued. -/
theorem mem_pending_of_outcome (hn : n < s.nextSequence) (hout : s.outcome n = none) :
    ∃ r ∈ s.pending, r.sequence = n := by
  obtain ⟨r, hr, rfl⟩ := h.mem_requests_iff.2 hn
  rcases List.mem_append.1 hr with hr | hr
  · exact ⟨r, hr, rfl⟩
  · exact absurd rfl (h.outcome_eq_none_iff.1 hout r hr)

/-! ## One event for each completed request -/

theorem map_sequence_completed :
    s.completed.map (·.sequence) = s.history.filterMap Event.sequence? := by
  rw [h.completed_eq, List.map_filterMap]
  rfl

/-- The event that completes a request is the only one to do so. -/
theorem closings_of_mem {e : Event} (he : e ∈ s.history) (hn : e.sequence? = some n) :
    s.closings n = [e] := by
  have hnodup : (s.history.filterMap Event.sequence?).Nodup := by
    rw [← h.map_sequence_completed]
    exact h.nodup.sublist ((List.sublist_append_right _ _).map _)
  exact filter_key hnodup he hn

/-- A request has an outcome if one event completed it, for a reason. -/
theorem outcome_eq_some_iff_closings {result : OperationResult} :
    s.outcome n = some result ↔
      ∃ e, s.closings n = [e] ∧ e.Sound ∧ e.completed?.map (·.result) = some result := by
  rw [h.outcome_eq_some_iff]
  constructor
  · rintro ⟨r, hr, rfl, rfl⟩
    rw [h.completed_eq, List.mem_filterMap] at hr
    obtain ⟨e, he, her⟩ := hr
    have hn : e.sequence? = some r.sequence := by rw [Event.sequence?, her, Option.map_some]
    exact ⟨e, h.closings_of_mem he hn, h.sound e he, by rw [her, Option.map_some]⟩
  · rintro ⟨e, hclosings, _, hresult⟩
    have he : e ∈ s.closings n := hclosings ▸ List.mem_singleton_self e
    obtain ⟨hmem, hn⟩ := List.mem_filter.1 he
    obtain ⟨r, her, hr⟩ := Option.map_eq_some_iff.1 hresult
    refine ⟨r, ?_, ?_, hr⟩
    · rw [h.completed_eq, List.mem_filterMap]
      exact ⟨e, hmem, her⟩
    · simpa [Event.sequence?, her] using hn

end

/-! ## The moves -/

/-- Requests leave the queue, each with an event that completes it. -/
theorem close (h : Tracked s) (gone : List PendingRequest) (cause : PendingRequest → Event)
    (result : OperationResult) (hperm : s.pending.Perm (gone ++ t.pending))
    (hsub : t.pending.Sublist s.pending) (hnext : t.nextSequence = s.nextSequence)
    (hcompleted : t.completed = s.completed ++ gone.map (·.complete result))
    (hhistory : t.history = s.history ++ gone.map cause)
    (hcause : ∀ r ∈ gone, (cause r).completed? = some (r.complete result) ∧ (cause r).Sound) :
    Tracked t where
  ordered := h.ordered.sublist hsub
  numbered := by
    have hgone : (gone.map (·.complete result)).map (·.sequence) = gone.map (·.sequence) := by
      rw [List.map_map]
      rfl
    rw [hnext, requests, hcompleted, List.map_append, List.map_append, hgone]
    refine List.Perm.trans ?_ h.numbered
    rw [requests, List.map_append, ← List.append_assoc]
    -- the sequence numbers of the requests gone move to the end
    refine List.perm_append_comm.trans ?_
    rw [← List.append_assoc, ← List.map_append]
    exact (hperm.map (·.sequence)).symm.append_right _
  incomplete r hr := h.incomplete r (hsub.subset hr)
  completed_eq := by
    have hevents : (gone.map cause).filterMap Event.completed? = gone.map (·.complete result) := by
      rw [List.filterMap_map, ← List.filterMap_eq_map]
      exact List.filterMap_congr fun r hr => (hcause r hr).1
    rw [hcompleted, hhistory, List.filterMap_append, ← h.completed_eq, hevents]
  sound e he := by
    rw [hhistory, List.mem_append, List.mem_map] at he
    rcases he with he | ⟨r, hr, rfl⟩
    · exact h.sound e he
    · exact (hcause r hr).2

/-- A move that leaves the requests and the history alone. -/
theorem congr (h : Tracked s) (hpending : t.pending = s.pending)
    (hcompleted : t.completed = s.completed) (hnext : t.nextSequence = s.nextSequence)
    (hhistory : t.history = s.history) : Tracked t where
  ordered := hpending ▸ h.ordered
  numbered := by
    rw [requests, hpending, hcompleted, hnext]
    exact h.numbered
  incomplete := hpending ▸ h.incomplete
  completed_eq := by rw [hcompleted, hhistory, h.completed_eq]
  sound := hhistory ▸ h.sound

theorem expirePending (h : Tracked s) : Tracked (s.expirePending now) := by
  refine h.close (s.pending.filter (·.expired now)) (.expired · now) ⟨.timeout, 0⟩
    (List.filter_append_perm _ _).symm List.filter_sublist rfl rfl rfl ?_
  intro r hr
  exact ⟨rfl, PendingRequest.expired_iff.1 (List.mem_filter.1 hr).2⟩

theorem grant (ha : Accounted s) (h : Tracked s) {index : ℕ} {request : PendingRequest}
    (hsel : s.selectPending = some (index, request)) (hlive : request.expired now = false) :
    Tracked (s.grant now index request) := by
  have hname := ha.fresh.unreserved _ (mem_of_selectPending hsel)
  refine h.close [request] (fun request => .granted ⟨request, now,
      s.reservations.lookup request.name,
      (s.reserve request.name request.bytes).reservations.lookup request.name,
      s.used, (s.reserve request.name request.bytes).used⟩)
    ⟨.none, request.bytes⟩ (pending_perm_of_selectPending hsel) pending_grant_sublist
    rfl rfl rfl ?_
  intro r hr
  obtain rfl := List.mem_singleton.1 hr
  exact ⟨rfl, Finmap.lookup_eq_none.2 hname, Table.lookup_emplace hname,
    (ha.charge (bytes_le_of_selectPending hsel)).1, PendingRequest.not_expired_iff.1 hlive⟩

theorem grantWaitersLocked (ha : Accounted s) (h : Tracked s) :
    Tracked (s.grantWaitersLocked now) := by
  refine grantWaitersLocked_induct
    (P := fun t => Accounted t ∧ Tracked t ∧ ∀ r ∈ t.pending, r.expired now = false)
    ⟨?_, h.expirePending, ?_⟩ ?_ ?_ ?_
  · exact ⟨ha.balanced, ha.fresh.sublist List.filter_sublist⟩
  · -- what has expired is out of the queue before anything is granted
    intro r hr
    simpa using (List.mem_filter.1 hr).2
  · -- the loop grants what is left, none of which has expired
    rintro t ⟨ha, h, hlive⟩
    rw [ha.noteFree_eq]
    exact ⟨ha, h, hlive⟩
  · rintro t index request ⟨ha, h, hlive⟩ hsel
    refine ⟨ha.grant hsel, h.grant ha hsel (hlive _ (mem_of_selectPending hsel)), ?_⟩
    intro r hr
    exact hlive r (pending_grant_sublist.subset hr)
  · rintro t ⟨_, h, _⟩
    exact h.congr rfl rfl rfl rfl

theorem enqueue (h : Tracked s) {name : Str} {bytes : Bytes} {options : AcquireOptions} :
    Tracked (s.enqueue name bytes options now) where
  ordered := by
    refine List.pairwise_append.2 ⟨h.ordered, List.pairwise_singleton _ _, ?_⟩
    intro r hr q hq
    obtain rfl := List.mem_singleton.1 hq
    exact h.mem_requests_iff.1 ⟨r, List.mem_append_left _ hr, rfl⟩
  numbered := by
    have hqueue : (s.enqueue name bytes options now).pending.map (·.sequence) =
        s.pending.map (·.sequence) ++ [s.nextSequence] := by
      simp [ResourceManager.enqueue]
    have hnumbered := h.numbered
    rw [requests, List.map_append] at hnumbered
    rw [requests, List.map_append, hqueue]
    show List.Perm _ (List.range (s.nextSequence + 1))
    rw [List.range_succ]
    -- the new number comes in the middle, after those of the queue
    refine List.Perm.trans ?_ (hnumbered.append_right _)
    rw [List.append_assoc, List.append_assoc]
    exact List.perm_append_comm.append_left _
  incomplete r hr := by
    rcases List.mem_append.1 hr with hr | hr
    · exact h.incomplete r hr
    · obtain rfl := List.mem_singleton.1 hr
      rfl
  completed_eq := h.completed_eq
  sound := h.sound

theorem move (ha : Accounted s) (h : Tracked s) (hm : Move s t) : Tracked t := by
  cases hm with
  | pass => exact h.grantWaitersLocked ha
  | @grantAtOnce name bytes =>
    refine ⟨h.ordered, h.numbered, h.incomplete, ?_, ?_⟩
    · show s.completed = (s.history ++ [Event.atOnce name bytes]).filterMap _
      rw [List.filterMap_append, ← h.completed_eq]
      exact (List.append_nil _).symm
    · intro e he
      rcases List.mem_append.1 he with he | he
      · exact h.sound e he
      · obtain rfl := List.mem_singleton.1 he
        trivial
  | enqueue => exact h.enqueue
  | wait => exact h.congr rfl rfl rfl rfl
  | resume => exact h.congr rfl rfl rfl rfl
  | @expireRequest n now request _ _ hreq hexp =>
    refine h.close (s.pending.filter (·.sequence == n)) (.expired · now) ⟨.timeout, 0⟩
      (List.filter_append_perm _ _).symm List.filter_sublist rfl rfl rfl ?_
    -- the request that leaves the queue is the one whose deadline was read
    intro r hr
    obtain ⟨hmem, hn⟩ := List.mem_filter.1 hr
    obtain rfl : r.sequence = n := by simpa using hn
    rw [h.request?_eq (List.mem_append_left _ hmem)] at hreq
    obtain rfl := Option.some.inj hreq
    exact ⟨rfl, PendingRequest.expired_iff.1 hexp⟩
  | dropClient => exact h.congr rfl rfl rfl rfl
  | cancelWaiters =>
    refine h.close s.pending .cancelled ⟨.timeout, 0⟩
      (by simp [ResourceManager.cancelWaiters, notifyAll]) (List.nil_sublist _) rfl rfl rfl ?_
    exact fun r _ => ⟨rfl, trivial⟩
  | reserveModel => exact h.congr rfl rfl rfl rfl
  | dropModel => exact h.congr rfl rfl rfl rfl

end Tracked

/-- The history only grows. -/
theorem Move.history_prefix (hm : Move s t) : s.history <+: t.history := by
  cases hm with
  | pass now =>
    refine grantWaitersLocked_induct (P := fun t => s.history <+: t.history)
      (Q := fun t => s.history <+: t.history) ?_ ?_ ?_ ?_
    · exact List.prefix_append _ _
    · exact fun _ h => h
    · exact fun _ _ _ h _ => h.trans (List.prefix_append _ _)
    · exact fun _ h => h
  | grantAtOnce => exact List.prefix_append _ _
  | expireRequest => exact List.prefix_append _ _
  | cancelWaiters => exact List.prefix_append _ _
  | _ => exact List.prefix_rfl

theorem history_prefix_of_moves (hm : Moves s t) : s.history <+: t.history := by
  induction hm with
  | refl => exact List.prefix_rfl
  | tail _ hm ih => exact ih.trans hm.history_prefix

/-- What is completed stays completed. -/
theorem Tracked.completed_subset (h : Tracked s) (h' : Tracked t)
    (hhistory : s.history <+: t.history) : s.completed ⊆ t.completed := by
  rw [h.completed_eq, h'.completed_eq]
  exact (hhistory.filterMap _).subset

/-- The outcome of a request is final. -/
theorem Tracked.outcome_stable (h : Tracked s) (h' : Tracked t)
    (hhistory : s.history <+: t.history) {result : OperationResult}
    (hout : s.outcome n = some result) : t.outcome n = some result := by
  obtain ⟨r, hr, hn, hresult⟩ := h.outcome_eq_some_iff.1 hout
  exact h'.outcome_eq_some_iff.2 ⟨r, h.completed_subset h' hhistory hr, hn, hresult⟩

/-! ## The blocked calls -/

/-- The calls blocked in `condition_.wait` queued a request. Those that have not
    been notified wait for a request that is not completed. -/
structure Parked (s : ResourceManager) : Prop where
  queued : ∀ n, s.Blocked n → n < s.nextSequence
  unsettled : ∀ n ∈ s.waiting, s.outcome n = none
  disjoint : Disjoint s.waiting s.notified

theorem notified_grantWaitersLocked :
    (s.grantWaitersLocked now).notified = s.notified ∪ s.waiting :=
  grantWaitersLocked_induct (P := fun t => t.notified = s.notified ∧ t.waiting = s.waiting)
    (Q := fun t => t.notified = s.notified ∪ s.waiting) ⟨rfl, rfl⟩ (fun _ h => h)
    (fun _ _ _ h _ => h) fun t ⟨hnotified, hwaiting⟩ => by
      show t.notified ∪ t.waiting = _
      rw [hnotified, hwaiting]

namespace Parked

/-- A move that leaves the blocked calls alone and completes none of their
    requests. -/
theorem congr (h : Parked s) (hwaiting : t.waiting = s.waiting) (hnotified : t.notified = s.notified)
    (hnext : s.nextSequence ≤ t.nextSequence)
    (hout : ∀ n ∈ s.waiting, s.outcome n = none → t.outcome n = none) : Parked t where
  queued n hn := by
    rw [Blocked, hwaiting, hnotified] at hn
    exact (h.queued n hn).trans_le hnext
  unsettled n hn := by
    rw [hwaiting] at hn
    exact hout n hn (h.unsettled n hn)
  disjoint := by
    rw [hwaiting, hnotified]
    exact h.disjoint

/-- A move that notifies every waiting call. -/
theorem notify (h : Parked s) (hwaiting : t.waiting = ∅)
    (hnotified : t.notified = s.notified ∪ s.waiting) (hnext : t.nextSequence = s.nextSequence) :
    Parked t where
  queued n hn := by
    rw [Blocked, hwaiting, hnotified, Finset.mem_union] at hn
    rw [hnext]
    rcases hn with hn | hn | hn
    · exact absurd hn (Finset.notMem_empty n)
    · exact h.queued n (.inr hn)
    · exact h.queued n (.inl hn)
  unsettled n hn := by
    rw [hwaiting] at hn
    exact absurd hn (Finset.notMem_empty n)
  disjoint := by
    rw [hwaiting]
    exact Finset.disjoint_empty_left _

theorem move (h : Parked s) (hs : Tracked s) (ht : Tracked t) (hm : Move s t) : Parked t := by
  cases hm with
  | pass => exact h.notify rfl notified_grantWaitersLocked nextSequence_grantWaitersLocked
  | grantAtOnce => exact h.congr rfl rfl le_rfl fun _ _ hout => hout
  | enqueue =>
    -- queueing completes nothing
    refine h.congr rfl rfl (Nat.le_succ _) fun n _ hout => ?_
    exact ht.outcome_eq_none_iff.2 (hs.outcome_eq_none_iff.1 hout)
  | @wait n hn hout =>
    refine ⟨fun m hm => ?_, fun m hm => ?_, ?_⟩
    · rcases hm with hm | hm
      · rcases Finset.mem_insert.1 hm with rfl | hm
        · exact hn
        · exact h.queued m (.inl hm)
      · exact h.queued m (.inr (Finset.mem_of_mem_erase hm))
    · rcases Finset.mem_insert.1 hm with rfl | hm
      · exact hout
      · exact h.unsettled m hm
    · refine Finset.disjoint_insert_left.2 ⟨Finset.notMem_erase _ _, ?_⟩
      exact h.disjoint.mono_right (Finset.erase_subset _ _)
  | resume n =>
    refine ⟨fun m hm => h.queued m ?_, fun m hm => ?_, ?_⟩
    · exact hm.imp Finset.mem_of_mem_erase Finset.mem_of_mem_erase
    · exact h.unsettled m (Finset.mem_of_mem_erase hm)
    · exact h.disjoint.mono (Finset.erase_subset _ _) (Finset.erase_subset _ _)
  | @expireRequest n now request hblocked =>
    -- only the call `n` loses its request, and it is running
    refine h.congr rfl rfl le_rfl fun m hm hout => ?_
    refine ht.outcome_eq_none_iff.2 fun r hr hrm => ?_
    rcases List.mem_append.1 hr with hr | hr
    · exact hs.outcome_eq_none_iff.1 hout r hr hrm
    · obtain ⟨q, hq, rfl⟩ := List.mem_map.1 hr
      have hqn : q.sequence = n := by simpa using (List.mem_filter.1 hq).2
      exact hblocked (.inl (hqn ▸ hrm.symm ▸ hm))
  | dropClient => exact h.congr rfl rfl le_rfl fun _ _ hout => hout
  | cancelWaiters => exact h.notify rfl rfl rfl
  | reserveModel => exact h.congr rfl rfl le_rfl fun _ _ hout => hout
  | dropModel => exact h.congr rfl rfl le_rfl fun _ _ hout => hout

end Parked

/-! ## The invariants of the resource manager -/

/-- The invariants that hold whenever the lock is free. -/
structure Inv (s : ResourceManager) : Prop where
  accounted : Accounted s
  tracked : Tracked s
  parked : Parked s

namespace Inv

theorem move (h : Inv s) (hm : Move s t) : Inv t where
  accounted := h.accounted.move hm
  tracked := h.tracked.move h.accounted hm
  parked := h.parked.move h.tracked (h.tracked.move h.accounted hm) hm

theorem moves (h : Inv s) (hm : Moves s t) : Inv t := by
  induction hm with
  | refl => exact h
  | tail _ hm ih => exact ih.move hm

theorem perform_moves (h : Inv s) (hsettled : s.Settled) {a : Action} (ha : s.Enabled a) :
    Moves s (s.perform a).1 :=
  ResourceManager.perform_moves h.accounted hsettled h.parked.queued ha

theorem create {capacity : Bytes} {policy : SchedulingPolicy}
    (h : create capacity policy = .ok s) : Inv s := by
  obtain rfl := eq_of_create h
  have hfresh : Fresh capacity ∅ [] :=
    ⟨List.forall_mem_nil _, List.nodup_nil, List.forall_mem_nil _⟩
  refine ⟨⟨⟨rfl, Nat.zero_le _, rfl⟩, hfresh⟩, ?_, ?_⟩
  · exact ⟨List.Pairwise.nil, List.Perm.refl _, List.forall_mem_nil _, rfl, List.forall_mem_nil _⟩
  · exact ⟨by simp [Blocked], by simp, Finset.disjoint_empty_left _⟩

end Inv

theorem reachable_inv (hs : machine.Reachable s) : Inv s := by
  refine hs.invariant ?_ ?_
  · rintro s ⟨capacity, policy, h⟩
    exact .create h
  · rintro s a t hs h ⟨ha, rfl⟩
    exact h.moves (h.perform_moves (reachable_settled hs) ha)

/-- A step from a reachable state is a sequence of moves. -/
theorem reachable_moves (hs : machine.Reachable s) {a : Action} (ha : s.Enabled a) :
    Moves s (s.perform a).1 :=
  (reachable_inv hs).perform_moves (reachable_settled hs) ha

/-! ## The accounts of a run -/

/-- In every state of a run, `used` is the exact sum of the reservations and at most
    the capacity, no name is reserved or queued twice, the queued requests are of
    possible sizes, incomplete and in the order of their sequence numbers, and no
    operation on byte counts has wrapped. -/
theorem reachable_accounts (hs : machine.Reachable s) :
    s.used.toNat = Table.weight UInt64.toNat s.reservations +
        Table.weight UInt64.toNat s.modelReservations ∧
      s.used.toNat ≤ s.capacity.toNat ∧
      (∀ r ∈ s.pending, r.name ∉ s.reservations) ∧
      (s.pending.map (·.name)).Nodup ∧
      (∀ r ∈ s.pending, 1 ≤ r.bytes ∧ r.bytes ≤ s.capacity ∧ r.completed = false) ∧
      s.pending.Pairwise (·.sequence < ·.sequence) ∧
      (∀ r ∈ s.pending, r.sequence < s.nextSequence) ∧
      s.wrapped = false := by
  obtain ⟨⟨hbalanced, hfresh⟩, htracked, _⟩ := reachable_inv hs
  refine ⟨hbalanced.used_eq, hbalanced.used_le, hfresh.unreserved, hfresh.distinct, ?_,
    htracked.ordered, ?_, hbalanced.unwrapped⟩
  · intro r hr
    obtain ⟨hpos, hle⟩ := hfresh.sized r hr
    exact ⟨UInt64.not_lt.1 fun hlt => hpos (UInt64.lt_one_iff.1 hlt), hle,
      htracked.incomplete r hr⟩
  · intro r hr
    exact htracked.mem_requests_iff.1 ⟨r, List.mem_append_left _ hr, rfl⟩

theorem contended_accounts : contended.used.toNat = 10 ∧ contended.wrapped = false := by
  obtain ⟨_, hle, _, _, _, _, _, hwrapped⟩ := reachable_accounts contended_reachable
  exact ⟨by decide, hwrapped⟩

end ResourceManager

end Gpumemd
