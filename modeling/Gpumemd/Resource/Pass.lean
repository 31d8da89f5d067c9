import Gpumemd.Resource.Manager

/-!
# Grant passes

`grant_waiters_locked` expires the requests whose deadline is reached, grants
the best ranked of those that fit until none fits, and notifies every waiting
call.

* A pass preserves what its parts preserve (`grantWaitersLocked_induct`).
* It ends with no request left that fits (`free_lt_of_grantWaitersLocked`): the
  turns allowed to its loop are enough.
* Where nothing fits, it grants nothing (`grantWaitersLocked_of_unfit`); where only
  the last request fits, it grants this one (`grantWaitersLocked_of_last_fits`).
* The ranking is a strict order, total on requests queued at different times
  (`outranks_or_outranks`), so a request that is passed over for another either
  does not fit or ranks behind it (`outranks_of_selectPending`).
-/

namespace Gpumemd

open Library

namespace PendingRequest

variable {policy : SchedulingPolicy} {p q r : PendingRequest}

theorem outranks_iff :
    p.outranks policy q = true ↔ q.priority < p.priority ∨ p.priority = q.priority ∧
      (policy = .costAware ∧ p.estimatedCost < q.estimatedCost ∨
        (policy = .costAware → p.estimatedCost = q.estimatedCost) ∧ p.sequence < q.sequence) := by
  cases policy <;> simp [outranks]

theorem outranks_irrefl (policy : SchedulingPolicy) (r : PendingRequest) :
    r.outranks policy r = false := by
  rw [Bool.eq_false_iff, Ne, outranks_iff]
  grind

theorem outranks_trans (h : p.outranks policy q = true) (h' : q.outranks policy r = true) :
    p.outranks policy r = true := by
  rw [outranks_iff] at *
  grind

/-- Of two requests queued at different times, one ranks before the other. -/
theorem outranks_or_outranks (policy : SchedulingPolicy) (h : q.sequence ≠ r.sequence) :
    q.outranks policy r = true ∨ r.outranks policy q = true := by
  rw [outranks_iff, outranks_iff]
  grind

theorem expired_iff {now : TimePoint} :
    r.expired now = true ↔ r.deadline ≠ TimePoint.max ∧ r.deadline ≤ now := by
  simp [expired]

theorem not_expired_iff {now : TimePoint} :
    r.expired now = false ↔ r.deadline = TimePoint.max ∨ now < r.deadline := by
  simp [expired, or_iff_not_imp_left]

end PendingRequest

namespace ResourceManager

variable {s : ResourceManager} {now : TimePoint} {index : ℕ} {request r : PendingRequest}

/-! ## The selection -/

/-- Nothing is selected if nothing fits. -/
theorem selectPending_eq_none_iff : s.selectPending = none ↔ ∀ r ∈ s.pending, s.free < r.bytes := by
  rw [selectPending, select_eq_none_iff]
  simp

theorem getElem?_of_selectPending (h : s.selectPending = some (index, request)) :
    s.pending[index]? = some request :=
  getElem?_of_select h

theorem mem_of_selectPending (h : s.selectPending = some (index, request)) :
    request ∈ s.pending :=
  mem_of_select h

theorem bytes_le_of_selectPending (h : s.selectPending = some (index, request)) :
    request.bytes ≤ s.free := by
  simpa using ok_of_select h

/-- A request queued at another time than the selected one does not fit or ranks
    behind it. -/
theorem outranks_of_selectPending (h : s.selectPending = some (index, request))
    (hr : r ∈ s.pending) (hne : request.sequence ≠ r.sequence) :
    s.free < r.bytes ∨ request.outranks s.schedulingPolicy r = true := by
  by_cases hfit : s.free < r.bytes
  · exact .inl hfit
  · -- it fits: the scan had it before it, and kept the other
    have hnot : r.outranks s.schedulingPolicy request = false :=
      not_better_of_select (PendingRequest.outranks_irrefl _)
        (fun _ _ _ => PendingRequest.outranks_trans) h hr (by simpa using hfit)
    exact .inr ((PendingRequest.outranks_or_outranks _ hne).resolve_right (by simp [hnot]))

/-- The selected request is the only one that a grant takes from the queue. -/
theorem pending_perm_of_selectPending (h : s.selectPending = some (index, request)) :
    s.pending.Perm (request :: s.pending.eraseIdx index) := by
  obtain ⟨hi, rfl⟩ := List.getElem?_eq_some_iff.1 (getElem?_of_selectPending h)
  exact (List.getElem_cons_eraseIdx_perm hi).symm

theorem pending_grant_sublist : (s.grant now index request).pending.Sublist s.pending :=
  List.eraseIdx_sublist _ _

/-- What fits can be taken without wrapping around. -/
theorem free_charge_le {bytes : Bytes} (hfit : bytes ≤ s.free) : (s.charge bytes).free ≤ s.free := by
  show s.capacity - (s.used + bytes) ≤ s.capacity - s.used
  have hle : bytes ≤ s.capacity - s.used := hfit
  grind

/-! ## The pass -/

/-- The loop preserves what its turns preserve. -/
theorem grantLoop_induct {P : ResourceManager → Prop} (note : ∀ s, P s → P s.noteFree)
    (grant : ∀ s index request, P s → s.selectPending = some (index, request) →
      P (s.grant now index request)) :
    ∀ fuel s, P s → P (grantLoop now fuel s)
  | 0, s, h => note s h
  | fuel + 1, s, h => by
    rw [grantLoop]
    split
    · exact note s h
    · exact grantLoop_induct note grant fuel _ (grant _ _ _ (note s h) ‹_›)

/-- What holds once the expired requests are dropped, and is preserved by the turns
    of the loop, holds at the end of a grant pass, but for the notification. -/
theorem grantWaitersLocked_induct {P Q : ResourceManager → Prop}
    (expire : P (s.expirePending now)) (note : ∀ s, P s → P s.noteFree)
    (grant : ∀ s index request, P s → s.selectPending = some (index, request) →
      P (s.grant now index request))
    (notify : ∀ s, P s → Q s.notifyAll) : Q (s.grantWaitersLocked now) :=
  notify _ (grantLoop_induct note grant _ _ expire)

theorem pending_grantLoop_sublist (now : TimePoint) (fuel : ℕ) (s : ResourceManager) :
    (grantLoop now fuel s).pending.Sublist s.pending :=
  grantLoop_induct (P := fun t => t.pending.Sublist s.pending) (fun _ h => h)
    (fun _ _ _ h _ => pending_grant_sublist.trans h) fuel s (List.Sublist.refl _)

theorem pending_grantWaitersLocked_sublist :
    (s.grantWaitersLocked now).pending.Sublist s.pending :=
  (pending_grantLoop_sublist now _ _).trans List.filter_sublist

/-- Given a turn for every queued request, the loop ends when nothing fits. -/
theorem free_lt_of_grantLoop :
    ∀ fuel (s : ResourceManager), s.pending.length ≤ fuel →
      ∀ r ∈ (grantLoop now fuel s).pending, (grantLoop now fuel s).free < r.bytes
  | 0, s, hlen, r, hr => by
    have hnil : s.pending = [] := List.eq_nil_of_length_eq_zero (Nat.le_zero.1 hlen)
    exact absurd (hnil ▸ hr) List.not_mem_nil
  | fuel + 1, s, hlen, r, hr => by
    rw [grantLoop] at hr ⊢
    split at hr
    next hnone => exact selectPending_eq_none_iff.1 hnone r hr
    next index request hsome =>
      -- the grant takes one request out of the queue, so the fuel lasts
      have hturn : s.pending.length = (s.noteFree.grant now index request).pending.length + 1 :=
        (pending_perm_of_selectPending hsome).length_eq
      exact free_lt_of_grantLoop fuel _ (by omega) r hr

/-- After a grant pass, no queued request fits. -/
theorem free_lt_of_grantWaitersLocked (s : ResourceManager) (now : TimePoint) :
    ∀ r ∈ (s.grantWaitersLocked now).pending, (s.grantWaitersLocked now).free < r.bytes :=
  free_lt_of_grantLoop _ _ le_rfl

/-! ## Passes that grant at most one request -/

theorem grantLoop_of_unfit (h : ∀ r ∈ s.pending, s.free < r.bytes) (fuel : ℕ) :
    grantLoop now fuel s = s.noteFree := by
  cases fuel with
  | zero => rfl
  | succ fuel => rw [grantLoop, selectPending_eq_none_iff.2 h]

/-- Where nothing fits, a pass only expires and notifies. -/
theorem grantWaitersLocked_of_unfit (h : ∀ r ∈ s.pending, s.free < r.bytes) :
    s.grantWaitersLocked now = (s.expirePending now).noteFree.notifyAll :=
  congrArg notifyAll (grantLoop_of_unfit (s := s.expirePending now)
    (fun r hr => h r (List.mem_of_mem_filter hr)) _)

/-- Where the last request is the only one that fits, it is selected. -/
theorem selectPending_of_last_fits {queue : List PendingRequest}
    (hpending : s.pending = queue ++ [request]) (hqueue : ∀ r ∈ queue, s.free < r.bytes)
    (hfits : request.bytes ≤ s.free) : s.selectPending = some (queue.length, request) := by
  cases hselect : s.selectPending with
  | none =>
    have hlt := selectPending_eq_none_iff.1 hselect request (by simp [hpending])
    exact absurd hfits (UInt64.not_le.2 hlt)
  | some selected =>
    obtain ⟨index, selected⟩ := selected
    have hle := bytes_le_of_selectPending hselect
    have hindex := getElem?_of_selectPending hselect
    rw [hpending] at hindex
    rcases lt_or_ge index queue.length with hlt | hge
    · -- the others do not fit
      rw [List.getElem?_append_left hlt] at hindex
      exact absurd hle (UInt64.not_le.2 (hqueue _ (List.mem_of_getElem? hindex)))
    · rw [List.getElem?_append_right hge, List.getElem?_singleton] at hindex
      split_ifs at hindex with hzero
      obtain rfl := Option.some.inj hindex
      rw [Nat.le_antisymm (Nat.sub_eq_zero_iff_le.1 hzero) hge]

/-- A request that has not expired stays behind those that have not. -/
theorem pending_expirePending_append {queue : List PendingRequest}
    (hpending : s.pending = queue ++ [request]) (hlive : request.expired now = false) :
    (s.expirePending now).pending = (queue.filter fun r => !r.expired now) ++ [request] := by
  rw [expirePending, hpending, List.filter_append, List.filter_singleton, hlive]
  rfl

/-- Where the last request is the only one that fits, a pass grants it, unless it has
    expired. -/
theorem grantWaitersLocked_of_last_fits (now : TimePoint) {queue : List PendingRequest}
    (hpending : s.pending = queue ++ [request]) (hqueue : ∀ r ∈ queue, s.free < r.bytes)
    (hfits : request.bytes ≤ s.free) (hlive : request.expired now = false) :
    s.grantWaitersLocked now = ((s.expirePending now).noteFree.grant now
        (queue.filter fun r => !r.expired now).length request).noteFree.notifyAll ∧
      (s.grantWaitersLocked now).pending = queue.filter fun r => !r.expired now := by
  have hkept := pending_expirePending_append hpending hlive
  have hselect := selectPending_of_last_fits hkept
    (fun r hr => hqueue r (List.mem_of_mem_filter hr)) hfits
  -- what is left fits even less
  have hleft : ((s.expirePending now).noteFree.grant now
      (queue.filter fun r => !r.expired now).length request).pending =
        queue.filter fun r => !r.expired now := by
    show (s.expirePending now).pending.eraseIdx _ = _
    rw [hkept, List.eraseIdx_append_of_length_le le_rfl, Nat.sub_self, List.eraseIdx_cons_zero,
      List.append_nil]
  have hrest : ∀ r ∈ ((s.expirePending now).noteFree.grant now
      (queue.filter fun r => !r.expired now).length request).pending,
      ((s.expirePending now).noteFree.grant now
        (queue.filter fun r => !r.expired now).length request).free < r.bytes := by
    intro r hr
    rw [hleft] at hr
    exact UInt64.lt_of_le_of_lt (free_charge_le hfits) (hqueue r (List.mem_of_mem_filter hr))
  have hlength : (s.expirePending now).pending.length =
      (queue.filter fun r => !r.expired now).length + 1 := by
    rw [hkept, List.length_append, List.length_singleton]
  have hpass : s.grantWaitersLocked now = ((s.expirePending now).noteFree.grant now
      (queue.filter fun r => !r.expired now).length request).noteFree.notifyAll := by
    show (grantLoop now (s.expirePending now).pending.length (s.expirePending now)).notifyAll = _
    rw [hlength, grantLoop, hselect]
    exact congrArg notifyAll (grantLoop_of_unfit hrest _)
  exact ⟨hpass, hpass ▸ hleft⟩

end ResourceManager

end Gpumemd
