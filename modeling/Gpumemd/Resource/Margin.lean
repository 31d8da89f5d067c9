import Mathlib.Algebra.Ring.Int.Defs
import Mathlib.Data.Nat.Cast.Basic
import Gpumemd.Resource.Outcomes

/-!
# Reservations and the calls that wait for them

A queued request is granted before its call returns. The `margin` is what the clients hold
without the grants that the calls of a list have not returned yet. While these calls include all
that have requests in the queue, only what a call returns changes the margin:

* a grant pass of any call does not (`margin_grantWaitersLocked`), so no operation on models does
  (`gains_perform_of_model`);
* an `acquire` that is granted at once adds what it returns, a `release` takes it away
  (`gains_acquire`, `gains_release`);
* a call with an outcome that leaves the list adds what it returns (`margin_cons_of_outcome`).
-/

namespace Gpumemd

open Library

/-- An error has no bytes. -/
def OperationResult.Exact (result : OperationResult) : Prop :=
  result.error ≠ .none → result.amount = 0

namespace ResourceManager

variable {s t : ResourceManager} {calls : List ℕ} {now later : TimePoint} {n : ℕ}
  {result : OperationResult}

/-- The bytes of the completed requests of these calls. A timeout has none. -/
def granted (s : ResourceManager) (calls : List ℕ) : ℕ :=
  ((s.completed.filter (·.sequence ∈ calls)).map (·.result.amount.toNat)).sum

/-- What the clients hold, but for what has been granted to these calls. -/
def margin (s : ResourceManager) (calls : List ℕ) : ℤ :=
  Table.weight UInt64.toNat s.reservations - s.granted calls

/-- These calls include those with a request in the queue. -/
def Covers (calls : List ℕ) (s : ResourceManager) : Prop := ∀ r ∈ s.pending, r.sequence ∈ calls

theorem Covers.mono (h : Covers calls s) (hsub : t.pending ⊆ s.pending) : Covers calls t :=
  fun r hr => h r (hsub hr)

theorem margin_congr (hreservations : t.reservations = s.reservations)
    (hcompleted : t.completed = s.completed) : t.margin calls = s.margin calls := by
  rw [margin, margin, granted, granted, hreservations, hcompleted]

/-- Only which calls are meant counts. -/
theorem margin_ext {calls' : List ℕ} (h : ∀ n, n ∈ calls ↔ n ∈ calls') :
    s.margin calls = s.margin calls' := by
  simp only [margin, granted, h]

/-! ## Calls that return -/

theorem granted_cons (hn : n ∉ calls) : s.granted (n :: calls) =
    ((s.completed.filter fun r => some r.sequence == some n).map (·.result.amount.toNat)).sum +
      s.granted calls := by
  rw [granted, granted]
  induction s.completed with
  | nil => rfl
  | cons r completed ih =>
    by_cases hr : r.sequence = n
    · -- the request of the call `n` is of no other one
      have hcalls : r.sequence ∉ calls := hr ▸ hn
      rw [List.filter_cons_of_pos (by simp [hr]), List.filter_cons_of_pos (by simp [hr]),
        List.filter_cons_of_neg (by simpa using hcalls), List.map_cons, List.map_cons,
        List.sum_cons, List.sum_cons, ih, Nat.add_assoc]
    · rw [List.filter_cons_of_neg (p := fun r : PendingRequest => some r.sequence == some n)
        (by simpa using hr)]
      by_cases hcalls : r.sequence ∈ calls
      · rw [List.filter_cons_of_pos (by simp [hcalls]), List.filter_cons_of_pos (by simpa using hcalls),
          List.map_cons, List.map_cons, List.sum_cons, List.sum_cons, ih, Nat.add_left_comm]
      · rw [List.filter_cons_of_neg (by simp [hr, hcalls]),
          List.filter_cons_of_neg (by simpa using hcalls), ih]

/-- A call with an outcome that leaves the list adds what it returns. -/
theorem margin_cons_of_outcome (h : Tracked s) (hn : n ∉ calls) (hout : s.outcome n = some result) :
    s.margin calls = s.margin (n :: calls) + result.amount.toNat := by
  obtain ⟨r, hr, rfl, rfl⟩ := h.outcome_eq_some_iff.1 hout
  have hnodup : (s.completed.filterMap fun r => some r.sequence).Nodup := by
    rw [List.filterMap_eq_map']
    exact h.nodup.sublist ((List.sublist_append_right _ _).map _)
  rw [margin, margin, granted_cons hn, filter_key hnodup hr rfl, List.map_singleton,
    List.sum_singleton]
  omega

/-- A call without an outcome has been granted nothing. -/
theorem margin_cons_of_none (h : Tracked s) (hn : n ∉ calls) (hout : s.outcome n = none) :
    s.margin (n :: calls) = s.margin calls := by
  have hnone : (s.completed.filter fun r => some r.sequence == some n) = [] := by
    rw [List.filter_eq_nil_iff]
    intro r hr
    simpa using h.outcome_eq_none_iff.1 hout r hr
  rw [margin, margin, granted_cons hn, hnone]
  simp

/-! ## Requests that leave the queue -/

/-- What becomes of the requests that complete. -/
theorem granted_append {gone : List PendingRequest}
    (hcompleted : t.completed = s.completed ++ gone.map (·.complete result))
    (hgone : ∀ r ∈ gone, r.sequence ∈ calls) :
    t.granted calls = s.granted calls + gone.length * result.amount.toNat := by
  have hfilter : (gone.map (·.complete result)).filter (·.sequence ∈ calls) =
      gone.map (·.complete result) := by
    rw [List.filter_eq_self]
    intro r hr
    obtain ⟨q, hq, rfl⟩ := List.mem_map.1 hr
    exact decide_eq_true (hgone q hq)
  have hamounts : (gone.map (·.complete result)).map (·.result.amount.toNat) =
      List.replicate gone.length result.amount.toNat := by
    rw [List.map_map, ← List.map_const']
    rfl
  rw [granted, granted, hcompleted, List.filter_append, hfilter, List.map_append, hamounts,
    List.sum_append, List.sum_replicate, nsmul_eq_mul, Nat.cast_id]

/-- Requests that complete without being granted. -/
theorem margin_timeout {gone : List PendingRequest} (hreservations : t.reservations = s.reservations)
    (hcompleted : t.completed = s.completed ++ gone.map (·.complete ⟨.timeout, 0⟩))
    (hgone : ∀ r ∈ gone, r.sequence ∈ calls) : t.margin calls = s.margin calls := by
  rw [margin, margin, granted_append hcompleted hgone, hreservations]
  simp

theorem margin_grant {index : ℕ} {request : PendingRequest} (h : Accounted s)
    (hcovers : Covers calls s) (hsel : s.selectPending = some (index, request)) :
    (s.grant now index request).margin calls = s.margin calls := by
  have hmem := mem_of_selectPending hsel
  have hgone : ∀ r ∈ [request], r.sequence ∈ calls := by simpa using hcovers request hmem
  have hcompleted : (s.grant now index request).completed =
      s.completed ++ [request].map (·.complete ⟨.none, request.bytes⟩) := rfl
  have hgranted : (s.grant now index request).granted calls =
      s.granted calls + [request].length * request.bytes.toNat := granted_append hcompleted hgone
  have hweight : Table.weight UInt64.toNat (s.grant now index request).reservations =
      request.bytes.toNat + Table.weight UInt64.toNat s.reservations :=
    Table.weight_emplace (h.fresh.unreserved _ hmem)
  rw [margin, margin, hgranted, hweight, List.length_singleton]
  omega

/-- What a grant pass gives to the clients, it owes to the calls. -/
theorem margin_grantWaitersLocked (h : Accounted s) (hcovers : Covers calls s) :
    (s.grantWaitersLocked now).margin calls = s.margin calls := by
  refine grantWaitersLocked_induct
    (P := fun t => Accounted t ∧ Covers calls t ∧ t.margin calls = s.margin calls)
    (Q := fun t => t.margin calls = s.margin calls) ⟨?_, ?_, ?_⟩ ?_ ?_ ?_
  · exact ⟨h.balanced, h.fresh.sublist List.filter_sublist⟩
  · exact hcovers.mono List.filter_sublist.subset
  · exact margin_timeout rfl rfl fun r hr => hcovers r (List.filter_sublist.subset hr)
  · rintro t ⟨h, hcovers, heq⟩
    rw [h.noteFree_eq]
    exact ⟨h, hcovers, heq⟩
  · rintro t index request ⟨h, hcovers, heq⟩ hsel
    exact ⟨h.grant hsel, hcovers.mono pending_grant_sublist.subset,
      (margin_grant h hcovers hsel).trans heq⟩
  · rintro t ⟨_, _, heq⟩
    exact heq

/-! ## Operations -/

/-- The margin grows by this much, and the calls still include those with a request. -/
structure Gains (calls : List ℕ) (s t : ResourceManager) (gain : ℤ) : Prop where
  covers : Covers calls t
  margin_eq : t.margin calls = s.margin calls + gain

section Operations

variable {name id : Str} {bytes : Bytes} {options : AcquireOptions} {evictions : List Str}

theorem gains_refl (hcovers : Covers calls s) : Gains calls s s 0 := ⟨hcovers, (add_zero _).symm⟩

theorem Gains.trans {u : ResourceManager} {gain gain' : ℤ} (h : Gains calls s t gain)
    (h' : Gains calls t u gain') : Gains calls s u (gain + gain') :=
  ⟨h'.covers, by rw [h'.margin_eq, h.margin_eq, add_assoc]⟩

theorem gains_pass (h : Accounted s) (hcovers : Covers calls s) :
    Gains calls s (s.grantWaitersLocked now) 0 :=
  ⟨hcovers.mono pending_grantWaitersLocked_sublist.subset, by
    rw [margin_grantWaitersLocked h hcovers, add_zero]⟩

theorem SameClients.gains (h : SameClients s t) (hcovers : Covers calls s) : Gains calls s t 0 :=
  ⟨hcovers.mono (h.pending ▸ List.Subset.refl _), by
    rw [margin_congr h.reservations h.completed, add_zero]⟩

theorem gains_waitLoop (h : Accounted s) (hcovers : Covers calls s) :
    Gains calls s (s.waitLoop n now).1 0 := by
  have hpass : Gains calls s (s.grantWaitersLocked now) 0 := gains_pass h hcovers
  rw [waitLoop]
  split
  · exact gains_refl hcovers
  · dsimp only
    split
    · exact hpass
    · exact ⟨hpass.covers, hpass.margin_eq⟩

/-- What is granted without queueing belongs to no call of the list. -/
theorem gains_grantAtOnce (hname : s.hasNameLocked name = false) (hcovers : Covers calls s) :
    Gains calls s (s.grantAtOnce name bytes) bytes.toNat := by
  refine ⟨hcovers, ?_⟩
  have hweight : Table.weight UInt64.toNat (s.grantAtOnce name bytes).reservations =
      bytes.toNat + Table.weight UInt64.toNat s.reservations :=
    Table.weight_emplace (hasNameLocked_eq_false.1 hname).1
  have hgranted : (s.grantAtOnce name bytes).granted calls = s.granted calls := rfl
  rw [margin, margin, hweight, hgranted]
  omega

theorem exact_tryAcquire : (s.tryAcquire name bytes now).2.Exact := by
  rw [tryAcquire]
  split_ifs
  · exact fun _ => rfl
  · exact fun _ => rfl
  · exact fun _ => rfl
  · exact fun _ => rfl
  · exact fun h => absurd rfl h

theorem exact_release : (s.release name now).2.Exact := by
  rw [release]
  split_ifs
  · exact fun _ => rfl
  · split
    · exact fun _ => rfl
    · exact fun h => absurd rfl h

theorem exact_of_outcome (h : Tracked s) (hout : s.outcome n = some result) : result.Exact := by
  rcases h.outcome_cases hout with hnone | rfl
  · exact fun h => absurd hnone h
  · exact fun _ => rfl

theorem gains_tryAcquire (h : Accounted s) (hsettled : s.Settled) (hcovers : Covers calls s) :
    Gains calls s (s.tryAcquire name bytes now).1 (s.tryAcquire name bytes now).2.amount.toNat := by
  rw [tryAcquire, h.noteFree_eq]
  split_ifs with hname hpos hdup hfit
  · exact gains_refl hcovers
  · exact gains_refl hcovers
  · exact gains_refl hcovers
  · exact gains_refl hcovers
  · have hdup' : s.hasNameLocked name = false := by simpa using hdup
    have hgrant : Gains calls s (s.grantAtOnce name bytes) bytes.toNat :=
      gains_grantAtOnce hdup' hcovers
    have haccounted : Accounted (s.grantAtOnce name bytes) :=
      h.move (.grantAtOnce (by simpa using hname) hpos hdup' (UInt64.not_lt.1 hfit) hsettled)
    have hpass : Gains calls _ ((s.grantAtOnce name bytes).grantWaitersLocked now) 0 :=
      gains_pass haccounted hgrant.covers
    simpa using hgrant.trans hpass

theorem nextSequence_waitLoop : (s.waitLoop n now).1.nextSequence = s.nextSequence := by
  rw [waitLoop]
  split
  · rfl
  · dsimp only
    split
    · exact nextSequence_grantWaitersLocked
    · exact nextSequence_grantWaitersLocked

/-- An `acquire` that queues its request adds its call to the list. -/
theorem gains_acquire (h : Accounted s) (hsettled : s.Settled) (hcovers : Covers calls s) :
    (∃ result, (s.acquire name bytes options now later).2 = some result ∧ result.Exact ∧
        Gains calls s (s.acquire name bytes options now later).1 result.amount.toNat) ∨
      (s.acquire name bytes options now later).1.nextSequence = s.nextSequence + 1 ∧
        (s.acquire name bytes options now later).2 =
          (s.acquire name bytes options now later).1.outcome s.nextSequence ∧
        Covers (s.nextSequence :: calls) (s.acquire name bytes options now later).1 ∧
        (s.acquire name bytes options now later).1.margin (s.nextSequence :: calls) =
          s.margin (s.nextSequence :: calls) := by
  have hacquires := h.acquires name bytes options now later
  generalize s.acquire name bytes options now later = call at hacquires
  cases hacquires with
  | refuses => exact .inl ⟨_, rfl, fun _ => rfl, gains_refl hcovers⟩
  | tries => exact .inl ⟨_, rfl, exact_tryAcquire, gains_tryAcquire h hsettled hcovers⟩
  | grants _ _ hdup => exact .inl ⟨_, rfl, fun h => absurd rfl h, gains_grantAtOnce hdup hcovers⟩
  | queues hname hpos _ hcap hdup =>
    right
    have haccounted : Accounted (s.enqueue name bytes options now) :=
      h.move (.enqueue hname hpos hcap hdup)
    have hqueued : Covers (s.nextSequence :: calls) (s.enqueue name bytes options now) := by
      intro r hr
      rcases List.mem_append.1 hr with hr | hr
      · exact List.mem_cons_of_mem _ (hcovers r hr)
      · obtain rfl := List.mem_singleton.1 hr
        exact List.mem_cons_self
    have hpass : Gains (s.nextSequence :: calls) (s.enqueue name bytes options now)
        ((s.enqueue name bytes options now).grantWaitersLocked now) 0 :=
      gains_pass haccounted hqueued
    have hloop : Gains (s.nextSequence :: calls) (s.enqueue name bytes options now)
        (((s.enqueue name bytes options now).grantWaitersLocked now).waitLoop s.nextSequence
          later).1 (0 + 0) :=
      hpass.trans (gains_waitLoop haccounted.grantWaitersLocked hpass.covers)
    refine ⟨?_, (result_of_waitLoop _ _ _).1, hloop.covers, hloop.margin_eq.trans ?_⟩
    · rw [nextSequence_waitLoop, nextSequence_grantWaitersLocked]
      rfl
    · rw [add_zero, add_zero]
      exact margin_congr rfl rfl

theorem gains_wake (h : Accounted s) (hcovers : Covers calls s) :
    Gains calls s (s.wake n now).1 0 := by
  have hloop : Gains calls (s.resume n) ((s.resume n).waitLoop n now).1 0 :=
    gains_waitLoop (h.move (.resume s n)) hcovers
  exact ⟨hloop.covers, hloop.margin_eq⟩

theorem gains_expireWait (hcovers : Covers calls s) : Gains calls s (s.expireWait n now).1 0 := by
  rw [expireWait]
  split
  · exact ⟨hcovers, (add_zero _).symm⟩
  · refine ⟨hcovers.mono List.filter_sublist.subset, ?_⟩
    rw [add_zero]
    exact margin_timeout rfl rfl fun r hr => hcovers r (List.filter_sublist.subset hr)

theorem gains_release (h : Accounted s) (hcovers : Covers calls s) :
    Gains calls s (s.release name now).1 (-(s.release name now).2.amount.toNat) := by
  rw [release]
  split_ifs
  · exact gains_refl hcovers
  · split
    next => exact gains_refl hcovers
    next bytes hbytes =>
      have hweight := Table.weight_erase (w := UInt64.toNat) hbytes
      have hdrop : Gains calls s (s.dropClient name bytes) (-bytes.toNat) := by
        refine ⟨hcovers, ?_⟩
        have hgranted : (s.dropClient name bytes).granted calls = s.granted calls := rfl
        rw [margin, margin, hgranted, ← hweight]
        show (Table.weight UInt64.toNat (s.reservations.erase name) : ℤ) - _ = _
        omega
      have hpass : Gains calls _ ((s.dropClient name bytes).grantWaitersLocked now) 0 :=
        gains_pass (h.move (.dropClient hbytes)) hdrop.covers
      simpa using hdrop.trans hpass

theorem gains_cancelWaiters (hcovers : Covers calls s) : Gains calls s s.cancelWaiters 0 := by
  refine ⟨fun _ hr => absurd hr List.not_mem_nil, ?_⟩
  rw [add_zero]
  exact margin_timeout (t := s.cancelWaiters) rfl rfl hcovers

theorem gains_releaseModel (h : Accounted s) (hcovers : Covers calls s) :
    Gains calls s (s.releaseModel id now).1 0 := by
  rw [releaseModel]
  split_ifs
  · exact gains_refl hcovers
  · split
    next => exact gains_refl hcovers
    next bytes hbytes =>
      have hsame : SameClients s (s.dropModel id bytes) := ⟨rfl, rfl, rfl⟩
      have hdrop := hsame.gains hcovers
      exact hdrop.trans (gains_pass (h.move (.dropModel hbytes)) hdrop.covers)

theorem gains_replaceModelReservations (h : Accounted s) (hcovers : Covers calls s) :
    Gains calls s (s.replaceModelReservations evictions id bytes now).1 0 := by
  rcases replaceModelReservations_pass h evictions id bytes now with hsame | ⟨t, hmoves, hsame, hpass⟩
  · rw [hsame]
    exact gains_refl hcovers
  · have hgains := hsame.gains hcovers
    rw [hpass]
    exact hgains.trans (gains_pass (h.moves hmoves) hgains.covers)

theorem Move.nextSequence_le (hm : Move s t) : s.nextSequence ≤ t.nextSequence := by
  cases hm with
  | pass => exact nextSequence_grantWaitersLocked.ge
  | enqueue => exact Nat.le_succ _
  | _ => exact le_rfl

theorem nextSequence_le_of_moves (hm : Moves s t) : s.nextSequence ≤ t.nextSequence := by
  induction hm with
  | refl => exact le_rfl
  | tail _ hm ih => exact ih.trans hm.nextSequence_le

/-- The operations on models do not change the margin, nor does a cancellation. -/
theorem gains_perform_of_model (h : Accounted s) (hcovers : Covers calls s) {a : Action}
    (ha : ¬ a.IsClient ∨ a = .cancelWaiters) : Gains calls s (s.perform a).1 0 := by
  cases a with
  | acquireModel id bytes =>
    show Gains calls s (s.acquireModel id bytes).1 0
    rw [acquireModel, h.noteFree_eq]
    split_ifs
    · exact gains_refl hcovers
    · exact gains_refl hcovers
    · exact gains_refl hcovers
    · exact gains_refl hcovers
    · exact ⟨hcovers, (add_zero _).symm⟩
  | releaseModel => exact gains_releaseModel h hcovers
  | replaceModelReservations => exact gains_replaceModelReservations h hcovers
  | cancelWaiters => exact gains_cancelWaiters hcovers
  | _ => exact absurd trivial (ha.resolve_right (by simp))

end Operations

end ResourceManager

end Gpumemd
