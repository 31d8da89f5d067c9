import Gpumemd.Resource.Requests

/-!
# Overtaking

A client request is only overtaken by a smaller one, or by one that went through
the queue and ranks before it (`reachable_overtaking`). A grant pass selects the
best ranked request among those that fit, so whoever it passes over for a worse one
is too large for the memory that is free; and a request that is granted without
queueing fits, which no queued one does.
-/

namespace Gpumemd

open Library

/-- The request `q` is to be granted before `r`: it has the higher priority, or the same one and,
    with `CostAware`, the lower estimated cost, or else the lower sequence number. -/
def PendingRequest.RanksBefore (policy : SchedulingPolicy) (q r : PendingRequest) : Prop :=
  r.priority < q.priority ∨ q.priority = r.priority ∧
    (policy = .costAware ∧ q.estimatedCost < r.estimatedCost ∨
      (policy = .costAware → q.estimatedCost = r.estimatedCost) ∧ q.sequence < r.sequence)

/-- The event leaves the request `r` behind with reason: it is no grant, or that of a
    smaller request, or that of a queued request that ranks before `r`. -/
def Event.MayOvertake (policy : SchedulingPolicy) (r : PendingRequest) : Event → Prop
  | .atOnce _ bytes => bytes < r.bytes
  | .granted g => g.request.bytes < r.bytes ∨ g.request.RanksBefore policy r
  | _ => True

namespace ResourceManager

variable {s t u : ResourceManager} {now : TimePoint}

/-- From `s` to `t`, nobody who stays queued is overtaken without reason, and those
    who join the queue get the sequence numbers that follow. -/
structure Fair (s t : ResourceManager) : Prop where
  schedulingPolicy : t.schedulingPolicy = s.schedulingPolicy
  nextSequence : s.nextSequence ≤ t.nextSequence
  queued : ∀ r ∈ t.pending, r ∈ s.pending ∨ s.nextSequence ≤ r.sequence
  granted : ∃ es, t.history = s.history ++ es ∧
    ∀ e ∈ es, ∀ r ∈ s.pending, r ∈ t.pending → e.MayOvertake s.schedulingPolicy r

namespace Fair

theorem refl (s : ResourceManager) : Fair s s :=
  ⟨rfl, le_rfl, fun _ hr => .inl hr, [], (List.append_nil s.history).symm,
    fun _ he => absurd he List.not_mem_nil⟩

/-- Whoever is queued at both ends was queued all along, since the sequence numbers
    of those who join are new. -/
theorem trans (hs : ∀ r ∈ s.pending, r.sequence < s.nextSequence) (h : Fair s t) (h' : Fair t u) :
    Fair s u := by
  obtain ⟨es, hes, hfair⟩ := h.granted
  obtain ⟨es', hes', hfair'⟩ := h'.granted
  refine ⟨h'.schedulingPolicy.trans h.schedulingPolicy, h.nextSequence.trans h'.nextSequence, ?_,
    es ++ es', ?_, ?_⟩
  · intro r hr
    rcases h'.queued r hr with hr | hr
    · exact h.queued r hr
    · exact .inr (h.nextSequence.trans hr)
  · rw [hes', hes, List.append_assoc]
  · intro e he r hrs hru
    -- whoever joined after `s` has a sequence number that nobody had in `s`
    have hrt : r ∈ t.pending := by
      refine (h'.queued r hru).resolve_right fun hle => ?_
      have hlt := hs r hrs
      have hnext := h.nextSequence
      omega
    rcases List.mem_append.1 he with he | he
    · exact hfair e he r hrs hrt
    · rw [← h.schedulingPolicy]
      exact hfair' e he r hrt hru

/-- A move that grants nothing and queues nobody. -/
theorem of_events (es : List Event) (hpolicy : t.schedulingPolicy = s.schedulingPolicy)
    (hnext : t.nextSequence = s.nextSequence) (hpending : t.pending ⊆ s.pending)
    (hhistory : t.history = s.history ++ es)
    (hes : ∀ e ∈ es, ∀ r ∈ s.pending, e.MayOvertake s.schedulingPolicy r) : Fair s t :=
  ⟨hpolicy, hnext.ge, fun _ hr => .inl (hpending hr), es, hhistory,
    fun e he r hr _ => hes e he r hr⟩

/-- A move that leaves the queue and the history alone. -/
theorem congr (hpolicy : t.schedulingPolicy = s.schedulingPolicy)
    (hnext : t.nextSequence = s.nextSequence) (hpending : t.pending = s.pending)
    (hhistory : t.history = s.history) : Fair s t :=
  ⟨hpolicy, hnext.ge, fun _ hr => .inl (hpending ▸ hr), [],
    hhistory.trans (List.append_nil s.history).symm,
    fun _ he => absurd he List.not_mem_nil⟩

theorem expirePending : Fair s (s.expirePending now) := by
  refine .of_events _ rfl rfl List.filter_sublist.subset rfl ?_
  intro e he r _
  obtain ⟨q, _, rfl⟩ := List.mem_map.1 he
  trivial

/-- The turn of the loop: whoever is passed over does not fit or ranks behind. -/
theorem grant {index : ℕ} {request : PendingRequest}
    (hordered : s.pending.Pairwise (·.sequence < ·.sequence))
    (hsel : s.selectPending = some (index, request)) : Fair s (s.grant now index request) := by
  refine ⟨rfl, le_rfl, fun r hr => .inl (pending_grant_sublist.subset hr), _, rfl, ?_⟩
  intro e he r hr hr'
  obtain rfl := List.mem_singleton.1 he
  -- `r` stays queued and the selected request does not
  have hne : request.sequence ≠ r.sequence := by
    have hnodup : (s.pending.map (·.sequence)).Nodup :=
      List.pairwise_map.2 (hordered.imp fun hlt => ne_of_lt hlt)
    rw [((pending_perm_of_selectPending hsel).map _).nodup_iff, List.map_cons,
      List.nodup_cons] at hnodup
    intro heq
    exact hnodup.1 (heq ▸ List.mem_map_of_mem hr')
  have hfit := bytes_le_of_selectPending hsel
  exact (outranks_of_selectPending hsel hr hne).imp (UInt64.lt_of_le_of_lt hfit)
    PendingRequest.outranks_iff.1

theorem grantWaitersLocked (h : Tracked s) : Fair s (s.grantWaitersLocked now) := by
  have hs (r : PendingRequest) (hr : r ∈ s.pending) : r.sequence < s.nextSequence :=
    h.mem_requests_iff.1 ⟨r, List.mem_append_left _ hr, rfl⟩
  refine grantWaitersLocked_induct
    (P := fun t => Fair s t ∧ t.pending.Pairwise (·.sequence < ·.sequence)) ?_ ?_ ?_ ?_
  · exact ⟨expirePending, h.ordered.sublist List.filter_sublist⟩
  · rintro t ⟨hfair, hordered⟩
    exact ⟨⟨hfair.1, hfair.2, hfair.3, hfair.4⟩, hordered⟩
  · rintro t index request ⟨hfair, hordered⟩ hsel
    exact ⟨hfair.trans hs (.grant hordered hsel), hordered.sublist pending_grant_sublist⟩
  · rintro t ⟨hfair, _⟩
    exact ⟨hfair.1, hfair.2, hfair.3, hfair.4⟩

theorem move (h : Tracked s) (hm : Move s t) : Fair s t := by
  cases hm with
  | pass => exact grantWaitersLocked h
  | @grantAtOnce name bytes _ _ _ hfit hsettled =>
    -- it fits, and nobody who is queued does
    refine .of_events [.atOnce name bytes] rfl rfl (List.Subset.refl _) rfl ?_
    intro e he r hr
    obtain rfl := List.mem_singleton.1 he
    exact UInt64.lt_of_le_of_lt hfit (hsettled r hr)
  | enqueue =>
    -- the request that joins gets the next sequence number
    refine ⟨rfl, Nat.le_succ _, ?_, [], (List.append_nil s.history).symm,
      fun _ he => absurd he List.not_mem_nil⟩
    intro r hr
    rcases List.mem_append.1 hr with hr | hr
    · exact .inl hr
    · obtain rfl := List.mem_singleton.1 hr
      exact .inr le_rfl
  | expireRequest =>
    refine .of_events _ rfl rfl List.filter_sublist.subset rfl ?_
    intro e he r _
    obtain ⟨q, _, rfl⟩ := List.mem_map.1 he
    trivial
  | cancelWaiters =>
    refine .of_events _ rfl rfl (List.nil_subset _) rfl ?_
    intro e he r _
    obtain ⟨q, _, rfl⟩ := List.mem_map.1 he
    trivial
  | _ => exact .congr rfl rfl rfl rfl

theorem moves (h : Inv s) (hm : Moves s t) : Fair s t := by
  induction hm with
  | refl => exact .refl s
  | @tail t u hm hmove ih =>
    refine ih.trans ?_ (.move (h.moves hm).tracked hmove)
    intro r hr
    exact h.tracked.mem_requests_iff.1 ⟨r, List.mem_append_left _ hr, rfl⟩

end Fair

/-- A step from a reachable state grants, past the requests that stay queued, only
    smaller or better ranked ones. -/
theorem reachable_overtaking (hs : machine.Reachable s) {a : Action} (ha : s.Enabled a) :
    ∃ es, (s.perform a).1.history = s.history ++ es ∧
      ∀ e ∈ es, ∀ r ∈ s.pending, r ∈ (s.perform a).1.pending →
        e.MayOvertake s.schedulingPolicy r :=
  (Fair.moves (reachable_inv hs) (reachable_moves hs ha)).granted

/-- When the holder releases its memory, the first call is granted past the second,
    which stays queued. -/
theorem contended_release_overtaking :
    (contended.perform (.release (ascii "holder") 1)).1.pending.length = 1 ∧
      ∃ es, (contended.perform (.release (ascii "holder") 1)).1.history = contended.history ++ es ∧
        ∀ e ∈ es, ∀ r ∈ contended.pending,
          r ∈ (contended.perform (.release (ascii "holder") 1)).1.pending →
            e.MayOvertake contended.schedulingPolicy r :=
  ⟨by decide, reachable_overtaking contended_reachable (a := .release (ascii "holder") 1) trivial⟩

end ResourceManager

end Gpumemd
