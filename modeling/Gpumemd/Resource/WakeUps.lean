import Gpumemd.Resource.Requests

/-!
# Wake-ups

A notified call that runs again makes a grant pass, which notifies every waiting
call whether it granted anything or not. With nothing new to grant, the call then
waits again and has everybody else notified (`wake_of_incomplete`): while the
requests of two calls are not completed, these wake each other up for ever.

A state comes back to itself through wake-ups alone if and only if it is alternating
(`wakeUps_return_iff`), and wake-ups lead to such a state if and only if a notified call
and another blocked one have no outcome (`wakeUps_recur_iff`). As long as `acquire` only
queues a request while no other is queued, no such state is reached
(`not_contending_of_queuesAlone`).
-/

namespace Gpumemd

open Library
open Relation (ReflTransGen TransGen)

namespace ResourceManager

variable {s t : ResourceManager} {now since : TimePoint} {n : ℕ}

/-- A notified call runs again, at a clock reading not before `since`, with no
    deadline of a queued request reached. -/
def WakeUp (since : TimePoint) (s t : ResourceManager) : Prop :=
  ∃ n ∈ s.notified, ∃ now, since ≤ now ∧ (∀ r ∈ s.pending, r.expired now = false) ∧
    (s.wake n now).1 = t

/-- The calls blocked in `condition_.wait`. -/
def blocked (s : ResourceManager) : Finset ℕ := s.waiting ∪ s.notified

/-- The call `n` waits and every other blocked call is notified. -/
def handOver (s : ResourceManager) (n : ℕ) : ResourceManager :=
  { s with waiting := {n}, notified := s.blocked.erase n }

/-- One call waits, and a call is notified whose request is not completed. -/
def Alternating (s : ResourceManager) : Prop :=
  ∃ c, s.waiting = {c} ∧ ∃ d ∈ s.notified, s.outcome d = none

/-- Wake-ups lead to a state that they lead back to itself. -/
def Recurs (since : TimePoint) (s : ResourceManager) : Prop :=
  ∃ t, ReflTransGen (WakeUp since) s t ∧ TransGen (WakeUp since) t t

/-- Two blocked calls have no outcome, and one of them is notified. -/
def Contending (s : ResourceManager) : Prop :=
  ∃ d ∈ s.notified, s.outcome d = none ∧ ∃ c ∈ s.blocked, c ≠ d ∧ s.outcome c = none

/-! ## One wake-up -/

theorem wake_of_completed (hout : s.outcome n ≠ none) : (s.wake n now).1 = s.resume n := by
  obtain ⟨result, hresult⟩ := Option.ne_none_iff_exists'.1 hout
  have hresume : (s.resume n).outcome n = some result := hresult
  rw [wake, waitLoop, hresume]

/-- A call whose request is not completed hands over to everybody else. -/
theorem wake_of_incomplete (h : Accounted s) (hsettled : s.Settled)
    (hlive : ∀ r ∈ s.pending, r.expired now = false) (hout : s.outcome n = none) :
    (s.wake n now).1 = s.handOver n := by
  -- the call finds itself without an outcome, makes a pass, and looks again
  have hpass : (s.resume n).grantWaitersLocked now = (s.resume n).notifyAll :=
    grantWaitersLocked_of_settled (s := s.resume n) ⟨h.balanced, h.fresh⟩ hsettled hlive
  have hresume : (s.resume n).outcome n = none := hout
  have hagain : (s.resume n).notifyAll.outcome n = none := hout
  -- the pass notifies everybody who waits, then the call itself waits again
  have hnotified : ((s.notified.erase n ∪ s.waiting.erase n).erase n) = s.blocked.erase n := by
    ext m
    simp only [blocked, Finset.mem_erase, Finset.mem_union]
    grind
  rw [wake, waitLoop, hresume]
  dsimp only
  rw [hpass, hagain]
  simp only [handOver, wait, notifyAll, resume, hnotified, insert_empty_eq]

/-- What a wake-up does: the call returns, or hands over. -/
theorem WakeUp.cases (h : Accounted s) (hsettled : s.Settled) (hw : WakeUp since s t) :
    ∃ n ∈ s.notified, s.outcome n ≠ none ∧ t = s.resume n ∨ s.outcome n = none ∧ t = s.handOver n := by
  obtain ⟨n, hn, now, _, hlive, rfl⟩ := hw
  refine ⟨n, hn, ?_⟩
  by_cases hout : s.outcome n = none
  · exact .inr ⟨hout, wake_of_incomplete h hsettled hlive hout⟩
  · exact .inl ⟨hout, wake_of_completed hout⟩

/-! ## Sequences of wake-ups -/

/-- Along wake-ups no call joins the blocked ones. If none leaves them, only calls
    whose requests are not completed have run, and the last to run is the one that
    waits. -/
theorem blocked_of_wakeUps (h : Accounted s) (hsettled : s.Settled)
    (hw : TransGen (WakeUp since) s t) :
    Accounted t ∧ t.Settled ∧ t.outcome = s.outcome ∧ t.blocked ⊆ s.blocked ∧
      (t.blocked = s.blocked → (∃ d ∈ s.notified, s.outcome d = none) ∧ ∃ c, t.waiting = {c}) := by
  -- a call that hands over stays blocked, one that returns leaves
  have hblocked (u : ResourceManager) (n : ℕ) (hn : n ∈ u.notified) :
      (u.handOver n).blocked = u.blocked := by
    ext m
    simp only [blocked, handOver, Finset.mem_union, Finset.mem_singleton, Finset.mem_erase]
    grind
  have hleave (u : ResourceManager) (n : ℕ) : (u.resume n).blocked = u.blocked.erase n := by
    ext m
    simp only [blocked, resume, Finset.mem_union, Finset.mem_erase]
    grind
  induction hw with
  | single hw =>
    obtain ⟨n, hn, ⟨_, rfl⟩ | ⟨hout, rfl⟩⟩ := hw.cases h hsettled
    · -- the first wake-up: it has to hand over if nobody leaves
      refine ⟨⟨h.balanced, h.fresh⟩, hsettled, rfl, ?_, fun heq => ?_⟩
      · rw [hleave]
        exact Finset.erase_subset _ _
      · rw [hleave, Finset.erase_eq_self] at heq
        exact absurd (Finset.mem_union_right _ hn) heq
    · exact ⟨⟨h.balanced, h.fresh⟩, hsettled, rfl, (hblocked s n hn).le, fun _ =>
        ⟨⟨n, hn, hout⟩, n, rfl⟩⟩
  | @tail t u _ hw ih =>
    -- who returns in the end was blocked from the beginning, and is no more
    obtain ⟨ht, hsettled', hsame, hsub, hall⟩ := ih
    obtain ⟨n, hn, ⟨_, rfl⟩ | ⟨_, rfl⟩⟩ := hw.cases ht hsettled'
    · refine ⟨⟨ht.balanced, ht.fresh⟩, hsettled', hsame, ?_, fun heq => ?_⟩
      · rw [hleave]
        exact (Finset.erase_subset _ _).trans hsub
      · -- the call that returned is blocked no more, and was
        rw [hleave] at heq
        have hmem : n ∈ s.blocked := hsub (Finset.mem_union_right _ hn)
        exact absurd (heq ▸ hmem) (Finset.notMem_erase n _)
    · refine ⟨⟨ht.balanced, ht.fresh⟩, hsettled', hsame, ?_, fun heq => ?_⟩
      · rw [hblocked t n hn]
        exact hsub
      · rw [hblocked t n hn] at heq
        exact ⟨(hall heq).1, n, rfl⟩

/-- Two calls that hand over to each other come back to where they started. -/
theorem wakeUps_of_alternating (h : Inv s) (hsettled : s.Settled)
    (hlive : ∀ r ∈ s.pending, r.expired since = false) (halt : s.Alternating) :
    TransGen (WakeUp since) s s := by
  obtain ⟨c, hc, d, hd, hout⟩ := halt
  have hwaiting : c ∈ s.waiting := hc ▸ Finset.mem_singleton_self c
  have hcnot : c ∉ s.notified := fun hmem => Finset.disjoint_left.1 h.parked.disjoint hwaiting hmem
  have hne : c ≠ d := fun heq => hcnot (heq ▸ hd)
  -- `d` runs and waits, which notifies `c`; then `c` does the same
  have hfirst : WakeUp since s (s.handOver d) :=
    ⟨d, hd, since, Int64.le_refl _, hlive, wake_of_incomplete h.accounted hsettled hlive hout⟩
  have hback : (s.handOver d).handOver c = s := by
    have hnotified : ((s.handOver d).blocked.erase c) = s.notified := by
      ext m
      simp only [blocked, handOver, hc, Finset.mem_union, Finset.mem_singleton, Finset.mem_erase]
      grind
    rw [handOver, hnotified, ← hc]
    rfl
  have hsecond : WakeUp since (s.handOver d) s := by
    refine ⟨c, ?_, since, Int64.le_refl _, hlive, ?_⟩
    · exact Finset.mem_erase.2 ⟨hne, Finset.mem_union_left _ hwaiting⟩
    · refine Eq.trans ?_ hback
      exact wake_of_incomplete (s := s.handOver d) ⟨h.accounted.balanced, h.accounted.fresh⟩
        hsettled hlive (h.parked.unsettled c hwaiting)
  exact (TransGen.single hfirst).tail hsecond

theorem wakeUps_return_iff (hs : machine.Reachable s)
    (hlive : ∀ r ∈ s.pending, r.expired since = false) :
    TransGen (WakeUp since) s s ↔ s.Alternating := by
  have h := reachable_inv hs
  have hsettled := reachable_settled hs
  constructor
  · intro hw
    obtain ⟨_, _, _, _, hall⟩ := blocked_of_wakeUps h.accounted hsettled hw
    obtain ⟨⟨d, hd, hout⟩, c, hc⟩ := hall rfl
    exact ⟨c, hc, d, hd, hout⟩
  · exact wakeUps_of_alternating h hsettled hlive

/-- What wake-ups lead to, a run reaches. -/
theorem reachable_wakeUps (hs : machine.Reachable s) (hw : ReflTransGen (WakeUp since) s t) :
    machine.Reachable t := by
  induction hw with
  | refl => exact hs
  | @tail t u _ hw ih =>
    obtain ⟨n, hn, now, _, _, hwake⟩ := hw
    have henabled : t.Enabled (.wake n now) := Or.inr hn
    exact ih.step ⟨henabled, hwake⟩

/-- Wake-ups complete no request and block no call, and until a call without an outcome hands
    over, they only take calls away. -/
theorem kept_of_wakeUps (hs : machine.Reachable s) (hw : ReflTransGen (WakeUp since) s t) :
    t.pending = s.pending ∧ t.outcome = s.outcome ∧ t.blocked ⊆ s.blocked ∧
      (t.waiting ⊆ s.waiting ∧ t.notified ⊆ s.notified ∨ ∃ d ∈ s.notified, s.outcome d = none) := by
  induction hw with
  | refl => exact ⟨rfl, rfl, subset_rfl, .inl ⟨subset_rfl, subset_rfl⟩⟩
  | @tail t u ht hw ih =>
    obtain ⟨hpending, houtcome, hblocked, hkept⟩ := ih
    have hreach := reachable_wakeUps hs ht
    have hsub : u.blocked ⊆ t.blocked :=
      (blocked_of_wakeUps (reachable_inv hreach).accounted (reachable_settled hreach) (.single hw)).2.2.2.1
    obtain ⟨n, hn, ⟨_, rfl⟩ | ⟨hout, rfl⟩⟩ :=
      hw.cases (reachable_inv hreach).accounted (reachable_settled hreach)
    · refine ⟨hpending, houtcome, hsub.trans hblocked, hkept.imp_left fun ⟨hwaiting, hnotified⟩ => ?_⟩
      exact ⟨(Finset.erase_subset _ _).trans hwaiting, (Finset.erase_subset _ _).trans hnotified⟩
    · refine ⟨hpending, houtcome, hsub.trans hblocked, .inr ?_⟩
      rcases hkept with ⟨_, hnotified⟩ | hfound
      · exact ⟨n, hnotified hn, houtcome ▸ hout⟩
      · exact hfound

/-- Wake-ups lead to a state that they lead back to itself if and only if two blocked calls have no
    outcome, and one of them is notified. -/
theorem wakeUps_recur_iff (hs : machine.Reachable s)
    (hlive : ∀ r ∈ s.pending, r.expired since = false) : s.Recurs since ↔ s.Contending := by
  constructor
  · rintro ⟨t, hst, htt⟩
    obtain ⟨hpending, houtcome, hblocked, hkept⟩ := kept_of_wakeUps hs hst
    have hreach := reachable_wakeUps hs hst
    have hparked := (reachable_inv hreach).parked
    obtain ⟨c, hc, d, hd, hout⟩ := (wakeUps_return_iff hreach (hpending ▸ hlive)).1 htt
    have hwaiting : c ∈ t.waiting := hc ▸ Finset.mem_singleton_self c
    have hne : c ≠ d := fun heq => Finset.disjoint_left.1 hparked.disjoint hwaiting (heq ▸ hd)
    have hcout : s.outcome c = none := houtcome ▸ hparked.unsettled c hwaiting
    have hcmem : c ∈ s.blocked := hblocked (Finset.mem_union_left _ hwaiting)
    have hdmem : d ∈ s.blocked := hblocked (Finset.mem_union_right _ hd)
    rw [houtcome] at hout
    rcases hkept with ⟨_, hnotified⟩ | ⟨e, he, heout⟩
    · exact ⟨d, hnotified hd, hout, c, hcmem, hne, hcout⟩
    · -- the call that has handed over first is not both of them
      by_cases hed : c = e
      · exact ⟨e, he, heout, d, hdmem, hed ▸ hne.symm, hout⟩
      · exact ⟨e, he, heout, c, hcmem, hed, hcout⟩
  · rintro ⟨d, hd, hout, c, hc, hne, hcout⟩
    have hsettled := reachable_settled hs
    have hwake := wake_of_incomplete (reachable_inv hs).accounted hsettled hlive hout
    have hfirst : WakeUp since s (s.handOver d) := ⟨d, hd, since, Int64.le_refl _, hlive, hwake⟩
    -- then `d` waits, and `c` is notified
    have halt : (s.handOver d).Alternating := ⟨d, rfl, c, Finset.mem_erase.2 ⟨hne, hc⟩, hcout⟩
    have hreach := reachable_wakeUps hs (.single hfirst)
    exact ⟨_, .single hfirst, (wakeUps_return_iff hreach hlive).2 halt⟩

/-! ## Runs in which nobody queues behind another -/

section Queue

variable {name id : Str} {bytes : Bytes}

theorem pending_waitLoop_sublist : (s.waitLoop n now).1.pending.Sublist s.pending := by
  rw [waitLoop]
  split
  · exact List.Sublist.refl _
  · dsimp only
    split
    · exact pending_grantWaitersLocked_sublist
    · exact pending_grantWaitersLocked_sublist (s := s)

theorem pending_tryAcquire_sublist : (s.tryAcquire name bytes now).1.pending.Sublist s.pending := by
  rw [tryAcquire]
  split_ifs
  any_goals exact List.Sublist.refl _
  exact pending_grantWaitersLocked_sublist (s := s.noteFree.grantAtOnce name bytes)

/-- What `acquire` has checked when it queues a request. -/
def Queueable (s : ResourceManager) (name : Str) (bytes : Bytes) (options : AcquireOptions) : Prop :=
  validName name = true ∧ bytes ≠ 0 ∧ bytes ≤ s.capacity ∧ 0 < options.timeout ∧
    s.hasNameLocked name = false ∧ 0 ≤ options.estimatedCost

/-- A call of `acquire` queues one request at most, after its checks. -/
theorem pending_acquire (name : Str) (bytes : Bytes) (options : AcquireOptions)
    (now later : TimePoint) :
    (s.acquire name bytes options now later).1.pending.Sublist s.pending ∨
      s.Queueable name bytes options ∧
        (s.acquire name bytes options now later).1.pending.length ≤ s.pending.length + 1 := by
  obtain ⟨t, ht, hacquires⟩ := s.acquires name bytes options now later
  have hpending : t.pending = s.pending := by rcases ht with rfl | rfl <;> rfl
  generalize s.acquire name bytes options now later = call at hacquires
  cases hacquires with
  | refuses => exact .inl (hpending ▸ List.Sublist.refl _)
  | tries => exact .inl pending_tryAcquire_sublist
  | grants => exact .inl (hpending ▸ List.Sublist.refl _)
  | queues hname hbytes htimeout hcapacity hnew hcost =>
    refine .inr ⟨⟨hname, hbytes, hcapacity, htimeout, hnew, hcost⟩, ?_⟩
    have hpass : ((t.enqueue name bytes options now).grantWaitersLocked now).pending.Sublist
        (t.enqueue name bytes options now).pending := pending_grantWaitersLocked_sublist
    refine (pending_waitLoop_sublist.trans hpass).length_le.trans ?_
    rw [enqueue, hpending, List.length_append, List.length_singleton]

theorem pending_sumEvictions (evictions : List Str) (evictedBytes : Bytes) :
    (sumEvictions evictions evictedBytes s).1.pending = s.pending := by
  induction evictions generalizing s evictedBytes with
  | nil => rfl
  | cons eviction evictions ih =>
    rw [sumEvictions]
    split
    · rfl
    · exact ih (s := s.noteAdd _ _) _

theorem pending_replaceModelReservations_sublist {evictions : List Str} :
    (s.replaceModelReservations evictions id bytes now).1.pending.Sublist s.pending := by
  have hsum := pending_sumEvictions (s := s) evictions 0
  rw [replaceModelReservations]
  split_ifs
  any_goals exact List.Sublist.refl _
  -- nothing is queued before the pass that ends a successful replacement
  generalize sumEvictions evictions 0 s = sum at hsum
  obtain ⟨t, _ | total⟩ := sum
  · exact hsum ▸ List.Sublist.refl _
  · dsimp only
    split_ifs
    · exact hsum ▸ List.Sublist.refl _
    · refine pending_grantWaitersLocked_sublist.trans ?_
      show (dropEvictions evictions _).pending.Sublist s.pending
      rw [(dropEvictions_sameClients evictions _).pending]
      exact hsum ▸ List.Sublist.refl _

/-- The other operations queue nobody. -/
theorem pending_perform_sublist {a : Action}
    (ha : ∀ name bytes options now later, a ≠ .acquire name bytes options now later) :
    (s.perform a).1.pending.Sublist s.pending := by
  cases a with
  | tryAcquire => exact pending_tryAcquire_sublist
  | acquire name bytes options now later => exact absurd rfl (ha name bytes options now later)
  | wake n now => exact pending_waitLoop_sublist (s := s.resume n)
  | expireWait n now =>
    show (s.expireWait n now).1.pending.Sublist s.pending
    rw [expireWait]
    split
    · exact List.Sublist.refl _
    · exact List.filter_sublist
  | release name now =>
    show (s.release name now).1.pending.Sublist s.pending
    rw [release]
    split_ifs
    · exact List.Sublist.refl _
    · split
      · exact List.Sublist.refl _
      · exact pending_grantWaitersLocked_sublist (s := s.dropClient _ _)
  | acquireModel id bytes =>
    show (s.acquireModel id bytes).1.pending.Sublist s.pending
    rw [acquireModel]
    split_ifs <;> exact List.Sublist.refl _
  | releaseModel id now =>
    show (s.releaseModel id now).1.pending.Sublist s.pending
    rw [releaseModel]
    split_ifs
    · exact List.Sublist.refl _
    · split
      · exact List.Sublist.refl _
      · exact pending_grantWaitersLocked_sublist (s := s.dropModel _ _)
  | replaceModelReservations => exact pending_replaceModelReservations_sublist
  | cancelWaiters => exact List.nil_sublist _

end Queue

/-- `acquire` only queues a request while no other is queued. -/
def QueuesAlone (s : ResourceManager) (a : Action) (_ : ResourceManager) : Prop :=
  match a with
  | .acquire name bytes options _ _ => s.Queueable name bytes options → s.pending = []
  | _ => True

theorem length_pending_perform {a : Action} (ha : QueuesAlone s a t) (hlen : s.pending.length ≤ 1) :
    (s.perform a).1.pending.length ≤ 1 := by
  by_cases hacquire : ∃ name bytes options now later, a = .acquire name bytes options now later
  · obtain ⟨name, bytes, options, now, later, rfl⟩ := hacquire
    rcases s.pending_acquire name bytes options now later with hsub | ⟨hqueueable, hle⟩
    · exact hsub.length_le.trans hlen
    · rw [ha hqueueable] at hle
      exact hle
  · refine (pending_perform_sublist ?_).length_le.trans hlen
    intro name bytes options now later heq
    exact hacquire ⟨name, bytes, options, now, later, heq⟩

/-- Of at most one queued request, two blocked calls cannot be without an outcome. -/
theorem not_contending_of_queuesAlone (hs : (machine.restrict QueuesAlone).Reachable s) :
    ¬ s.Contending := by
  have hlen : s.pending.length ≤ 1 := by
    refine hs.invariant (P := fun s => s.pending.length ≤ 1) ?_ ?_
    · rintro s ⟨capacity, policy, h⟩
      obtain rfl := eq_of_create h
      exact Nat.zero_le _
    · rintro s a t _ hlen ⟨⟨_, rfl⟩, ha⟩
      exact length_pending_perform ha hlen
  have h := reachable_inv hs.of_restrict
  rintro ⟨d, hd, hout, c, hc, hne, hcout⟩
  obtain ⟨r, hr, rfl⟩ :=
    h.tracked.mem_pending_of_outcome (h.parked.queued c (Finset.mem_union.1 hc)) hcout
  obtain ⟨q, hq, rfl⟩ := h.tracked.mem_pending_of_outcome (h.parked.queued d (.inr hd)) hout
  -- both requests are the one that is queued
  have heq : r = q := by
    obtain ⟨i, hi, rfl⟩ := List.getElem_of_mem hr
    obtain ⟨j, hj, rfl⟩ := List.getElem_of_mem hq
    obtain rfl : i = j := by omega
    rfl
  exact hne (congrArg PendingRequest.sequence heq)

/-! ## When wake-ups die out -/

/-- Wake-ups alone lead from a state of a run to no state that they lead back to itself, unless two
    blocked calls have no outcome and one of them is notified. They never do in a run in which
    `acquire` only queues a request while no other is queued. -/
theorem wakeUps_die_out_iff (hs : machine.Reachable s)
    (hlive : ∀ r ∈ s.pending, r.expired since = false) :
    (¬ s.Recurs since ↔ ¬ s.Contending) ∧
      ((machine.restrict QueuesAlone).Reachable s → ¬ s.Recurs since) := by
  have hiff := wakeUps_recur_iff hs hlive
  exact ⟨not_congr hiff, fun halone hw => not_contending_of_queuesAlone halone (hiff.1 hw)⟩

/-- A manager with one blocked call. -/
def uncontended : ResourceManager :=
  let s : ResourceManager := { capacity := 10, schedulingPolicy := .priorityFifo }
  let s := (s.perform (.tryAcquire (ascii "holder") 10 0)).1
  (s.perform (.acquire (ascii "first") 5 {} 0 0)).1

theorem uncontended_reachable : (machine.restrict QueuesAlone).Reachable uncontended := by
  have hidle : (machine.restrict QueuesAlone).Reachable
      { capacity := 10, schedulingPolicy := .priorityFifo } := .init ⟨10, .priorityFifo, rfl⟩
  refine .step (a := .acquire (ascii "first") 5 {} 0 0) (.step (a := .tryAcquire (ascii "holder") 10 0)
    hidle ⟨⟨trivial, rfl⟩, trivial⟩) ⟨⟨trivial, rfl⟩, fun _ => ?_⟩
  exact List.eq_nil_of_length_eq_zero (by decide)

theorem contended_wakeUps_iff :
    (¬ contended.Recurs 0 ↔ ¬ contended.Contending) ∧ ¬ uncontended.Recurs 0 := by
  refine ⟨(wakeUps_die_out_iff contended_reachable (by decide)).1, ?_⟩
  exact (wakeUps_die_out_iff uncontended_reachable.of_restrict (by decide)).2 uncontended_reachable

/-- The two blocked calls of a contended manager wake each other up for ever. -/
theorem contended_wakeUps :
    machine.Reachable contended ∧ (∀ r ∈ contended.pending, r.expired 0 = false) ∧
      TransGen (WakeUp 0) contended contended := by
  have hlive : ∀ r ∈ contended.pending, r.expired 0 = false := by decide
  have halternating : contended.Alternating := ⟨1, by decide, 0, by decide, by decide⟩
  exact ⟨contended_reachable, hlive, wakeUps_of_alternating (reachable_inv contended_reachable)
    (reachable_settled contended_reachable) hlive halternating⟩

end ResourceManager

end Gpumemd
