import Gpumemd.Resource.Clock
import Gpumemd.Resource.Outcomes

/-!
# What `acquire` grants at once

There are three ways to a grant without waiting: `try_acquire`, the fast path of `acquire`
with an empty queue, and a request that is queued and granted by the pass that follows.
Since no request that waits fits, they come to the same (`acquire_at_once`): a call
succeeds at once exactly if its size is free, and what it leaves behind is what
`try_acquire` would.

A request that is queued has a deadline that is computed without overflow, and is not reached
by the pass that follows (`deadline_exact`).

The three ways do not check the same: the cost is only looked at on the way to the queue, so a
negative one is accepted wherever the request is granted before (`acquire_negative_iff`).
-/

namespace Gpumemd

open Library

namespace ResourceManager

variable {s : ResourceManager} {name : Str} {bytes : Bytes} {options : AcquireOptions}
  {now later : TimePoint}

/-- The request that a call of `acquire` queues. -/
def queuedRequest (s : ResourceManager) (name : Str) (bytes : Bytes) (options : AcquireOptions)
    (now : TimePoint) : PendingRequest where
  name := name
  bytes := bytes
  priority := options.priority
  estimatedCost := options.estimatedCost
  sequence := s.nextSequence
  deadline := deadline now options.timeout
  completed := false
  result := ⟨.none, 0⟩

theorem pending_enqueue : (s.enqueue name bytes options now).pending =
    s.pending ++ [s.queuedRequest name bytes options now] := rfl

theorem not_expired_queuedRequest (htimeout : 0 < options.timeout) :
    (s.queuedRequest name bytes options now).expired now = false :=
  PendingRequest.not_expired_iff.2 (lt_deadline htimeout)

/-! ## The ways of a call -/

/-- Whether the arguments of a call pass all checks that come before memory is compared. -/
structure Admitted (s : ResourceManager) (name : Str) (bytes : Bytes) (options : AcquireOptions) :
    Prop where
  valid : validName name = true
  unused : s.hasNameLocked name = false
  pos : bytes ≠ 0
  le : bytes ≤ s.capacity
  timeout : 0 < options.timeout
  cost : 0 ≤ options.estimatedCost

/-- An admitted call takes the fast path, or goes through the queue. -/
theorem acquire_of_admitted (h : Accounted s) (hadmitted : s.Admitted name bytes options) :
    s.acquire name bytes options now later =
      if s.pending = [] ∧ bytes ≤ s.free then (s.grantAtOnce name bytes, some ⟨.none, bytes⟩)
      else ((s.enqueue name bytes options now).grantWaitersLocked now).waitLoop s.nextSequence
        later := by
  obtain ⟨hname, hunused, hpos, hle, htimeout, hcost⟩ := hadmitted
  rw [acquire, hname, hunused, h.noteFree_eq, if_neg (by decide), if_neg hpos,
    if_neg (Int64.not_lt.2 (Int64.le_of_lt htimeout)), if_neg (UInt64.not_lt.2 hle),
    if_neg (Int64.ne_of_lt htimeout).symm, if_neg (by decide)]
  simp only [Bool.and_eq_true, List.isEmpty_iff, decide_eq_true_eq, ite_self,
    if_neg (Int64.not_lt.2 hcost)]

theorem tryAcquire_of_fits (now : TimePoint) (h : Accounted s) (hname : validName name = true)
    (hunused : s.hasNameLocked name = false) (hpos : bytes ≠ 0) (hfits : bytes ≤ s.free) :
    s.tryAcquire name bytes now =
      ((s.grantAtOnce name bytes).grantWaitersLocked now, ⟨.none, bytes⟩) := by
  rw [tryAcquire, hname, hunused, h.noteFree_eq, if_neg (by decide), if_neg hpos,
    if_neg (by decide), if_neg (UInt64.not_lt.2 hfits)]

/-- After a grant without queueing, the pass grants nobody else. -/
theorem grantWaitersLocked_grantAtOnce (hsettled : s.Settled) (hfits : bytes ≤ s.free) :
    (s.grantAtOnce name bytes).grantWaitersLocked now =
      ((s.grantAtOnce name bytes).expirePending now).noteFree.notifyAll :=
  grantWaitersLocked_of_unfit (s := s.grantAtOnce name bytes) fun r hr =>
    UInt64.lt_of_le_of_lt (free_charge_le hfits) (hsettled r hr)

theorem moves_enqueue (now : TimePoint) (hadmitted : s.Admitted name bytes options) :
    Moves s ((s.enqueue name bytes options now).grantWaitersLocked now) :=
  (Relation.ReflTransGen.single (.enqueue hadmitted.valid hadmitted.pos hadmitted.le
    hadmitted.unused)).tail (.pass _ now)

/-- A request that fits is granted by the pass that follows. -/
theorem enqueue_of_fits (now : TimePoint) (h : Inv s) (hsettled : s.Settled)
    (hadmitted : s.Admitted name bytes options) (hfits : bytes ≤ s.free) :
    ((s.enqueue name bytes options now).grantWaitersLocked now).outcome s.nextSequence =
        some ⟨.none, bytes⟩ ∧
      ((s.enqueue name bytes options now).grantWaitersLocked now).used = s.used + bytes ∧
      ((s.enqueue name bytes options now).grantWaitersLocked now).reservations =
        Table.emplace s.reservations name bytes ∧
      ((s.enqueue name bytes options now).grantWaitersLocked now).pending =
        s.pending.filter fun r => !r.expired now := by
  have htracked := (h.moves (moves_enqueue now hadmitted)).tracked
  obtain ⟨hpass, hpending⟩ := grantWaitersLocked_of_last_fits
    (s := s.enqueue name bytes options now) now pending_enqueue hsettled hfits
    (not_expired_queuedRequest hadmitted.timeout)
  refine ⟨?_, ?_, ?_, hpending⟩
  · have hgranted : (s.queuedRequest name bytes options now).complete ⟨.none, bytes⟩ ∈
        ((s.enqueue name bytes options now).grantWaitersLocked now).completed := by
      rw [hpass]
      exact List.mem_append_right _ (List.mem_singleton_self _)
    exact htracked.outcome_of_completed hgranted
  · rw [hpass]
    rfl
  · rw [hpass]
    rfl

/-- A call that looks for its request where nothing fits waits on, unless the deadline is
    reached. -/
theorem waitLoop_of_settled (now : TimePoint) (h : Inv s) (hsettled : s.Settled)
    {request : PendingRequest} (hmem : request ∈ s.pending) :
    (s.waitLoop request.sequence now).1.used = s.used ∧
      (s.waitLoop request.sequence now).1.reservations = s.reservations ∧
      (request.expired now = false → (s.waitLoop request.sequence now).2 = none ∧
        request ∈ (s.waitLoop request.sequence now).1.pending) ∧
      (request.expired now = true →
        (s.waitLoop request.sequence now).2 = some ⟨.timeout, 0⟩) := by
  have hpass : s.grantWaitersLocked now = (s.expirePending now).noteFree.notifyAll :=
    grantWaitersLocked_of_unfit hsettled
  have htracked : Tracked (s.expirePending now).noteFree.notifyAll :=
    hpass ▸ (h.move (.pass s now)).tracked
  rw [waitLoop, h.tracked.outcome_of_pending hmem]
  dsimp only
  rw [hpass]
  cases hexpired : request.expired now with
  | false =>
    have hkept : request ∈ (s.expirePending now).noteFree.notifyAll.pending :=
      List.mem_filter.2 ⟨hmem, by rw [hexpired]; rfl⟩
    rw [htracked.outcome_of_pending hkept]
    exact ⟨rfl, rfl, fun _ => ⟨rfl, hkept⟩, fun h => Bool.noConfusion h⟩
  | true =>
    have hgone : request.complete ⟨.timeout, 0⟩ ∈
        (s.expirePending now).noteFree.notifyAll.completed :=
      List.mem_append_right _ (List.mem_map_of_mem (List.mem_filter.2 ⟨hmem, hexpired⟩))
    have hout : (s.expirePending now).noteFree.notifyAll.outcome request.sequence =
        some ⟨.timeout, 0⟩ := htracked.outcome_of_completed hgone
    rw [hout]
    exact ⟨rfl, rfl, fun h => Bool.noConfusion h, fun _ => rfl⟩

/-- A request that does not fit is still queued after the pass that follows. -/
theorem enqueue_of_unfit (now : TimePoint) (hsettled : s.Settled)
    (hadmitted : s.Admitted name bytes options) (hunfit : s.free < bytes) :
    s.queuedRequest name bytes options now ∈
        ((s.enqueue name bytes options now).grantWaitersLocked now).pending ∧
      ((s.enqueue name bytes options now).grantWaitersLocked now).used = s.used ∧
      ((s.enqueue name bytes options now).grantWaitersLocked now).reservations =
        s.reservations := by
  have hqueue : ∀ r ∈ (s.enqueue name bytes options now).pending,
      (s.enqueue name bytes options now).free < r.bytes := by
    intro r hr
    rcases List.mem_append.1 hr with hr | hr
    · exact hsettled r hr
    · obtain rfl := List.mem_singleton.1 hr
      exact hunfit
  rw [grantWaitersLocked_of_unfit hqueue]
  refine ⟨List.mem_filter.2 ⟨List.mem_append_right _ (List.mem_singleton_self _), ?_⟩, rfl, rfl⟩
  exact congrArg Bool.not (not_expired_queuedRequest hadmitted.timeout)

/-! ## The call -/

/-- An admitted call succeeds at once exactly if what it asks for is free, whether or not
    others wait, and then leaves the same accounts and the same queue as `try_acquire`.
    Otherwise its request is queued, and stays so unless its deadline is reached when the
    call looks at the clock again; nothing is reserved. -/
theorem acquire_at_once (hs : machine.Reachable s) (hadmitted : s.Admitted name bytes options)
    (now later : TimePoint) :
    ((s.acquire name bytes options now later).2 = some ⟨.none, bytes⟩ ↔
      bytes ≤ s.capacity - s.used) ∧
    (bytes ≤ s.capacity - s.used →
      (s.tryAcquire name bytes now).2 = ⟨.none, bytes⟩ ∧
      (s.acquire name bytes options now later).1.used = (s.tryAcquire name bytes now).1.used ∧
      (s.acquire name bytes options now later).1.reservations =
        (s.tryAcquire name bytes now).1.reservations ∧
      (s.acquire name bytes options now later).1.pending =
        (s.tryAcquire name bytes now).1.pending) ∧
    (¬ bytes ≤ s.capacity - s.used →
      s.acquire name bytes options now later =
        ((s.enqueue name bytes options now).grantWaitersLocked now).waitLoop s.nextSequence later ∧
      s.queuedRequest name bytes options now ∈
        ((s.enqueue name bytes options now).grantWaitersLocked now).pending ∧
      (s.acquire name bytes options now later).1.used = s.used ∧
      (s.acquire name bytes options now later).1.reservations = s.reservations ∧
      ((s.queuedRequest name bytes options now).expired later = false →
        (s.acquire name bytes options now later).2 = none ∧
        s.queuedRequest name bytes options now ∈
          (s.acquire name bytes options now later).1.pending) ∧
      ((s.queuedRequest name bytes options now).expired later = true →
        (s.acquire name bytes options now later).2 = some ⟨.timeout, 0⟩)) := by
  have h := reachable_inv hs
  have hsettled := reachable_settled hs
  by_cases hfits : bytes ≤ s.capacity - s.used
  · -- each of the three ways takes the bytes, and drops who has expired
    have htry := tryAcquire_of_fits now h.accounted hadmitted.valid hadmitted.unused
      hadmitted.pos hfits
    rw [htry, grantWaitersLocked_grantAtOnce hsettled hfits, acquire_of_admitted h.accounted hadmitted]
    split_ifs with hfast
    · have hnobody : s.pending.filter (fun r => !r.expired now) = s.pending := by
        rw [hfast.1, List.filter_nil]
      exact ⟨iff_of_true rfl hfits, fun _ => ⟨rfl, rfl, rfl, hnobody.symm⟩, fun hnot => absurd hfits hnot⟩
    · obtain ⟨hout, hused, hreservations, hpending⟩ :=
        enqueue_of_fits now h hsettled hadmitted hfits
      rw [waitLoop, hout]
      exact ⟨iff_of_true rfl hfits, fun _ => ⟨rfl, hused, hreservations, hpending⟩,
        fun hnot => absurd hfits hnot⟩
  · have hunfit : s.free < bytes := UInt64.not_le.1 hfits
    have hcall : s.acquire name bytes options now later =
        ((s.enqueue name bytes options now).grantWaitersLocked now).waitLoop s.nextSequence later := by
      rw [acquire_of_admitted h.accounted hadmitted, if_neg fun hfast => hfits hfast.2]
    obtain ⟨hmem, hused, hreservations⟩ := enqueue_of_unfit now hsettled hadmitted hunfit
    obtain ⟨hused', hreservations', hwaits, hexpires⟩ := waitLoop_of_settled later
      (h.moves (moves_enqueue now hadmitted)) (settled_grantWaitersLocked _ now) hmem
    rw [hcall]
    refine ⟨iff_of_false (fun hsuccess => ?_) hfits, fun h => absurd h hfits, fun _ =>
      ⟨rfl, hmem, hused'.trans hused, hreservations'.trans hreservations, hwaits, hexpires⟩⟩
    cases hexpired : (s.queuedRequest name bytes options now).expired later with
    | false =>
      have hnone := (hwaits hexpired).1.symm.trans hsuccess
      cases hnone
    | true =>
      have htimeout := (hexpires hexpired).symm.trans hsuccess
      cases htimeout

/-- A manager of ten bytes, four of them free, with a call blocked for five. -/
def spare : ResourceManager :=
  let s : ResourceManager := { capacity := 10, schedulingPolicy := .priorityFifo }
  let s := (s.perform (.tryAcquire (ascii "holder") 6 0)).1
  (s.perform (.acquire (ascii "first") 5 {} 0 0)).1

theorem spare_reachable : machine.Reachable spare := by
  have hidle : machine.Reachable { capacity := 10, schedulingPolicy := .priorityFifo } :=
    .init ⟨10, .priorityFifo, rfl⟩
  have hheld := reachable_perform hidle (a := .tryAcquire (ascii "holder") 6 0) trivial
  exact reachable_perform hheld (a := .acquire (ascii "first") 5 {} 0 0) trivial

/-- A smaller request passes the one that is blocked. -/
theorem spare_at_once :
    spare.pending.length = 1 ∧
      (spare.acquire (ascii "second") 3 { priority := -7 } 1 2).2 = some ⟨.none, 3⟩ ∧
      (spare.acquire (ascii "second") 3 { priority := -7 } 1 2).1.pending =
        (spare.tryAcquire (ascii "second") 3 1).1.pending := by
  have hadmitted : spare.Admitted (ascii "second") 3 { priority := -7 } := by
    constructor <;> decide
  have hfits : (3 : Bytes) ≤ spare.capacity - spare.used := by decide
  obtain ⟨hsuccess, hsame, _⟩ := acquire_at_once spare_reachable hadmitted 1 2
  exact ⟨by decide, hsuccess.2 hfits, (hsame hfits).2.2.2⟩

/-! ## The deadline -/

/-- The pass that follows does not time the request out. -/
theorem outcome_enqueue (hs : machine.Reachable s) (hadmitted : s.Admitted name bytes options)
    (now : TimePoint) :
    ((s.enqueue name bytes options now).grantWaitersLocked now).outcome s.nextSequence =
      if bytes ≤ s.free then some ⟨.none, bytes⟩ else none := by
  have h := reachable_inv hs
  have hsettled := reachable_settled hs
  split_ifs with hfits
  · exact (enqueue_of_fits now h hsettled hadmitted hfits).1
  · obtain ⟨hmem, -⟩ := enqueue_of_unfit now hsettled hadmitted (UInt64.not_le.1 hfits)
    exact (h.moves (moves_enqueue now hadmitted)).tracked.outcome_of_pending hmem

/-- Where the clock has not run below zero, the deadline of a request with a positive timeout is
    computed without overflow: it is the exact sum, which comes later, or there is none. There
    is none only if the timeout stands for none, or the sum does not come before the end of the
    clock. So the pass that follows the request does not time it out. -/
theorem deadline_exact {timeout : Millis} (hnow : 0 ≤ now) (htimeout : 0 < timeout) :
    checkedDeadline now timeout = some (deadline now timeout) ∧
    ((deadline now timeout).toInt = now.toInt + timeout.toInt * 1000000 ∧
      now < deadline now timeout ∨ deadline now timeout = TimePoint.max) ∧
    (deadline now timeout = TimePoint.max →
      timeout = Millis.max ∨ TimePoint.max.toInt ≤ now.toInt + timeout.toInt * 1000000) ∧
    ∀ (s : ResourceManager) (name : Str) (bytes : Bytes) (options : AcquireOptions),
      machine.Reachable s → s.Admitted name bytes options → options.timeout = timeout →
      (s.queuedRequest name bytes options now).deadline = deadline now timeout ∧
      (s.queuedRequest name bytes options now).expired now = false ∧
      ((s.enqueue name bytes options now).grantWaitersLocked now).outcome s.nextSequence ≠
        some ⟨.timeout, 0⟩ := by
  refine ⟨checkedDeadline_eq hnow htimeout, ?_, of_deadline_eq_max hnow htimeout,
    fun s name bytes options hs hadmitted heq => ?_⟩
  · by_cases hset : timeout ≠ Millis.max ∧ timeout ≤ maximumTimeout now
    · have hlater : deadline now timeout = TimePoint.max ∨ now < deadline now timeout :=
        lt_deadline htimeout
      rcases hlater with hmax | hlt
      · exact .inr hmax
      · exact .inl ⟨(deadline_of_le htimeout hset.1 hset.2).2.2, hlt⟩
    · exact .inr (deadline_of_not_le hset)
  · refine ⟨congrArg (deadline now) heq, not_expired_queuedRequest hadmitted.timeout, ?_⟩
    rw [outcome_enqueue hs hadmitted]
    split_ifs
    · simp
    · simp

/-- A second from the fifth nanosecond on. -/
theorem spare_deadline :
    checkedDeadline 5 1000 = some 1000000005 ∧
      ((spare.enqueue (ascii "second") 5 { timeout := 1000 } 5).grantWaitersLocked 5).outcome
        spare.nextSequence ≠ some ⟨.timeout, 0⟩ := by
  have hadmitted : spare.Admitted (ascii "second") 5 { timeout := 1000 } := by
    constructor <;> decide
  have hdeadline : deadline 5 1000 = 1000000005 := by decide
  obtain ⟨hchecked, -, -, hpass⟩ := deadline_exact (show (0 : TimePoint) ≤ 5 by decide)
    (show (0 : Millis) < 1000 by decide)
  rw [hdeadline] at hchecked
  exact ⟨hchecked, (hpass _ _ _ _ spare_reachable hadmitted rfl).2.2⟩

/-! ## Negative options -/

/-- The call is granted before its cost is looked at. -/
structure Overlooked (s : ResourceManager) (name : Str) (bytes : Bytes) (options : AcquireOptions) :
    Prop where
  valid : validName name = true
  unused : s.hasNameLocked name = false
  pos : bytes ≠ 0
  fits : bytes ≤ s.free
  timeout : 0 ≤ options.timeout
  early : options.timeout = 0 ∨ s.pending = []

/-- A call that is granted before its cost is looked at succeeds. -/
theorem Overlooked.acquire (h : Accounted s) (hoverlooked : s.Overlooked name bytes options) :
    (s.acquire name bytes options now later).2 = some ⟨.none, bytes⟩ := by
  obtain ⟨hname, hunused, hpos, hfits, htimeout, hearly⟩ := hoverlooked
  have hle : ¬ bytes > s.capacity := by
    have hfits' := UInt64.le_iff_toNat_le.1 hfits
    rw [h.free_toNat] at hfits'
    rw [gt_iff_lt, UInt64.lt_iff_toNat_lt]
    omega
  rw [ResourceManager.acquire, hname, hunused, h.noteFree_eq, if_neg (by decide), if_neg hpos,
    if_neg (Int64.not_lt.2 htimeout), if_neg hle]
  by_cases hzero : options.timeout = 0
  · rw [if_pos hzero]
    exact congrArg some (congrArg Prod.snd (tryAcquire_of_fits now h hname hunused hpos hfits))
  · have hfast : (s.pending.isEmpty && decide (bytes ≤ s.free)) = true := by
      simp [hearly.resolve_left hzero, hfits]
    rw [if_neg hzero, if_neg (by decide), if_pos hfast]

/-- Any other call with a negative timeout or cost is refused. -/
theorem acquire_of_not_overlooked (h : Accounted s)
    (hnegative : options.timeout < 0 ∨ options.estimatedCost < 0)
    (hnot : ¬ s.Overlooked name bytes options) :
    ∃ error, error ≠ .none ∧ s.acquire name bytes options now later = (s, some ⟨error, 0⟩) := by
  have hrefuses {error : ErrorCode} (herror : error ≠ .none) :
      ∃ error', error' ≠ .none ∧
        ((s, some ⟨error, 0⟩) : ResourceManager × Option OperationResult) =
          (s, some ⟨error', 0⟩) := ⟨error, herror, rfl⟩
  rw [ResourceManager.acquire, h.noteFree_eq, ite_self]
  by_cases hname : (!validName name) = true
  · rw [if_pos hname]
    exact hrefuses (by decide)
  rw [if_neg hname]
  by_cases hpos : bytes = 0
  · rw [if_pos hpos]
    exact hrefuses (by decide)
  rw [if_neg hpos]
  by_cases htimeout : options.timeout < 0
  · rw [if_pos htimeout]
    exact hrefuses (by decide)
  rw [if_neg htimeout]
  by_cases hlarge : bytes > s.capacity
  · rw [if_pos hlarge]
    exact hrefuses (by decide)
  rw [if_neg hlarge]
  by_cases hzero : options.timeout = 0
  · rw [if_pos hzero, tryAcquire, h.noteFree_eq]
    -- what `try_acquire` grants is granted too early
    split_ifs with hused hfits
    · exact hrefuses (by decide)
    · exact hrefuses (by decide)
    · exact absurd ⟨by simpa using hname, by simpa using hused, hpos, UInt64.not_lt.1 hfits,
        Int64.not_lt.1 htimeout, .inl hzero⟩ hnot
  rw [if_neg hzero]
  by_cases hused : s.hasNameLocked name = true
  · rw [if_pos hused]
    exact hrefuses (by decide)
  rw [if_neg hused]
  by_cases hfast : (s.pending.isEmpty && decide (bytes ≤ s.free)) = true
  · -- and so is what takes the fast path
    rw [Bool.and_eq_true, List.isEmpty_iff, decide_eq_true_eq] at hfast
    exact absurd ⟨by simpa using hname, by simpa using hused, hpos, hfast.2,
      Int64.not_lt.1 htimeout, .inr hfast.1⟩ hnot
  rw [if_neg hfast]
  by_cases hcost : options.estimatedCost < 0
  · rw [if_pos hcost]
    exact hrefuses (by decide)
  · exact absurd hnegative (not_or.2 ⟨htimeout, hcost⟩)

/-- A call with a negative timeout or cost fails and reserves nothing, unless it is granted
    before its cost is looked at. -/
theorem acquire_negative_iff (hs : machine.Reachable s)
    (hnegative : options.timeout < 0 ∨ options.estimatedCost < 0) (now later : TimePoint) :
    ((∃ error, error ≠ .none ∧ (s.acquire name bytes options now later).2 = some ⟨error, 0⟩) ∧
        (s.acquire name bytes options now later).1.used = s.used ∧
        (s.acquire name bytes options now later).1.reservations = s.reservations) ↔
      ¬ s.Overlooked name bytes options := by
  have h := (reachable_inv hs).accounted
  constructor
  · rintro ⟨⟨error, herror, hresult⟩, _⟩ hoverlooked
    rw [hoverlooked.acquire h] at hresult
    obtain rfl : ErrorCode.none = error := congrArg OperationResult.error (Option.some.inj hresult)
    exact herror rfl
  · intro hnot
    obtain ⟨error, herror, hcall⟩ := acquire_of_not_overlooked h hnegative hnot
    rw [hcall]
    exact ⟨⟨error, herror, rfl⟩, rfl, rfl⟩

/-- With somebody queued, a negative cost is refused. -/
theorem spare_negative :
    (∃ error, error ≠ .none ∧
        (spare.acquire (ascii "second") 3 { estimatedCost := -1 } 1 2).2 = some ⟨error, 0⟩) ∧
      (spare.acquire (ascii "second") 3 { estimatedCost := -1 } 1 2).1.used = spare.used ∧
      (spare.acquire (ascii "second") 3 { estimatedCost := -1 } 1 2).1.reservations =
        spare.reservations := by
  refine (acquire_negative_iff spare_reachable (.inr (by decide)) 1 2).2 fun hoverlooked => ?_
  rcases hoverlooked.early with hzero | hempty
  · exact absurd hzero (by decide)
  · exact absurd (congrArg List.length hempty) (by decide)

/-- The same call on an idle manager reserves memory. -/
theorem idle_negative :
    let idle : ResourceManager := { capacity := 10, schedulingPolicy := .priorityFifo }
    machine.Reachable idle ∧
      (idle.acquire (ascii "second") 3 { estimatedCost := -1 } 1 2).2 = some ⟨.none, 3⟩ ∧
      (idle.acquire (ascii "second") 3 { estimatedCost := -1 } 1 2).1.used = 3 ∧
      ¬ ∀ (s : ResourceManager) (name : Str) (bytes : Bytes) (options : AcquireOptions)
        (now later : TimePoint), machine.Reachable s →
        options.timeout < 0 ∨ options.estimatedCost < 0 →
        (∃ error, error ≠ .none ∧ (s.acquire name bytes options now later).2 = some ⟨error, 0⟩) ∧
          (s.acquire name bytes options now later).1.used = s.used ∧
          (s.acquire name bytes options now later).1.reservations = s.reservations := by
  intro idle
  have hidle : machine.Reachable idle := .init ⟨10, .priorityFifo, rfl⟩
  refine ⟨hidle, by decide, by decide, fun hall => ?_⟩
  obtain ⟨_, hused, _⟩ := hall idle (ascii "second") 3 { estimatedCost := -1 } 1 2 hidle
    (.inr (by decide))
  exact absurd hused (by decide)

end ResourceManager

end Gpumemd
