import Mathlib.Data.Finset.Basic
import Gpumemd.Basic
import Gpumemd.Library.Machine
import Gpumemd.Library.Selection
import Gpumemd.Library.Table

/-!
# The resource manager

`ResourceManager` (`src/core/resource_manager.cpp`): the accounting of a fixed
capacity, reserved by clients and by models, with a queue of client requests
waiting for memory.

Every operation runs under one mutex, so it is a function from the state to the
state and the result. A blocking `acquire` gives the lock up only inside
`condition_.wait`; it is cut there into the call itself (`acquire`, up to its
return or its first wait), each return from `condition_.wait` (`wake`) and the
expiry of a timed wait (`expireWait`). The clock readings of an operation are
its arguments.

A request object is shared between `pending_` and the call that queued it. It
is identified by its sequence number, and moved from `pending` to `completed`
when `pending_` drops it, where its call still finds it. The condition variable
is the set of the calls waiting on it and the set of those notified that have
not run yet.

Two fields record what the code does and are never read by it: `wrapped`, set
once an arithmetic operation on byte counts has wrapped, and `history`, the
grants, expiries and cancellations so far.
-/

namespace Gpumemd

open Library

/-- `ErrorCode`. -/
inductive ErrorCode
  | none
  | invalidName
  | invalidSize
  | duplicateClient
  | unknownClient
  | insufficientMemory
  | timeout
  | invalidTimeout
  deriving DecidableEq

/-- `SchedulingPolicy`. -/
inductive SchedulingPolicy
  | priorityFifo
  | costAware
  deriving DecidableEq

/-- `OperationResult`. -/
structure OperationResult where
  error : ErrorCode
  amount : Bytes
  deriving DecidableEq

/-- `OperationResult::ok`. -/
def OperationResult.ok (result : OperationResult) : Bool := result.error == .none

/-- `AcquireOptions`. -/
structure AcquireOptions where
  priority : Int32 := 0
  timeout : Millis := Millis.max
  estimatedCost : Millis := 0
  deriving DecidableEq

/-- `PendingRequest`. -/
structure PendingRequest where
  name : Str
  bytes : Bytes
  priority : Int32
  estimatedCost : Millis
  sequence : ℕ
  deadline : TimePoint
  completed : Bool
  result : OperationResult
  deriving DecidableEq

namespace PendingRequest

/-- The deadline has been set and is reached at `now`. -/
def expired (request : PendingRequest) (now : TimePoint) : Bool :=
  request.deadline != TimePoint.max && request.deadline ≤ now

/-- `request->completed = true; request->result = result;` -/
def complete (request : PendingRequest) (result : OperationResult) : PendingRequest :=
  { request with completed := true, result := result }

/-- Whether `candidate` replaces `selected` in the selection of the next request
    to grant. -/
def outranks (policy : SchedulingPolicy) (candidate selected : PendingRequest) : Bool :=
  candidate.priority > selected.priority ||
    (candidate.priority == selected.priority &&
      ((policy == .costAware && candidate.estimatedCost < selected.estimatedCost) ||
        ((policy != .costAware || candidate.estimatedCost == selected.estimatedCost) &&
          candidate.sequence < selected.sequence)))

end PendingRequest

/-- What the grant of a queued request did: the clock reading of its grant pass,
    and `reservations_[name]` and `used_` before and after. -/
structure Grant where
  request : PendingRequest
  now : TimePoint
  heldBefore : Option Bytes
  heldAfter : Option Bytes
  usedBefore : Bytes
  usedAfter : Bytes
  deriving DecidableEq

/-- What a step does for a client request. -/
inductive Event
  /-- Granted at once, without queueing. -/
  | atOnce (name : Str) (bytes : Bytes)
  /-- Granted from the queue. -/
  | granted (grant : Grant)
  /-- Completed with a timeout, at a clock reading. -/
  | expired (request : PendingRequest) (now : TimePoint)
  /-- Completed with a timeout by `cancel_waiters`. -/
  | cancelled (request : PendingRequest)
  deriving DecidableEq

/-- The state of a `ResourceManager`. -/
structure ResourceManager where
  capacity : Bytes
  schedulingPolicy : SchedulingPolicy
  used : Bytes := 0
  reservations : Table Str Bytes := ∅
  modelReservations : Table Str Bytes := ∅
  pending : List PendingRequest := []
  nextSequence : ℕ := 0
  /-- The request objects dropped from `pending_`. -/
  completed : List PendingRequest := []
  /-- The calls waiting on `condition_`. -/
  waiting : Finset ℕ := ∅
  /-- The calls notified on `condition_` that have not run yet. -/
  notified : Finset ℕ := ∅
  /-- An operation on byte counts has wrapped. -/
  wrapped : Bool := false
  history : List Event := []

namespace ResourceManager

/-- The constructor: `std::invalid_argument` for no capacity. -/
def create (capacity : Bytes) (policy : SchedulingPolicy) : Except String ResourceManager :=
  if capacity = 0 then .error "resource capacity must be positive"
  else .ok { capacity := capacity, schedulingPolicy := policy }

theorem eq_of_create {capacity : Bytes} {policy : SchedulingPolicy} {s : ResourceManager}
    (h : create capacity policy = .ok s) : s = { capacity := capacity, schedulingPolicy := policy } := by
  rw [create] at h
  split_ifs at h
  exact (Except.ok.inj h).symm

/-- `ResourceManager::valid_name`. -/
def validName (name : Str) : Bool := nameShape name

variable (s : ResourceManager)

/-! ## Accounting -/

/-- `capacity_ - used_`. -/
def free : Bytes := s.capacity - s.used

/-- Records the evaluation of `left - right`. -/
def noteSub (left right : Bytes) : ResourceManager :=
  { s with wrapped := s.wrapped || left < right }

/-- Records the evaluation of `left + right`. -/
def noteAdd (left right : Bytes) : ResourceManager :=
  { s with wrapped := s.wrapped || 2 ^ 64 ≤ left.toNat + right.toNat }

/-- Records the evaluation of `capacity_ - used_`. -/
def noteFree : ResourceManager := s.noteSub s.capacity s.used

/-- `used_ += bytes`. -/
def charge (bytes : Bytes) : ResourceManager :=
  { s.noteAdd s.used bytes with used := s.used + bytes }

/-- `used_ -= bytes`. -/
def refund (bytes : Bytes) : ResourceManager :=
  { s.noteSub s.used bytes with used := s.used - bytes }

/-- `reservations_.emplace(name, bytes); used_ += bytes;` -/
def reserve (name : Str) (bytes : Bytes) : ResourceManager :=
  { s.charge bytes with reservations := Table.emplace s.reservations name bytes }

/-- `model_reservations_.emplace(id, bytes); used_ += bytes;` -/
def reserveModel (id : Str) (bytes : Bytes) : ResourceManager :=
  { s.charge bytes with modelReservations := Table.emplace s.modelReservations id bytes }

/-- `ResourceManager::has_name_locked`. -/
def hasNameLocked (name : Str) : Bool :=
  name ∈ s.reservations || s.pending.any fun request => request.name == name

/-! ## Granting -/

/-- `condition_.notify_all()`. -/
def notifyAll : ResourceManager :=
  { s with waiting := ∅, notified := s.notified ∪ s.waiting }

/-- The first loop of `grant_waiters_locked`: the requests whose deadline is
    reached complete with a timeout and leave the queue. -/
def expirePending (now : TimePoint) : ResourceManager :=
  let gone := s.pending.filter (·.expired now)
  { s with
    pending := s.pending.filter fun request => !request.expired now
    completed := s.completed ++ gone.map (·.complete ⟨.timeout, 0⟩)
    history := s.history ++ gone.map (.expired · now) }

/-- The scan of the second loop of `grant_waiters_locked`: the request to grant
    next, and its index. -/
def selectPending : Option (ℕ × PendingRequest) :=
  select (fun candidate => !(candidate.bytes > s.free)) (·.outranks s.schedulingPolicy) s.pending

/-- The body of the second loop of `grant_waiters_locked`, for the request
    selected. -/
def grant (now : TimePoint) (index : ℕ) (request : PendingRequest) : ResourceManager :=
  let t := s.reserve request.name request.bytes
  { t with
    pending := s.pending.eraseIdx index
    completed := s.completed ++ [request.complete ⟨.none, request.bytes⟩]
    history := s.history ++ [.granted ⟨request, now, s.reservations.lookup request.name,
      t.reservations.lookup request.name, s.used, t.used⟩] }

/-- The second loop of `grant_waiters_locked`, for at most `fuel` turns. -/
def grantLoop (now : TimePoint) : ℕ → ResourceManager → ResourceManager
  | 0, s => s.noteFree
  | fuel + 1, s =>
    match s.selectPending with
    | none => s.noteFree
    | some (index, request) => grantLoop now fuel (s.noteFree.grant now index request)

/-- `ResourceManager::grant_waiters_locked`. Every turn of its second loop takes a
    request from the queue, so there are no more turns than requests
    (`free_lt_of_grantLoop`). -/
def grantWaitersLocked (now : TimePoint) : ResourceManager :=
  let t := s.expirePending now
  (grantLoop now t.pending.length t).notifyAll

/-! ## Client operations -/

/-- A client request granted without queueing. -/
def grantAtOnce (name : Str) (bytes : Bytes) : ResourceManager :=
  { s.reserve name bytes with history := s.history ++ [.atOnce name bytes] }

/-- `ResourceManager::try_acquire`. -/
def tryAcquire (name : Str) (bytes : Bytes) (now : TimePoint) :
    ResourceManager × OperationResult :=
  if !validName name then (s, ⟨.invalidName, 0⟩)
  else if bytes = 0 then (s, ⟨.invalidSize, 0⟩)
  else if s.hasNameLocked name then (s, ⟨.duplicateClient, 0⟩)
  else if bytes > s.free then (s.noteFree, ⟨.insufficientMemory, 0⟩)
  else ((s.noteFree.grantAtOnce name bytes).grantWaitersLocked now, ⟨.none, bytes⟩)

/-- The request object of the call `sequence`. -/
def request? (sequence : ℕ) : Option PendingRequest :=
  (s.pending ++ s.completed).find? (·.sequence == sequence)

/-- The result of the request of the call `sequence`, once completed. -/
def outcome (sequence : ℕ) : Option OperationResult :=
  (s.request? sequence).bind fun request => if request.completed then some request.result else none

/-- The call `sequence` waits on `condition_`. -/
def wait (sequence : ℕ) : ResourceManager :=
  { s with waiting := insert sequence s.waiting, notified := s.notified.erase sequence }

/-- The call `sequence` runs again, neither waiting nor notified. -/
def resume (sequence : ℕ) : ResourceManager :=
  { s with waiting := s.waiting.erase sequence, notified := s.notified.erase sequence }

/-- The loop of `acquire`, `while (!request->completed)`, up to the return of the
    call (with its result) or to its next wait. -/
def waitLoop (sequence : ℕ) (now : TimePoint) : ResourceManager × Option OperationResult :=
  match s.outcome sequence with
  | some result => (s, some result)
  | none =>
    let t := s.grantWaitersLocked now
    match t.outcome sequence with
    | some result => (t, some result)
    | none => (t.wait sequence, none)

/-- The longest timeout whose deadline can be represented, in milliseconds. -/
def maximumTimeout (now : TimePoint) : Millis :=
  let remaining := TimePoint.max - now
  remaining / 1000000

/-- The deadline of a request queued at `now`. -/
def deadline (now : TimePoint) (timeout : Millis) : TimePoint :=
  if timeout ≠ Millis.max then
    if timeout ≤ maximumTimeout now then now + timeout * 1000000 else TimePoint.max
  else TimePoint.max

/-- Queues a request: `next_sequence_++` and `pending_.push_back(request)`. -/
def enqueue (name : Str) (bytes : Bytes) (options : AcquireOptions) (now : TimePoint) :
    ResourceManager :=
  { s with
    nextSequence := s.nextSequence + 1
    pending := s.pending ++ [{
      name := name
      bytes := bytes
      priority := options.priority
      estimatedCost := options.estimatedCost
      sequence := s.nextSequence
      deadline := deadline now options.timeout
      completed := false
      result := ⟨.none, 0⟩ }] }

/-- `ResourceManager::acquire`, up to its return (with its result) or to its first
    wait. It reads the clock at `now`, and again at `later` when it enters its
    loop. -/
def acquire (name : Str) (bytes : Bytes) (options : AcquireOptions) (now later : TimePoint) :
    ResourceManager × Option OperationResult :=
  if !validName name then (s, some ⟨.invalidName, 0⟩)
  else if bytes = 0 then (s, some ⟨.invalidSize, 0⟩)
  else if options.timeout < 0 then (s, some ⟨.invalidTimeout, 0⟩)
  else if bytes > s.capacity then (s, some ⟨.insufficientMemory, 0⟩)
  else if options.timeout = 0 then
    let (t, result) := s.tryAcquire name bytes now
    (t, some result)
  else if s.hasNameLocked name then (s, some ⟨.duplicateClient, 0⟩)
  else if s.pending.isEmpty && bytes ≤ s.free then
    (s.noteFree.grantAtOnce name bytes, some ⟨.none, bytes⟩)
  else
    -- the size is only compared with the free memory when nobody is queued
    let s := if s.pending.isEmpty then s.noteFree else s
    -- the cost is checked last, and a request granted at once needs no valid one
    if options.estimatedCost < 0 then (s, some ⟨.invalidTimeout, 0⟩)
    else ((s.enqueue name bytes options now).grantWaitersLocked now).waitLoop s.nextSequence later

/-- The call `sequence` returns from `condition_.wait`. -/
def wake (sequence : ℕ) (now : TimePoint) : ResourceManager × Option OperationResult :=
  (s.resume sequence).waitLoop sequence now

/-- The request of the call `sequence` leaves the queue and completes with a
    timeout. -/
def expireRequest (sequence : ℕ) (now : TimePoint) : ResourceManager :=
  let gone := s.pending.filter (·.sequence == sequence)
  { s with
    pending := s.pending.filter fun request => !(request.sequence == sequence)
    completed := s.completed ++ gone.map (·.complete ⟨.timeout, 0⟩)
    history := s.history ++ gone.map (.expired · now) }

/-- `condition_.wait_until` reports a timeout to the call `sequence`, at `now`. -/
def expireWait (sequence : ℕ) (now : TimePoint) : ResourceManager × Option OperationResult :=
  let s := s.resume sequence
  match s.outcome sequence with
  | some result => (s, some result)
  | none => (s.expireRequest sequence now, some ⟨.timeout, 0⟩)

/-- Erases the reservation of a client and gives its bytes back. -/
def dropClient (name : Str) (bytes : Bytes) : ResourceManager :=
  { s.refund bytes with reservations := s.reservations.erase name }

/-- `ResourceManager::release`. -/
def release (name : Str) (now : TimePoint) : ResourceManager × OperationResult :=
  if !validName name then (s, ⟨.invalidName, 0⟩)
  else
    match s.reservations.lookup name with
    | none => (s, ⟨.unknownClient, 0⟩)
    | some bytes => ((s.dropClient name bytes).grantWaitersLocked now, ⟨.none, bytes⟩)

/-- `ResourceManager::cancel_waiters`. -/
def cancelWaiters : ResourceManager :=
  let t : ResourceManager := { s with
    pending := []
    completed := s.completed ++ s.pending.map (·.complete ⟨.timeout, 0⟩)
    history := s.history ++ s.pending.map .cancelled }
  t.notifyAll

/-! ## Model operations -/

/-- `ResourceManager::acquire_model`. -/
def acquireModel (id : Str) (bytes : Bytes) : ResourceManager × OperationResult :=
  if !validName id then (s, ⟨.invalidName, 0⟩)
  else if bytes = 0 then (s, ⟨.invalidSize, 0⟩)
  else if id ∈ s.modelReservations then (s, ⟨.duplicateClient, 0⟩)
  else if bytes > s.free then (s.noteFree, ⟨.insufficientMemory, 0⟩)
  else (s.noteFree.reserveModel id bytes, ⟨.none, bytes⟩)

/-- Erases the reservation of a model and gives its bytes back. -/
def dropModel (id : Str) (bytes : Bytes) : ResourceManager :=
  { s.refund bytes with modelReservations := s.modelReservations.erase id }

/-- `ResourceManager::release_model`. -/
def releaseModel (id : Str) (now : TimePoint) : ResourceManager × OperationResult :=
  if !validName id then (s, ⟨.invalidName, 0⟩)
  else
    match s.modelReservations.lookup id with
    | none => (s, ⟨.unknownClient, 0⟩)
    | some bytes => ((s.dropModel id bytes).grantWaitersLocked now, ⟨.none, bytes⟩)

/-- The loop that adds up `evicted_bytes`, ended by an unknown model. -/
def sumEvictions : List Str → Bytes → ResourceManager → ResourceManager × Option Bytes
  | [], evictedBytes, s => (s, some evictedBytes)
  | eviction :: evictions, evictedBytes, s =>
    match s.modelReservations.lookup eviction with
    | none => (s, none)
    | some bytes =>
      sumEvictions evictions (evictedBytes + bytes) (s.noteAdd evictedBytes bytes)

/-- The loop that erases the evicted reservations. -/
def dropEvictions : List Str → ResourceManager → ResourceManager
  | [], s => s
  | eviction :: evictions, s =>
    match s.modelReservations.lookup eviction with
    | none => dropEvictions evictions s
    | some bytes => dropEvictions evictions (s.dropModel eviction bytes)

/-- `ResourceManager::replace_model_reservations`. -/
def replaceModelReservations (evictions : List Str) (id : Str) (bytes : Bytes) (now : TimePoint) :
    ResourceManager × OperationResult :=
  if !validName id then (s, ⟨.invalidName, 0⟩)
  else if bytes = 0 then (s, ⟨.invalidSize, 0⟩)
  else if id ∈ s.modelReservations then (s, ⟨.duplicateClient, 0⟩)
  else if ¬ evictions.Nodup then (s, ⟨.duplicateClient, 0⟩)
  else
    match sumEvictions evictions 0 s with
    -- nothing has been erased yet
    | (t, none) => (t, ⟨.unknownClient, 0⟩)
    | (t, some evictedBytes) =>
      let t := t.noteFree.noteAdd t.free evictedBytes
      if bytes > t.free + evictedBytes then (t, ⟨.insufficientMemory, 0⟩)
      else (((dropEvictions evictions t).reserveModel id bytes).grantWaitersLocked now,
        ⟨.none, bytes⟩)

/-! ## Runs -/

/-- The lock-protected steps, with their clock readings. -/
inductive Action
  | tryAcquire (name : Str) (bytes : Bytes) (now : TimePoint)
  | acquire (name : Str) (bytes : Bytes) (options : AcquireOptions) (now later : TimePoint)
  | wake (sequence : ℕ) (now : TimePoint)
  | expireWait (sequence : ℕ) (now : TimePoint)
  | release (name : Str) (now : TimePoint)
  | acquireModel (id : Str) (bytes : Bytes)
  | releaseModel (id : Str) (now : TimePoint)
  | replaceModelReservations (evictions : List Str) (id : Str) (bytes : Bytes) (now : TimePoint)
  | cancelWaiters

/-- The steps that are not about models. -/
def Action.IsClient : Action → Prop
  | .acquireModel .. => False
  | .releaseModel .. => False
  | .replaceModelReservations .. => False
  | _ => True

/-- The effect of a step, and the result of the call that returns in it. -/
def perform : Action → ResourceManager × Option OperationResult
  | .tryAcquire name bytes now => (s.tryAcquire name bytes now).map (·) some
  | .acquire name bytes options now later => s.acquire name bytes options now later
  | .wake sequence now => s.wake sequence now
  | .expireWait sequence now => s.expireWait sequence now
  | .release name now => (s.release name now).map (·) some
  | .acquireModel id bytes => (s.acquireModel id bytes).map (·) some
  | .releaseModel id now => (s.releaseModel id now).map (·) some
  | .replaceModelReservations evictions id bytes now =>
    (s.replaceModelReservations evictions id bytes now).map (·) some
  | .cancelWaiters => (s.cancelWaiters, none)

/-- The call `sequence` is blocked in `condition_.wait`. -/
def Blocked (sequence : ℕ) : Prop := sequence ∈ s.waiting ∨ sequence ∈ s.notified

/-- When a step may be taken: only a blocked call wakes up, whether notified or
    not (a spurious wake-up), and a timed wait reports a timeout only at its
    deadline or later. -/
def Enabled : Action → Prop
  | .wake sequence _ => s.Blocked sequence
  | .expireWait sequence now =>
    s.Blocked sequence ∧ ∃ request, s.request? sequence = some request ∧ request.expired now
  | _ => True

instance : (a : Action) → Decidable a.IsClient
  | .acquireModel .. | .releaseModel .. | .replaceModelReservations .. => .isFalse id
  | .tryAcquire .. | .acquire .. | .wake .. | .expireWait .. | .release .. | .cancelWaiters =>
    .isTrue trivial

instance (sequence : ℕ) : Decidable (s.Blocked sequence) :=
  inferInstanceAs (Decidable (_ ∨ _))

instance : (a : Action) → Decidable (s.Enabled a)
  | .wake sequence _ => inferInstanceAs (Decidable (s.Blocked sequence))
  | .expireWait sequence now => decidable_of_iff
    (s.Blocked sequence ∧ (s.request? sequence).any (·.expired now))
    (and_congr_right fun _ => Option.any_eq_true ..)
  | .tryAcquire .. | .acquire .. | .release .. | .acquireModel .. | .releaseModel ..
  | .replaceModelReservations .. | .cancelWaiters => .isTrue trivial

/-- The runs of a resource manager. The clock readings of a run are arbitrary, in
    particular nondecreasing ones. -/
def machine : Machine ResourceManager Action where
  init s := ∃ capacity policy, create capacity policy = .ok s
  step s a s' := s.Enabled a ∧ (s.perform a).1 = s'

/-! ## What `acquire` does -/

/-- A call of `acquire`, up to its return or its first wait, where `t` is the state after what it
    has computed. -/
inductive Acquires (s t : ResourceManager) (name : Str) (bytes : Bytes) (options : AcquireOptions)
    (now later : TimePoint) : ResourceManager × Option OperationResult → Prop
  | refuses {error : ErrorCode} : error ≠ .none → error ≠ .timeout →
      Acquires s t name bytes options now later (t, some ⟨error, 0⟩)
  | tries : Acquires s t name bytes options now later
      ((s.tryAcquire name bytes now).1, some (s.tryAcquire name bytes now).2)
  | grants : validName name = true → bytes ≠ 0 → s.hasNameLocked name = false →
      t.pending = [] → bytes ≤ s.free →
      Acquires s t name bytes options now later (t.grantAtOnce name bytes, some ⟨.none, bytes⟩)
  /-- It queues its request, makes a grant pass and enters its loop. -/
  | queues : validName name = true → bytes ≠ 0 → 0 < options.timeout → bytes ≤ s.capacity →
      s.hasNameLocked name = false → 0 ≤ options.estimatedCost →
      Acquires s t name bytes options now later
        (((t.enqueue name bytes options now).grantWaitersLocked now).waitLoop s.nextSequence later)

theorem acquires (name : Str) (bytes : Bytes) (options : AcquireOptions) (now later : TimePoint) :
    ∃ t, (t = s ∨ t = s.noteFree) ∧
      Acquires s t name bytes options now later (s.acquire name bytes options now later) := by
  have hrefuses (t : ResourceManager) (ht : t = s ∨ t = s.noteFree) {error : ErrorCode}
      (herror : error ≠ .none) (htimeout : error ≠ .timeout) :
      ∃ t', (t' = s ∨ t' = s.noteFree) ∧
        Acquires s t' name bytes options now later (t, some ⟨error, 0⟩) :=
    ⟨t, ht, .refuses herror htimeout⟩
  rw [acquire]
  by_cases hname : (!validName name) = true
  · rw [if_pos hname]
    exact hrefuses s (.inl rfl) (by decide) (by decide)
  rw [if_neg hname]
  by_cases hpos : bytes = 0
  · rw [if_pos hpos]
    exact hrefuses s (.inl rfl) (by decide) (by decide)
  rw [if_neg hpos]
  by_cases htimeout : options.timeout < 0
  · rw [if_pos htimeout]
    exact hrefuses s (.inl rfl) (by decide) (by decide)
  rw [if_neg htimeout]
  by_cases hlarge : bytes > s.capacity
  · rw [if_pos hlarge]
    exact hrefuses s (.inl rfl) (by decide) (by decide)
  rw [if_neg hlarge]
  by_cases hzero : options.timeout = 0
  · rw [if_pos hzero]
    exact ⟨s, .inl rfl, .tries⟩
  rw [if_neg hzero]
  by_cases hused : s.hasNameLocked name = true
  · rw [if_pos hused]
    exact hrefuses s (.inl rfl) (by decide) (by decide)
  rw [if_neg hused]
  by_cases hfit : (s.pending.isEmpty && decide (bytes ≤ s.free)) = true
  · rw [if_pos hfit]
    rw [Bool.and_eq_true, List.isEmpty_iff, decide_eq_true_eq] at hfit
    exact ⟨_, .inr rfl, .grants (by simpa using hname) hpos (by simpa using hused) hfit.1 hfit.2⟩
  rw [if_neg hfit]
  -- the size has been compared with the free memory if nobody is queued
  have hread : (if s.pending.isEmpty = true then s.noteFree else s) = s ∨
      (if s.pending.isEmpty = true then s.noteFree else s) = s.noteFree := by
    by_cases hidle : s.pending.isEmpty = true
    · exact .inr (if_pos hidle)
    · exact .inl (if_neg hidle)
  generalize (if s.pending.isEmpty = true then s.noteFree else s) = t at hread
  by_cases hcost : options.estimatedCost < 0
  · rw [if_pos hcost]
    exact hrefuses t hread (by decide) (by decide)
  rw [if_neg hcost]
  have hpositive : 0 < options.timeout :=
    Int64.lt_of_le_of_ne (Int64.not_lt.1 htimeout) (Ne.symm hzero)
  rcases hread with rfl | rfl
  · exact ⟨_, .inl rfl, .queues (by simpa using hname) hpos hpositive (UInt64.not_lt.1 hlarge)
      (by simpa using hused) (Int64.not_lt.1 hcost)⟩
  · exact ⟨_, .inr rfl, .queues (by simpa using hname) hpos hpositive (UInt64.not_lt.1 hlarge)
      (by simpa using hused) (Int64.not_lt.1 hcost)⟩

end ResourceManager

end Gpumemd
