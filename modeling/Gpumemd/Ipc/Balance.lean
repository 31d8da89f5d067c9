import Mathlib.Data.Int.ModEq
import Gpumemd.Ipc.Steps
import Gpumemd.Resource.Margin

/-!
# The balance of the metrics

The metrics are updated outside the lock of the resource manager, so what they say and what the
clients hold differ by what is under way: calls that have returned and are not recorded yet, and
calls that wait and have been granted their memory by others. The books are balanced with both
(`Server.Balanced`), in any order of the steps, so when no request is under way, the bytes acquired
less the bytes released are those that the clients hold (`Server.reachable_balance`).
-/

namespace Gpumemd

open Library Protocol

/-! ## What is under way -/

/-- The call that the worker waits in. -/
def Activity.calls : Activity → List ℕ
  | .waiting _ sequence => [sequence]
  | _ => []

/-- The bytes that are to be recorded as acquired, less those as released. -/
def Recording.bytes : Recording → ℤ
  | .acquire true bytes => bytes.toNat
  | .release true bytes => -bytes.toNat
  | _ => 0

/-- The bytes that the worker has yet to record. -/
def Activity.unrecorded : Activity → ℤ
  | .answered _ outcome => outcome.recording.bytes
  | _ => 0

/-- A request is in flight from the start of its call until what it did is recorded. -/
def Activity.InFlight : Activity → Prop
  | .waiting _ _ | .operating _ | .answered _ _ => True
  | _ => False

instance : (activity : Activity) → Decidable activity.InFlight
  | .waiting _ _ | .operating _ | .answered _ _ => .isTrue trivial
  | .checking | .reading | .processing | .dispatching _ | .responding _ _ | .sending _ _
  | .closing _ | .closed => .isFalse id

theorem Activity.nothing_of_not_inFlight {activity : Activity} (h : ¬ activity.InFlight) :
    activity.calls = [] ∧ activity.unrecorded = 0 := by
  cases activity <;> first | exact ⟨rfl, rfl⟩ | exact absurd trivial h

namespace Metrics

variable (s : Metrics)

/-- The bytes recorded as acquired, less those as released. -/
def balance : ℤ := s.acquiredBytes.toNat - s.releasedBytes.toNat

/-- Every request is counted as a success or as a failure. -/
def Counted : Prop := s.requests = s.successes + s.failures

theorem balance_record (recording : Recording) :
    (s.record recording).balance ≡ s.balance + recording.bytes [ZMOD 2 ^ 64] := by
  have hzero : s.balance ≡ s.balance + 0 [ZMOD 2 ^ 64] := by rw [add_zero]
  cases recording with
  | nothing => exact hzero
  | acquire success bytes =>
    cases success with
    | false => exact hzero
    | true =>
      show ((s.acquiredBytes + bytes).toNat : ℤ) - s.releasedBytes.toNat ≡
        s.acquiredBytes.toNat - s.releasedBytes.toNat + bytes.toNat [ZMOD 2 ^ 64]
      rw [UInt64.toNat_add, Int.ModEq]
      omega
  | release success bytes =>
    cases success with
    | false => exact hzero
    | true =>
      show (s.acquiredBytes.toNat : ℤ) - (s.releasedBytes + bytes).toNat ≡
        s.acquiredBytes.toNat - s.releasedBytes.toNat + -bytes.toNat [ZMOD 2 ^ 64]
      rw [UInt64.toNat_add, Int.ModEq]
      omega
  | modelLoad success => cases success <;> exact hzero
  | modelUnload success => cases success <;> exact hzero

theorem balance_recordRequest (success : Bool) : (s.recordRequest success).balance = s.balance := by
  cases success <;> rfl

variable {s}

theorem Counted.record (h : s.Counted) (recording : Recording) : (s.record recording).Counted := by
  cases recording with
  | nothing => exact h
  | acquire success => cases success <;> exact h
  | release success => cases success <;> exact h
  | modelLoad success => cases success <;> exact h
  | modelUnload success => cases success <;> exact h

theorem Counted.recordRequest (h : s.Counted) (success : Bool) :
    (s.recordRequest success).Counted := by
  have hrequests : s.requests = s.successes + s.failures := h
  cases success with
  | false =>
    show s.requests + 1 = s.successes + (s.failures + 1)
    rw [hrequests, UInt64.add_assoc]
  | true =>
    show s.requests + 1 = s.successes + 1 + s.failures
    rw [hrequests, UInt64.add_assoc, UInt64.add_comm s.failures, UInt64.add_assoc]

end Metrics

/-! ## Calls that return -/

variable {command : Command} {resume : Activity} {response : Response}

/-- Where the worker stands after a piece of its call. -/
def Activity.after (command : Command) (resume : Activity) (response : Response) : Activity :=
  match outcome command response with
  | some outcome => .answered command outcome
  | none => resume

theorem bytes_acquire {result : OperationResult} (h : result.Exact) :
    (Recording.acquire result.ok result.amount).bytes = result.amount.toNat := by
  by_cases hok : result.error = .none
  · simp [OperationResult.ok, hok, Recording.bytes]
  · simp [OperationResult.ok, hok, h hok, Recording.bytes]

theorem bytes_release {result : OperationResult} (h : result.Exact) :
    (Recording.release result.ok result.amount).bytes = -result.amount.toNat := by
  by_cases hok : result.error = .none
  · simp [OperationResult.ok, hok, Recording.bytes]
  · simp [OperationResult.ok, hok, h hok, Recording.bytes]

theorem after_acquire (htype : command.type = .acquire) {result : OperationResult}
    (h : result.Exact) :
    (Activity.after command resume (.client (some result))).calls = [] ∧
      (Activity.after command resume (.client (some result))).unrecorded = result.amount.toNat := by
  simp only [Activity.after, outcome, htype]
  exact ⟨rfl, bytes_acquire h⟩

theorem after_acquire_none (htype : command.type = .acquire) :
    Activity.after command resume (.client none) = resume := by
  simp only [Activity.after, outcome, htype]

theorem after_release (htype : command.type = .release) {result : OperationResult}
    (h : result.Exact) :
    (Activity.after command resume (.client (some result))).calls = [] ∧
      (Activity.after command resume (.client (some result))).unrecorded = -result.amount.toNat := by
  simp only [Activity.after, outcome, htype]
  exact ⟨rfl, bytes_release h⟩

/-- What is not a client operation moves no bytes. -/
theorem after_of_not_client (hresponse : ∀ result, response ≠ .client result)
    (hcalls : resume.calls = []) (hunrecorded : resume.unrecorded = 0) :
    (Activity.after command resume response).calls = [] ∧
      (Activity.after command resume response).unrecorded = 0 := by
  rw [Activity.after]
  split
  next outcome' houtcome =>
    refine ⟨rfl, ?_⟩
    rw [outcome.eq_def] at houtcome
    split at houtcome
    any_goals obtain rfl := Option.some.inj houtcome
    any_goals rfl
    · exact absurd rfl (hresponse _)
    · exact absurd rfl (hresponse _)
    · cases houtcome
  next => exact ⟨hcalls, hunrecorded⟩

/-! ## The books of a worker -/

/-- The books are balanced, where `others` are the calls that the other workers wait in, and
    `rest` is what they have yet to record. -/
structure Books (s : ResourceManager) (metrics : Option Metrics) (activity : Activity)
    (others : List ℕ) (rest : ℤ) : Prop where
  nodup : (activity.calls ++ others).Nodup
  issued : ∀ n ∈ activity.calls ++ others, n < s.nextSequence
  covers : ResourceManager.Covers (activity.calls ++ others) s
  balance : ∀ m ∈ metrics, m.balance + (activity.unrecorded + rest) ≡
    s.margin (activity.calls ++ others) [ZMOD 2 ^ 64]

namespace Books

open ResourceManager (Gains Covers Tracked)

variable {s t : ResourceManager} {metrics : Option Metrics} {activity activity' : Activity}
  {others : List ℕ} {rest : ℤ} {n : ℕ}

/-- Only how the calls and what is to be recorded add up counts. -/
theorem congr {others' : List ℕ} {rest' : ℤ} (h : Books s metrics activity others rest)
    (hcalls : (activity'.calls ++ others').Perm (activity.calls ++ others))
    (hrest : activity'.unrecorded + rest' = activity.unrecorded + rest) :
    Books s metrics activity' others' rest' where
  nodup := hcalls.nodup_iff.2 h.nodup
  issued n hn := h.issued n (hcalls.mem_iff.1 hn)
  covers r hr := hcalls.mem_iff.2 (h.covers r hr)
  balance m hm := by
    rw [hrest, ResourceManager.margin_ext fun n => hcalls.mem_iff]
    exact h.balance m hm

/-- A worker that waits in the same call, or in none as before. -/
theorem gains {gain : ℤ} (h : Books s metrics activity others rest)
    (hgains : Gains (activity.calls ++ others) s t gain) (hnext : s.nextSequence ≤ t.nextSequence)
    (hcalls : activity'.calls = activity.calls)
    (hunrecorded : activity'.unrecorded = activity.unrecorded + gain) :
    Books t metrics activity' others rest where
  nodup := hcalls.symm ▸ h.nodup
  issued := hcalls.symm ▸ fun n hn => (h.issued n hn).trans_le hnext
  covers := hcalls.symm ▸ hgains.covers
  balance m hm := by
    have hbalance := h.balance m hm
    rw [hcalls, hgains.margin_eq, hunrecorded]
    rw [Int.ModEq] at hbalance ⊢
    omega

theorem moves (h : Books s metrics activity others rest) (hcalls : activity'.calls = activity.calls)
    (hunrecorded : activity'.unrecorded = activity.unrecorded) :
    Books s metrics activity' others rest :=
  h.gains (ResourceManager.gains_refl h.covers) le_rfl hcalls
    (hunrecorded.trans (add_zero _).symm)

/-- The worker records what its call has done. -/
theorem record {outcome : Outcome} {response : Str}
    (h : Books s metrics (.answered command outcome) others rest) :
    Books s (metrics.map (·.record outcome.recording)) (.responding (some command) response) others
      rest where
  nodup := h.nodup
  issued := h.issued
  covers := h.covers
  balance m hm := by
    obtain ⟨m', hm', rfl⟩ := Option.map_eq_some_iff.1 hm
    have hrecord := (m'.balance_record outcome.recording).add_right rest
    rw [add_assoc] at hrecord
    have hrest : (Activity.responding (some command) response).unrecorded + rest = rest := zero_add _
    rw [hrest]
    exact hrecord.trans (h.balance m' hm')

/-- The worker counts its request. -/
theorem count (h : Books s metrics activity others rest) (success : Bool) :
    Books s (metrics.map (·.recordRequest success)) activity others rest where
  nodup := h.nodup
  issued := h.issued
  covers := h.covers
  balance m hm := by
    obtain ⟨m', hm', rfl⟩ := Option.map_eq_some_iff.1 hm
    rw [Metrics.balance_recordRequest]
    exact h.balance m' hm'

/-- An `acquire` that queues its request. -/
theorem queue (h : Books s metrics (.dispatching command) others rest) (hs : Tracked s)
    (hcovers : Covers (s.nextSequence :: others) t)
    (hmargin : t.margin (s.nextSequence :: others) = s.margin (s.nextSequence :: others))
    (hnext : t.nextSequence = s.nextSequence + 1) :
    Books t metrics (.waiting command s.nextSequence) others rest := by
  -- the number is new
  have hnew : s.nextSequence ∉ others := fun hmem => lt_irrefl _ (h.issued _ hmem)
  have hout : s.outcome s.nextSequence = none := by
    rw [hs.outcome_eq_none_iff]
    intro r hr heq
    exact absurd (hs.mem_requests_iff.1 ⟨r, List.mem_append_right _ hr, heq⟩) (lt_irrefl _)
  refine ⟨List.nodup_cons.2 ⟨hnew, h.nodup⟩, fun n hn => ?_, hcovers, fun m hm => ?_⟩
  · rw [hnext]
    rcases List.mem_cons.1 hn with rfl | hn
    · exact Nat.lt_succ_self _
    · exact (h.issued n hn).trans (Nat.lt_succ_self _)
  · show m.balance + (0 + rest) ≡ t.margin (s.nextSequence :: others) [ZMOD 2 ^ 64]
    rw [hmargin, ResourceManager.margin_cons_of_none hs hnew hout]
    exact h.balance m hm

/-- A call that returns with the outcome of its request, if there is one, and waits otherwise. -/
theorem finish (h : Books s metrics (.waiting command n) others rest) (hs : Tracked s)
    (htype : command.type = .acquire) :
    Books s metrics (.after command (.waiting command n) (.client (s.outcome n))) others rest := by
  have hn : n ∉ others := (List.nodup_cons.1 h.nodup).1
  cases hout : s.outcome n with
  | none =>
    rw [after_acquire_none htype]
    exact h
  | some result =>
    obtain ⟨hcalls, hunrecorded⟩ :=
      after_acquire htype (ResourceManager.exact_of_outcome hs hout)
    have hmargin := ResourceManager.margin_cons_of_outcome hs hn hout
    refine ⟨?_, ?_, ?_, fun m hm => ?_⟩
    · rw [hcalls]
      exact (List.nodup_cons.1 h.nodup).2
    · rw [hcalls]
      exact fun k hk => h.issued k (List.mem_cons_of_mem _ hk)
    · -- a request with an outcome is not in the queue
      intro r hr
      rw [hcalls]
      refine (List.mem_cons.1 (h.covers r hr)).resolve_left fun heq => ?_
      rw [← heq, hs.outcome_of_pending hr] at hout
      cases hout
    · have hbalance : m.balance + (0 + rest) ≡ s.margin (n :: others) [ZMOD 2 ^ 64] :=
        h.balance m hm
      rw [hcalls, List.nil_append, hmargin, hunrecorded]
      rw [Int.ModEq] at hbalance ⊢
      omega

section Operations

open ResourceManager (machine reachable_inv reachable_settled reachable_moves
  nextSequence_le_of_moves)

variable {name : Str} {bytes : Bytes} {options : AcquireOptions} {now later : TimePoint}

theorem nextSequence_perform (hs : machine.Reachable s) (action : ResourceManager.Action)
    (henabled : s.Enabled action) : s.nextSequence ≤ (s.perform action).1.nextSequence :=
  nextSequence_le_of_moves (reachable_moves hs henabled)

theorem tryAcquire (h : Books s metrics (.dispatching command) others rest) (hs : machine.Reachable s)
    (htype : command.type = .acquire) :
    Books (s.tryAcquire name bytes now).1 metrics
      (.after command resume (.client (some (s.tryAcquire name bytes now).2))) others rest := by
  have hexact : (s.tryAcquire name bytes now).2.Exact := ResourceManager.exact_tryAcquire
  obtain ⟨hcalls, hunrecorded⟩ := after_acquire htype hexact
  refine h.gains (ResourceManager.gains_tryAcquire (reachable_inv hs).accounted
    (reachable_settled hs) h.covers) ?_ hcalls (hunrecorded.trans (zero_add _).symm)
  exact nextSequence_perform hs (.tryAcquire name bytes now) trivial

theorem release (h : Books s metrics (.dispatching command) others rest) (hs : machine.Reachable s)
    (htype : command.type = .release) :
    Books (s.release name now).1 metrics
      (.after command resume (.client (some (s.release name now).2))) others rest := by
  have hexact : (s.release name now).2.Exact := ResourceManager.exact_release
  obtain ⟨hcalls, hunrecorded⟩ := after_release htype hexact
  refine h.gains (ResourceManager.gains_release (reachable_inv hs).accounted h.covers) ?_ hcalls
    (hunrecorded.trans (zero_add _).symm)
  exact nextSequence_perform hs (.release name now) trivial

theorem acquire (h : Books s metrics (.dispatching command) others rest) (hs : machine.Reachable s)
    (htype : command.type = .acquire) :
    Books (s.acquire name bytes options now later).1 metrics
      (.after command (.waiting command s.nextSequence)
        (.client (s.acquire name bytes options now later).2)) others rest := by
  have hinv := reachable_inv hs
  have ht : machine.Reachable (s.acquire name bytes options now later).1 :=
    ResourceManager.reachable_perform hs (a := .acquire name bytes options now later) trivial
  rcases ResourceManager.gains_acquire hinv.accounted (reachable_settled hs) h.covers with
    ⟨result, hresult, hexact, hgains⟩ | ⟨hnext, hresult, hcovers, hmargin⟩
  · obtain ⟨hcalls, hunrecorded⟩ := after_acquire htype hexact
    rw [hresult]
    refine h.gains hgains ?_ hcalls (hunrecorded.trans (zero_add _).symm)
    exact nextSequence_perform hs (.acquire name bytes options now later) trivial
  · -- the call queues its request, and may return with its outcome at once
    rw [hresult]
    exact (h.queue hinv.tracked hcovers hmargin hnext).finish (reachable_inv ht).tracked htype

theorem wake (h : Books s metrics (.waiting command n) others rest) (hs : machine.Reachable s)
    (henabled : s.Enabled (.wake n now)) (htype : command.type = .acquire) :
    Books (s.wake n now).1 metrics
      (.after command (.waiting command n) (.client (s.wake n now).2)) others rest := by
  have ht := ResourceManager.reachable_perform hs henabled
  have hresult : (s.wake n now).2 = (s.wake n now).1.outcome n :=
    (ResourceManager.result_of_perform (reachable_inv hs) henabled rfl).1
  rw [hresult]
  refine (h.gains (ResourceManager.gains_wake (reachable_inv hs).accounted h.covers) ?_ rfl
    (add_zero _).symm).finish (reachable_inv ht).tracked htype
  exact nextSequence_perform hs _ henabled

theorem expireWait (h : Books s metrics (.waiting command n) others rest) (hs : machine.Reachable s)
    (henabled : s.Enabled (.expireWait n now)) (htype : command.type = .acquire) :
    Books (s.expireWait n now).1 metrics
      (.after command (.waiting command n) (.client (s.expireWait n now).2)) others rest := by
  have ht := ResourceManager.reachable_perform hs henabled
  have hresult : (s.expireWait n now).2 = (s.expireWait n now).1.outcome n :=
    (ResourceManager.result_of_perform (reachable_inv hs) henabled rfl).1
  rw [hresult]
  refine (h.gains (ResourceManager.gains_expireWait h.covers) ?_ rfl
    (add_zero _).symm).finish (reachable_inv ht).tracked htype
  exact nextSequence_perform hs _ henabled

end Operations

/-- The other steps of the daemon change nothing for the clients, but for grant passes. -/
theorem perform {s : Daemon} (h : Books s.resources metrics activity others rest)
    (hs : Daemon.machine.Reachable s) {action : Daemon.Action} (henabled : s.Enabled action)
    (haction : ∀ client, action ≠ .client client) (hcalls : activity.calls = [])
    (hunrecorded : activity.unrecorded = 0) (hresume : resume.calls = [])
    (hresume' : resume.unrecorded = 0) :
    Books (s.perform action).1.resources metrics (.after command resume (s.perform action).2)
      others rest := by
  have heffect := Daemon.perform_effect henabled
  have hresponse : ∀ result, (s.perform action).2 ≠ .client result := by
    intro result hresult
    rw [hresult] at heffect
    generalize (s.perform action).1 = t at heffect
    generalize hclient : Response.client result = response at heffect
    cases heffect with
    | client => exact absurd rfl (haction _)
    | _ => cases hclient
  obtain ⟨hcalls', hunrecorded'⟩ : (Activity.after command resume (s.perform action).2).calls = [] ∧
      (Activity.after command resume (s.perform action).2).unrecorded = 0 :=
    after_of_not_client hresponse hresume hresume'
  have hresources := (Daemon.reachable_inv hs).resources
  have haccounted := (ResourceManager.reachable_inv hresources).accounted
  rw [← hcalls] at hcalls'
  have hzero : (Activity.after command resume (s.perform action).2).unrecorded =
      activity.unrecorded + 0 := by
    rw [hunrecorded, hunrecorded', add_zero]
  rcases Daemon.resources_effect heffect with hsame | ⟨model, hmodel, hclient⟩
  · rw [hsame]
    exact h.gains (ResourceManager.gains_refl h.covers) le_rfl hcalls' hzero
  · rw [hmodel]
    have hmodel' : ¬ model.IsClient := fun h => haction _ (hclient h)
    refine h.gains (ResourceManager.gains_perform_of_model haccounted h.covers (.inl hmodel')) ?_
      hcalls' hzero
    have henabled' : s.resources.Enabled model := by
      cases model <;> first | trivial | exact absurd trivial hmodel'
    exact nextSequence_perform hresources _ henabled'

end Books

/-! ## Steps -/

/-- Only an `acquire` waits for memory. -/
def Activity.Typed (activity : Activity) : Prop :=
  ∀ command n, activity = .waiting command n → command.type = .acquire

namespace Broker

variable {s t : Broker} {worker worker' : Worker} {activity : Activity} {action : Daemon.Action}
  {work : Work} {others : List ℕ} {rest : ℤ} {stop : Bool}

/-- Whose calls are client operations. -/
theorem operation_cases {s : Daemon} {outside : Outside}
    (h : operation s command outside = some action) :
    (command.type = .acquire ∧
        action = .client (.tryAcquire command.name command.bytes outside.now)) ∨
      (command.type = .acquire ∧ action = .client
        (.acquire command.name command.bytes command.options outside.now outside.later)) ∨
      (command.type = .release ∧ action = .client (.release command.name outside.now)) ∨
      command.type ≠ .acquire ∧ ∀ client, action ≠ .client client := by
  rw [operation] at h
  split at h
  next htype =>
    split at h
    · exact .inl ⟨htype, (Option.some.inj h).symm⟩
    · exact .inr (.inl ⟨htype, (Option.some.inj h).symm⟩)
  next htype => exact .inr (.inr (.inl ⟨htype, (Option.some.inj h).symm⟩))
  -- the others call the residency manager or the registry, or nobody
  all_goals
    next htype => cases h <;> exact .inr (.inr (.inr ⟨by simp [htype], by simp⟩))

theorem Calls.books (hcalls : s.Calls command work activity resume action)
    (hs : Daemon.machine.Reachable s.daemon) (henabled : s.daemon.Enabled action)
    (htyped : activity.Typed) (h : Books s.daemon.resources s.metrics activity others rest) :
    Books (s.daemon.perform action).1.resources s.metrics
      (.after command resume (s.daemon.perform action).2) others rest := by
  have hresources := (Daemon.reachable_inv hs).resources
  cases hcalls with
  | start hoperation =>
    rcases operation_cases hoperation with ⟨htype, rfl⟩ | ⟨htype, rfl⟩ | ⟨htype, rfl⟩ |
      ⟨htype, haction⟩
    · exact h.tryAcquire hresources htype
    · rw [if_pos htype]
      exact h.acquire hresources htype
    · exact h.release hresources htype
    · rw [if_neg htype]
      exact h.perform hs henabled haction rfl rfl rfl rfl
  | wake n now => exact h.wake hresources henabled.2 (htyped _ _ rfl)
  | expire n now => exact h.expireWait hresources henabled.2 (htyped _ _ rfl)
  | advance input => exact h.perform hs henabled (by simp) rfl rfl rfl rfl

/-- A worker that moves on to where it is quiet was not in a call. -/
theorem calls_of_quiet (h : s.work stop worker work = some (t, worker'))
    (hquiet : worker'.activity.Quiet) :
    worker.activity.calls = [] ∧ worker.activity.unrecorded = 0 := by
  have hcall {command : Command} {n : ℕ} {action : Daemon.Action}
      (h : ∃ activity, s.call command (.waiting command n) action = some (t, activity) ∧
        worker' = { worker with activity }) : False := by
    obtain ⟨activity, hcall, rfl⟩ := h
    rw [call] at hcall
    split_ifs at hcall
    obtain ⟨-, rfl⟩ := Prod.mk.inj (Option.some.inj hcall)
    dsimp only at hquiet
    split at hquiet <;> exact hquiet
  cases hactivity : worker.activity with
  | waiting command n =>
    cases work with
    | wake now =>
      simp only [Broker.work, hactivity] at h
      exact (hcall (eq_of_map h)).elim
    | expire now =>
      simp only [Broker.work, hactivity] at h
      exact (hcall (eq_of_map h)).elim
    | _ => simp [Broker.work, hactivity] at h
  | answered command outcome =>
    cases work with
    | record =>
      simp only [Broker.work, hactivity] at h
      obtain ⟨-, rfl⟩ := Prod.mk.inj (Option.some.inj h)
      exact hquiet.elim
    | _ => simp [Broker.work, hactivity] at h
  | _ => exact ⟨rfl, rfl⟩

theorem books_work (h : Books s.daemon.resources s.metrics worker.activity others rest) (hs : Inv s)
    (htyped : worker.activity.Typed) (hwork : s.work stop worker work = some (t, worker')) :
    Books t.daemon.resources t.metrics worker'.activity others rest := by
  cases work_effect hwork with
  | @moves input activity hquiet =>
    obtain ⟨hcalls, hunrecorded⟩ := calls_of_quiet hwork hquiet
    refine h.moves ?_ ?_
    · rw [hcalls]
      cases activity <;> first | rfl | exact hquiet.elim
    · rw [hunrecorded]
      cases activity <;> first | rfl | exact hquiet.elim
  | accepts hactivity _ _ => exact h.moves (by rw [hactivity]; rfl) (by rw [hactivity]; rfl)
  | rejects hactivity _ _ => exact h.moves (by rw [hactivity]; rfl) (by rw [hactivity]; rfl)
  | goesOn hcalls henabled houtcome =>
    have hafter := hcalls.books hs.daemon henabled htyped h
    rw [Activity.after, houtcome] at hafter
    exact hafter
  | returns hcalls henabled houtcome =>
    have hafter := hcalls.books hs.daemon henabled htyped h
    rw [Activity.after, houtcome] at hafter
    exact hafter
  | answers hactivity hanswer =>
    rw [hactivity] at h
    -- the answers change at most the nodes
    cases answer_answers hanswer <;> exact h.moves rfl rfl
  | records hactivity =>
    rw [hactivity] at h
    exact h.record
  | counts hactivity =>
    rw [hactivity] at h
    exact (h.count _).moves rfl rfl

theorem counted_work (h : ∀ m ∈ s.metrics, m.Counted)
    (hwork : s.work stop worker work = some (t, worker')) : ∀ m ∈ t.metrics, m.Counted := by
  cases work_effect hwork with
  | answers _ hanswer => cases answer_answers hanswer <;> exact h
  | records =>
    intro m hm
    obtain ⟨m', hm', rfl⟩ := Option.map_eq_some_iff.1 hm
    exact (h m' hm').record _
  | counts =>
    intro m hm
    obtain ⟨m', hm', rfl⟩ := Option.map_eq_some_iff.1 hm
    exact (h m' hm').recordRequest _
  | _ => exact h

theorem Calls.typed (hcalls : s.Calls command work activity resume action) (h : activity.Typed) :
    resume.Typed := by
  cases hcalls with
  | start =>
    split_ifs with htype
    · rintro command' n heq
      obtain ⟨rfl, -⟩ := Activity.waiting.inj heq
      exact htype
    · simp [Activity.Typed]
  | wake => exact h
  | expire => exact h
  | advance => exact h

theorem Effect.typed (heffect : Effect s worker work t worker') (h : worker.activity.Typed) :
    worker'.activity.Typed := by
  cases heffect with
  | @moves input activity hquiet => cases activity <;> first | exact hquiet.elim | simp [Activity.Typed]
  | goesOn hcalls => exact hcalls.typed h
  | _ => simp [Activity.Typed]

end Broker

namespace Server

variable {s t : Server} {action : Action}

theorem kept_typed : Kept Activity.Typed :=
  ⟨by simp [Activity.Typed], fun _ heffect h => heffect.typed h⟩

/-- The calls that the workers wait in. -/
def calls (workers : List Worker) : List ℕ := workers.flatMap (·.activity.calls)

/-- What the workers have yet to record. -/
def unrecorded (workers : List Worker) : ℤ := (workers.map (·.activity.unrecorded)).sum

theorem calls_middle (before after : List Worker) (worker : Worker) :
    (calls (before ++ worker :: after)).Perm (worker.activity.calls ++ calls (before ++ after)) := by
  simp only [calls, List.flatMap_append, List.flatMap_cons]
  exact List.perm_append_comm_assoc _ _ _

theorem unrecorded_middle (before after : List Worker) (worker : Worker) :
    unrecorded (before ++ worker :: after) =
      worker.activity.unrecorded + unrecorded (before ++ after) := by
  simp only [unrecorded, List.map_append, List.map_cons, List.sum_append, List.sum_cons]
  omega

/-- The books are balanced, as one sees them who is in no call. -/
structure Balanced (s : Server) : Prop where
  books : Books s.broker.daemon.resources s.broker.metrics .closed (calls s.workers)
    (unrecorded s.workers)
  counted : ∀ m ∈ s.broker.metrics, m.Counted

theorem Balanced.accept (h : Balanced s) : Balanced { s with workers := s.workers ++ [{}] } := by
  refine ⟨h.books.congr ?_ ?_, h.counted⟩
  · have hcalls := calls_middle s.workers [] {}
    rw [List.append_nil] at hcalls
    exact hcalls
  · have hunrecorded := unrecorded_middle s.workers [] {}
    rw [List.append_nil] at hunrecorded
    exact congrArg _ (hunrecorded.trans (zero_add _))

/-- A step of one worker, seen from where it stands. -/
theorem Balanced.work {index : ℕ} {work : Work} {worker worker' : Worker} {broker : Broker}
    (h : Balanced s) (hs : s.broker.Inv) (htyped : worker.activity.Typed)
    (hindex : s.workers[index]? = some worker)
    (hwork : s.broker.work s.stopRequested worker work = some (broker, worker')) :
    Balanced { s with broker, workers := s.workers.set index worker' } := by
  obtain ⟨hlt, rfl⟩ := List.getElem?_eq_some_iff.1 hindex
  obtain ⟨before, after, hworkers, hset⟩ : ∃ before after,
      s.workers = before ++ s.workers[index] :: after ∧
      s.workers.set index worker' = before ++ worker' :: after := by
    obtain ⟨before, after, hworkers, -, hset⟩ := List.exists_of_set hlt
    exact ⟨before, after, hworkers, hset⟩
  generalize s.workers[index] = worker at *
  have hbooks : Books s.broker.daemon.resources s.broker.metrics worker.activity
      (calls (before ++ after)) (unrecorded (before ++ after)) := by
    refine h.books.congr ?_ ?_
    · rw [hworkers]
      exact (calls_middle before after worker).symm
    · rw [hworkers, unrecorded_middle]
      exact (zero_add _).symm
  have hafter := Broker.books_work hbooks hs htyped hwork
  refine ⟨?_, Broker.counted_work h.counted hwork⟩
  show Books _ _ _ (calls (s.workers.set index worker')) (unrecorded (s.workers.set index worker'))
  rw [hset]
  refine hafter.congr (calls_middle before after worker') ?_
  rw [unrecorded_middle]
  exact zero_add _

theorem Balanced.step (h : Balanced s) (hs : All Activity.Typed s) (hstep : s.perform action = some t) :
    Balanced t := by
  cases perform_effect hstep with
  | requestShutdown => exact ⟨h.books, h.counted⟩
  | accept => exact h.accept
  | leave => exact ⟨h.books, h.counted⟩
  | cancel =>
    refine ⟨h.books.gains (ResourceManager.gains_cancelWaiters h.books.covers) ?_ rfl rfl, h.counted⟩
    exact le_rfl
  | join => exact ⟨h.books, h.counted⟩
  | work hindex hwork _ =>
    exact h.work hs.broker (hs.workers _ (List.mem_of_getElem? hindex)) hindex hwork

theorem balanced_init (h : machine.init s) : Balanced s := by
  obtain ⟨_, metrics, _, ⟨_, _, _, hcreate, rfl⟩, hmetrics, _, rfl⟩ := h
  obtain rfl := ResourceManager.eq_of_create hcreate
  have hmetrics' : ∀ m ∈ metrics, m = {} := by
    rintro m rfl
    simpa using hmetrics
  refine ⟨⟨List.nodup_nil, fun _ hn => absurd hn List.not_mem_nil,
    fun _ hr => absurd hr List.not_mem_nil, fun m hm => ?_⟩, fun m hm => ?_⟩
  · obtain rfl := hmetrics' m hm
    rfl
  · obtain rfl := hmetrics' m hm
    rfl

theorem reachable_balanced (h : machine.Reachable s) : Balanced s := by
  refine h.invariant (fun s hinit => balanced_init hinit) fun _ _ _ hreachable hs hstep => ?_
  exact hs.step (reachable_all kept_typed hreachable) hstep

/-- When no request is in flight, the bytes acquired less those released are the bytes that the
    clients hold. At every instant, the requests are those that succeeded and those that failed. -/
theorem reachable_balance (h : machine.Reachable s) {metrics : Metrics}
    (hmetrics : s.broker.metrics = some metrics) :
    ((∀ worker ∈ s.workers, ¬ worker.activity.InFlight) →
      (metrics.acquiredBytes.toNat : ℤ) - metrics.releasedBytes.toNat ≡
        Table.weight UInt64.toNat s.broker.daemon.resources.reservations [ZMOD 2 ^ 64]) ∧
    metrics.requests = metrics.successes + metrics.failures := by
  obtain ⟨hbooks, hcounted⟩ := reachable_balanced h
  refine ⟨fun hquiet => ?_, hcounted metrics hmetrics⟩
  have hcalls : calls s.workers = [] := by
    rw [calls, List.flatMap_eq_nil_iff]
    exact fun worker hworker => (Activity.nothing_of_not_inFlight (hquiet worker hworker)).1
  have hunrecorded : unrecorded s.workers = 0 := by
    refine List.sum_eq_zero fun bytes hbytes => ?_
    obtain ⟨worker, hworker, rfl⟩ := List.mem_map.1 hbytes
    exact (Activity.nothing_of_not_inFlight (hquiet worker hworker)).2
  have hbalance := hbooks.balance metrics hmetrics
  rw [hcalls, hunrecorded] at hbalance
  simpa [Activity.unrecorded, Activity.calls, ResourceManager.margin, ResourceManager.granted,
    Metrics.balance] using hbalance

/-- A worker gives its memory back to another one that waits for some of it, and records this
    after the other has recorded what it got. -/
def exchange : List Action :=
  [.accept, .work 0 .check, .work 0 (.receive (ascii "try_acquire holder 100\nrelease holder\n")),
    .work 0 .cut, .work 0 (.execute {}), .work 0 .record, .work 0 .count, .work 0 (.send true),
    .accept, .work 1 .check, .work 1 (.receive (ascii "acquire a 5\n")), .work 1 .cut,
    .work 1 (.execute {}), .work 0 .cut, .work 0 (.execute {}), .work 1 (.wake 0), .work 1 .record,
    .work 0 .record, .work 1 .count, .work 0 .count]

/-- The server after the exchange. -/
def exchanged : Server := (exchange.foldlM perform idle).getD idle

/-- The five bytes that are not given back are held. -/
theorem exchanged_balance :
    (exchanged.broker.metrics.map fun metrics => (metrics.acquiredBytes, metrics.releasedBytes)) =
        some (105, 100) ∧
      (105 : ℤ) - 100 ≡ Table.weight UInt64.toNat exchanged.broker.daemon.resources.reservations
        [ZMOD 2 ^ 64] := by
  have hreachable : machine.Reachable exchanged := reachable_getD _
  have hmetrics : exchanged.broker.metrics = some
      { requests := 3, successes := 3, acquires := 2, releases := 1, acquiredBytes := 105,
        releasedBytes := 100 } := by decide
  exact ⟨by rw [hmetrics]; rfl, (reachable_balance hreachable hmetrics).1 (by decide)⟩

end Server

end Gpumemd
