import Gpumemd.Resource.WakeUps

/-!
# When the policy makes no difference

The scheduling policy only says how two requests of the same priority are ranked, and costs only
rank those whose costs differ. So where the cost of a request depends on its priority alone, a
manager does the same under either policy, step by step (`perform_withPolicy`): what it answers
to every caller, and when, and what it keeps.
-/

namespace Gpumemd

open Library

namespace ResourceManager

variable {s t : ResourceManager} {cost : Int32 → Millis} {p q : PendingRequest}
  {policy policy' : SchedulingPolicy} {now : TimePoint}

/-- The same manager under another policy. -/
def withPolicy (s : ResourceManager) (policy : SchedulingPolicy) : ResourceManager :=
  { s with schedulingPolicy := policy }

/-- Requests of the same priority have the same cost. -/
def Priced (cost : Int32 → Millis) (s : ResourceManager) : Prop :=
  ∀ r ∈ s.pending, r.estimatedCost = cost r.priority

/-- A step queues no other request. -/
def Action.Priced (cost : Int32 → Millis) : Action → Prop
  | .acquire _ _ options _ _ => options.estimatedCost = cost options.priority
  | _ => True

instance : (a : Action) → Decidable (a.Priced cost)
  | .acquire _ _ options _ _ =>
    inferInstanceAs (Decidable (options.estimatedCost = cost options.priority))
  | .tryAcquire .. | .wake .. | .expireWait .. | .release .. | .acquireModel .. | .releaseModel ..
  | .replaceModelReservations .. | .cancelWaiters => .isTrue trivial

theorem Priced.mono (h : Priced cost s) (hpending : t.pending ⊆ s.pending) : Priced cost t :=
  fun r hr => h r (hpending hr)

/-! ## One turn of a pass -/

/-- Requests of the same cost are ranked by their numbers. -/
theorem outranks_of_priced (hp : p.estimatedCost = cost p.priority)
    (hq : q.estimatedCost = cost q.priority) (policy policy' : SchedulingPolicy) :
    p.outranks policy q = p.outranks policy' q := by
  by_cases hpriority : p.priority = q.priority
  · have hcost : p.estimatedCost = q.estimatedCost := by rw [hp, hq, hpriority]
    simp [PendingRequest.outranks, hpriority, hcost]
  · have hother : (p.priority == q.priority) = false := beq_eq_false_iff_ne.2 hpriority
    simp only [PendingRequest.outranks, hother, Bool.false_and]

theorem selectPending_withPolicy (h : Priced cost s) (policy : SchedulingPolicy) :
    (s.withPolicy policy).selectPending = s.selectPending :=
  select_congr (fun _ _ hp hq => outranks_of_priced hp hq _ _) h

theorem grantLoop_withPolicy (h : Priced cost s) (policy : SchedulingPolicy) (now : TimePoint)
    (fuel : ℕ) :
    grantLoop now fuel (s.withPolicy policy) = (grantLoop now fuel s).withPolicy policy := by
  induction fuel generalizing s with
  | zero => rfl
  | succ fuel ih =>
    rw [grantLoop, grantLoop, selectPending_withPolicy h]
    cases hselected : s.selectPending with
    | none => rfl
    | some selected =>
      exact ih (s := s.noteFree.grant now selected.1 selected.2)
        (h.mono (List.eraseIdx_subset ..))

theorem grantWaitersLocked_withPolicy (h : Priced cost s) (policy : SchedulingPolicy)
    (now : TimePoint) :
    (s.withPolicy policy).grantWaitersLocked now = (s.grantWaitersLocked now).withPolicy policy :=
  congrArg notifyAll (grantLoop_withPolicy (s := s.expirePending now)
    (h.mono fun _ => List.mem_of_mem_filter) policy now _)

/-! ## Steps -/

/-- The state under another policy, and the same result. -/
def under (policy : SchedulingPolicy) {ρ : Type*} (performed : ResourceManager × ρ) :
    ResourceManager × ρ := (performed.1.withPolicy policy, performed.2)

theorem tryAcquire_withPolicy (h : Priced cost s) (policy : SchedulingPolicy) (name : Str)
    (bytes : Bytes) (now : TimePoint) :
    (s.withPolicy policy).tryAcquire name bytes now = under policy (s.tryAcquire name bytes now) := by
  have hpass : ((s.withPolicy policy).noteFree.grantAtOnce name bytes).grantWaitersLocked now =
      ((s.noteFree.grantAtOnce name bytes).grantWaitersLocked now).withPolicy policy :=
    grantWaitersLocked_withPolicy (s := s.noteFree.grantAtOnce name bytes) h policy now
  rw [tryAcquire, tryAcquire, hpass]
  simp only [apply_ite (under policy)]
  rfl

theorem waitLoop_withPolicy (h : Priced cost s) (policy : SchedulingPolicy) (n : ℕ)
    (now : TimePoint) :
    (s.withPolicy policy).waitLoop n now = under policy (s.waitLoop n now) := by
  have houtcome (t : ResourceManager) : (t.withPolicy policy).outcome n = t.outcome n := rfl
  rw [waitLoop, waitLoop, houtcome, grantWaitersLocked_withPolicy h]
  cases s.outcome n with
  | some result => rfl
  | none =>
    dsimp only
    rw [houtcome]
    cases (s.grantWaitersLocked now).outcome n <;> rfl

/-- A request that is priced as the others are. -/
theorem Priced.enqueue (h : Priced cost s) {options : AcquireOptions}
    (hoptions : options.estimatedCost = cost options.priority) (name : Str) (bytes : Bytes)
    (now : TimePoint) : Priced cost (s.enqueue name bytes options now) := by
  intro r hr
  rcases List.mem_append.1 hr with hr | hr
  · exact h r hr
  · obtain rfl := List.mem_singleton.1 hr
    exact hoptions

theorem acquire_withPolicy (h : Priced cost s) (policy : SchedulingPolicy) (name : Str)
    (bytes : Bytes) {options : AcquireOptions}
    (hoptions : options.estimatedCost = cost options.priority) (now later : TimePoint) :
    (s.withPolicy policy).acquire name bytes options now later =
      under policy (s.acquire name bytes options now later) := by
  have hread : (if (s.withPolicy policy).pending.isEmpty then (s.withPolicy policy).noteFree
      else s.withPolicy policy) = (if s.pending.isEmpty then s.noteFree else s).withPolicy policy := by
    rw [apply_ite (withPolicy · policy)]
    rfl
  have hpriced : Priced cost (if s.pending.isEmpty then s.noteFree else s) := by
    split_ifs <;> exact h
  have hqueued (t : ResourceManager) (ht : Priced cost t) :
      (((t.withPolicy policy).enqueue name bytes options now).grantWaitersLocked now).waitLoop
          (t.withPolicy policy).nextSequence later =
        under policy (((t.enqueue name bytes options now).grantWaitersLocked now).waitLoop
          t.nextSequence later) := by
    have hpass : ((t.withPolicy policy).enqueue name bytes options now).grantWaitersLocked now =
        ((t.enqueue name bytes options now).grantWaitersLocked now).withPolicy policy :=
      grantWaitersLocked_withPolicy (s := t.enqueue name bytes options now)
        (ht.enqueue hoptions name bytes now) policy now
    rw [hpass]
    exact waitLoop_withPolicy ((ht.enqueue hoptions name bytes now).mono
      pending_grantWaitersLocked_sublist.subset) policy _ later
  rw [acquire, acquire, tryAcquire_withPolicy h]
  dsimp only
  rw [hread, hqueued _ hpriced]
  simp only [apply_ite (under policy)]
  rfl

theorem expireWait_withPolicy (policy : SchedulingPolicy) (n : ℕ) (now : TimePoint) :
    (s.withPolicy policy).expireWait n now = under policy (s.expireWait n now) := by
  have houtcome : ((s.withPolicy policy).resume n).outcome n = (s.resume n).outcome n := rfl
  rw [expireWait, expireWait, houtcome]
  cases (s.resume n).outcome n <;> rfl

theorem release_withPolicy (h : Priced cost s) (policy : SchedulingPolicy) (name : Str)
    (now : TimePoint) :
    (s.withPolicy policy).release name now = under policy (s.release name now) := by
  have hlookup : (s.withPolicy policy).reservations.lookup name = s.reservations.lookup name := rfl
  rw [release, release, hlookup]
  split_ifs
  · rfl
  · cases s.reservations.lookup name with
    | none => rfl
    | some bytes =>
      exact Prod.ext (grantWaitersLocked_withPolicy (s := s.dropClient name bytes) h policy now) rfl

theorem releaseModel_withPolicy (h : Priced cost s) (policy : SchedulingPolicy) (id : Str)
    (now : TimePoint) :
    (s.withPolicy policy).releaseModel id now = under policy (s.releaseModel id now) := by
  have hlookup : (s.withPolicy policy).modelReservations.lookup id = s.modelReservations.lookup id :=
    rfl
  rw [releaseModel, releaseModel, hlookup]
  split_ifs
  · rfl
  · cases s.modelReservations.lookup id with
    | none => rfl
    | some bytes =>
      exact Prod.ext (grantWaitersLocked_withPolicy (s := s.dropModel id bytes) h policy now) rfl

theorem acquireModel_withPolicy (policy : SchedulingPolicy) (id : Str) (bytes : Bytes) :
    (s.withPolicy policy).acquireModel id bytes = under policy (s.acquireModel id bytes) := by
  rw [acquireModel, acquireModel]
  simp only [apply_ite (under policy)]
  rfl

theorem sumEvictions_withPolicy (policy : SchedulingPolicy) (evictions : List Str)
    (evictedBytes : Bytes) (s : ResourceManager) :
    sumEvictions evictions evictedBytes (s.withPolicy policy) =
      under policy (sumEvictions evictions evictedBytes s) := by
  induction evictions generalizing s evictedBytes with
  | nil => rfl
  | cons eviction evictions ih =>
    have hlookup : (s.withPolicy policy).modelReservations.lookup eviction =
        s.modelReservations.lookup eviction := rfl
    rw [sumEvictions, sumEvictions, hlookup]
    cases s.modelReservations.lookup eviction with
    | none => rfl
    | some bytes => exact ih _ (s.noteAdd evictedBytes bytes)

theorem dropEvictions_withPolicy (policy : SchedulingPolicy) (evictions : List Str)
    (s : ResourceManager) :
    dropEvictions evictions (s.withPolicy policy) = (dropEvictions evictions s).withPolicy policy := by
  induction evictions generalizing s with
  | nil => rfl
  | cons eviction evictions ih =>
    have hlookup : (s.withPolicy policy).modelReservations.lookup eviction =
        s.modelReservations.lookup eviction := rfl
    rw [dropEvictions, dropEvictions, hlookup]
    cases s.modelReservations.lookup eviction with
    | none => exact ih s
    | some bytes => exact ih (s.dropModel eviction bytes)

theorem replaceModelReservations_withPolicy (h : Priced cost s) (policy : SchedulingPolicy)
    (evictions : List Str) (id : Str) (bytes : Bytes) (now : TimePoint) :
    (s.withPolicy policy).replaceModelReservations evictions id bytes now =
      under policy (s.replaceModelReservations evictions id bytes now) := by
  have hpending : (sumEvictions evictions 0 s).1.pending = s.pending := pending_sumEvictions evictions 0
  rw [replaceModelReservations, replaceModelReservations, sumEvictions_withPolicy]
  generalize sumEvictions evictions 0 s = summed at hpending ⊢
  obtain ⟨t, sum⟩ := summed
  cases sum with
  | none =>
    simp only [apply_ite (under policy)]
    rfl
  | some evictedBytes =>
    have hpriced : Priced cost (dropEvictions evictions (t.noteFree.noteAdd t.free evictedBytes)) := by
      refine h.mono ?_
      rw [(dropEvictions_sameClients evictions _).pending]
      exact (List.Perm.of_eq hpending).subset
    have hpass : ((dropEvictions evictions ((t.noteFree.noteAdd t.free evictedBytes).withPolicy
        policy)).reserveModel id bytes).grantWaitersLocked now =
          (((dropEvictions evictions (t.noteFree.noteAdd t.free evictedBytes)).reserveModel id
            bytes).grantWaitersLocked now).withPolicy policy := by
      rw [dropEvictions_withPolicy]
      exact grantWaitersLocked_withPolicy
        (s := (dropEvictions evictions (t.noteFree.noteAdd t.free evictedBytes)).reserveModel id bytes)
        hpriced policy now
    have hnoted : (t.withPolicy policy).noteFree.noteAdd (t.withPolicy policy).free evictedBytes =
        (t.noteFree.noteAdd t.free evictedBytes).withPolicy policy := rfl
    have hsummed : under policy (t, some evictedBytes) = (t.withPolicy policy, some evictedBytes) :=
      rfl
    rw [hsummed]
    dsimp only
    rw [hnoted, hpass]
    simp only [apply_ite (under policy)]
    rfl

theorem perform_withPolicy (h : Priced cost s) (policy : SchedulingPolicy) {a : Action}
    (ha : a.Priced cost) : (s.withPolicy policy).perform a = under policy (s.perform a) := by
  have hsome {performed performed' : ResourceManager × OperationResult}
      (heq : performed' = under policy performed) :
      performed'.map (·) some = under policy (performed.map (·) some) := by
    rw [heq]
    rfl
  cases a with
  | tryAcquire name bytes now => exact hsome (tryAcquire_withPolicy h policy name bytes now)
  | acquire name bytes options now later => exact acquire_withPolicy h policy name bytes ha now later
  | wake n now => exact waitLoop_withPolicy (s := s.resume n) h policy n now
  | expireWait n now => exact expireWait_withPolicy policy n now
  | release name now => exact hsome (release_withPolicy h policy name now)
  | acquireModel id bytes => exact hsome (acquireModel_withPolicy policy id bytes)
  | releaseModel id now => exact hsome (releaseModel_withPolicy h policy id now)
  | replaceModelReservations evictions id bytes now =>
    exact hsome (replaceModelReservations_withPolicy h policy evictions id bytes now)
  | cancelWaiters => rfl

theorem enabled_withPolicy (policy : SchedulingPolicy) (a : Action) :
    (s.withPolicy policy).Enabled a ↔ s.Enabled a := by cases a <;> rfl

/-! ## Runs -/

theorem Priced.acquire (h : Priced cost s) {options : AcquireOptions}
    (hoptions : options.estimatedCost = cost options.priority) (name : Str) (bytes : Bytes)
    (now later : TimePoint) : Priced cost (s.acquire name bytes options now later).1 := by
  obtain ⟨t, ht, hacquires⟩ := s.acquires name bytes options now later
  have hpriced : Priced cost t := by rcases ht with rfl | rfl <;> exact h
  generalize s.acquire name bytes options now later = call at hacquires
  cases hacquires with
  | refuses => exact hpriced
  | tries => exact h.mono pending_tryAcquire_sublist.subset
  | grants => exact hpriced
  | queues =>
    refine (hpriced.enqueue hoptions name bytes now).mono ?_
    exact (pending_waitLoop_sublist.trans pending_grantWaitersLocked_sublist).subset

/-- The other operations queue nothing. -/
theorem Priced.perform (h : Priced cost s) {a : Action} (ha : a.Priced cost) :
    Priced cost (s.perform a).1 := by
  by_cases hacquire : ∃ name bytes options now later, a = .acquire name bytes options now later
  · obtain ⟨name, bytes, options, now, later, rfl⟩ := hacquire
    exact h.acquire ha name bytes now later
  · refine h.mono (pending_perform_sublist fun name bytes options now later heq => hacquire ?_).subset
    exact ⟨name, bytes, options, now, later, heq⟩

/-- What the steps of a run answer, in their order: nothing, where a step leaves its call
    waiting. -/
def answers (s : ResourceManager) : List Action → List (Option OperationResult)
  | [] => []
  | a :: as => (s.perform a).2 :: (s.perform a).1.answers as

/-- A run whose requests are priced is a run under any other policy as well: every step is enabled
    there, answers the same and leads to the same state, up to the policy. -/
theorem run_withPolicy (policy : SchedulingPolicy) {as : List Action} (hr : machine.Run s as t)
    (h : Priced cost s) (has : ∀ a ∈ as, a.Priced cost) :
    machine.Run (s.withPolicy policy) as (t.withPolicy policy) ∧
      (s.withPolicy policy).answers as = s.answers as := by
  induction hr with
  | nil s => exact ⟨.nil _, rfl⟩
  | @cons s _ _ a as hstep _ ih =>
    obtain ⟨henabled, rfl⟩ := hstep
    have ha : a.Priced cost := has a (List.mem_cons_self ..)
    obtain ⟨hrun, hanswers⟩ := ih (h.perform ha) fun b hb => has b (List.mem_cons_of_mem _ hb)
    have hperform := perform_withPolicy h policy ha
    refine ⟨.cons ⟨(enabled_withPolicy policy a).2 henabled, congrArg Prod.fst hperform⟩ hrun, ?_⟩
    rw [answers, answers, hperform]
    exact congrArg ((s.perform a).2 :: ·) hanswers

/-- Two requests of different priorities wait for the memory of a third, which gives it back. -/
def queueing : List Action :=
  [.tryAcquire (ascii "holder") 10 0,
   .acquire (ascii "first") 5 { priority := 1, estimatedCost := 9 } 1 1,
   .acquire (ascii "second") 10 { priority := 2, estimatedCost := 18 } 2 2,
   .release (ascii "holder") 3,
   .wake 1 4]

/-- A manager nobody has called. -/
def uncalled : ResourceManager := { capacity := 10, schedulingPolicy := .priorityFifo }

/-- The manager grants the request of the higher priority when the memory is given back, though it
    has the higher cost. -/
theorem queueing_withPolicy :
    (∃ t, machine.Run (uncalled.withPolicy .costAware) queueing t) ∧
      (uncalled.withPolicy .costAware).answers queueing =
        [some ⟨.none, 10⟩, none, none, some ⟨.none, 10⟩, some ⟨.none, 10⟩] := by
  have hrun : ∃ t, machine.Run uncalled queueing t :=
    ⟨_, .cons ⟨trivial, rfl⟩ (.cons ⟨trivial, rfl⟩ (.cons ⟨trivial, rfl⟩ (.cons ⟨trivial, rfl⟩
      (.cons ⟨by decide, rfl⟩ (.nil _)))))⟩
  obtain ⟨t, hr⟩ := hrun
  have hpriced : ∀ a ∈ queueing, a.Priced fun priority => if priority = 1 then 9 else 18 := by
    decide
  obtain ⟨hother, hanswers⟩ := run_withPolicy .costAware hr (fun _ hr => nomatch hr) hpriced
  refine ⟨⟨_, hother⟩, ?_⟩
  rw [hanswers]
  decide

end ResourceManager

end Gpumemd
