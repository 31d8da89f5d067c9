import Mathlib.Data.Int.Order.Basic
import Mathlib.Data.List.Sort
import Mathlib.Data.Prod.Lex
import Gpumemd.Library.Greedy
import Gpumemd.Resource.Requests

/-!
# A grant pass is one sweep

What `grant_waiters_locked` does, said at once (`grantOnePass`): the requests whose deadline
is reached time out, and one sweep through the others, in the order of their ranks, grants
each that fits in what is still free. The code searches the whole queue for the best request
again after each grant, and erases from the queue while it counts through it; both come to
the same (`grantWaitersLocked_eq_grantOnePass`), as no grant makes room.
-/

namespace Gpumemd

open Library

namespace PendingRequest

/-- The rank of a request, the first to be granted being the least: by priority, the highest
    first, then (with `CostAware`) by estimated cost, then by sequence number. -/
def rank (policy : SchedulingPolicy) (request : PendingRequest) : ℤ ×ₗ ℤ ×ₗ ℕ :=
  toLex (-request.priority.toInt,
    toLex (if policy = .costAware then request.estimatedCost.toInt else 0, request.sequence))

variable {policy : SchedulingPolicy} {p q : PendingRequest}

/-- The comparison of the code is that of the ranks. -/
theorem outranks_iff_rank_lt : p.outranks policy q = true ↔ p.rank policy < q.rank policy := by
  have hpriority : p.priority = q.priority ↔ -p.priority.toInt = -q.priority.toInt := by
    rw [neg_inj, Int32.toInt_inj]
  have hcost : p.estimatedCost = q.estimatedCost ↔ p.estimatedCost.toInt = q.estimatedCost.toInt :=
    Int64.toInt_inj.symm
  rw [outranks_iff, rank, rank, Prod.Lex.toLex_lt_toLex, Prod.Lex.toLex_lt_toLex, neg_lt_neg_iff,
    Int32.lt_iff_toInt_lt, hpriority, hcost, Int64.lt_iff_toInt_lt]
  cases policy <;> simp

end PendingRequest

namespace ResourceManager

variable {s t : ResourceManager} {now : TimePoint} {index : ℕ} {request r : PendingRequest}

/-! ## One pass -/

/-- Grants a queued request. -/
def grantRequest (s : ResourceManager) (now : TimePoint) (request : PendingRequest) :
    ResourceManager :=
  let t := s.reserve request.name request.bytes
  { t with
    pending := s.pending.erase request
    completed := s.completed ++ [request.complete ⟨.none, request.bytes⟩]
    history := s.history ++ [.granted ⟨request, now, s.reservations.lookup request.name,
      t.reservations.lookup request.name, s.used, t.used⟩] }

/-- Grants, of the given requests in turn, each that fits in what is still free. -/
def grantInOrder (now : TimePoint) : List PendingRequest → ResourceManager → ResourceManager
  | [], s => s
  | request :: requests, s =>
    if request.bytes ≤ s.free then grantInOrder now requests (s.grantRequest now request)
    else grantInOrder now requests s

/-- The requests in the order of their ranks. -/
def ranked (policy : SchedulingPolicy) (requests : List PendingRequest) : List PendingRequest :=
  requests.insertionSort fun p q => p.rank policy ≤ q.rank policy

/-- What a grant pass does, said at once. -/
def grantOnePass (s : ResourceManager) (now : TimePoint) : ResourceManager :=
  let t := s.expirePending now
  (grantInOrder now (ranked s.schedulingPolicy t.pending) t).notifyAll

/-! ## The first loop -/

/-- The first loop of `grant_waiters_locked` from an index on, for at most `fuel` turns. A
    request that is erased leaves its index to the next one. -/
def expireLoop (now : TimePoint) : ℕ → ℕ → ResourceManager → ResourceManager
  | 0, _, s => s
  | fuel + 1, index, s =>
    match s.pending[index]? with
    | none => s
    | some request =>
      if request.expired now then
        expireLoop now fuel index { s with
          pending := s.pending.eraseIdx index
          completed := s.completed ++ [request.complete ⟨.timeout, 0⟩]
          history := s.history ++ [.expired request now] }
      else expireLoop now fuel (index + 1) s

/-- Once the requests before the index have been passed over, the loop takes the expired ones
    out of the others. -/
theorem expireLoop_append {front rest : List PendingRequest} {fuel : ℕ}
    (hpending : s.pending = front ++ rest) (hfuel : rest.length ≤ fuel) :
    expireLoop now fuel front.length s =
      { s with
        pending := front ++ rest.filter fun request => !request.expired now
        completed := s.completed ++ (rest.filter (·.expired now)).map (·.complete ⟨.timeout, 0⟩)
        history := s.history ++ (rest.filter (·.expired now)).map (.expired · now) } := by
  induction rest generalizing fuel front s with
  | nil =>
    have hnone : s.pending[front.length]? = none := by simp [hpending]
    cases fuel with
    | zero => simp [expireLoop, ← hpending]
    | succ fuel => simp [expireLoop, hnone, ← hpending]
  | cons request rest ih =>
    obtain ⟨fuel, rfl⟩ : ∃ n, fuel = n + 1 :=
      Nat.exists_eq_succ_of_ne_zero (Nat.ne_of_gt (Nat.zero_lt_of_lt hfuel))
    have hrest : rest.length ≤ fuel := Nat.le_of_succ_le_succ hfuel
    have hsome : s.pending[front.length]? = some request := by simp [hpending]
    rw [expireLoop, hsome]
    dsimp only
    split_ifs with hexpired
    · -- the rest moves up to the index
      have herase : s.pending.eraseIdx front.length = front ++ rest := by
        simp [hpending, List.eraseIdx_append_of_length_le]
      rw [ih herase hrest]
      simp [hexpired]
    · have hmove : s.pending = (front ++ [request]) ++ rest := by simp [hpending]
      have hlength : front.length + 1 = (front ++ [request]).length := by simp
      rw [hlength, ih hmove hrest]
      simp [hexpired]

theorem expireLoop_eq (s : ResourceManager) (now : TimePoint) :
    expireLoop now s.pending.length 0 s = s.expirePending now := by
  have hpending : s.pending = [] ++ s.pending := rfl
  exact expireLoop_append hpending le_rfl

/-! ## The second loop -/

/-- What a grant pass relies on: the accounts are right, and no two requests are queued under
    one sequence number. -/
structure Queued (s : ResourceManager) : Prop where
  accounted : Accounted s
  nodup : (s.pending.map (·.sequence)).Nodup

theorem Queued.pending_nodup (h : Queued s) : s.pending.Nodup := h.nodup.of_map _

theorem Queued.expirePending (h : Queued s) : Queued (s.expirePending now) where
  accounted := ⟨h.accounted.balanced, h.accounted.fresh.sublist List.filter_sublist⟩
  nodup := h.nodup.sublist (List.filter_sublist.map _)

theorem Queued.grant (h : Queued s) (hselect : s.selectPending = some (index, request)) :
    Queued (s.grant now index request) where
  accounted := h.accounted.grant hselect
  nodup := h.nodup.sublist (pending_grant_sublist.map _)

/-- The second loop takes the best request that fits, again and again. -/
theorem grantLoop_eq_exhaust {fuel : ℕ} (h : Queued s) :
    grantLoop now fuel s = exhaust pending (fun s candidate => !(candidate.bytes > s.free))
      (·.outranks s.schedulingPolicy) (fun s index request => s.grant now index request) fuel s := by
  induction fuel generalizing s with
  | zero => exact h.accounted.noteFree_eq
  | succ fuel ih =>
    have hselection : select (fun candidate => !(candidate.bytes > s.free))
        (·.outranks s.schedulingPolicy) s.pending = s.selectPending := rfl
    rw [grantLoop, exhaust, h.accounted.noteFree_eq, hselection]
    cases hselect : s.selectPending with
    | none => rfl
    | some best => exact ih (h.grant hselect)

theorem grant_idxOf (s : ResourceManager) (now : TimePoint) (request : PendingRequest) :
    s.grant now (s.pending.idxOf request) request = s.grantRequest now request := by
  rw [grant, grantRequest, List.erase_eq_eraseIdx_of_idxOf rfl]

/-- A sweep grants in order. -/
theorem sweep_eq_grantInOrder (requests : List PendingRequest) (s : ResourceManager) :
    sweep pending (fun s candidate => !(candidate.bytes > s.free))
      (fun s index request => s.grant now index request) requests s = grantInOrder now requests s := by
  induction requests generalizing s with
  | nil => rfl
  | cons request requests ih =>
    rw [sweep, grantInOrder, grant_idxOf, ih, ih]
    simp

theorem ranked_perm (policy : SchedulingPolicy) (requests : List PendingRequest) :
    (ranked policy requests).Perm requests :=
  List.perm_insertionSort _ _

/-- Of two requests in the order of their ranks, the first outranks the second. -/
theorem pairwise_ranked {policy : SchedulingPolicy} {requests : List PendingRequest}
    (h : (requests.map (·.sequence)).Nodup) :
    (ranked policy requests).Pairwise fun p q => p.outranks policy q = true := by
  have hle : (ranked policy requests).Pairwise fun p q => p.rank policy ≤ q.rank policy :=
    List.pairwise_insertionSort _ _
  have hne : (ranked policy requests).Pairwise fun p q => p.sequence ≠ q.sequence :=
    List.pairwise_map.1 ((ranked_perm policy requests).map _ |>.nodup_iff.2 h)
  refine (hle.and hne).imp fun ⟨hle, hne⟩ => ?_
  refine (PendingRequest.outranks_or_outranks policy hne).resolve_right fun hqp => ?_
  exact absurd (PendingRequest.outranks_iff_rank_lt.1 hqp) (not_lt.2 hle)

/-- The second loop, given a turn for every request, is one sweep. -/
theorem grantLoop_eq_grantInOrder {fuel : ℕ} (h : Queued s) (hfuel : s.pending.length ≤ fuel) :
    grantLoop now fuel s = grantInOrder now (ranked s.schedulingPolicy s.pending) s := by
  have hperm := ranked_perm s.schedulingPolicy s.pending
  rw [grantLoop_eq_exhaust h, ← sweep_eq_grantInOrder]
  refine exhaust_eq_sweep (P := fun t => Queued t ∧ t.schedulingPolicy = s.schedulingPolicy)
    (PendingRequest.outranks_irrefl _) (fun _ _ _ => PendingRequest.outranks_trans)
    (fun t ht => ht.1.pending_nodup) (fun t index request ht hselect => ?_) ⟨h, rfl⟩
    (pairwise_ranked h.nodup) hperm.subset (fun r hr _ => hperm.symm.subset hr)
    (hperm.length_eq.trans_le hfuel)
  obtain ⟨ht, hpolicy⟩ := ht
  rw [← hpolicy] at hselect
  refine ⟨⟨ht.grant hselect, hpolicy⟩, rfl, fun r hr => ?_⟩
  -- what fits after the grant has fitted before
  simp only [Bool.not_eq_true', decide_eq_false_iff_not, gt_iff_lt, UInt64.not_lt] at hr ⊢
  exact UInt64.le_trans hr (free_charge_le (bytes_le_of_selectPending hselect))

/-! ## The pass -/

/-- In every state in which the lock is free, and in every one that an operation passes
    through, the two loops are one pass: the first drops the requests whose deadline is
    reached, and the second, which needs no more turns than there are requests, grants those
    that one sweep in the order of the ranks grants. -/
theorem grantWaitersLocked_eq_grantOnePass (hs : machine.Reachable s) (hm : Moves s t)
    (now : TimePoint) :
    t.grantWaitersLocked now = t.grantOnePass now ∧
      expireLoop now t.pending.length 0 t = t.expirePending now ∧
      ∀ fuel, (t.expirePending now).pending.length ≤ fuel →
        (grantLoop now fuel (t.expirePending now)).notifyAll = t.grantOnePass now := by
  have hinv := (reachable_inv hs).moves hm
  have hqueued : Queued t :=
    ⟨hinv.accounted, (List.nodup_append.1 (List.map_append ▸ hinv.tracked.nodup)).1⟩
  have hloop (fuel : ℕ) (hfuel : (t.expirePending now).pending.length ≤ fuel) :
      grantLoop now fuel (t.expirePending now) =
        grantInOrder now (ranked t.schedulingPolicy (t.expirePending now).pending)
          (t.expirePending now) := grantLoop_eq_grantInOrder hqueued.expirePending hfuel
  refine ⟨?_, expireLoop_eq t now, fun fuel hfuel => ?_⟩
  · rw [grantWaitersLocked, hloop _ le_rfl, grantOnePass]
  · rw [hloop fuel hfuel, grantOnePass]

/-- A hundred bytes are given back to three who wait, of whom the second does not fit beside
    the first. -/
def queued : ResourceManager :=
  let s : ResourceManager := { capacity := 100, schedulingPolicy := .priorityFifo }
  let s := (s.perform (.tryAcquire (ascii "holder") 100 0)).1
  let s := (s.perform (.acquire (ascii "low") 30 {} 0 0)).1
  let s := (s.perform (.acquire (ascii "high") 60 { priority := 2 } 0 0)).1
  (s.perform (.acquire (ascii "large") 50 { priority := 1 } 0 0)).1

theorem queued_reachable : machine.Reachable queued := by
  have hidle : machine.Reachable { capacity := 100, schedulingPolicy := .priorityFifo } :=
    .init ⟨100, .priorityFifo, rfl⟩
  have hheld := reachable_perform hidle (a := .tryAcquire (ascii "holder") 100 0) trivial
  have hlow := reachable_perform hheld (a := .acquire (ascii "low") 30 {} 0 0) trivial
  have hhigh := reachable_perform hlow (a := .acquire (ascii "high") 60 { priority := 2 } 0 0) trivial
  exact reachable_perform hhigh (a := .acquire (ascii "large") 50 { priority := 1 } 0 0) trivial

theorem queued_grantOnePass :
    ((queued.dropClient (ascii "holder") 100).grantWaitersLocked 1).pending.map (·.name) =
        [ascii "large"] ∧
      (queued.dropClient (ascii "holder") 100).grantWaitersLocked 1 =
        (queued.dropClient (ascii "holder") 100).grantOnePass 1 :=
  ⟨by decide, (grantWaitersLocked_eq_grantOnePass queued_reachable
    (.single (.dropClient (by decide))) 1).1⟩

end ResourceManager

end Gpumemd
