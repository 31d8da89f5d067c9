import Gpumemd.Resource.Settled

/-!
# Accounting

`used_` counts exactly what the two reservation maps hold, without ever wrapping
(`Balanced`). `emplace` does nothing on a name that is reserved already, while
`used_` grows all the same: the count is only right because no name is queued
while it is reserved or queued (`Fresh`).

What the operations do is cut into moves (`Move`), each of which keeps the
accounts (`Accounted.move`); an operation that starts from right accounts is a
sequence of moves (`perform_moves`).
-/

namespace Gpumemd

open Library

/-- The accounts are right: `used` is what the reservations hold, within the
    capacity, and no operation on byte counts has wrapped. -/
structure Balanced (capacity used : Bytes) (reservations modelReservations : Table Str Bytes)
    (wrapped : Bool) : Prop where
  used_eq : used.toNat =
    Table.weight UInt64.toNat reservations + Table.weight UInt64.toNat modelReservations
  used_le : used.toNat ≤ capacity.toNat
  unwrapped : wrapped = false

/-- The queued requests can be granted: none is reserved or queued already, and
    each has a size within the capacity. -/
structure Fresh (capacity : Bytes) (reservations : Table Str Bytes)
    (pending : List PendingRequest) : Prop where
  unreserved : ∀ r ∈ pending, r.name ∉ reservations
  distinct : (pending.map (·.name)).Nodup
  sized : ∀ r ∈ pending, r.bytes ≠ 0 ∧ r.bytes ≤ capacity

namespace Fresh

variable {capacity : Bytes} {reservations : Table Str Bytes} {pending : List PendingRequest}
  (h : Fresh capacity reservations pending)

include h

theorem sublist {pending' : List PendingRequest} (hsub : pending'.Sublist pending) :
    Fresh capacity reservations pending' where
  unreserved r hr := h.unreserved r (hsub.subset hr)
  distinct := h.distinct.sublist (hsub.map _)
  sized r hr := h.sized r (hsub.subset hr)

/-- A name that is not queued may be reserved. -/
theorem emplace {name : Str} {bytes : Bytes} (hne : ∀ r ∈ pending, r.name ≠ name) :
    Fresh capacity (Table.emplace reservations name bytes) pending where
  unreserved r hr hmem := (Table.mem_emplace.1 hmem).elim (hne r hr) (h.unreserved r hr)
  distinct := h.distinct
  sized := h.sized

theorem erase {name : Str} : Fresh capacity (reservations.erase name) pending where
  unreserved r hr hmem := h.unreserved r hr (Finmap.mem_erase.1 hmem).2
  distinct := h.distinct
  sized := h.sized

/-- A request whose name is neither reserved nor queued may be queued. -/
theorem append {r : PendingRequest} (hres : r.name ∉ reservations)
    (hne : ∀ q ∈ pending, q.name ≠ r.name) (hsized : r.bytes ≠ 0 ∧ r.bytes ≤ capacity) :
    Fresh capacity reservations (pending ++ [r]) where
  unreserved q hq := by
    rcases List.mem_append.1 hq with hq | hq
    · exact h.unreserved q hq
    · exact List.mem_singleton.1 hq ▸ hres
  distinct := by
    rw [List.map_append, List.nodup_append]
    exact ⟨h.distinct, by simp, by simpa using hne⟩
  sized q hq := by
    rcases List.mem_append.1 hq with hq | hq
    · exact h.sized q hq
    · exact List.mem_singleton.1 hq ▸ hsized

end Fresh

namespace ResourceManager

variable {s t : ResourceManager} {now : TimePoint}

/-- The accounts are right, and granting the queued requests keeps them right. -/
structure Accounted (s : ResourceManager) : Prop where
  balanced : Balanced s.capacity s.used s.reservations s.modelReservations s.wrapped
  fresh : Fresh s.capacity s.reservations s.pending

theorem hasNameLocked_eq_false {name : Str} :
    s.hasNameLocked name = false ↔ name ∉ s.reservations ∧ ∀ r ∈ s.pending, r.name ≠ name := by
  simp [hasNameLocked]

/-- Evaluating a sum that does not wrap leaves no trace. -/
theorem noteAdd_eq {left right : Bytes} (hlt : left.toNat + right.toNat < 2 ^ 64) :
    s.noteAdd left right = s := by
  have hnot : ¬ 2 ^ 64 ≤ left.toNat + right.toNat := by omega
  simp only [noteAdd, hnot, decide_false, Bool.or_false]

/-! ## Charges and refunds -/

namespace Accounted

variable (h : Accounted s)

include h

theorem used_le_capacity : s.used ≤ s.capacity := UInt64.le_iff_toNat_le.2 h.balanced.used_le

/-- `capacity_ - used_` does not wrap. -/
theorem free_toNat : s.free.toNat = s.capacity.toNat - s.used.toNat :=
  UInt64.toNat_sub_of_le _ _ h.used_le_capacity

/-- Evaluating `capacity_ - used_` leaves no trace. -/
theorem noteFree_eq : s.noteFree = s := by
  have hnot : ¬ s.capacity < s.used := UInt64.not_lt.2 h.used_le_capacity
  simp [noteFree, noteSub, hnot]

/-- What fits can be charged. -/
theorem charge {bytes : Bytes} (hfit : bytes ≤ s.free) :
    (s.charge bytes).used.toNat = s.used.toNat + bytes.toNat ∧
      s.used.toNat + bytes.toNat ≤ s.capacity.toNat ∧ (s.charge bytes).wrapped = false := by
  have hle := UInt64.le_iff_toNat_le.1 hfit
  rw [h.free_toNat] at hle
  -- the sum stays within the capacity, which is a byte count itself
  have hcap := s.capacity.toNat_lt
  have hused := h.balanced.used_le
  refine ⟨?_, by omega, ?_⟩
  · show (s.used + bytes).toNat = _
    rw [UInt64.toNat_add, Nat.mod_eq_of_lt (by omega)]
  · show (s.noteAdd s.used bytes).wrapped = false
    rw [noteAdd_eq (by omega), h.balanced.unwrapped]

/-- What is held can be refunded. -/
theorem refund {bytes : Bytes} (hle : bytes.toNat ≤ s.used.toNat) :
    (s.refund bytes).used.toNat = s.used.toNat - bytes.toNat ∧ (s.refund bytes).wrapped = false := by
  have hle' := UInt64.le_iff_toNat_le.2 hle
  refine ⟨UInt64.toNat_sub_of_le _ _ hle', ?_⟩
  show (s.wrapped || decide (s.used < bytes)) = false
  simp [h.balanced.unwrapped, UInt64.not_lt.2 hle']

theorem balanced_reserve {name : Str} {bytes : Bytes} (hname : name ∉ s.reservations)
    (hfit : bytes ≤ s.free) :
    Balanced s.capacity (s.charge bytes).used (Table.emplace s.reservations name bytes)
      s.modelReservations (s.charge bytes).wrapped := by
  obtain ⟨hused, hle, hwrap⟩ := h.charge hfit
  refine ⟨?_, by omega, hwrap⟩
  rw [hused, Table.weight_emplace hname, h.balanced.used_eq]
  omega

theorem balanced_reserveModel {id : Str} {bytes : Bytes} (hid : id ∉ s.modelReservations)
    (hfit : bytes ≤ s.free) :
    Balanced s.capacity (s.charge bytes).used s.reservations
      (Table.emplace s.modelReservations id bytes) (s.charge bytes).wrapped := by
  obtain ⟨hused, hle, hwrap⟩ := h.charge hfit
  refine ⟨?_, by omega, hwrap⟩
  rw [hused, Table.weight_emplace hid, h.balanced.used_eq]
  omega

theorem balanced_dropClient {name : Str} {bytes : Bytes}
    (hname : s.reservations.lookup name = some bytes) :
    Balanced s.capacity (s.refund bytes).used (s.reservations.erase name)
      s.modelReservations (s.refund bytes).wrapped := by
  have hweight := Table.weight_erase (w := UInt64.toNat) hname
  have heq := h.balanced.used_eq
  have hle := h.balanced.used_le
  obtain ⟨hused, hwrap⟩ := h.refund (show bytes.toNat ≤ s.used.toNat by omega)
  exact ⟨by omega, by omega, hwrap⟩

theorem balanced_dropModel {id : Str} {bytes : Bytes}
    (hid : s.modelReservations.lookup id = some bytes) :
    Balanced s.capacity (s.refund bytes).used s.reservations (s.modelReservations.erase id)
      (s.refund bytes).wrapped := by
  have hweight := Table.weight_erase (w := UInt64.toNat) hid
  have heq := h.balanced.used_eq
  have hle := h.balanced.used_le
  obtain ⟨hused, hwrap⟩ := h.refund (show bytes.toNat ≤ s.used.toNat by omega)
  exact ⟨by omega, by omega, hwrap⟩

/-! ## The parts of a grant pass -/

theorem grant {index : ℕ} {request : PendingRequest}
    (hsel : s.selectPending = some (index, request)) : Accounted (s.grant now index request) := by
  have hmem := mem_of_selectPending hsel
  -- names are queued once, so none of the requests left has the name just reserved
  have hne : ∀ r ∈ (s.grant now index request).pending, r.name ≠ request.name := by
    have hnodup := ((pending_perm_of_selectPending hsel).map (·.name)).nodup_iff.1 h.fresh.distinct
    rw [List.map_cons, List.nodup_cons] at hnodup
    exact fun r hr hname => hnodup.1 (hname ▸ List.mem_map_of_mem hr)
  exact ⟨h.balanced_reserve (h.fresh.unreserved _ hmem) (bytes_le_of_selectPending hsel),
    (h.fresh.sublist pending_grant_sublist).emplace hne⟩

theorem grantWaitersLocked : Accounted (s.grantWaitersLocked now) :=
  grantWaitersLocked_induct (P := Accounted)
    ⟨h.balanced, h.fresh.sublist List.filter_sublist⟩ (fun _ h => h.noteFree_eq.symm ▸ h)
    (fun _ _ _ h hsel => h.grant hsel) (fun _ h => ⟨h.balanced, h.fresh⟩)

end Accounted

/-- With no deadline reached and nothing that fits, a grant pass only notifies. -/
theorem grantWaitersLocked_of_settled (h : Accounted s) (hsettled : s.Settled)
    (hlive : ∀ r ∈ s.pending, r.expired now = false) : s.grantWaitersLocked now = s.notifyAll := by
  have hexpire : s.expirePending now = s := by
    have hgone : s.pending.filter (·.expired now) = [] :=
      List.filter_eq_nil_iff.2 fun r hr => by simp [hlive r hr]
    have hkept : (s.pending.filter fun r => !r.expired now) = s.pending :=
      List.filter_eq_self.2 fun r hr => by simp [hlive r hr]
    simp [expirePending, hgone, hkept]
  rw [grantWaitersLocked_of_unfit hsettled, hexpire, h.noteFree_eq]

/-! ## Moves -/

/-- What the operations are made of, under the conditions in which they do it.
    Between moves, the accounts are right. -/
inductive Move : ResourceManager → ResourceManager → Prop
  | pass (s : ResourceManager) (now : TimePoint) : Move s (s.grantWaitersLocked now)
  | grantAtOnce {s : ResourceManager} {name : Str} {bytes : Bytes} :
      validName name = true → bytes ≠ 0 → s.hasNameLocked name = false → bytes ≤ s.free →
      s.Settled → Move s (s.grantAtOnce name bytes)
  | enqueue {s : ResourceManager} {name : Str} {bytes : Bytes} {options : AcquireOptions}
      {now : TimePoint} :
      validName name = true → bytes ≠ 0 → bytes ≤ s.capacity → s.hasNameLocked name = false →
      Move s (s.enqueue name bytes options now)
  | wait {s : ResourceManager} {sequence : ℕ} :
      sequence < s.nextSequence → s.outcome sequence = none → Move s (s.wait sequence)
  | resume (s : ResourceManager) (sequence : ℕ) : Move s (s.resume sequence)
  | expireRequest {s : ResourceManager} {sequence : ℕ} {now : TimePoint}
      {request : PendingRequest} :
      ¬ s.Blocked sequence → s.outcome sequence = none → s.request? sequence = some request →
      request.expired now = true → Move s (s.expireRequest sequence now)
  | dropClient {s : ResourceManager} {name : Str} {bytes : Bytes} :
      s.reservations.lookup name = some bytes → Move s (s.dropClient name bytes)
  | cancelWaiters (s : ResourceManager) : Move s s.cancelWaiters
  | reserveModel {s : ResourceManager} {id : Str} {bytes : Bytes} :
      validName id = true → bytes ≠ 0 → id ∉ s.modelReservations → bytes ≤ s.free →
      Move s (s.reserveModel id bytes)
  | dropModel {s : ResourceManager} {id : Str} {bytes : Bytes} :
      s.modelReservations.lookup id = some bytes → Move s (s.dropModel id bytes)

theorem Accounted.move (h : Accounted s) (hm : Move s t) : Accounted t := by
  cases hm with
  | pass => exact h.grantWaitersLocked
  | grantAtOnce _ _ hname hfit _ =>
    obtain ⟨hres, hne⟩ := hasNameLocked_eq_false.1 hname
    exact ⟨h.balanced_reserve hres hfit, h.fresh.emplace hne⟩
  | enqueue _ hpos hle hname =>
    obtain ⟨hres, hne⟩ := hasNameLocked_eq_false.1 hname
    exact ⟨h.balanced, h.fresh.append hres hne ⟨hpos, hle⟩⟩
  | wait => exact ⟨h.balanced, h.fresh⟩
  | resume => exact ⟨h.balanced, h.fresh⟩
  | expireRequest => exact ⟨h.balanced, h.fresh.sublist List.filter_sublist⟩
  | dropClient hname => exact ⟨h.balanced_dropClient hname, h.fresh.erase⟩
  | cancelWaiters => exact ⟨h.balanced, h.fresh.sublist (List.nil_sublist _)⟩
  | reserveModel _ _ hid hfit => exact ⟨h.balanced_reserveModel hid hfit, h.fresh⟩
  | dropModel hid => exact ⟨h.balanced_dropModel hid, h.fresh⟩

/-! ## Operations are sequences of moves -/

open Relation (ReflTransGen)

/-- A sequence of moves. -/
abbrev Moves : ResourceManager → ResourceManager → Prop := ReflTransGen Move

theorem Accounted.moves (h : Accounted s) (hm : Moves s t) : Accounted t := by
  induction hm with
  | refl => exact h
  | tail _ hm ih => exact ih.move hm

theorem nextSequence_grantWaitersLocked :
    (s.grantWaitersLocked now).nextSequence = s.nextSequence :=
  grantWaitersLocked_induct (P := fun t => t.nextSequence = s.nextSequence)
    (Q := fun t => t.nextSequence = s.nextSequence) rfl (fun _ h => h) (fun _ _ _ h _ => h)
    (fun _ h => h)

theorem waitLoop_moves {sequence : ℕ} (hlt : sequence < s.nextSequence) :
    Moves s (s.waitLoop sequence now).1 := by
  rw [waitLoop]
  split
  · exact .refl
  · have hpass : Moves s (s.grantWaitersLocked now) := .single (.pass s now)
    dsimp only
    split
    · exact hpass
    · exact hpass.tail (.wait (nextSequence_grantWaitersLocked.symm ▸ hlt) ‹_›)

theorem tryAcquire_moves (h : Accounted s) (hsettled : s.Settled) (name : Str) (bytes : Bytes)
    (now : TimePoint) : Moves s (s.tryAcquire name bytes now).1 := by
  rw [tryAcquire, h.noteFree_eq]
  split_ifs with hname hpos hdup hfit
  · exact .refl
  · exact .refl
  · exact .refl
  · exact .refl
  · exact (ReflTransGen.single (.grantAtOnce (by simpa using hname) hpos (by simpa using hdup)
      (UInt64.not_lt.1 hfit) hsettled)).tail (.pass _ now)

/-- What `acquire` computes has not wrapped. -/
theorem Accounted.acquires (h : Accounted s) (name : Str) (bytes : Bytes) (options : AcquireOptions)
    (now later : TimePoint) : Acquires s s name bytes options now later
      (s.acquire name bytes options now later) := by
  obtain ⟨t, rfl | rfl, hacquires⟩ := s.acquires name bytes options now later
  · exact hacquires
  · rwa [h.noteFree_eq] at hacquires

theorem acquire_moves (h : Accounted s) (hsettled : s.Settled) (name : Str) (bytes : Bytes)
    (options : AcquireOptions) (now later : TimePoint) :
    Moves s (s.acquire name bytes options now later).1 := by
  have hacquires := h.acquires name bytes options now later
  generalize s.acquire name bytes options now later = call at hacquires
  cases hacquires with
  | refuses => exact .refl
  | tries => exact tryAcquire_moves h hsettled name bytes now
  | grants hname hpos hdup _ hfit => exact .single (.grantAtOnce hname hpos hdup hfit hsettled)
  | queues hname hpos _ hcap hdup =>
    have hqueue : Moves s (s.enqueue name bytes options now) :=
      .single (.enqueue hname hpos hcap hdup)
    refine (hqueue.tail (.pass _ now)).trans (waitLoop_moves ?_)
    rw [nextSequence_grantWaitersLocked]
    exact Nat.lt_succ_self _

theorem wake_moves {sequence : ℕ} (hlt : sequence < s.nextSequence) :
    Moves s (s.wake sequence now).1 :=
  (ReflTransGen.single (.resume s sequence)).trans (waitLoop_moves (s := s.resume sequence) hlt)

theorem not_blocked_resume (sequence : ℕ) : ¬ (s.resume sequence).Blocked sequence := by
  simp [Blocked, resume]

theorem expireWait_moves {sequence : ℕ} {request : PendingRequest}
    (hreq : s.request? sequence = some request) (hexp : request.expired now = true) :
    Moves s (s.expireWait sequence now).1 := by
  have hresume : Moves s (s.resume sequence) := .single (.resume s sequence)
  rw [expireWait]
  split
  · exact hresume
  · exact hresume.tail (.expireRequest (not_blocked_resume sequence) ‹_› hreq hexp)

theorem release_moves (s : ResourceManager) (name : Str) (now : TimePoint) :
    Moves s (s.release name now).1 := by
  rw [release]
  split_ifs
  · exact .refl
  · split
    · exact .refl
    · exact (ReflTransGen.single (.dropClient ‹_›)).tail (.pass _ now)

theorem acquireModel_moves (h : Accounted s) (id : Str) (bytes : Bytes) :
    Moves s (s.acquireModel id bytes).1 := by
  rw [acquireModel, h.noteFree_eq]
  split_ifs with hid hpos hdup hfit
  · exact .refl
  · exact .refl
  · exact .refl
  · exact .refl
  · exact .single (.reserveModel (by simpa using hid) hpos hdup (UInt64.not_lt.1 hfit))

theorem releaseModel_moves (s : ResourceManager) (id : Str) (now : TimePoint) :
    Moves s (s.releaseModel id now).1 := by
  rw [releaseModel]
  split_ifs
  · exact .refl
  · split
    · exact .refl
    · exact (ReflTransGen.single (.dropModel ‹_›)).tail (.pass _ now)

/-! ### Replacing model reservations -/

/-- Adding up the reservations of distinct models leaves no trace, and counts no
    more than what is in use. The table `rest` holds what is not counted yet. -/
theorem sumEvictions_exact {evictions : List Str} (hnodup : evictions.Nodup)
    (evictedBytes : Bytes) (rest : Table Str Bytes)
    (hrest : ∀ id ∈ evictions, rest.lookup id = s.modelReservations.lookup id)
    (hle : evictedBytes.toNat + Table.weight UInt64.toNat rest ≤ s.used.toNat) :
    (sumEvictions evictions evictedBytes s).1 = s ∧
      ∀ total, (sumEvictions evictions evictedBytes s).2 = some total →
        total.toNat ≤ s.used.toNat := by
  induction evictions generalizing evictedBytes rest with
  | nil =>
    refine ⟨rfl, fun total htotal => ?_⟩
    obtain rfl : evictedBytes = total := Option.some.inj htotal
    omega
  | cons id evictions ih =>
    rw [List.nodup_cons] at hnodup
    rw [sumEvictions]
    cases hid : s.modelReservations.lookup id with
    | none => exact ⟨rfl, fun _ htotal => absurd htotal (Option.some_ne_none _).symm⟩
    | some bytes =>
      -- the bytes counted come out of what is not counted yet, so the sum cannot wrap
      have hweight := Table.weight_erase (w := UInt64.toNat) ((hrest id (by simp)).trans hid)
      have hlt := s.used.toNat_lt
      have hsum : (evictedBytes + bytes).toNat = evictedBytes.toNat + bytes.toNat := by
        rw [UInt64.toNat_add, Nat.mod_eq_of_lt (by omega)]
      dsimp only
      rw [noteAdd_eq (by omega)]
      refine ih hnodup.2 _ (rest.erase id) (fun k hk => ?_) (by omega)
      rw [Table.lookup_erase, if_neg (by rintro rfl; exact hnodup.1 hk)]
      exact hrest k (List.mem_cons_of_mem _ hk)

/-- What the clients hold, and what they have asked for, is the same. -/
structure SameClients (s t : ResourceManager) : Prop where
  reservations : t.reservations = s.reservations
  pending : t.pending = s.pending
  completed : t.completed = s.completed

theorem dropEvictions_sameClients (evictions : List Str) (s : ResourceManager) :
    SameClients s (dropEvictions evictions s) := by
  induction evictions generalizing s with
  | nil => exact ⟨rfl, rfl, rfl⟩
  | cons id evictions ih =>
    rw [dropEvictions]
    split
    · exact ih s
    · obtain ⟨hreservations, hpending, hcompleted⟩ := ih (s.dropModel id _)
      exact ⟨hreservations, hpending, hcompleted⟩

theorem dropEvictions_moves (evictions : List Str) (s : ResourceManager) :
    Moves s (dropEvictions evictions s) := by
  induction evictions generalizing s with
  | nil => exact .refl
  | cons id evictions ih =>
    rw [dropEvictions]
    split
    · exact ih s
    · exact .head (.dropModel ‹_›) (ih _)

theorem notMem_dropEvictions {id : Str} {evictions : List Str} (hid : id ∉ s.modelReservations) :
    id ∉ (dropEvictions evictions s).modelReservations := by
  induction evictions generalizing s with
  | nil => exact hid
  | cons eviction evictions ih =>
    rw [dropEvictions]
    split
    · exact ih hid
    · exact ih fun hmem => hid (Finmap.mem_erase.1 hmem).2

/-- Dropping the reservations of distinct models frees what they add up to. -/
theorem free_dropEvictions {evictions : List Str} (hnodup : evictions.Nodup)
    {evictedBytes total : Bytes} (htotal : (sumEvictions evictions evictedBytes s).2 = some total)
    (heq : ∀ id ∈ evictions, t.modelReservations.lookup id = s.modelReservations.lookup id) :
    (dropEvictions evictions t).free = t.free + (total - evictedBytes) := by
  induction evictions generalizing evictedBytes s t with
  | nil =>
    obtain rfl : evictedBytes = total := Option.some.inj htotal
    show t.free = _
    grind
  | cons id evictions ih =>
    rw [List.nodup_cons] at hnodup
    rw [sumEvictions] at htotal
    rw [dropEvictions, heq id (by simp)]
    cases hid : s.modelReservations.lookup id with
    | none =>
      rw [hid] at htotal
      exact absurd htotal (by simp)
    | some bytes =>
      rw [hid] at htotal
      dsimp only at htotal ⊢
      rw [ih hnodup.2 htotal fun k hk => ?_]
      · show t.capacity - (t.used - bytes) + _ = t.capacity - t.used + _
        grind
      · show (t.modelReservations.erase id).lookup k = s.modelReservations.lookup k
        rw [Table.lookup_erase, if_neg (by rintro rfl; exact hnodup.1 hk)]
        exact heq k (List.mem_cons_of_mem _ hk)

/-- A replacement does nothing, or it ends with a grant pass, before which nothing happens to the
    clients. -/
theorem replaceModelReservations_pass (h : Accounted s) (evictions : List Str) (id : Str)
    (bytes : Bytes) (now : TimePoint) :
    (s.replaceModelReservations evictions id bytes now).1 = s ∨ ∃ t, Moves s t ∧ SameClients s t ∧
      (s.replaceModelReservations evictions id bytes now).1 = t.grantWaitersLocked now := by
  rw [replaceModelReservations]
  split_ifs with hid hpos hdup hnodup
  · exact .inl rfl
  · exact .inl rfl
  · exact .inl rfl
  · obtain ⟨hsame, hle⟩ := sumEvictions_exact hnodup 0 s.modelReservations
      (fun _ _ => rfl) (by
        have := h.balanced.used_eq
        simp only [UInt64.toNat_zero]
        omega)
    generalize hsum : sumEvictions evictions 0 s = sum at hsame hle
    obtain ⟨t, total⟩ := sum
    obtain rfl : t = s := hsame
    cases total with
    | none => exact .inl rfl
    | some total =>
      have htotal := hle total rfl
      have hused := h.balanced.used_le
      have hcap := t.capacity.toNat_lt
      dsimp only
      rw [h.noteFree_eq, noteAdd_eq (by rw [h.free_toNat]; omega)]
      split_ifs with hfit
      · exact .inl rfl
      · -- once the evictions are dropped, what was compared with `bytes` is free
        have hfree := free_dropEvictions hnodup (congrArg Prod.snd hsum) (t := t) fun _ _ => rfl
        have hmoves := dropEvictions_moves evictions t
        obtain ⟨hreservations, hpending, hcompleted⟩ := dropEvictions_sameClients evictions t
        refine .inr ⟨_, hmoves.tail (.reserveModel (by simpa using hid) hpos
          (notMem_dropEvictions hdup) ?_), ⟨hreservations, hpending, hcompleted⟩, rfl⟩
        rw [hfree]
        grind
  · exact .inl rfl

theorem replaceModelReservations_moves (h : Accounted s) (evictions : List Str) (id : Str)
    (bytes : Bytes) (now : TimePoint) :
    Moves s (s.replaceModelReservations evictions id bytes now).1 := by
  rcases replaceModelReservations_pass h evictions id bytes now with hsame | ⟨t, hmoves, -, hpass⟩
  · rw [hsame]
  · rw [hpass]
    exact hmoves.tail (.pass t now)

/-- An operation that starts from right accounts, with no queued request that fits,
    is a sequence of moves. -/
theorem perform_moves (h : Accounted s) (hsettled : s.Settled)
    (hblocked : ∀ n, s.Blocked n → n < s.nextSequence) {a : Action} (ha : s.Enabled a) :
    Moves s (s.perform a).1 := by
  cases a with
  | tryAcquire name bytes now => exact tryAcquire_moves h hsettled name bytes now
  | acquire name bytes options now later =>
    exact acquire_moves h hsettled name bytes options now later
  | wake sequence now => exact wake_moves (hblocked _ ha)
  | expireWait sequence now =>
    obtain ⟨_, request, hreq, hexp⟩ := ha
    exact expireWait_moves hreq hexp
  | release name now => exact release_moves s name now
  | acquireModel id bytes => exact acquireModel_moves h id bytes
  | releaseModel id now => exact releaseModel_moves s id now
  | replaceModelReservations evictions id bytes now =>
    exact replaceModelReservations_moves h evictions id bytes now
  | cancelWaiters => exact .single (.cancelWaiters s)

end ResourceManager

end Gpumemd
