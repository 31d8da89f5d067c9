import Gpumemd.Resource.Models

/-!
# The replacement of models

A replacement that passes its checks comes to one change of the accounts, followed by one
grant pass (`replaceModelReservations_of_replaceable`): the reservations of the evictions
are gone and the new model is charged before a waiting client sees what is free. The checks
are what the change needs to be exact (`replaceModelReservations_iff`). What is charged
without evictions is given back by a release (`releaseModel_exchange`).
-/

namespace Gpumemd

open Library

namespace ResourceManager

variable {s : ResourceManager} {evictions : List Str} {id : Str} {bytes : Bytes} {now : TimePoint}

/-- What the models of the list hold together. -/
def evicted (s : ResourceManager) (evictions : List Str) : ℕ :=
  (evictions.map fun id => ((s.modelReservations.lookup id).getD 0).toNat).sum

/-- The state in which the evictions are gone and the model is charged. -/
def exchange (s : ResourceManager) (evictions : List Str) (id : Str) (bytes : Bytes) :
    ResourceManager :=
  { s with
    used := UInt64.ofNat (s.used.toNat - s.evicted evictions + bytes.toNat)
    modelReservations := (Table.eraseAll s.modelReservations evictions).insert id bytes }

theorem lookup_getD (h : id ∈ s.modelReservations) :
    s.modelReservations.lookup id = some ((s.modelReservations.lookup id).getD 0) := by
  obtain ⟨bytes, hbytes⟩ := Finmap.mem_iff.1 h
  rw [hbytes, Option.getD_some]

theorem evicted_cons (h : s.modelReservations.lookup id = some bytes) :
    s.evicted (id :: evictions) = bytes.toNat + s.evicted evictions := by
  rw [evicted, List.map_cons, List.sum_cons, h]
  rfl

theorem evicted_eq {f : Str → Bytes}
    (h : ∀ id ∈ evictions, s.modelReservations.lookup id = some (f id)) :
    s.evicted evictions = (evictions.map fun id => (f id).toNat).sum :=
  congrArg List.sum (List.map_congr_left fun id hid => by rw [h id hid, Option.getD_some])

/-- Distinct models hold a part of what is used. -/
theorem evicted_le (h : Accounted s) (hnodup : evictions.Nodup)
    (hreserved : ∀ id ∈ evictions, id ∈ s.modelReservations) :
    s.evicted evictions ≤ s.used.toNat := by
  have hweight := Table.weight_eraseAll (w := UInt64.toNat) hnodup
    fun id hid => lookup_getD (hreserved id hid)
  have hused := h.balanced.used_eq
  rw [evicted]
  omega

/-! ## The loops -/

/-- The sum is only reached where all models of the list have reservations. -/
theorem mem_of_sumEvictions {evictedBytes total : Bytes}
    (h : (sumEvictions evictions evictedBytes s).2 = some total) :
    ∀ id ∈ evictions, id ∈ s.modelReservations := by
  induction evictions generalizing s evictedBytes with
  | nil => exact List.forall_mem_nil _
  | cons id evictions ih =>
    rw [sumEvictions] at h
    split at h
    next => cases h
    next bytes hbytes =>
      exact List.forall_mem_cons.2 ⟨Finmap.mem_iff.2 ⟨bytes, hbytes⟩, ih (s := s.noteAdd _ _) h⟩

/-- The reservations of models that have one add up, as long as the sum does not wrap. -/
theorem sumEvictions_eq_some (hreserved : ∀ id ∈ evictions, id ∈ s.modelReservations)
    (evictedBytes : Bytes) (hfit : evictedBytes.toNat + s.evicted evictions < 2 ^ 64) :
    ∃ total, (sumEvictions evictions evictedBytes s).2 = some total ∧
      total.toNat = evictedBytes.toNat + s.evicted evictions := by
  induction evictions generalizing s evictedBytes with
  | nil => exact ⟨evictedBytes, rfl, rfl⟩
  | cons id evictions ih =>
    rw [List.forall_mem_cons] at hreserved
    obtain ⟨bytes, hbytes⟩ := Finmap.mem_iff.1 hreserved.1
    rw [evicted_cons hbytes] at hfit ⊢
    have hadd : (evictedBytes + bytes).toNat = evictedBytes.toNat + bytes.toNat := by
      rw [UInt64.toNat_add, Nat.mod_eq_of_lt (by omega)]
    have hfit' : (evictedBytes + bytes).toNat + s.evicted evictions < 2 ^ 64 := by omega
    obtain ⟨total, htotal, hsum⟩ := ih (s := s.noteAdd evictedBytes bytes) hreserved.2
      (evictedBytes + bytes) hfit'
    refine ⟨total, ?_, ?_⟩
    · rw [sumEvictions, hbytes]
      exact htotal
    · rw [hsum, hadd, Nat.add_assoc]
      rfl

/-- Dropping what a model holds does not wrap. -/
theorem dropModel_eq (h : Accounted s) (hid : s.modelReservations.lookup id = some bytes) :
    s.dropModel id bytes =
      { s with used := s.used - bytes, modelReservations := s.modelReservations.erase id } := by
  have hweight := Table.weight_erase (w := UInt64.toNat) hid
  have hused := h.balanced.used_eq
  have hle : ¬ s.used < bytes := by
    rw [UInt64.lt_iff_toNat_lt]
    omega
  rw [dropModel, refund, noteSub, decide_eq_false hle, Bool.or_false]

/-- Dropping distinct models takes what they hold together. -/
theorem dropEvictions_eq (h : Accounted s) (hnodup : evictions.Nodup)
    (hreserved : ∀ id ∈ evictions, id ∈ s.modelReservations) :
    dropEvictions evictions s =
      { s with
        used := UInt64.ofNat (s.used.toNat - s.evicted evictions)
        modelReservations := Table.eraseAll s.modelReservations evictions } := by
  induction evictions generalizing s with
  | nil =>
    rw [evicted, List.map_nil, List.sum_nil, Nat.sub_zero, UInt64.ofNat_toNat]
    rfl
  | cons id evictions ih =>
    have hle := evicted_le h hnodup hreserved
    rw [List.nodup_cons] at hnodup
    rw [List.forall_mem_cons] at hreserved
    obtain ⟨bytes, hbytes⟩ := Finmap.mem_iff.1 hreserved.1
    have hdrop : Accounted (s.dropModel id bytes) := h.move (.dropModel hbytes)
    -- the others still hold what they did
    have hlookup : ∀ k ∈ evictions,
        (s.modelReservations.erase id).lookup k = s.modelReservations.lookup k := by
      intro k hk
      rw [Table.lookup_erase, if_neg (by rintro rfl; exact hnodup.1 hk)]
    have hrest : ∀ k ∈ evictions, k ∈ (s.dropModel id bytes).modelReservations := by
      intro k hk
      obtain ⟨b, hb⟩ := Finmap.mem_iff.1 (hreserved.2 k hk)
      exact Finmap.mem_iff.2 ⟨b, (hlookup k hk).trans hb⟩
    have hevicted : (s.dropModel id bytes).evicted evictions = s.evicted evictions :=
      congrArg List.sum (List.map_congr_left fun k hk =>
        congrArg (fun b => (Option.getD b 0).toNat) (hlookup k hk))
    rw [evicted_cons hbytes] at hle ⊢
    have hused : (s.used - bytes).toNat = s.used.toNat - bytes.toNat :=
      UInt64.toNat_sub_of_le _ _ (UInt64.le_iff_toNat_le.2 (by omega))
    rw [dropEvictions, hbytes]
    dsimp only
    rw [ih hdrop hnodup.2 hrest, hevicted, dropModel_eq h hbytes]
    dsimp only
    rw [hused, Nat.sub_sub]
    rfl

/-! ## The replacement -/

/-- What the arguments of a replacement must be, apart from the memory. -/
structure Replaceable (s : ResourceManager) (evictions : List Str) (id : Str) (bytes : Bytes) :
    Prop where
  valid : validName id = true
  pos : bytes ≠ 0
  unreserved : id ∉ s.modelReservations
  distinct : evictions.Nodup
  reserved : ∀ eviction ∈ evictions, eviction ∈ s.modelReservations

/-- What fits can be charged once the evictions are dropped. -/
theorem reserveModel_dropEvictions (h : Accounted s)
    (hreplaceable : s.Replaceable evictions id bytes)
    (hfits : bytes.toNat ≤ s.free.toNat + s.evicted evictions) :
    (dropEvictions evictions s).reserveModel id bytes = s.exchange evictions id bytes := by
  have hle := evicted_le h hreplaceable.distinct hreplaceable.reserved
  have hused := h.balanced.used_le
  have hcapacity := s.capacity.toNat_lt
  rw [h.free_toNat] at hfits
  have hleft : (UInt64.ofNat (s.used.toNat - s.evicted evictions)).toNat =
      s.used.toNat - s.evicted evictions := UInt64.toNat_ofNat_of_lt' (by omega : _ < 2 ^ 64)
  have hadd : UInt64.ofNat (s.used.toNat - s.evicted evictions) + bytes =
      UInt64.ofNat (s.used.toNat - s.evicted evictions + bytes.toNat) := by
    rw [UInt64.ofNat_add, UInt64.ofNat_toNat]
  have hnew : id ∉ Table.eraseAll s.modelReservations evictions := fun hmem =>
    hreplaceable.unreserved (Table.mem_of_mem_eraseAll hmem)
  rw [dropEvictions_eq h hreplaceable.distinct hreplaceable.reserved, reserveModel, charge,
    noteAdd_eq (by rw [hleft]; omega)]
  dsimp only
  rw [hadd, Table.emplace_of_notMem hnew]
  rfl

/-- A replacement whose arguments are good makes one change and one grant pass, or does
    nothing for lack of memory. -/
theorem replaceModelReservations_of_replaceable (h : Accounted s)
    (hreplaceable : s.Replaceable evictions id bytes) :
    s.replaceModelReservations evictions id bytes now =
      if bytes.toNat ≤ s.free.toNat + s.evicted evictions then
        ((s.exchange evictions id bytes).grantWaitersLocked now, ⟨.none, bytes⟩)
      else (s, ⟨.insufficientMemory, 0⟩) := by
  obtain ⟨hid, hpos, hnew, hnodup, hreserved⟩ := hreplaceable
  -- what the evictions hold is in use, so nothing wraps
  have hle := evicted_le h hnodup hreserved
  have hused := h.balanced.used_eq
  have hbound := h.balanced.used_le
  have hcapacity := s.capacity.toNat_lt
  have hfree := h.free_toNat
  obtain ⟨total, htotal, hsum⟩ := sumEvictions_eq_some hreserved 0
    (by rw [UInt64.toNat_zero]; omega)
  obtain ⟨hsame, -⟩ := sumEvictions_exact hnodup 0 s.modelReservations (fun _ _ => rfl)
    (by rw [UInt64.toNat_zero]; omega)
  rw [UInt64.toNat_zero, Nat.zero_add] at hsum
  have hadd : (s.free + total).toNat = s.free.toNat + s.evicted evictions := by
    rw [UInt64.toNat_add, hsum, Nat.mod_eq_of_lt (by omega)]
  have hpair : sumEvictions evictions 0 s = (s, some total) := Prod.ext hsame htotal
  rw [replaceModelReservations, if_neg (by simp [hid]), if_neg hpos, if_neg hnew,
    if_neg (not_not.2 hnodup), hpair]
  dsimp only
  rw [h.noteFree_eq, noteAdd_eq (by omega)]
  by_cases hfits : bytes.toNat ≤ s.free.toNat + s.evicted evictions
  · have hfits' : bytes ≤ s.free + total := UInt64.le_iff_toNat_le.2 (hadd ▸ hfits)
    rw [if_neg (UInt64.not_lt.2 hfits'), if_pos hfits,
      reserveModel_dropEvictions h ⟨hid, hpos, hnew, hnodup, hreserved⟩ hfits]
  · have hlarge : bytes > s.free + total :=
      UInt64.not_le.1 fun hle => hfits (hadd ▸ UInt64.le_iff_toNat_le.1 hle)
    rw [if_pos hlarge, if_neg hfits]

/-- Any other replacement fails and changes nothing. -/
theorem replaceModelReservations_of_not_replaceable (now : TimePoint) (h : Accounted s)
    (hnot : ¬ s.Replaceable evictions id bytes) :
    ∃ error, error ≠ .none ∧
      s.replaceModelReservations evictions id bytes now = (s, ⟨error, 0⟩) := by
  have hused := h.balanced.used_eq
  rw [replaceModelReservations]
  split_ifs with hid hpos hdup hnodup
  · exact ⟨_, by decide, rfl⟩
  · exact ⟨_, by decide, rfl⟩
  · exact ⟨_, by decide, rfl⟩
  · obtain ⟨hsame, -⟩ := sumEvictions_exact hnodup 0 s.modelReservations (fun _ _ => rfl)
      (by rw [UInt64.toNat_zero]; omega)
    cases htotal : (sumEvictions evictions 0 s).2 with
    | none =>
      have hpair : sumEvictions evictions 0 s = (s, none) := Prod.ext hsame htotal
      rw [hpair]
      exact ⟨_, by decide, rfl⟩
    | some total =>
      exact absurd ⟨by simpa using hid, hpos, hdup, hnodup, mem_of_sumEvictions htotal⟩ hnot
  · exact ⟨_, by decide, rfl⟩

/-- A replacement of distinct reservations is refused only for lack of memory. -/
theorem replaceModelReservations_ok_iff (now : TimePoint) (h : Accounted s)
    (hreplaceable : s.Replaceable evictions id bytes) :
    (s.replaceModelReservations evictions id bytes now).2.ok = true ↔
      bytes.toNat ≤ s.free.toNat + s.evicted evictions := by
  rw [replaceModelReservations_of_replaceable h hreplaceable]
  split_ifs with hfits
  · exact iff_of_true rfl hfits
  · exact iff_of_false (fun hok => Bool.noConfusion hok) hfits

/-- A replacement succeeds exactly if the model is new, with a valid name and a positive
    size, the evictions are distinct and reserved, and the size is at most what is free and
    what they hold, added up exactly. It charges the model in place of the evictions, and
    then offers what is left to the waiting clients in one grant pass; if it fails, it
    changes nothing. -/
theorem replaceModelReservations_iff (hs : machine.Reachable s) (evictions : List Str) (id : Str)
    (bytes : Bytes) (now : TimePoint) :
    ((s.replaceModelReservations evictions id bytes now).2.ok = true ↔
      (validName id = true ∧ id ∉ s.modelReservations) ∧ 0 < bytes ∧
        (evictions.Nodup ∧ ∀ eviction ∈ evictions, eviction ∈ s.modelReservations) ∧
        bytes.toNat ≤ s.capacity.toNat - s.used.toNat + s.evicted evictions) ∧
    ((s.replaceModelReservations evictions id bytes now).2.ok = true →
      s.evicted evictions ≤ s.used.toNat ∧
      s.used.toNat - s.evicted evictions + bytes.toNat ≤ s.capacity.toNat ∧
      (s.replaceModelReservations evictions id bytes now).1 =
        (s.exchange evictions id bytes).grantWaitersLocked now ∧
      (s.replaceModelReservations evictions id bytes now).1.modelReservations =
        (Table.eraseAll s.modelReservations evictions).insert id bytes) ∧
    ((s.replaceModelReservations evictions id bytes now).2.ok = false →
      (s.replaceModelReservations evictions id bytes now).1 = s) := by
  have h := (reachable_inv hs).accounted
  have hpos : 0 < bytes ↔ bytes ≠ 0 := UInt64.pos_iff_ne_zero
  by_cases hreplaceable : s.Replaceable evictions id bytes
  · have hle := evicted_le h hreplaceable.distinct hreplaceable.reserved
    have hused := h.balanced.used_le
    rw [replaceModelReservations_of_replaceable h hreplaceable, h.free_toNat]
    obtain ⟨hid, hbytes, hnew, hnodup, hreserved⟩ := hreplaceable
    split_ifs with hfits
    · refine ⟨iff_of_true rfl ⟨⟨hid, hnew⟩, hpos.2 hbytes, ⟨hnodup, hreserved⟩, hfits⟩,
        fun _ => ⟨hle, by omega, rfl, ?_⟩, fun hfail => Bool.noConfusion hfail⟩
      exact modelReservations_grantWaitersLocked
    · exact ⟨iff_of_false (fun hok => Bool.noConfusion hok) fun hall => hfits hall.2.2.2,
        fun hok => Bool.noConfusion hok, fun _ => rfl⟩
  · obtain ⟨error, herror, hfails⟩ := replaceModelReservations_of_not_replaceable now h
      hreplaceable
    have hfail : OperationResult.ok ⟨error, 0⟩ = false := beq_eq_false_iff_ne.2 herror
    rw [hfails]
    refine ⟨iff_of_false (fun hok => ?_) fun hall => ?_, fun hok => ?_, fun _ => rfl⟩
    · exact Bool.noConfusion (hfail.symm.trans hok)
    · exact hreplaceable ⟨hall.1.1, hpos.1 hall.2.1, hall.1.2, hall.2.2.1.1, hall.2.2.1.2⟩
    · exact Bool.noConfusion (hfail.symm.trans hok)

/-! ## The way back -/

theorem notifyAll_notifyAll (s : ResourceManager) : s.notifyAll.notifyAll = s.notifyAll := by
  simp [notifyAll]

/-- Without evictions, the new model is charged. -/
theorem exchange_nil (h : Accounted s) (hreplaceable : s.Replaceable [] id bytes)
    (hfits : bytes.toNat ≤ s.free.toNat) : s.exchange [] id bytes = s.reserveModel id bytes :=
  (reserveModel_dropEvictions h hreplaceable (hfits.trans (Nat.le_add_right _ _))).symm

/-- The release of a model that has taken free memory gives it back, and changes nothing else
    than its loading has, which is that waiting calls have been notified: what does not fit
    before the loading does not fit after the release. -/
theorem releaseModel_exchange {later : TimePoint} (h : Accounted s) (hsettled : s.Settled)
    (hreplaceable : s.Replaceable [] id bytes) (hfits : bytes.toNat ≤ s.free.toNat)
    (hle : now ≤ later) (hlive : ∀ r ∈ s.pending, r.expired later = false) :
    ((s.exchange [] id bytes).grantWaitersLocked now).releaseModel id later =
      (s.notifyAll, ⟨.none, bytes⟩) := by
  have hfits' : bytes ≤ s.free := UInt64.le_iff_toNat_le.2 hfits
  have hcharged : Accounted (s.reserveModel id bytes) := h.move
    (.reserveModel hreplaceable.valid hreplaceable.pos hreplaceable.unreserved hfits')
  have hsettled' : (s.reserveModel id bytes).Settled :=
    hsettled.mono (List.Subset.refl _) (free_charge_le hfits')
  -- a deadline that is not reached at the release is not reached before it
  have hlive' : ∀ r ∈ s.pending, r.expired now = false := fun r hr => by
    rw [PendingRequest.not_expired_iff]
    exact (PendingRequest.not_expired_iff.1 (hlive r hr)).imp_right (Int64.lt_of_le_of_lt hle)
  have hheld : (s.reserveModel id bytes).notifyAll.modelReservations.lookup id = some bytes :=
    Table.lookup_emplace hreplaceable.unreserved
  have hnotified : Accounted (s.reserveModel id bytes).notifyAll :=
    ⟨hcharged.balanced, hcharged.fresh⟩
  have hnoted : s.noteAdd s.used bytes = s := by
    have hcapacity := s.capacity.toNat_lt
    have hused := h.balanced.used_le
    rw [h.free_toNat] at hfits
    exact noteAdd_eq (by omega)
  have hback : (s.reserveModel id bytes).notifyAll.dropModel id bytes = s.notifyAll := by
    rw [dropModel_eq hnotified hheld, reserveModel, charge, hnoted]
    simp only [notifyAll, UInt64.add_sub_cancel, Table.erase_emplace hreplaceable.unreserved]
  have hpass : s.notifyAll.grantWaitersLocked later = s.notifyAll.notifyAll :=
    grantWaitersLocked_of_settled ⟨h.balanced, h.fresh⟩ hsettled hlive
  rw [exchange_nil h hreplaceable hfits, grantWaitersLocked_of_settled hcharged hsettled' hlive',
    releaseModel, hreplaceable.valid, hheld]
  show (((s.reserveModel id bytes).notifyAll.dropModel id bytes).grantWaitersLocked later, _) = _
  rw [hback, hpass, notifyAll_notifyAll]

/-- A manager of ten bytes with two models of six and of two, and a call blocked for five. -/
def occupied : ResourceManager :=
  let s : ResourceManager := { capacity := 10, schedulingPolicy := .priorityFifo }
  let s := (s.perform (.acquireModel (ascii "bert") 6)).1
  let s := (s.perform (.acquireModel (ascii "gpt") 2)).1
  (s.perform (.acquire (ascii "first") 5 {} 0 0)).1

theorem occupied_reachable : machine.Reachable occupied := by
  have hidle : machine.Reachable { capacity := 10, schedulingPolicy := .priorityFifo } :=
    .init ⟨10, .priorityFifo, rfl⟩
  have hbert := reachable_perform hidle (a := .acquireModel (ascii "bert") 6) trivial
  have hgpt := reachable_perform hbert (a := .acquireModel (ascii "gpt") 2) trivial
  exact reachable_perform hgpt (a := .acquire (ascii "first") 5 {} 0 0) trivial

/-- A model of three bytes takes the place of the first one, and the call gets its five. -/
theorem occupied_replaced :
    (occupied.replaceModelReservations [ascii "bert"] (ascii "llm") 3 1).2.ok = true ∧
      (occupied.replaceModelReservations [ascii "bert"] (ascii "llm") 3 1).1 =
        (occupied.exchange [ascii "bert"] (ascii "llm") 3).grantWaitersLocked 1 ∧
      ((occupied.exchange [ascii "bert"] (ascii "llm") 3).grantWaitersLocked 1).used = 10 := by
  obtain ⟨hiff, hsuccess, _⟩ :=
    replaceModelReservations_iff occupied_reachable [ascii "bert"] (ascii "llm") 3 1
  have hok : (occupied.replaceModelReservations [ascii "bert"] (ascii "llm") 3 1).2.ok = true :=
    hiff.2 (by decide)
  exact ⟨hok, (hsuccess hok).2.2.1, by decide⟩

end ResourceManager

end Gpumemd
