import Gpumemd.Resource.Requests

/-!
# Model reservations

Clients do not touch the model reservations (`modelReservations_perform`). The
release of a model erases its reservation, and a replacement exchanges those of
distinct models for a new one, or leaves everything alone
(`releaseModel_cases`, `replaceModelReservations_cases`). No operation changes the
capacity (`capacity_perform`).
-/

namespace Gpumemd

open Library

namespace ResourceManager

variable {s t : ResourceManager} {now : TimePoint} {name id : Str} {bytes : Bytes}

theorem modelReservations_grantWaitersLocked :
    (s.grantWaitersLocked now).modelReservations = s.modelReservations :=
  grantWaitersLocked_induct (P := fun t => t.modelReservations = s.modelReservations)
    (Q := fun t => t.modelReservations = s.modelReservations) rfl (fun _ h => h)
    (fun _ _ _ h _ => h) fun _ h => h

/-! ## Client operations -/

theorem modelReservations_waitLoop {n : ℕ} :
    (s.waitLoop n now).1.modelReservations = s.modelReservations := by
  rw [waitLoop]
  split
  · rfl
  · dsimp only
    split
    · exact modelReservations_grantWaitersLocked
    · exact modelReservations_grantWaitersLocked (s := s)

theorem modelReservations_tryAcquire :
    (s.tryAcquire name bytes now).1.modelReservations = s.modelReservations := by
  rw [tryAcquire]
  split_ifs
  any_goals rfl
  exact modelReservations_grantWaitersLocked (s := s.noteFree.grantAtOnce name bytes)

theorem modelReservations_acquire {options : AcquireOptions} {later : TimePoint} :
    (s.acquire name bytes options now later).1.modelReservations = s.modelReservations := by
  obtain ⟨t, ht, hacquires⟩ := s.acquires name bytes options now later
  have hmodels : t.modelReservations = s.modelReservations := by rcases ht with rfl | rfl <;> rfl
  generalize s.acquire name bytes options now later = call at hacquires
  cases hacquires with
  | refuses => exact hmodels
  | tries => exact modelReservations_tryAcquire
  | grants => exact hmodels
  | queues =>
    rw [modelReservations_waitLoop, modelReservations_grantWaitersLocked]
    exact hmodels

/-- Client operations leave the model reservations alone. -/
theorem modelReservations_perform {a : Action} (ha : a.IsClient) :
    (s.perform a).1.modelReservations = s.modelReservations := by
  cases a with
  | tryAcquire => exact modelReservations_tryAcquire
  | acquire => exact modelReservations_acquire
  | wake n now => exact modelReservations_waitLoop (s := s.resume n)
  | expireWait n now =>
    show (s.expireWait n now).1.modelReservations = s.modelReservations
    rw [expireWait]
    split <;> rfl
  | release name now =>
    show (s.release name now).1.modelReservations = s.modelReservations
    rw [release]
    split_ifs
    · rfl
    · split
      · rfl
      · exact modelReservations_grantWaitersLocked (s := s.dropClient _ _)
  | acquireModel => exact ha.elim
  | releaseModel => exact ha.elim
  | replaceModelReservations => exact ha.elim
  | cancelWaiters => rfl

/-! ## The release of a model -/

/-- A release that fails leaves the model reservations alone, one that succeeds erases
    that of the model. -/
theorem releaseModel_cases (s : ResourceManager) (id : Str) (now : TimePoint) :
    (s.releaseModel id now).2.ok = false ∧
        (s.releaseModel id now).1.modelReservations = s.modelReservations ∨
      (s.releaseModel id now).2.ok = true ∧
        (s.releaseModel id now).1.modelReservations = s.modelReservations.erase id := by
  rw [releaseModel]
  split_ifs
  · exact .inl ⟨rfl, rfl⟩
  · split
    · exact .inl ⟨rfl, rfl⟩
    · exact .inr ⟨rfl, modelReservations_grantWaitersLocked⟩

theorem releaseModel_of_ok (s : ResourceManager) (h : (s.releaseModel id now).2.ok = true) :
    (s.releaseModel id now).1.modelReservations = s.modelReservations.erase id := by
  rcases s.releaseModel_cases id now with ⟨hfail, _⟩ | ⟨_, herased⟩
  · rw [h] at hfail
    cases hfail
  · exact herased

/-- The reservation of a model can be released. -/
theorem releaseModel_ok (hid : validName id = true) (hmem : id ∈ s.modelReservations) :
    (s.releaseModel id now).2.ok = true := by
  obtain ⟨bytes, hbytes⟩ := Finmap.mem_iff.1 hmem
  simp [releaseModel, hid, hbytes, OperationResult.ok]

/-! ## Replacement -/

theorem modelReservations_sumEvictions (evictions : List Str) (evictedBytes : Bytes) :
    (sumEvictions evictions evictedBytes s).1.modelReservations = s.modelReservations := by
  induction evictions generalizing s evictedBytes with
  | nil => rfl
  | cons eviction evictions ih =>
    rw [sumEvictions]
    split
    · rfl
    · exact ih (s := s.noteAdd _ _) _

theorem modelReservations_dropEvictions (evictions : List Str) :
    (dropEvictions evictions s).modelReservations =
      Table.eraseAll s.modelReservations evictions := by
  induction evictions generalizing s with
  | nil => rfl
  | cons eviction evictions ih =>
    rw [dropEvictions, Table.eraseAll_cons]
    split
    next hnone =>
      rw [ih, Table.erase_of_notMem (Finmap.lookup_eq_none.1 hnone)]
    next bytes _ => exact ih (s := s.dropModel _ _)

/-- A replacement that fails leaves the model reservations alone, one that succeeds
    exchanges those of the evictions for that of the model. -/
theorem replaceModelReservations_cases (s : ResourceManager) (evictions : List Str) (id : Str)
    (bytes : Bytes) (now : TimePoint) :
    (s.replaceModelReservations evictions id bytes now).2.ok = false ∧
        (s.replaceModelReservations evictions id bytes now).1.modelReservations =
          s.modelReservations ∨
      (s.replaceModelReservations evictions id bytes now).2.ok = true ∧
        id ∉ s.modelReservations ∧
        (s.replaceModelReservations evictions id bytes now).1.modelReservations =
          (Table.eraseAll s.modelReservations evictions).insert id bytes := by
  have hsum := modelReservations_sumEvictions (s := s) evictions 0
  rw [replaceModelReservations]
  split_ifs with hid hbytes hmem hnodup
  any_goals exact .inl ⟨rfl, rfl⟩
  generalize sumEvictions evictions 0 s = sum at hsum
  obtain ⟨t, _ | total⟩ := sum
  · exact .inl ⟨rfl, hsum⟩
  · dsimp only at hsum ⊢
    split_ifs
    · exact .inl ⟨rfl, hsum⟩
    · refine .inr ⟨rfl, hmem, ?_⟩
      rw [← hsum] at hmem ⊢
      -- the evictions are gone and the model was not there, so `emplace` inserts it
      have hdrop : id ∉ Table.eraseAll t.modelReservations evictions :=
        fun h => hmem (Table.mem_of_mem_eraseAll h)
      rw [modelReservations_grantWaitersLocked]
      show Table.emplace (dropEvictions evictions _).modelReservations id bytes = _
      rw [modelReservations_dropEvictions]
      exact Table.emplace_of_notMem hdrop

theorem replaceModelReservations_of_ok (s : ResourceManager) {evictions : List Str}
    (h : (s.replaceModelReservations evictions id bytes now).2.ok = true) :
    id ∉ s.modelReservations ∧
      (s.replaceModelReservations evictions id bytes now).1.modelReservations =
        (Table.eraseAll s.modelReservations evictions).insert id bytes := by
  rcases s.replaceModelReservations_cases evictions id bytes now with ⟨hfail, _⟩ | ⟨_, hreplaced⟩
  · rw [h] at hfail
    cases hfail
  · exact hreplaced

theorem replaceModelReservations_of_not_ok (s : ResourceManager) {evictions : List Str}
    (h : (s.replaceModelReservations evictions id bytes now).2.ok = false) :
    (s.replaceModelReservations evictions id bytes now).1.modelReservations =
      s.modelReservations := by
  rcases s.replaceModelReservations_cases evictions id bytes now with ⟨_, hsame⟩ | ⟨hok, _⟩
  · exact hsame
  · rw [h] at hok
    cases hok

/-! ## Capacity -/

theorem Move.capacity_eq (hm : Move s t) : t.capacity = s.capacity := by
  cases hm with
  | pass =>
    exact grantWaitersLocked_induct (P := fun t => t.capacity = s.capacity)
      (Q := fun t => t.capacity = s.capacity) rfl (fun _ h => h) (fun _ _ _ h _ => h)
      fun _ h => h
  | _ => rfl

theorem capacity_perform (hs : machine.Reachable s) {a : Action} (ha : s.Enabled a) :
    (s.perform a).1.capacity = s.capacity := by
  have hmoves := reachable_moves hs ha
  generalize (s.perform a).1 = t at hmoves
  induction hmoves with
  | refl => rfl
  | tail _ hm ih => exact hm.capacity_eq.trans ih

end ResourceManager

end Gpumemd
