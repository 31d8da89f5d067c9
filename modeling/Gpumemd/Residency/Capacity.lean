import Gpumemd.Residency.Backing

/-!
# The backend and the capacity

A load gives its model to the backend before it takes the evicted models away, so that
a load that fails has evicted nothing. Meanwhile the backend holds more than what is
reserved. `allocations_le` bounds it: it holds at most the capacity and the footprints
of the models that the running load has still to evict.
-/

namespace Gpumemd

open Library

/-- The model of a load that has not yet changed the reservations, and its evictions. -/
def Frame.chosen : Frame → Option (ModelRecord × List Str)
  | .fetching model evictions => some (model, evictions)
  | .swapping model evictions _ => some (model, evictions)
  | .rollingBack model evictions => some (model, evictions)
  | _ => none

namespace Daemon

variable {s t : Daemon} {id : Str} {model : ModelRecord} {evictions : List Str} {input : Input}

/-- The total of the footprints in the records of the models. -/
def footprints (s : Daemon) (ids : List Str) : ℕ :=
  (ids.map fun id => (s.recordFootprint id).toNat).sum

/-- What the backend holds of models that the running load, having loaded its own, has
    still to evict. -/
def awaitingEviction (s : Daemon) : ℕ :=
  match s.running with
  | some (.swapping _ evictions _) => s.footprints evictions
  | some (.rollingBack _ evictions) => s.footprints evictions
  | some (.evicting _ evictions _) => s.footprints evictions
  | _ => 0

/-! ## The plan of a load -/

/-- With the evictions, there is memory for the model. -/
def Planned (s : Daemon) : Prop :=
  ∀ model evictions, s.running.bind Frame.chosen = some (model, evictions) →
    model.footprintBytes.toNat + Table.weight UInt64.toNat s.resources.modelReservations ≤
      s.resources.capacity.toNat + s.footprints evictions

/-- The evictions that are chosen suffice, also if the sum of their footprints wraps. -/
theorem le_of_chooseEvictions {footprintBytes available : Bytes}
    {candidates : List ResidencyRecord}
    (hcandidates : ∀ candidate ∈ candidates,
      s.recordFootprint candidate.id = candidate.footprintBytes)
    (h : chooseEvictions footprintBytes candidates available = some evictions) :
    footprintBytes.toNat ≤ available.toNat + s.footprints evictions := by
  induction candidates generalizing available evictions with
  | nil =>
    rw [chooseEvictions] at h
    split_ifs at h with hlt
    exact (UInt64.le_iff_toNat_le.1 (UInt64.not_lt.1 hlt)).trans (Nat.le_add_right _ _)
  | cons candidate candidates ih =>
    rw [List.forall_mem_cons] at hcandidates
    rw [chooseEvictions] at h
    split_ifs at h with hlt
    · obtain ⟨chosen, hchosen, rfl⟩ := Option.map_eq_some_iff.1 h
      have hle := ih hcandidates.2 hchosen
      -- a wrapped sum is smaller than the true one
      have hadd : (available + candidate.footprintBytes).toNat ≤
          available.toNat + candidate.footprintBytes.toNat := by
        rw [UInt64.toNat_add]
        exact Nat.mod_le _ _
      rw [footprints, List.map_cons, List.sum_cons, hcandidates.1]
      rw [footprints] at hle
      omega
    · exact (UInt64.le_iff_toNat_le.1 (UInt64.not_lt.1 hlt)).trans (Nat.le_add_right _ _)

/-- What fits in the free memory, up to `n` bytes, fits beside the reservations. -/
theorem le_of_fits (h : Inv s) {footprintBytes : Bytes} {n : ℕ}
    (hfits : footprintBytes.toNat ≤ s.resources.free.toNat + n) :
    footprintBytes.toNat + Table.weight UInt64.toNat s.resources.modelReservations ≤
      s.resources.capacity.toNat + n := by
  obtain ⟨haccounted, _⟩ := ResourceManager.reachable_inv h.resources
  have hused := haccounted.balanced.used_eq
  have hle := haccounted.balanced.used_le
  rw [haccounted.free_toNat] at hfits
  omega

/-- The record of `id`, which has this id, gives its footprint. -/
theorem recordFootprint_of_mem (h : Inv s) (hs : s.Steady) {ranking : List Str}
    {candidate : ResidencyRecord} (hcandidate : candidate ∈ ranking.filterMap (s.records.lookup ·)) :
    s.recordFootprint candidate.id = candidate.footprintBytes := by
  obtain ⟨id, _, hrecord⟩ := List.mem_filterMap.1 hcandidate
  rw [(h.agrees (hs.1 id) hrecord).1, recordFootprint, hrecord]
  rfl

namespace Planned

/-- A piece of a load that changes neither reservations nor records. -/
theorem move (h : Planned s) (hchosen : t.running.bind Frame.chosen = s.running.bind Frame.chosen)
    (hcapacity : t.resources.capacity = s.resources.capacity)
    (hreservations : t.resources.modelReservations = s.resources.modelReservations)
    (hrecords : t.records = s.records) : Planned t := by
  intro model evictions hmodel
  have hfootprints : t.footprints = s.footprints := by
    funext ids
    rw [footprints, footprints]
    congr 1
    refine List.map_congr_left fun id _ => ?_
    rw [recordFootprint, recordFootprint, hrecords]
  rw [hcapacity, hreservations, hfootprints]
  exact h model evictions (hchosen ▸ hmodel)

/-- Before a load has chosen, and once it has replaced the reservations. -/
theorem of_none (h : t.running.bind Frame.chosen = none) : Planned t := by
  intro model evictions hmodel
  rw [h] at hmodel
  cases hmodel

theorem of_chosen (h : s.running.bind Frame.chosen = some (model, evictions))
    (hle : model.footprintBytes.toNat + Table.weight UInt64.toNat s.resources.modelReservations ≤
      s.resources.capacity.toNat + s.footprints evictions) : Planned s := by
  intro model' evictions' hmodel
  obtain ⟨rfl, rfl⟩ := Prod.mk.inj (Option.some.inj (h.symm.trans hmodel))
  exact hle

theorem plan (h : Inv s) (hrunning : s.running = some (.planning model)) {ranking : List Str}
    (hchooses : s.Chooses model ranking evictions) :
    Planned (s.proceed (.fetching model evictions)).1 := by
  refine of_chosen rfl (le_of_fits h ?_)
  rcases hchooses.2 with ⟨hfits, rfl⟩ | ⟨_, hchosen⟩
  · exact UInt64.le_iff_toNat_le.1 hfits
  · exact le_of_chooseEvictions (s := s) (fun _ hcandidate =>
      recordFootprint_of_mem h (by simp [Steady, hrunning]) hcandidate) hchosen

theorem effect (h : Planned s) (hinv : Inv s) {a : Action} {response : Response}
    (heffect : Effect s a t response) : Planned t := by
  cases heffect with
  | client hclient henabled =>
    exact h.move rfl (ResourceManager.capacity_perform hinv.resources henabled)
      (ResourceManager.modelReservations_perform hclient) rfl
  | registerModel => exact h.move rfl rfl rfl rfl
  | registerFile => exact h.move rfl rfl rfl rfl
  | share => exact h
  | plan hrunning _ hchooses => exact .plan hinv hrunning hchooses
  | fetch hrunning _ => exact h.move (by rw [hrunning]; rfl) rfl rfl rfl
  | @refuse input model evictions _ hrunning hrefused =>
    -- the refusal leaves the capacity and the reservations of models as they were
    refine h.move (by rw [hrunning]; rfl) (ResourceManager.capacity_perform hinv.resources
      (a := .replaceModelReservations evictions model.id model.footprintBytes input.now) trivial)
      (s.resources.replaceModelReservations_of_not_ok hrefused) rfl
  | _ => exact .of_none rfl

end Planned

theorem reachable_planned (h : machine.Reachable s) : Planned s := by
  refine h.invariant (fun s hinit => ?_) fun s a t hs hplanned hstep => ?_
  · obtain ⟨_, _, _, _, rfl⟩ := hinit
    exact .of_none rfl
  · obtain ⟨henabled, rfl⟩ := hstep
    exact hplanned.effect (reachable_inv hs) (perform_effect henabled)

/-! ## What the backend holds -/

theorem recordFootprint_of_heldBytes {bytes : Bytes} (h : s.heldBytes id = some bytes) :
    s.recordFootprint id = bytes := by
  obtain ⟨record, hrecord, _, rfl⟩ := heldBytes_eq_some_iff.1 h
  rw [recordFootprint, hrecord]
  rfl

/-- Where neither the reservations nor the backend are ahead of the records, the backend
    holds what is reserved. -/
theorem allocations_eq (hinv : Inv s) (hbacked : Backed s)
    (hevicting : ∀ model evictions loadCostMs,
      s.running ≠ some (.evicting model evictions loadCostMs))
    (hlevel : s.running.bind Frame.ahead = none) :
    s.backend.allocations = s.resources.modelReservations := by
  refine Finmap.ext_lookup fun id => ?_
  rw [hbacked, hinv.reserved, expectedBacking_level hlevel, expected_eq hevicting]

/-- Before a load has replaced the reservations, the backend holds its model beside what
    is reserved. -/
theorem weight_allocations_loading (hinv : Inv s) (hbacked : Backed s) (hs : s.Steady)
    (hahead : s.running.bind Frame.ahead = some (model.id, some model.footprintBytes))
    (hloads : s.Loads model) :
    Table.weight UInt64.toNat s.backend.allocations =
      model.footprintBytes.toNat + Table.weight UInt64.toNat s.resources.modelReservations := by
  have hnew : model.id ∉ s.resources.modelReservations := by
    rw [← Finmap.lookup_eq_none, hinv.reserved, hs.expected_eq]
    exact heldBytes_eq_none_iff.2 hloads.2
  have hinsert : s.backend.allocations =
      s.resources.modelReservations.insert model.id model.footprintBytes := by
    refine Finmap.ext_lookup fun id => ?_
    rw [hbacked, expectedBacking_ahead hahead, Table.lookup_insert, hinv.reserved, hs.expected_eq]
  rw [hinsert, Table.weight_insert hnew]

/-- Once a load has replaced the reservations, the backend holds the models it has still
    to evict beside what is reserved. -/
theorem weight_allocations_evicting (hinv : Inv s) (hbacked : Backed s) {loadCostMs : UInt64}
    (hrunning : s.running = some (.evicting model evictions loadCostMs)) :
    Table.weight UInt64.toNat s.backend.allocations =
      s.footprints evictions + Table.weight UInt64.toNat s.resources.modelReservations := by
  have hframe := hinv.frame
  rw [FrameInv, hrunning] at hframe
  obtain ⟨hloads, hnodup, hcandidates⟩ := hframe
  have hheld (id : Str) : s.backend.allocations.lookup id =
      if id = model.id then some model.footprintBytes else s.heldBytes id :=
    (hbacked id).trans (expectedBacking_ahead (by rw [hrunning]; rfl))
  have hevicted : ∀ id ∈ evictions, s.backend.allocations.lookup id = some (s.recordFootprint id) := by
    intro id hid
    obtain ⟨bytes, hbytes⟩ := heldBytes_isSome (hcandidates id hid)
    rw [hheld, if_neg (Inv.ne_of_candidate hloads (hcandidates id hid)), hbytes,
      recordFootprint_of_heldBytes hbytes]
  have herase : s.resources.modelReservations = Table.eraseAll s.backend.allocations evictions := by
    refine Finmap.ext_lookup fun id => ?_
    rw [hinv.reserved, expected_evicting hrunning, Table.lookup_eraseAll, hheld]
    split_ifs with hid hmem
    · exact absurd hid (Inv.ne_of_candidate hloads (hcandidates id hmem))
    · rfl
    · rfl
    · rfl
  rw [herase, footprints]
  exact (Table.weight_eraseAll hnodup hevicted).symm

/-- While an unload has not released the reservation, the backend holds less than what is
    reserved. -/
theorem weight_allocations_releasing (hinv : Inv s) (hbacked : Backed s)
    (hrunning : s.running = some (.releasing id)) :
    Table.weight UInt64.toNat s.backend.allocations ≤
      Table.weight UInt64.toNat s.resources.modelReservations := by
  have hs : s.Steady := by simp [Steady, hrunning]
  have hframe := hinv.frame
  rw [FrameInv, hrunning] at hframe
  obtain ⟨bytes, hbytes⟩ := heldBytes_isSome hframe
  have herase : s.backend.allocations = s.resources.modelReservations.erase id := by
    refine Finmap.ext_lookup fun id' => ?_
    rw [hbacked, expectedBacking_ahead (by rw [hrunning]; rfl), Table.lookup_erase, hinv.reserved,
      hs.expected_eq]
  have hreserved : s.resources.modelReservations.lookup id = some bytes := by
    rw [hinv.reserved, hs.expected_eq, hbytes]
  rw [herase, ← Table.weight_erase (w := UInt64.toNat) hreserved]
  exact Nat.le_add_left _ _

/-- If the backend does not fail to unload what it holds for a load, it holds at most the
    capacity and what the running load has still to evict. -/
theorem allocations_le (h : (machine.restrict UnloadsForLoad).Reachable s) :
    Table.weight UInt64.toNat s.backend.allocations ≤
      s.resources.capacity.toNat + s.awaitingEviction := by
  have hinv := reachable_inv h.of_restrict
  have hbacked := reachable_backed h
  have hplanned := reachable_planned h.of_restrict
  have hframe := hinv.frame
  have hreserved : Table.weight UInt64.toNat s.resources.modelReservations ≤
      s.resources.capacity.toNat := by
    obtain ⟨haccounted, _⟩ := ResourceManager.reachable_inv hinv.resources
    have hused := haccounted.balanced.used_eq
    have hle := haccounted.balanced.used_le
    omega
  -- elsewhere the backend holds what is reserved
  have hlevel (hevicting : ∀ model evictions loadCostMs,
      s.running ≠ some (.evicting model evictions loadCostMs))
      (hahead : s.running.bind Frame.ahead = none) :
      Table.weight UInt64.toNat s.backend.allocations ≤ s.resources.capacity.toNat :=
    allocations_eq hinv hbacked hevicting hahead ▸ hreserved
  rw [FrameInv] at hframe
  rw [awaitingEviction]
  cases hrunning : s.running with
  | none => exact hlevel (by simp [hrunning]) (by rw [hrunning]; rfl)
  | some frame =>
    rw [hrunning] at hframe
    cases frame with
    | swapping model evictions loadCostMs =>
      rw [weight_allocations_loading hinv hbacked (by simp [Steady, hrunning])
        (by rw [hrunning]; rfl) hframe.1]
      exact hplanned model evictions (by rw [hrunning]; rfl)
    | rollingBack model evictions =>
      rw [weight_allocations_loading hinv hbacked (by simp [Steady, hrunning])
        (by rw [hrunning]; rfl) hframe.1]
      exact hplanned model evictions (by rw [hrunning]; rfl)
    | evicting model evictions loadCostMs =>
      -- the model is reserved by now, so only the evictions are in excess
      rw [weight_allocations_evicting hinv hbacked hrunning]
      dsimp only
      omega
    | releasing id => exact (weight_allocations_releasing hinv hbacked hrunning).trans hreserved
    | _ => exact hlevel (by simp [hrunning]) (by rw [hrunning]; rfl)

/-- The model `n` of 60 bytes has been given to the backend, to replace `m`. -/
def replacing : Daemon :=
  stocked.performAll [.registerModel (ascii "n") 60 (ascii "-"), .load (ascii "n"),
    .advance { ranking := [ascii "m"] }, .advance {}]

theorem replacing_reachable : (machine.restrict UnloadsHeld).Reachable replacing :=
  stocked_reachable.run (run_performAll (by decide))

theorem replacing_allocations_le :
    replacing.awaitingEviction = 60 ∧
      Table.weight UInt64.toNat replacing.backend.allocations ≤ 100 + 60 :=
  ⟨by decide, allocations_le (replacing_reachable.mono fun _ _ _ => UnloadsHeld.forLoad)⟩

/-- The load of `n` has evicted `m`, but the backend failed to unload it. -/
def leaking : Daemon :=
  replacing.performAll [.advance {}, .advance { fault := true }, .advance {}]

/-- The model that a load is about to evict. -/
def evictionTarget (s : Daemon) : Option Str :=
  match s.running with
  | some (.evicting _ (id :: _) _) => some id
  | _ => none

/-- The backend does not fail to unload a model that it holds and a load evicts. -/
def UnloadsEvicted (s : Daemon) (a : Action) (_ : Daemon) : Prop :=
  match a with
  | .advance input => ∀ id ∈ s.evictionTarget, id ∈ s.backend.allocations → input.fault = false
  | _ => True

instance (t : Daemon) : (a : Action) → Decidable (s.UnloadsEvicted a t)
  | .advance input => inferInstanceAs
    (Decidable (∀ id ∈ s.evictionTarget, id ∈ s.backend.allocations → input.fault = false))
  | .client _ | .registerModel .. | .registerFile .. | .load _ | .unload _ | .share .. | .retain _
  | .releaseModel _ | .unregisterModel _ => .isTrue trivial

theorem UnloadsHeld.evicted {a : Action} (h : s.UnloadsHeld a t) : s.UnloadsEvicted a t := by
  cases a with
  | advance input =>
    intro id hid
    refine h id ?_
    rw [evictionTarget] at hid
    rw [unloadTarget]
    split at hid
    next hrunning => rwa [hrunning]
    next => cases hid
  | _ => exact trivial

/-- The load of `n` is refused, since a client has taken what it needs beside `m`, and the backend
    has failed to unload it again. -/
def overfull : Daemon :=
  stocked.performAll [.registerModel (ascii "n") 70 (ascii "-"), .load (ascii "n"),
    .advance { ranking := [ascii "m"] }, .advance {}, .client (.tryAcquire (ascii "c") 40 0),
    .advance {}, .advance { fault := true }]

theorem overfull_reachable : (machine.restrict UnloadsEvicted).Reachable overfull :=
  (stocked_reachable.mono fun _ _ _ => UnloadsHeld.evicted).run (run_performAll (by decide))

/-- In the middle of a load the backend may hold more than the capacity; and if it fails
    to unload an evicted model, or the model of a load that is refused, also between operations. -/
theorem replacing_exceeds :
    (¬ ∀ s, (machine.restrict UnloadsHeld).Reachable s →
      Table.weight UInt64.toNat s.backend.allocations ≤ s.resources.capacity.toNat) ∧
    (¬ ∀ s, machine.Reachable s → s.running = none →
      Table.weight UInt64.toNat s.backend.allocations ≤ s.resources.capacity.toNat) ∧
    ¬ ∀ s, (machine.restrict UnloadsEvicted).Reachable s → s.running = none →
      Table.weight UInt64.toNat s.backend.allocations ≤ s.resources.capacity.toNat := by
  refine ⟨fun h => ?_, fun h => ?_, fun h => ?_⟩
  · exact absurd (h replacing replacing_reachable) (by decide)
  · have hleaking : machine.Reachable leaking :=
      replacing_reachable.of_restrict.run
        (run_performAll (C := fun _ _ _ => True) (by decide)).of_restrict
    exact absurd (h leaking hleaking (by decide)) (by decide)
  · exact absurd (h overfull overfull_reachable (by decide)) (by decide)

end Daemon

end Gpumemd
