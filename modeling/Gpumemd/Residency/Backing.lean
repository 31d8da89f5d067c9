import Gpumemd.Residency.Consistency

/-!
# The backend holds what is resident

A load gives its model to the backend ahead of the records, and an unload takes it
from there ahead of them; apart from this the backend holds what is resident
(`reachable_backed`), as long as it does not fail to unload it for a load. With the
invariant of `Gpumemd.Residency.Consistency`, all copies of what is resident agree
between operations (`reachable_copies`).
-/

namespace Gpumemd

open Library

/-- The model for which the backend is ahead of the records, and what it holds of it. -/
def Frame.ahead : Frame → Option (Str × Option Bytes)
  | .swapping model _ _ => some (model.id, some model.footprintBytes)
  | .rollingBack model _ => some (model.id, some model.footprintBytes)
  | .evicting model _ _ => some (model.id, some model.footprintBytes)
  | .releasing id => some (id, none)
  | _ => none

namespace Daemon

variable {s t : Daemon} {id id' : Str} {model : ModelRecord} {evictions : List Str} {input : Input}

/-- The model that the running load is about to unload: its own, or one that it evicts. -/
def loadTarget (s : Daemon) : Option Str :=
  match s.running with
  | some (.rollingBack model _) => some model.id
  | some (.evicting _ (id :: _) _) => some id
  | _ => none

/-- The backend does not fail to unload a model that it holds for a load. -/
def UnloadsForLoad (s : Daemon) (a : Action) (_ : Daemon) : Prop :=
  match a with
  | .advance input => ∀ id ∈ s.loadTarget, id ∈ s.backend.allocations → input.fault = false
  | _ => True

theorem UnloadsHeld.forLoad {a : Action} (h : s.UnloadsHeld a t) : s.UnloadsForLoad a t := by
  cases a with
  | advance input =>
    intro id hid
    refine h id ?_
    -- what a load is about to unload is what is about to be unloaded
    rw [loadTarget] at hid
    rw [unloadTarget]
    split at hid
    next hrunning => rwa [hrunning]
    next hrunning => rwa [hrunning]
    next => cases hid
  | _ => exact trivial

/-- What the backend is to hold of `id`. -/
def expectedBacking (s : Daemon) (id : Str) : Option Bytes :=
  match s.running.bind Frame.ahead with
  | none => s.heldBytes id
  | some (id', held) => if id = id' then held else s.heldBytes id

/-- The backend holds what it is to hold. -/
def Backed (s : Daemon) : Prop := ∀ id, s.backend.allocations.lookup id = s.expectedBacking id

theorem expectedBacking_level (h : s.running.bind Frame.ahead = none) :
    s.expectedBacking = s.heldBytes := by
  funext id
  rw [expectedBacking, h]

theorem expectedBacking_ahead {held : Option Bytes}
    (h : s.running.bind Frame.ahead = some (id', held)) :
    s.expectedBacking id = if id = id' then held else s.heldBytes id := by
  rw [expectedBacking, h]

theorem expectedBacking_congr (hahead : t.running.bind Frame.ahead = s.running.bind Frame.ahead)
    (hheld : ∀ id, t.heldBytes id = s.heldBytes id) : t.expectedBacking = s.expectedBacking := by
  funext id
  rw [expectedBacking, expectedBacking, hahead, hheld]

theorem heldBytes_commit {loadCostMs : UInt64} :
    (s.commit model loadCostMs).1.heldBytes id =
      if id = model.id then some model.footprintBytes else s.heldBytes id := by
  rw [heldBytes, residentRecord_insert (t := (s.commit model loadCostMs).1) rfl, if_pos rfl]
  split_ifs
  · rfl
  · rfl

theorem Clean.level (h : s.Clean) : s.running.bind Frame.ahead = none := by
  rw [Clean] at h
  generalize s.running = running at h
  cases running with
  | none => rfl
  | some frame =>
    cases frame with
    | planning => rfl
    | fetching => rfl
    | unloading => rfl
    | _ => exact h.elim

namespace Backed

/-- A piece of an operation that changes neither what the backend holds nor what it is
    to hold. -/
theorem move (h : Backed s) (hahead : t.running.bind Frame.ahead = s.running.bind Frame.ahead)
    (hbackend : t.backend = s.backend) (hheld : ∀ id, t.heldBytes id = s.heldBytes id) :
    Backed t := by
  intro id
  rw [hbackend, h, expectedBacking_congr hahead hheld]

/-! ## `load` -/

theorem fetch (h : Backed s) (hrunning : s.running = some (.fetching model evictions))
    {loadCostMs : UInt64} :
    Backed ({ s with
      backend := ⟨s.backend.allocations.insert model.id model.footprintBytes⟩ }.proceed
        (.swapping model evictions loadCostMs)).1 := by
  have hs : s.running.bind Frame.ahead = none := by rw [hrunning]; rfl
  intro k
  refine Eq.trans ?_ (expectedBacking_ahead rfl).symm
  show (s.backend.allocations.insert model.id model.footprintBytes).lookup k =
    if k = model.id then some model.footprintBytes else s.heldBytes k
  rw [Table.lookup_insert, h, expectedBacking_level hs]

/-- The backend unloads what it holds, if it does not fail to. -/
theorem lookup_unload {backend : Backend} {bytes : Bytes} {fault : Bool}
    (hid : ModelRegistry.validId id = true) (hbytes : backend.allocations.lookup id = some bytes)
    (hfault : id ∈ backend.allocations → fault = false) :
    (backend.unload id fault).1.allocations.lookup id' =
      if id' = id then none else backend.allocations.lookup id' := by
  have hmem : id ∈ backend.allocations := Finmap.mem_iff.2 ⟨bytes, hbytes⟩
  rw [hfault hmem, (Backend.unload_of_mem hid hmem).2]
  exact Table.lookup_erase

theorem rollBack (h : Backed s) (hinv : Inv s) {fault : Bool}
    (hrunning : s.running = some (.rollingBack model evictions))
    (hfault : model.id ∈ s.backend.allocations → fault = false) :
    Backed (s.rollBack model fault).1 := by
  have hframe := hinv.frame
  rw [FrameInv, hrunning] at hframe
  obtain ⟨⟨hmodel, hnew⟩, _⟩ := hframe
  have hs (k : Str) : s.backend.allocations.lookup k =
      if k = model.id then some model.footprintBytes else s.heldBytes k :=
    (h k).trans (expectedBacking_ahead (by rw [hrunning]; rfl))
  have hid := (hinv.registry model.id model hmodel).2.1
  -- the model was never resident, so without it the backend holds what is resident
  intro k
  refine (lookup_unload hid ((hs model.id).trans (if_pos rfl)) hfault).trans
    (Eq.trans ?_ (congrFun (expectedBacking_level rfl) k).symm)
  show _ = s.heldBytes k
  rw [hs]
  split_ifs with hk
  · rw [hk, heldBytes_eq_none_iff.2 hnew]
  · rfl

theorem evict (h : Backed s) (hinv : Inv s) {loadCostMs : UInt64} {fault : Bool}
    (hrunning : s.running = some (.evicting model (id :: evictions) loadCostMs))
    (hfault : id ∈ s.backend.allocations → fault = false) :
    Backed (s.evict id model evictions loadCostMs fault).1 := by
  have hframe := hinv.frame
  rw [FrameInv, hrunning] at hframe
  obtain ⟨hloads, _, hcandidates⟩ := hframe
  have hcandidate := hcandidates id List.mem_cons_self
  have hne : id ≠ model.id := Inv.ne_of_candidate hloads hcandidate
  obtain ⟨bytes, hbytes⟩ := heldBytes_isSome hcandidate
  have hs (k : Str) : s.backend.allocations.lookup k =
      if k = model.id then some model.footprintBytes else s.heldBytes k :=
    (h k).trans (expectedBacking_ahead (by rw [hrunning]; rfl))
  have hid := hinv.validId_of_candidate (by simp [hrunning]) hcandidate
  -- the backend and the records lose the model in the same step
  intro k
  refine (lookup_unload hid ((hs id).trans ((if_neg hne).trans hbytes)) hfault).trans
    (Eq.trans ?_ (expectedBacking_ahead rfl).symm)
  show _ = if k = model.id then some model.footprintBytes else (leave _ id).heldBytes k
  rw [heldBytes_leave, hs]
  by_cases hk : k = id
  · rw [if_pos hk, if_pos hk, if_neg (hk ▸ hne)]
  · rw [if_neg hk, if_neg hk]
    rfl

theorem commit (h : Backed s) {loadCostMs : UInt64}
    (hrunning : s.running = some (.evicting model [] loadCostMs)) :
    Backed (s.commit model loadCostMs).1 := by
  have hs (k : Str) : s.expectedBacking k =
      if k = model.id then some model.footprintBytes else s.heldBytes k :=
    expectedBacking_ahead (by rw [hrunning]; rfl)
  -- the records catch up with the backend
  have ht : (s.commit model loadCostMs).1.expectedBacking =
      (s.commit model loadCostMs).1.heldBytes := expectedBacking_level rfl
  intro k
  rw [ht, heldBytes_commit]
  exact (h k).trans (hs k)

/-! ## `unload` -/

theorem unloadBackend (h : Backed s) (hrunning : s.running = some (.unloading id)) :
    Backed ({ s with backend := ⟨s.backend.allocations.erase id⟩ }.proceed (.releasing id)).1 := by
  have hs : s.running.bind Frame.ahead = none := by rw [hrunning]; rfl
  intro k
  refine Eq.trans ?_ (expectedBacking_ahead rfl).symm
  show (s.backend.allocations.erase id).lookup k = if k = id then none else s.heldBytes k
  rw [Table.lookup_erase, h, expectedBacking_level hs]

theorem releaseReservation (h : Backed s) (hrunning : s.running = some (.releasing id))
    {resources : ResourceManager} {error : ModelError} {amount : ℕ} :
    Backed (({ s with resources }.leave id).returned error amount).1 := by
  have hs (k : Str) : s.expectedBacking k = if k = id then none else s.heldBytes k :=
    expectedBacking_ahead (by rw [hrunning]; rfl)
  intro k
  -- the records catch up with the backend, which has unloaded the model already
  refine (h k).trans ((hs k).trans (Eq.trans ?_ (congrFun (expectedBacking_level rfl) k).symm))
  exact (heldBytes_leave s id k).symm

/-! ## The other operations -/

theorem recount (h : Backed s) (hidle : s.running = none) {count amount : ℕ} {error : ModelError} :
    Backed ((s.recount id model count).returned error amount).1 :=
  h.move (clean_of_idle hidle).level.symm rfl fun _ => heldBytes_counted (s := s) rfl

theorem eraseRecord (h : Backed s) (hinv : Inv s) (hrunning : s.running = some (.erasing id)) :
    Backed (s.eraseRecord id).1 := by
  have hframe := hinv.frame
  rw [FrameInv, hrunning] at hframe
  refine h.move (by rw [hrunning]; rfl) rfl fun k => ?_
  rw [heldBytes, residentRecord_erase (t := (s.eraseRecord id).1) rfl, heldBytes]
  split_ifs with hk
  · rw [hk, hframe]
  · rfl

/-! ## Runs -/

theorem effect (h : Backed s) (hinv : Inv s) {a : Action} {response : Response}
    (heffect : Effect s a t response) (hunloads : s.UnloadsForLoad a t) : Backed t := by
  cases heffect with
  | client => exact h
  | registerModel => exact h
  | registerFile => exact h
  | share => exact h
  | returned _ _ hclean => exact h.move hclean.level.symm rfl fun _ => rfl
  | load hidle _ _ => exact h.move (clean_of_idle hidle).level.symm rfl fun _ => rfl
  | plan hrunning _ _ => exact h.move (by rw [hrunning]; rfl) rfl fun _ => rfl
  | fetch hrunning _ => exact h.fetch hrunning
  | swap hrunning _ => exact h.move (by rw [hrunning]; rfl) rfl fun _ => rfl
  | refuse hrunning _ => exact h.move (by rw [hrunning]; rfl) rfl fun _ => rfl
  | @rollBack _ model _ hrunning =>
    refine h.rollBack hinv hrunning (hunloads model.id ?_)
    rw [loadTarget, hrunning]
    rfl
  | @evict _ id _ _ _ hrunning =>
    refine h.evict hinv hrunning (hunloads id ?_)
    rw [loadTarget, hrunning]
    rfl
  | commit hrunning => exact h.commit hrunning
  | unload hidle _ => exact h.move (clean_of_idle hidle).level.symm rfl fun _ => rfl
  | unloadBackend hrunning => exact h.unloadBackend hrunning
  | releaseReservation hrunning _ => exact h.releaseReservation hrunning
  -- the reservation is always there to be released, so the backend is never reloaded
  | @reloading input _ hrunning hfailed =>
    rw [hinv.releaseModel_ok input.now hrunning] at hfailed
    cases hfailed
  | reload hrunning =>
    have hframe := hinv.frame
    rw [FrameInv, hrunning] at hframe
    exact hframe.elim
  | retain hidle _ => exact h.recount hidle
  | releaseModel hidle _ _ => exact h.recount hidle
  | unregisterModel hidle _ => exact h.move (clean_of_idle hidle).level.symm rfl fun _ => rfl
  | eraseRecord hrunning => exact h.eraseRecord hinv hrunning

end Backed

/-- If the backend does not fail to unload what it holds for a load, it holds what is
    resident, up to the model for which it is ahead. -/
theorem reachable_backed (h : (machine.restrict UnloadsForLoad).Reachable s) : Backed s := by
  refine h.invariant (fun s hinit => ?_) fun s a t hs hbacked hstep => ?_
  · obtain ⟨_, _, _, _, rfl⟩ := hinit
    exact fun _ => rfl
  · obtain ⟨⟨henabled, rfl⟩, hunloads⟩ := hstep
    exact hbacked.effect (reachable_inv hs.of_restrict) (perform_effect henabled) hunloads

theorem heldBytes_eq_some_iff {bytes : Bytes} :
    s.heldBytes id = some bytes ↔ ∃ record, s.records.lookup id = some record ∧
      record.resident = true ∧ record.footprintBytes = bytes := by
  simp only [heldBytes, Option.map_eq_some_iff, residentRecord_eq_some_iff, and_assoc]

/-- Between operations, the records copy the registry, and the reservations are the
    footprints of what is resident; so is what the backend holds, if it does not fail to
    unload what it holds. -/
theorem reachable_copies (h : machine.Reachable s) (hidle : s.running = none) :
    (∀ id record, s.records.lookup id = some record →
      ∃ model, s.registry.findModel id = some model ∧
        record.footprintBytes = model.footprintBytes ∧ record.refCount = model.refCount) ∧
    (∀ id bytes, s.resources.modelReservations.lookup id = some bytes ↔
      ∃ record, s.records.lookup id = some record ∧ record.resident = true ∧
        record.footprintBytes = bytes) ∧
    ((machine.restrict UnloadsHeld).Reachable s →
      ∀ id bytes, s.backend.allocations.lookup id = some bytes ↔
        ∃ record, s.records.lookup id = some record ∧ record.resident = true ∧
          record.footprintBytes = bytes) := by
  have hinv := reachable_inv h
  refine ⟨fun id record hrecord => ?_, fun id bytes => ?_, fun hunloads id bytes => ?_⟩
  · exact (hinv.agrees (by simp [hidle]) hrecord).2
  · rw [hinv.reserved, (steady_of_idle hidle).expected_eq]
    exact heldBytes_eq_some_iff
  · rw [reachable_backed (hunloads.mono fun _ _ _ => UnloadsHeld.forLoad),
      expectedBacking_level (by rw [hidle]; rfl)]
    exact heldBytes_eq_some_iff

/-- A daemon in which the model `m` of 60 bytes is registered and loaded. -/
def stocked : Daemon :=
  performAll { resources := { capacity := 100, schedulingPolicy := .costAware } }
    [.registerModel (ascii "m") 60 (ascii "-"), .load (ascii "m"), .advance {}, .advance {},
      .advance {}, .advance {}]

theorem stocked_reachable : (machine.restrict UnloadsHeld).Reachable stocked :=
  Machine.Reachable.run (.init ⟨100, .costAware, _, rfl, rfl⟩)
    (run_performAll (C := UnloadsHeld) (by decide))

theorem stocked_copies :
    (∃ model, stocked.registry.findModel (ascii "m") = some model ∧ model.footprintBytes = 60 ∧
        model.refCount = 0) ∧
      stocked.resources.modelReservations.lookup (ascii "m") = some 60 ∧
      stocked.backend.allocations.lookup (ascii "m") = some 60 := by
  obtain ⟨hrecords, hreserved, hheld⟩ := reachable_copies stocked_reachable.of_restrict (by decide)
  have hrecord : stocked.records.lookup (ascii "m") = some ⟨ascii "m", 60, 0, true, 1, 1, 1⟩ := by
    decide
  obtain ⟨model, hmodel, hfootprint, hcount⟩ := hrecords _ _ hrecord
  exact ⟨⟨model, hmodel, hfootprint.symm, hcount.symm⟩, (hreserved _ _).2 ⟨_, hrecord, rfl, rfl⟩,
    (hheld stocked_reachable _ _).2 ⟨_, hrecord, rfl, rfl⟩⟩

end Daemon

end Gpumemd
