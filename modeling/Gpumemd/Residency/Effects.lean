import Gpumemd.Residency.Manager

/-!
# What the steps do

Each step of the daemon has one of a few effects (`Effect`), and this is the only place
that goes through the code for them (`perform_effect`). An operation of the residency
manager returns without having done anything only where no copy of what is resident is
ahead of another (`Clean`).
-/

namespace Gpumemd

open Library

namespace Daemon

variable {s t : Daemon} {id : Str} {model : ModelRecord} {evictions : List Str} {input : Input}

/-- Where nothing has been changed, or nothing yet. -/
def Clean (s : Daemon) : Prop :=
  match s.running with
  | none => True
  | some (.planning _) => True
  | some (.fetching _ _) => True
  | some (.unloading _) => True
  | _ => False

/-- What `load` evicts: nothing if there is enough memory, else the first of the ranked
    candidates. -/
def Chooses (s : Daemon) (model : ModelRecord) (ranking evictions : List Str) : Prop :=
  model.footprintBytes ≤ s.resources.capacity ∧
    (model.footprintBytes ≤ s.resources.free ∧ evictions = [] ∨
      s.resources.free < model.footprintBytes ∧
        chooseEvictions model.footprintBytes (ranking.filterMap (s.records.lookup ·))
          s.resources.free = some evictions)

/-- The registry and the record change the reference count of a model. -/
def recount (s : Daemon) (id : Str) (model : ModelRecord) (refCount : ℕ) : Daemon :=
  { s with
    registry := s.registry.access id model refCount
    records := s.records.insert model.id (s.counted model refCount) }

/-- What a step does, and what it answers. -/
inductive Effect (s : Daemon) : Action → Daemon → Response → Prop
  | client {action : ResourceManager.Action} : action.IsClient → s.resources.Enabled action →
      Effect s (.client action) { s with resources := (s.resources.perform action).1 }
        (.client (s.resources.perform action).2)
  | registerModel {id : Str} {footprintBytes : Bytes} {metadata : Str} :
      ModelRegistry.Registers s.registry (s.registry.registerModel id footprintBytes metadata).1 →
      Effect s (.registerModel id footprintBytes metadata)
        { s with registry := (s.registry.registerModel id footprintBytes metadata).1 }
        (.registered (s.registry.registerModel id footprintBytes metadata).2)
  | registerFile {id path metadata : Str} {fileSize : Option Bytes} :
      ModelRegistry.Registers s.registry (s.registry.registerFile id path metadata fileSize).1 →
      Effect s (.registerFile id path metadata fileSize)
        { s with registry := (s.registry.registerFile id path metadata fileSize).1 }
        (.registered (s.registry.registerFile id path metadata fileSize).2)
  | share {id : Str} {shared : BackendShareResult} {result : ModelShareResult} :
      Effect s (.share id shared) s (.shared result)
  /-- An operation returns. -/
  | returned {a : Action} (error : ModelError) (amount : ℕ) : s.Clean →
      Effect s a (s.returned error amount).1 (s.returned error amount).2
  | load {id : Str} {model : ModelRecord} : s.running = none →
      s.registry.findModel id = some model → s.residentRecord model.id = none →
      Effect s (.load id) (s.proceed (.planning model)).1 .running
  | plan {input : Input} {model : ModelRecord} {evictions : List Str} :
      s.running = some (.planning model) → s.Ranks input.ranking →
      s.Chooses model input.ranking evictions →
      Effect s (.advance input) (s.proceed (.fetching model evictions)).1 .running
  | fetch {input : Input} {model : ModelRecord} {evictions : List Str} :
      s.running = some (.fetching model evictions) → model.id ∉ s.backend.allocations →
      Effect s (.advance input)
        ({ s with backend := ⟨s.backend.allocations.insert model.id model.footprintBytes⟩ }.proceed
          (.swapping model evictions (max input.elapsed 1))).1 .running
  /-- The reservations are replaced. -/
  | swap {input : Input} {model : ModelRecord} {evictions : List Str} {loadCostMs : UInt64} :
      s.running = some (.swapping model evictions loadCostMs) →
      (s.resources.replaceModelReservations evictions model.id model.footprintBytes
        input.now).2.ok = true →
      Effect s (.advance input)
        ({ s with
          resources := (s.resources.replaceModelReservations evictions model.id
            model.footprintBytes input.now).1 }.proceed (.evicting model evictions loadCostMs)).1
        .running
  /-- The replacement is refused. -/
  | refuse {input : Input} {model : ModelRecord} {evictions : List Str} {loadCostMs : UInt64} :
      s.running = some (.swapping model evictions loadCostMs) →
      (s.resources.replaceModelReservations evictions model.id model.footprintBytes
        input.now).2.ok = false →
      Effect s (.advance input)
        ({ s with
          resources := (s.resources.replaceModelReservations evictions model.id
            model.footprintBytes input.now).1 }.proceed (.rollingBack model evictions)).1 .running
  | rollBack {input : Input} {model : ModelRecord} {evictions : List Str} :
      s.running = some (.rollingBack model evictions) →
      Effect s (.advance input) (s.rollBack model input.fault).1 (s.rollBack model input.fault).2
  | evict {input : Input} {id : Str} {model : ModelRecord} {evictions : List Str}
      {loadCostMs : UInt64} : s.running = some (.evicting model (id :: evictions) loadCostMs) →
      Effect s (.advance input) (s.evict id model evictions loadCostMs input.fault).1 .running
  | commit {input : Input} {model : ModelRecord} {loadCostMs : UInt64} :
      s.running = some (.evicting model [] loadCostMs) →
      Effect s (.advance input) (s.commit model loadCostMs).1 (s.commit model loadCostMs).2
  | unload {id : Str} : s.running = none → s.IsCandidate id →
      Effect s (.unload id) (s.proceed (.unloading id)).1 .running
  | unloadBackend {input : Input} {id : Str} : s.running = some (.unloading id) →
      Effect s (.advance input)
        ({ s with backend := ⟨s.backend.allocations.erase id⟩ }.proceed (.releasing id)).1 .running
  | releaseReservation {input : Input} {id : Str} : s.running = some (.releasing id) →
      (s.resources.releaseModel id input.now).2.ok = true →
      Effect s (.advance input)
        (({ s with resources := (s.resources.releaseModel id input.now).1 }.leave id).returned
          .none (s.recordFootprint id).toNat).1
        (.returned ⟨.none, (s.recordFootprint id).toNat⟩)
  /-- The release of the reservation fails. -/
  | reloading {input : Input} {id : Str} : s.running = some (.releasing id) →
      (s.resources.releaseModel id input.now).2.ok = false →
      Effect s (.advance input)
        ({ s with resources := (s.resources.releaseModel id input.now).1 }.proceed
          (.reloading id)).1 .running
  | reload {input : Input} {id : Str} : s.running = some (.reloading id) →
      Effect s (.advance input) (s.reload id input.fault).1 (s.reload id input.fault).2
  | retain {id : Str} {model : ModelRecord} : s.running = none →
      s.registry.findModel id = some model →
      Effect s (.retain id) ((s.recount id model (model.refCount + 1)).returned .none
        (model.refCount + 1)).1 (.returned ⟨.none, model.refCount + 1⟩)
  | releaseModel {id : Str} {model : ModelRecord} : s.running = none →
      s.registry.findModel id = some model → model.refCount ≠ 0 →
      Effect s (.releaseModel id) ((s.recount id model (model.refCount - 1)).returned .none
        (model.refCount - 1)).1 (.returned ⟨.none, model.refCount - 1⟩)
  | unregisterModel {id : Str} : s.running = none → s.residentRecord id = none →
      Effect s (.unregisterModel id)
        ({ s with registry := { s.registry with models := s.registry.models.erase id } }.proceed
          (.erasing id)).1 .running
  | eraseRecord {input : Input} {id : Str} : s.running = some (.erasing id) →
      Effect s (.advance input) (s.eraseRecord id).1 (s.eraseRecord id).2

theorem residentRecord_eq_some_iff {record : ResidencyRecord} :
    s.residentRecord id = some record ↔
      s.records.lookup id = some record ∧ record.resident = true := by
  rw [residentRecord, Option.filter_eq_some_iff]

theorem isCandidate_iff :
    s.IsCandidate id ↔ ∃ record, s.residentRecord id = some record ∧ record.refCount = 0 := by
  simp only [IsCandidate, residentRecord_eq_some_iff, and_assoc]

theorem clean_of_idle (h : s.running = none) : s.Clean := by
  rw [Clean, h]
  trivial

/-! ## `load` -/

theorem load_effect (hidle : s.running = none) (id : Str) :
    Effect s (.load id) (s.load id).1 (s.load id).2 := by
  rw [load]
  split
  next => exact .returned _ _ (clean_of_idle hidle)
  next model hmodel =>
    split
    next => exact .returned _ _ (clean_of_idle hidle)
    next hrecord => exact .load hidle hmodel hrecord

theorem plan_effect (hrunning : s.running = some (.planning model))
    (hranking : s.Ranks input.ranking) :
    Effect s (.advance input) (s.plan model input.ranking).1 (s.plan model input.ranking).2 := by
  have hclean : s.Clean := by
    rw [Clean, hrunning]
    trivial
  rw [plan]
  split_ifs with hcapacity hfree
  · exact .returned _ _ hclean
  · split
    next => exact .returned _ _ hclean
    next evictions hchosen =>
      exact .plan hrunning hranking ⟨UInt64.not_lt.1 hcapacity, .inr ⟨hfree, hchosen⟩⟩
  · exact .plan hrunning hranking
      ⟨UInt64.not_lt.1 hcapacity, .inl ⟨UInt64.not_lt.1 hfree, rfl⟩⟩

/-- What is fetched has the size of the footprint. -/
theorem eq_of_fetched {bytes : Bytes} (h : fetched model input = .ok bytes) :
    bytes = model.footprintBytes := by
  rw [fetched] at h
  split_ifs at h
  · exact (Except.ok.inj h).symm
  · exact ModelLoader.eq_of_load h

theorem fetch_effect (hrunning : s.running = some (.fetching model evictions)) :
    Effect s (.advance input) (s.fetch model evictions input).1
      (s.fetch model evictions input).2 := by
  have hclean : s.Clean := by
    rw [Clean, hrunning]
    trivial
  rw [fetch]
  split
  next => exact .returned _ _ hclean
  next bytes hfetched =>
    dsimp only
    rcases s.backend.load_cases model.id bytes input.fault with ⟨hfail, hsame⟩ | ⟨hok, hnew, hloaded⟩
    · -- a failed load leaves the backend as it was
      rw [hfail, hsame]
      exact .returned _ _ hclean
    · rw [hok, hloaded, eq_of_fetched hfetched]
      exact .fetch hrunning hnew

theorem swap_effect {loadCostMs : UInt64}
    (hrunning : s.running = some (.swapping model evictions loadCostMs)) :
    Effect s (.advance input) (s.swap model evictions loadCostMs input.now).1
      (s.swap model evictions loadCostMs input.now).2 := by
  rw [swap]
  dsimp only
  split_ifs with hok
  · exact .refuse hrunning (by simpa using hok)
  · exact .swap hrunning (by simpa using hok)

/-! ## `unload` -/

theorem unload_effect (hidle : s.running = none) (id : Str) :
    Effect s (.unload id) (s.unload id).1 (s.unload id).2 := by
  have hclean := clean_of_idle hidle
  rw [unload]
  split
  next => exact .returned _ _ hclean
  next =>
    split
    next => exact .returned _ _ hclean
    next record hrecord =>
      split_ifs with hcount
      · exact .returned _ _ hclean
      · exact .unload hidle (isCandidate_iff.2 ⟨record, hrecord, not_not.1 hcount⟩)

theorem unloadBackend_effect (hrunning : s.running = some (.unloading id)) :
    Effect s (.advance input) (s.unloadBackend id input.fault).1
      (s.unloadBackend id input.fault).2 := by
  have hclean : s.Clean := by
    rw [Clean, hrunning]
    trivial
  rw [unloadBackend]
  dsimp only
  rcases s.backend.unload_cases id input.fault with ⟨hfail, hsame⟩ | ⟨hok, hunloaded⟩
  · rw [hfail, hsame]
    exact .returned _ _ hclean
  · rw [hok, hunloaded]
    exact .unloadBackend hrunning

theorem releaseReservation_effect (hrunning : s.running = some (.releasing id)) :
    Effect s (.advance input) (s.releaseReservation id input.now).1
      (s.releaseReservation id input.now).2 := by
  rw [releaseReservation]
  dsimp only
  split_ifs with hok
  · exact .reloading hrunning (by simpa using hok)
  · exact .releaseReservation hrunning (by simpa using hok)

/-! ## The other operations -/

theorem share_effect (id : Str) (shared : BackendShareResult) :
    Effect s (.share id shared) (s.share id shared).1 (s.share id shared).2 := by
  rw [share]
  split
  · exact .share
  · split
    · exact .share
    · split_ifs <;> exact .share

theorem retain_effect (hidle : s.running = none) (id : Str) :
    Effect s (.retain id) (s.retain id).1 (s.retain id).2 := by
  rw [retain]
  split
  next => exact .returned _ _ (clean_of_idle hidle)
  next model hmodel =>
    -- the registry finds the model that the manager has found
    rcases s.registry.retain_cases id with ⟨hfail, hsame⟩ | ⟨model', hmodel', hretained⟩
    · rw [account, hfail, hsame]
      exact .returned _ _ (clean_of_idle hidle)
    · obtain rfl := Option.some.inj (hmodel.symm.trans hmodel')
      rw [hretained]
      exact .retain hidle hmodel

theorem releaseModel_effect (hidle : s.running = none) (id : Str) :
    Effect s (.releaseModel id) (s.releaseModel id).1 (s.releaseModel id).2 := by
  rw [releaseModel]
  split
  next => exact .returned _ _ (clean_of_idle hidle)
  next model hmodel =>
    rcases s.registry.releaseModel_cases id with ⟨hfail, hsame⟩ | ⟨model', hmodel', hcount, hreleased⟩
    · rw [account, hfail, hsame]
      exact .returned _ _ (clean_of_idle hidle)
    · obtain rfl := Option.some.inj (hmodel.symm.trans hmodel')
      rw [hreleased]
      exact .releaseModel hidle hmodel hcount

theorem unregisterModel_effect (hidle : s.running = none) (id : Str) :
    Effect s (.unregisterModel id) (s.unregisterModel id).1 (s.unregisterModel id).2 := by
  rw [unregisterModel]
  split
  next => exact .returned _ _ (clean_of_idle hidle)
  next hrecord =>
    dsimp only
    rcases s.registry.unregisterModel_cases id with ⟨hfail, hsame⟩ | herased
    · rw [hfail, hsame]
      exact .returned _ _ (clean_of_idle hidle)
    · rw [herased]
      exact .unregisterModel hidle hrecord

/-! ## Steps -/

theorem advance_effect (henabled : s.Enabled (.advance input)) :
    Effect s (.advance input) (s.advance input).1 (s.advance input).2 := by
  rw [Enabled] at henabled
  rw [advance]
  split
  -- no operation, nothing to advance
  next hrunning =>
    rw [hrunning] at henabled
    exact henabled.elim
  next hrunning =>
    rw [hrunning] at henabled
    exact plan_effect hrunning henabled
  next hrunning => exact fetch_effect hrunning
  next hrunning => exact swap_effect hrunning
  next hrunning => exact .rollBack hrunning
  next hrunning => exact .evict hrunning
  next hrunning => exact .commit hrunning
  next hrunning => exact unloadBackend_effect hrunning
  next hrunning => exact releaseReservation_effect hrunning
  next hrunning => exact .reload hrunning
  next hrunning => exact .eraseRecord hrunning

theorem perform_effect {a : Action} (henabled : s.Enabled a) :
    Effect s a (s.perform a).1 (s.perform a).2 := by
  cases a with
  | client => exact .client henabled.1 henabled.2
  | registerModel => exact .registerModel ModelRegistry.registerModel_registers
  | registerFile => exact .registerFile ModelRegistry.registerFile_registers
  | load id => exact load_effect henabled id
  | unload id => exact unload_effect henabled id
  | share id shared => exact share_effect id shared
  | retain id => exact retain_effect henabled id
  | releaseModel id => exact releaseModel_effect henabled id
  | unregisterModel id => exact unregisterModel_effect henabled id
  | advance => exact advance_effect henabled

/-- What a step does to the resource manager is one of its operations, a client's only if
    the step is. -/
theorem resources_effect {a : Action} {response : Response} (heffect : Effect s a t response) :
    t.resources = s.resources ∨ ∃ action, t.resources = (s.resources.perform action).1 ∧
      (action.IsClient → a = .client action) := by
  cases heffect with
  | client => exact .inr ⟨_, rfl, fun _ => rfl⟩
  | swap =>
    exact .inr ⟨.replaceModelReservations _ _ _ _, rfl, fun h => h.elim⟩
  | refuse =>
    exact .inr ⟨.replaceModelReservations _ _ _ _, rfl, fun h => h.elim⟩
  | releaseReservation => exact .inr ⟨.releaseModel _ _, rfl, fun h => h.elim⟩
  | reloading => exact .inr ⟨.releaseModel _ _, rfl, fun h => h.elim⟩
  | _ => exact .inl rfl

end Daemon

end Gpumemd
