import Gpumemd.Residency.Backend
import Gpumemd.Residency.Registry
import Gpumemd.Resource.Manager

/-!
# The residency manager

`ModelResidencyManager` (`src/core/model_residency.cpp`) together with what it
works on: the model registry, the resource manager and the backend, each with a
mutex of its own.

An operation of the residency manager holds `mutex_` from its call to its return,
but the other components are only locked while it calls them, so clients and
registrations run between these calls. An operation is cut there: its call runs up
to the first point where something else may run (`load`, `unload`, ...), and a
`Frame` says where the operation stands and what its local variables hold. Each
further piece (`plan`, `fetch`, `swap`, ...) is one step, `advance`.

What a step reads from outside (files, clocks, faults of the backend) is in its
`Input`. So is the order in which `std::sort` puts the eviction candidates: it
depends on the rounding of `long double` and, for equal scores, on the enumeration of
`records_`, and any order is admitted here.
-/

namespace Gpumemd

open Library

/-- `ResidencyRecord`. -/
structure ResidencyRecord where
  id : Str := []
  footprintBytes : Bytes := 0
  refCount : ℕ := 0
  resident : Bool := false
  lastLoaded : ℕ := 0
  loadCount : ℕ := 0
  estimatedLoadCostMs : UInt64 := 0
  deriving DecidableEq

/-- `ModelShareResult`. -/
structure ModelShareResult where
  error : ModelError
  amount : Bytes
  token : Str
  deriving DecidableEq

/-- Where the operation that holds `mutex_` stands, with its local variables. -/
inductive Frame
  /-- `load`, before it reads the resource status. -/
  | planning (model : ModelRecord)
  /-- `load`, before it reads the file and loads the backend. -/
  | fetching (model : ModelRecord) (evictions : List Str)
  /-- `load`, before it replaces the reservations. -/
  | swapping (model : ModelRecord) (evictions : List Str) (loadCostMs : UInt64)
  /-- `load`, before it unloads the backend again. -/
  | rollingBack (model : ModelRecord) (evictions : List Str)
  /-- `load`, before it unloads the models that are left to evict. -/
  | evicting (model : ModelRecord) (evictions : List Str) (loadCostMs : UInt64)
  /-- `unload`, before it unloads the backend. -/
  | unloading (id : Str)
  /-- `unload`, before it releases the reservation. -/
  | releasing (id : Str)
  /-- `unload`, before it loads the backend again. -/
  | reloading (id : Str)
  /-- `unregister_model`, before it erases the record. -/
  | erasing (id : Str)
  deriving DecidableEq

/-- The state of the daemon, as far as models and memory are concerned. -/
structure Daemon where
  registry : ModelRegistry := {}
  resources : ResourceManager
  backend : Backend := {}
  records : Table Str ResidencyRecord := ∅
  nextLoaded : ℕ := 0
  /-- The operation that holds `mutex_`. -/
  running : Option Frame := none

/-- What the next piece of an operation reads from outside. -/
structure Input where
  /-- The eviction candidates, in the order of `std::sort`. -/
  ranking : List Str := []
  /-- The size of the file of the model, if it is a regular file. -/
  fileSize : Option Bytes := none
  /-- The file can be read. -/
  readable : Bool := true
  /-- The call of the backend fails. -/
  fault : Bool := false
  /-- The milliseconds that the load took. -/
  elapsed : UInt64 := 0
  now : TimePoint := 0

/-- What a step answers. -/
inductive Response
  | client (result : Option OperationResult)
  | registered (result : ModelOperationResult)
  | shared (result : ModelShareResult)
  /-- An operation of the residency manager returns. -/
  | returned (result : ModelOperationResult)
  /-- It goes on. -/
  | running
  deriving DecidableEq

namespace Daemon

variable (s : Daemon)

/-- The operation returns. -/
def returned (error : ModelError) (amount : ℕ) : Daemon × Response :=
  ({ s with running := none }, .returned ⟨error, amount⟩)

/-- The operation goes on. -/
def proceed (frame : Frame) : Daemon × Response :=
  ({ s with running := some frame }, .running)

/-- The record of `id`, if it is resident. -/
def residentRecord (id : Str) : Option ResidencyRecord :=
  (s.records.lookup id).filter (·.resident)

/-- `record->resident = false`. -/
def leave (id : Str) : Daemon :=
  { s with records :=
      match s.records.lookup id with
      | none => s.records
      | some record => s.records.insert id { record with resident := false } }

/-! ## `load` -/

/-- The call of `load`. -/
def load (id : Str) : Daemon × Response :=
  match s.registry.findModel id with
  | none => s.returned .unknownModel 0
  | some model =>
    match s.residentRecord model.id with
    | some record => s.returned .none record.footprintBytes.toNat
    | none => s.proceed (.planning model)

/-- The eviction candidates: resident and not retained. -/
def IsCandidate (id : Str) : Prop :=
  ∃ record, s.records.lookup id = some record ∧ record.resident = true ∧ record.refCount = 0

/-- The loop that counts the evictions needed: those of the sorted candidates that
    are evicted, unless all of them are not enough. -/
def chooseEvictions (footprintBytes : Bytes) : List ResidencyRecord → Bytes → Option (List Str)
  | [], available => if available < footprintBytes then none else some []
  | record :: candidates, available =>
    if available < footprintBytes then
      (chooseEvictions footprintBytes candidates (available + record.footprintBytes)).map
        (record.id :: ·)
    else some []

/-- `load` reads the resource status and chooses what to evict. -/
def plan (model : ModelRecord) (ranking : List Str) : Daemon × Response :=
  if model.footprintBytes > s.resources.capacity then s.returned .insufficientMemory 0
  else if s.resources.free < model.footprintBytes then
    match chooseEvictions model.footprintBytes (ranking.filterMap (s.records.lookup ·))
      s.resources.free with
    | none => s.returned .insufficientMemory 0
    | some evictions => s.proceed (.fetching model evictions)
  else s.proceed (.fetching model [])

/-- The error that `load` reports for one of the loader. -/
def errorOfLoader : ModelLoadError → ModelError
  | .unavailable => .fileUnavailable
  | .sourceChanged => .sourceChanged
  | .readFailure => .readFailure

/-- The size of what `load` gives to the backend. -/
def fetched (model : ModelRecord) (input : Input) : Except ModelLoadError Bytes :=
  if model.sourcePath.isEmpty then .ok model.footprintBytes
  else ModelLoader.load model.sourcePath model.footprintBytes input.fileSize input.readable

/-- `load` reads the file and loads the backend. -/
def fetch (model : ModelRecord) (evictions : List Str) (input : Input) : Daemon × Response :=
  match fetched model input with
  | .error error => s.returned (errorOfLoader error) 0
  | .ok bytes =>
    let (backend, loaded) := s.backend.load model.id bytes input.fault
    if !loaded.ok then { s with backend }.returned .backendFailure 0
    else { s with backend }.proceed (.swapping model evictions (max input.elapsed 1))

/-- `load` replaces the reservations. -/
def swap (model : ModelRecord) (evictions : List Str) (loadCostMs : UInt64) (now : TimePoint) :
    Daemon × Response :=
  let (resources, acquired) :=
    s.resources.replaceModelReservations evictions model.id model.footprintBytes now
  if !acquired.ok then { s with resources }.proceed (.rollingBack model evictions)
  else { s with resources }.proceed (.evicting model evictions loadCostMs)

/-- `load` unloads the backend again, its reservation being refused. -/
def rollBack (model : ModelRecord) (fault : Bool) : Daemon × Response :=
  { s with backend := (s.backend.unload model.id fault).1 }.returned .insufficientMemory 0

/-- `load` evicts the model `id`. -/
def evict (id : Str) (model : ModelRecord) (evictions : List Str) (loadCostMs : UInt64)
    (fault : Bool) : Daemon × Response :=
  ({ s with backend := (s.backend.unload id fault).1 }.leave id).proceed
    (.evicting model evictions loadCostMs)

/-- `load` writes the record of the model. -/
def commit (model : ModelRecord) (loadCostMs : UInt64) : Daemon × Response :=
  let record := (s.records.lookup model.id).getD {}
  { s with
    nextLoaded := s.nextLoaded + 1
    records := s.records.insert model.id {
      id := model.id
      footprintBytes := model.footprintBytes
      refCount := model.refCount
      resident := true
      lastLoaded := s.nextLoaded + 1
      loadCount := record.loadCount + 1
      estimatedLoadCostMs := loadCostMs }
  }.returned .none model.footprintBytes.toNat

/-! ## `unload` -/

/-- The call of `unload`. -/
def unload (id : Str) : Daemon × Response :=
  match s.registry.findModel id with
  | none => s.returned .unknownModel 0
  | some _ =>
    match s.residentRecord id with
    | none => s.returned .unknownResidency 0
    | some record =>
      if record.refCount ≠ 0 then s.returned .modelInUse 0 else s.proceed (.unloading id)

/-- `unload` unloads the backend. -/
def unloadBackend (id : Str) (fault : Bool) : Daemon × Response :=
  let (backend, unloaded) := s.backend.unload id fault
  if !unloaded.ok then { s with backend }.returned .backendFailure 0
  else { s with backend }.proceed (.releasing id)

/-- The footprint in the record of `id`. -/
def recordFootprint (id : Str) : Bytes := ((s.records.lookup id).map (·.footprintBytes)).getD 0

/-- `unload` releases the reservation. -/
def releaseReservation (id : Str) (now : TimePoint) : Daemon × Response :=
  let (resources, released) := s.resources.releaseModel id now
  if !released.ok then { s with resources }.proceed (.reloading id)
  else ({ s with resources }.leave id).returned .none (s.recordFootprint id).toNat

/-- `unload` loads the backend again, its reservation being unknown. -/
def reload (id : Str) (fault : Bool) : Daemon × Response :=
  { s with backend := (s.backend.load id (s.recordFootprint id) fault).1 }.returned
    .unknownResidency 0

/-! ## The other operations -/

/-- `share`, where the backend answers `shared`. -/
def share (id : Str) (shared : BackendShareResult) : Daemon × Response :=
  match s.registry.findModel id with
  | none => (s, .shared ⟨.unknownModel, 0, []⟩)
  | some _ =>
    match s.residentRecord id with
    | none => (s, .shared ⟨.unknownResidency, 0, []⟩)
    | some _ =>
      if shared.error = .none then (s, .shared ⟨.none, shared.amount, shared.token⟩)
      else if shared.error = .unsupported then (s, .shared ⟨.backendUnsupported, 0, []⟩)
      else (s, .shared ⟨.backendFailure, 0, []⟩)

/-- The record of the model, made if there is none, with the reference count. -/
def counted (model : ModelRecord) (refCount : ℕ) : ResidencyRecord :=
  match s.records.lookup model.id with
  | none => { id := model.id, footprintBytes := model.footprintBytes, refCount := refCount }
  | some record => { record with refCount := refCount }

/-- The end of `retain` and of `release_model`: the registry has changed the
    reference count of a model to the amount of the result. -/
def account (model : ModelRecord) (accessed : ModelRegistry × ModelOperationResult) :
    Daemon × Response :=
  let (registry, result) := accessed
  if result.ok then
    { s with
      registry
      records := s.records.insert model.id (s.counted model result.amount)
    }.returned result.error result.amount
  else { s with registry }.returned result.error result.amount

/-- `retain`. -/
def retain (id : Str) : Daemon × Response :=
  match s.registry.findModel id with
  | none => s.returned .unknownModel 0
  | some model => s.account model (s.registry.retain id)

/-- `release_model`. -/
def releaseModel (id : Str) : Daemon × Response :=
  match s.registry.findModel id with
  | none => s.returned .unknownModel 0
  | some model => s.account model (s.registry.releaseModel id)

/-- The call of `unregister_model`, up to the return from the registry. -/
def unregisterModel (id : Str) : Daemon × Response :=
  match s.residentRecord id with
  | some _ => s.returned .modelInUse 0
  | none =>
    let (registry, result) := s.registry.unregisterModel id
    if result.ok then { s with registry }.proceed (.erasing id)
    else { s with registry }.returned result.error result.amount

/-- `unregister_model` erases the record. -/
def eraseRecord (id : Str) : Daemon × Response :=
  { s with records := s.records.erase id }.returned .none 0

/-! ## Runs -/

/-- The next piece of the operation that is running. -/
def advance (input : Input) : Daemon × Response :=
  match s.running with
  | none => (s, .running)
  | some (.planning model) => s.plan model input.ranking
  | some (.fetching model evictions) => s.fetch model evictions input
  | some (.swapping model evictions loadCostMs) => s.swap model evictions loadCostMs input.now
  | some (.rollingBack model _) => s.rollBack model input.fault
  | some (.evicting model (id :: evictions) loadCostMs) =>
    s.evict id model evictions loadCostMs input.fault
  | some (.evicting model [] loadCostMs) => s.commit model loadCostMs
  | some (.unloading id) => s.unloadBackend id input.fault
  | some (.releasing id) => s.releaseReservation id input.now
  | some (.reloading id) => s.reload id input.fault
  | some (.erasing id) => s.eraseRecord id

/-- The steps. -/
inductive Action
  /-- A client operation of the resource manager. -/
  | client (action : ResourceManager.Action)
  | registerModel (id : Str) (footprintBytes : Bytes) (metadata : Str)
  | registerFile (id path metadata : Str) (fileSize : Option Bytes)
  | load (id : Str)
  | unload (id : Str)
  | share (id : Str) (shared : BackendShareResult)
  | retain (id : Str)
  | releaseModel (id : Str)
  | unregisterModel (id : Str)
  /-- The operation that is running goes on. -/
  | advance (input : Input)

/-- The effect of a step, and its answer. -/
def perform : Action → Daemon × Response
  | .client action =>
    let (resources, result) := s.resources.perform action
    ({ s with resources }, .client result)
  | .registerModel id footprintBytes metadata =>
    let (registry, result) := s.registry.registerModel id footprintBytes metadata
    ({ s with registry }, .registered result)
  | .registerFile id path metadata fileSize =>
    let (registry, result) := s.registry.registerFile id path metadata fileSize
    ({ s with registry }, .registered result)
  | .load id => s.load id
  | .unload id => s.unload id
  | .share id shared => s.share id shared
  | .retain id => s.retain id
  | .releaseModel id => s.releaseModel id
  | .unregisterModel id => s.unregisterModel id
  | .advance input => s.advance input

/-- The ranking is an order of the candidates. -/
def Ranks (ranking : List Str) : Prop := ranking.Nodup ∧ ∀ id, id ∈ ranking ↔ s.IsCandidate id

/-- When the running operation may go on. -/
def MayAdvance (input : Input) : Option Frame → Prop
  | none => False
  | some (.planning _) => s.Ranks input.ranking
  | some _ => True

/-- When a step may be taken: clients and registrations run at any time, and an
    operation of the residency manager is only called when none is running. -/
def Enabled : Action → Prop
  | .client action => action.IsClient ∧ s.resources.Enabled action
  | .registerModel .. => True
  | .registerFile .. => True
  | .advance input => s.MayAdvance input s.running
  | _ => s.running = none

/-- The runs of the daemon, from an empty one. -/
def machine : Machine Daemon Action where
  init s := ∃ capacity policy resources, ResourceManager.create capacity policy = .ok resources ∧
    s = { resources }
  step s a s' := s.Enabled a ∧ (s.perform a).1 = s'

/-- The model that the operation that is running is about to unload. -/
def unloadTarget : Option Str :=
  match s.running with
  | some (.rollingBack model _) => some model.id
  | some (.evicting _ (id :: _) _) => some id
  | some (.unloading id) => some id
  | _ => none

/-- The backend does not fail to unload a model that it holds. -/
def UnloadsHeld (s : Daemon) (a : Action) (_ : Daemon) : Prop :=
  match a with
  | .advance input => ∀ id ∈ s.unloadTarget, id ∈ s.backend.allocations → input.fault = false
  | _ => True

/-! ## Runs that are given by their steps -/

instance (id : Str) : Decidable (s.IsCandidate id) :=
  decidable_of_iff
    ((s.records.lookup id).any fun record => record.resident && record.refCount == 0)
    (by simp [IsCandidate, Option.any_eq_true])

/-- Only what has a record is a candidate. -/
theorem ranks_iff {s : Daemon} {ranking : List Str} :
    s.Ranks ranking ↔ ranking.Nodup ∧ (∀ id ∈ ranking, s.IsCandidate id) ∧
      ∀ id ∈ s.records.keys, s.IsCandidate id → id ∈ ranking := by
  refine and_congr_right fun _ => ⟨fun h => ⟨fun id => (h id).1, fun id _ => (h id).2⟩, fun h id =>
    ⟨h.1 id, fun hid => ?_⟩⟩
  have hkey : id ∈ s.records.keys := by
    obtain ⟨record, hrecord, _⟩ := hid
    exact Finmap.mem_keys.2 (Finmap.mem_iff.2 ⟨record, hrecord⟩)
  exact h.2 id hkey hid

instance (ranking : List Str) : Decidable (s.Ranks ranking) := decidable_of_iff _ ranks_iff.symm

instance (input : Input) : (frame : Option Frame) → Decidable (s.MayAdvance input frame)
  | none => .isFalse id
  | some (.planning _) => inferInstanceAs (Decidable (s.Ranks input.ranking))
  | some (.fetching ..) | some (.swapping ..) | some (.rollingBack ..) | some (.evicting ..)
  | some (.unloading _) | some (.releasing _) | some (.reloading _) | some (.erasing _) =>
    .isTrue trivial

instance : (a : Action) → Decidable (s.Enabled a)
  | .client action => inferInstanceAs (Decidable (action.IsClient ∧ s.resources.Enabled action))
  | .registerModel .. | .registerFile .. => .isTrue trivial
  | .load _ | .unload _ | .share .. | .retain _ | .releaseModel _ | .unregisterModel _ =>
    inferInstanceAs (Decidable (s.running = none))
  | .advance input => inferInstanceAs (Decidable (s.MayAdvance input s.running))

instance (t : Daemon) : (a : Action) → Decidable (s.UnloadsHeld a t)
  | .advance input => inferInstanceAs
    (Decidable (∀ id ∈ s.unloadTarget, id ∈ s.backend.allocations → input.fault = false))
  | .client _ | .registerModel .. | .registerFile .. | .load _ | .unload _ | .share .. | .retain _
  | .releaseModel _ | .unregisterModel _ => .isTrue trivial

/-- The state after the steps. -/
def performAll : Daemon → List Action → Daemon
  | s, [] => s
  | s, a :: as => performAll (s.perform a).1 as

/-- The steps may be taken in turn, and `C` admits each of them. -/
def EnabledAll (C : Daemon → Action → Daemon → Prop) : Daemon → List Action → Prop
  | _, [] => True
  | s, a :: as => s.Enabled a ∧ C s a (s.perform a).1 ∧ EnabledAll C (s.perform a).1 as

instance (C : Daemon → Action → Daemon → Prop) [∀ s a t, Decidable (C s a t)] :
    (s : Daemon) → (as : List Action) → Decidable (s.EnabledAll C as)
  | _, [] => .isTrue trivial
  | s, a :: as =>
    have := instDecidableEnabledAll C (s.perform a).1 as
    inferInstanceAs (Decidable (s.Enabled a ∧ C s a (s.perform a).1 ∧ EnabledAll C _ as))

/-- Steps that may be taken in turn are a run. -/
theorem run_performAll {C : Daemon → Action → Daemon → Prop} {s : Daemon} {as : List Action}
    (h : s.EnabledAll C as) : (machine.restrict C).Run s as (s.performAll as) := by
  induction as generalizing s with
  | nil => exact .nil s
  | cons a as ih =>
    obtain ⟨henabled, hC, has⟩ := h
    exact .cons ⟨⟨henabled, rfl⟩, hC⟩ (ih has)

end Daemon

end Gpumemd
