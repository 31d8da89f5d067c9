import Gpumemd.Basic
import Gpumemd.Library.Table

/-!
# The model registry

`ModelRegistry` (`src/core/model_registry.cpp`): the registered models with their
declared footprints and reference counts, under a mutex of its own. What
`register_file` finds on the file system is an argument.

Every model is registered under its own id, with a nonzero footprint
(`ModelRegistry.WellFormed`).
-/

namespace Gpumemd

open Library

/-- `ModelError`. -/
inductive ModelError
  | none
  | invalidId
  | invalidMetadata
  | invalidSize
  | duplicateModel
  | unknownModel
  | modelInUse
  | refcountUnderflow
  | unknownResidency
  | insufficientMemory
  | backendFailure
  | invalidPath
  | fileUnavailable
  | sourceChanged
  | readFailure
  | backendUnsupported
  deriving DecidableEq

/-- `ModelOperationResult`. The amount is one of bytes or of references. -/
structure ModelOperationResult where
  error : ModelError
  amount : ℕ
  deriving DecidableEq

/-- `ModelOperationResult::ok`. -/
def ModelOperationResult.ok (result : ModelOperationResult) : Bool := result.error == .none

/-- `ModelRecord`. -/
structure ModelRecord where
  id : Str
  metadata : Str
  footprintBytes : Bytes
  refCount : ℕ
  lastAccess : ℕ
  sourcePath : Str
  deriving DecidableEq

/-- The state of a `ModelRegistry`. -/
structure ModelRegistry where
  models : Table Str ModelRecord := ∅
  nextAccess : ℕ := 0

namespace ModelRegistry

/-- `ModelRegistry::valid_id`. -/
def validId (id : Str) : Bool := nameShape id

/-- `ModelRegistry::valid_metadata`. -/
def validMetadata (metadata : Str) : Bool :=
  if metadata.isEmpty || metadata.length > 128 then false
  else metadata.all fun character =>
    character < 128 && 32 ≤ character && character != 127 &&
      character != ' '.toUInt8 && character != '\t'.toUInt8 && character != '\n'.toUInt8 &&
      character != '\r'.toUInt8 && character != 12 && character != 11

/-- `valid_path`. -/
def validPath (path : Str) : Bool :=
  if path.isEmpty || path.length > 4096 then false
  else path.all fun character =>
    32 ≤ character && character != 127 && character != '\n'.toUInt8 &&
      character != '\r'.toUInt8 && character != '\t'.toUInt8

variable (s : ModelRegistry)

/-- The entry of `id` in the snapshot that `models()` takes. -/
def findModel (id : Str) : Option ModelRecord := s.models.lookup id

/-- The end of both registrations, under the lock. -/
def emplaceModel (model : ModelRecord) : ModelRegistry × ModelOperationResult :=
  if model.id ∈ s.models then (s, ⟨.duplicateModel, 0⟩)
  else ({ s with models := Table.emplace s.models model.id model },
    ⟨.none, model.footprintBytes.toNat⟩)

/-- `ModelRegistry::register_model`. -/
def registerModel (id : Str) (footprintBytes : Bytes) (metadata : Str) :
    ModelRegistry × ModelOperationResult :=
  if !validId id then (s, ⟨.invalidId, 0⟩)
  else if footprintBytes = 0 then (s, ⟨.invalidSize, 0⟩)
  else if !validMetadata metadata then (s, ⟨.invalidMetadata, 0⟩)
  else s.emplaceModel ⟨id, metadata, footprintBytes, 0, 0, []⟩

/-- `ModelRegistry::register_file`, where the path is that of a regular file with the
    given size, or of none. -/
def registerFile (id path metadata : Str) (fileSize : Option Bytes) :
    ModelRegistry × ModelOperationResult :=
  if !validId id then (s, ⟨.invalidId, 0⟩)
  else if !validPath path then (s, ⟨.invalidPath, 0⟩)
  else if !validMetadata metadata then (s, ⟨.invalidMetadata, 0⟩)
  else
    match fileSize with
    | none => (s, ⟨.fileUnavailable, 0⟩)
    | some fileSize =>
      if fileSize = 0 then (s, ⟨.fileUnavailable, 0⟩)
      else s.emplaceModel ⟨id, metadata, fileSize, 0, 0, path⟩

/-- `ModelRegistry::unregister_model`. -/
def unregisterModel (id : Str) : ModelRegistry × ModelOperationResult :=
  if !validId id then (s, ⟨.invalidId, 0⟩)
  else
    match s.models.lookup id with
    | none => (s, ⟨.unknownModel, 0⟩)
    | some model =>
      if model.refCount ≠ 0 then (s, ⟨.modelInUse, 0⟩)
      else ({ s with models := s.models.erase id }, ⟨.none, 0⟩)

/-- Sets the reference count of a model, and its last access to the next one. -/
def access (id : Str) (model : ModelRecord) (refCount : ℕ) : ModelRegistry :=
  { models := s.models.insert id { model with refCount, lastAccess := s.nextAccess + 1 }
    nextAccess := s.nextAccess + 1 }

/-- `ModelRegistry::retain`. -/
def retain (id : Str) : ModelRegistry × ModelOperationResult :=
  if !validId id then (s, ⟨.invalidId, 0⟩)
  else
    match s.models.lookup id with
    | none => (s, ⟨.unknownModel, 0⟩)
    | some model => (s.access id model (model.refCount + 1), ⟨.none, model.refCount + 1⟩)

/-- `ModelRegistry::release_model`. -/
def releaseModel (id : Str) : ModelRegistry × ModelOperationResult :=
  if !validId id then (s, ⟨.invalidId, 0⟩)
  else
    match s.models.lookup id with
    | none => (s, ⟨.unknownModel, 0⟩)
    | some model =>
      if model.refCount = 0 then (s, ⟨.refcountUnderflow, 0⟩)
      else (s.access id model (model.refCount - 1), ⟨.none, model.refCount - 1⟩)

/-! ## What is registered -/

/-- Every model is registered under its own id, which is valid, with a nonzero
    footprint. -/
def WellFormed : Prop :=
  ∀ id model, s.models.lookup id = some model →
    model.id = id ∧ validId id = true ∧ model.footprintBytes ≠ 0

/-- What a registration does: nothing, or it adds a model under a new id. -/
inductive Registers : ModelRegistry → Prop
  | refused : Registers s
  | added (model : ModelRecord) : validId model.id = true → model.footprintBytes ≠ 0 →
      model.refCount = 0 → model.id ∉ s.models →
      Registers { s with models := s.models.insert model.id model }

variable {s} {id path metadata : Str} {bytes : Bytes} {fileSize : Option Bytes}

theorem emplaceModel_registers {model : ModelRecord} (hid : validId model.id = true)
    (hbytes : model.footprintBytes ≠ 0) (hcount : model.refCount = 0) :
    Registers s (s.emplaceModel model).1 := by
  rw [emplaceModel]
  split_ifs with hmem
  · exact .refused
  · rw [Table.emplace_of_notMem hmem]
    exact .added model hid hbytes hcount hmem

theorem registerModel_registers : Registers s (s.registerModel id bytes metadata).1 := by
  rw [registerModel]
  split_ifs with hid hbytes
  · exact .refused
  · exact .refused
  · exact .refused
  · exact emplaceModel_registers (by simpa using hid) hbytes rfl

theorem registerFile_registers : Registers s (s.registerFile id path metadata fileSize).1 := by
  cases fileSize with
  | none =>
    rw [registerFile]
    split_ifs <;> exact .refused
  | some fileSize =>
    rw [registerFile]
    split_ifs with hid hpath hmeta hbytes
    · exact .refused
    · exact .refused
    · exact .refused
    · exact .refused
    · exact emplaceModel_registers (by simpa using hid) hbytes rfl

/-! ## What the operations keep -/

variable {t : ModelRegistry} {id' : Str} {model : ModelRecord}

/-- A registration keeps the models that are registered. -/
theorem Registers.findModel (h : Registers s t) (hmodel : s.findModel id = some model) :
    t.findModel id = some model := by
  cases h with
  | refused => exact hmodel
  | added added _ _ _ hnew =>
    -- nothing is registered twice
    have hne : id ≠ added.id := by
      rintro rfl
      exact hnew (Finmap.mem_iff.2 ⟨model, hmodel⟩)
    exact (Finmap.lookup_insert_of_ne _ hne).trans hmodel

theorem Registers.wellFormed (h : Registers s t) (hs : s.WellFormed) : t.WellFormed := by
  cases h with
  | refused => exact hs
  | added added hid hbytes _ _ =>
    intro id model hmodel
    rw [Table.lookup_insert] at hmodel
    split_ifs at hmodel with heq
    · obtain rfl := Option.some.inj hmodel
      exact ⟨heq.symm, heq ▸ hid, hbytes⟩
    · exact hs id model hmodel

/-- Changing the reference count of a registered model. -/
theorem findModel_access {count : ℕ} :
    (s.access id model count).findModel id' =
      if id' = id then some { model with refCount := count, lastAccess := s.nextAccess + 1 }
      else s.findModel id' := by
  rw [ModelRegistry.findModel, access, Table.lookup_insert]
  rfl

theorem wellFormed_access {count : ℕ} (hs : s.WellFormed) (hmodel : s.findModel id = some model) :
    (s.access id model count).WellFormed := by
  intro id' model' hmodel'
  have hlookup : (s.access id model count).findModel id' = some model' := hmodel'
  rw [findModel_access] at hlookup
  split_ifs at hlookup with h
  · obtain rfl := Option.some.inj hlookup
    rw [h]
    exact hs id model hmodel
  · exact hs id' model' hlookup

theorem wellFormed_erase (hs : s.WellFormed) :
    WellFormed { s with models := s.models.erase id } := by
  intro id' model hmodel
  rw [Table.lookup_erase] at hmodel
  split_ifs at hmodel
  exact hs id' model hmodel

/-- `retain` fails, or counts one reference more. -/
theorem retain_cases (s : ModelRegistry) (id : Str) :
    (s.retain id).2.ok = false ∧ (s.retain id).1 = s ∨
      ∃ model, s.findModel id = some model ∧
        s.retain id = (s.access id model (model.refCount + 1), ⟨.none, model.refCount + 1⟩) := by
  rw [retain]
  split_ifs
  · exact .inl ⟨rfl, rfl⟩
  · split
    next => exact .inl ⟨rfl, rfl⟩
    next model hmodel => exact .inr ⟨model, hmodel, rfl⟩

/-- `release_model` fails, or counts one reference less. -/
theorem releaseModel_cases (s : ModelRegistry) (id : Str) :
    (s.releaseModel id).2.ok = false ∧ (s.releaseModel id).1 = s ∨
      ∃ model, s.findModel id = some model ∧ model.refCount ≠ 0 ∧
        s.releaseModel id = (s.access id model (model.refCount - 1), ⟨.none, model.refCount - 1⟩) := by
  rw [releaseModel]
  split_ifs
  · exact .inl ⟨rfl, rfl⟩
  · split
    next => exact .inl ⟨rfl, rfl⟩
    next model hmodel =>
      split_ifs with hcount
      · exact .inl ⟨rfl, rfl⟩
      · exact .inr ⟨model, hmodel, hcount, rfl⟩

/-- `unregister_model` fails, or takes the model away. -/
theorem unregisterModel_cases (s : ModelRegistry) (id : Str) :
    (s.unregisterModel id).2.ok = false ∧ (s.unregisterModel id).1 = s ∨
      s.unregisterModel id = ({ s with models := s.models.erase id }, ⟨.none, 0⟩) := by
  rw [unregisterModel]
  split_ifs
  · exact .inl ⟨rfl, rfl⟩
  · split
    · exact .inl ⟨rfl, rfl⟩
    · split_ifs
      · exact .inl ⟨rfl, rfl⟩
      · exact .inr rfl

end ModelRegistry

end Gpumemd
