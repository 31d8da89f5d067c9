import Gpumemd.Basic
import Gpumemd.Library.Table

/-!
# The backend and the model loader

`MockBackend` (`src/backend/mock_backend.cpp`) and `ModelLoader`
(`src/core/model_loader.cpp`). A backend of any kind may make a call fail and leave
its allocations alone, as `CUDABackend` does when the driver reports an error: this
is the argument `fault` of the calls. `MockBackend` is the backend that is called
without faults.
-/

namespace Gpumemd

open Library

/-- `BackendError`, as far as the backends here report it. -/
inductive BackendError
  | none
  | invalidModelId
  | invalidSize
  | alreadyLoaded
  | notLoaded
  | runtimeFailure
  | unsupported
  deriving DecidableEq

/-- `BackendOperationResult`. -/
structure BackendOperationResult where
  error : BackendError
  amount : Bytes
  deriving DecidableEq

/-- `BackendOperationResult::ok`. -/
def BackendOperationResult.ok (result : BackendOperationResult) : Bool := result.error == .none

/-- `BackendShareResult`. -/
structure BackendShareResult where
  error : BackendError
  amount : Bytes
  token : Str
  deriving DecidableEq

/-- Which backend is asked to share an allocation, and for a CUDA device the bytes of the
    handle that it gives of it, if it gives one. -/
inductive Sharing
  | mock
  | cuda (handle : Option Str)

/-- The token that `CUDABackend::share` makes of the bytes of a handle. -/
def hexToken (handle : Str) : Str :=
  let digits := ascii "0123456789abcdef"
  handle.flatMap fun (byte : UInt8) =>
    [digits.getD (byte >>> 4).toNat 0, digits.getD (byte &&& 0x0f).toNat 0]

/-- The state of a backend. -/
structure Backend where
  allocations : Table Str Bytes := ∅

namespace Backend

/-- `MockBackend::valid_id`. -/
def validId (id : Str) : Bool := nameShape id

variable (s : Backend)

/-- `load`. -/
def load (id : Str) (bytes : Bytes) (fault : Bool) : Backend × BackendOperationResult :=
  if !validId id then (s, ⟨.invalidModelId, 0⟩)
  else if bytes = 0 then (s, ⟨.invalidSize, 0⟩)
  else if id ∈ s.allocations then (s, ⟨.alreadyLoaded, 0⟩)
  else if fault then (s, ⟨.runtimeFailure, 0⟩)
  else ({ allocations := Table.emplace s.allocations id bytes }, ⟨.none, bytes⟩)

/-- `unload`. -/
def unload (id : Str) (fault : Bool) : Backend × BackendOperationResult :=
  if !validId id then (s, ⟨.invalidModelId, 0⟩)
  else
    match s.allocations.lookup id with
    | none => (s, ⟨.notLoaded, 0⟩)
    | some bytes =>
      if fault then (s, ⟨.runtimeFailure, 0⟩)
      else ({ allocations := s.allocations.erase id }, ⟨.none, bytes⟩)

/-- `share`, of either backend. -/
def share (id : Str) : Sharing → BackendShareResult
  | .mock => ⟨.unsupported, 0, []⟩
  | .cuda handle =>
    match s.allocations.lookup id with
    | none => ⟨.notLoaded, 0, []⟩
    | some bytes =>
      match handle with
      | none => ⟨.runtimeFailure, 0, []⟩
      | some handle => ⟨.none, bytes, hexToken handle⟩

variable {s} {id : Str}

/-- A load that fails changes nothing, one that succeeds adds the model. -/
theorem load_cases (s : Backend) (id : Str) (bytes : Bytes) (fault : Bool) :
    (s.load id bytes fault).2.ok = false ∧ (s.load id bytes fault).1 = s ∨
      (s.load id bytes fault).2.ok = true ∧ id ∉ s.allocations ∧
        (s.load id bytes fault).1 = ⟨s.allocations.insert id bytes⟩ := by
  rw [load]
  split_ifs with hid hbytes hmem hfault
  · exact .inl ⟨rfl, rfl⟩
  · exact .inl ⟨rfl, rfl⟩
  · exact .inl ⟨rfl, rfl⟩
  · exact .inl ⟨rfl, rfl⟩
  · refine .inr ⟨rfl, hmem, ?_⟩
    rw [Table.emplace_of_notMem hmem]

/-- An unload that fails changes nothing, one that succeeds takes the model away. -/
theorem unload_cases (s : Backend) (id : Str) (fault : Bool) :
    (s.unload id fault).2.ok = false ∧ (s.unload id fault).1 = s ∨
      (s.unload id fault).2.ok = true ∧ (s.unload id fault).1 = ⟨s.allocations.erase id⟩ := by
  rw [unload]
  split_ifs with hid hfault
  · exact .inl ⟨rfl, rfl⟩
  · split <;> exact .inl ⟨rfl, rfl⟩
  · split
    · exact .inl ⟨rfl, rfl⟩
    · exact .inr ⟨rfl, rfl⟩

/-- Without a fault, unloading what is held takes it away. -/
theorem unload_of_mem (hid : validId id = true) (hmem : id ∈ s.allocations) :
    (s.unload id false).2.ok = true ∧ (s.unload id false).1 = ⟨s.allocations.erase id⟩ := by
  obtain ⟨bytes, hbytes⟩ := Finmap.mem_iff.1 hmem
  simp [unload, hid, hbytes, BackendOperationResult.ok]

/-- Without a fault, unloading takes away what is held, if it is. -/
theorem unload_eq (hid : validId id = true) : (s.unload id false).1 = ⟨s.allocations.erase id⟩ := by
  by_cases hmem : id ∈ s.allocations
  · exact (unload_of_mem hid hmem).2
  · rw [unload, hid, Finmap.lookup_eq_none.2 hmem, Table.erase_of_notMem hmem]
    rfl

/-- Without a fault, a model that is not held is loaded. -/
theorem load_of_notMem {bytes : Bytes} (hid : validId id = true) (hbytes : bytes ≠ 0)
    (hnew : id ∉ s.allocations) :
    (s.load id bytes false).2.ok = true ∧
      (s.load id bytes false).1 = ⟨s.allocations.insert id bytes⟩ := by
  simp [load, hid, hbytes, hnew, BackendOperationResult.ok, Table.emplace_of_notMem]

end Backend

/-! ## The model loader -/

/-- `ModelLoadError`, but for `None`. -/
inductive ModelLoadError
  | unavailable
  | sourceChanged
  | readFailure
  deriving DecidableEq

/-- `ModelLoader::load`, where the path is that of a regular file with the given size,
    or of none, and all of it can be read or not: the size of the data. -/
def ModelLoader.load (path : Str) (expectedBytes : Bytes) (fileSize : Option Bytes)
    (readable : Bool) : Except ModelLoadError Bytes :=
  if path.isEmpty || expectedBytes = 0 then .error .unavailable
  else
    match fileSize with
    | none => .error .unavailable
    | some fileSize =>
      if fileSize ≠ expectedBytes then .error .sourceChanged
      else if !readable then .error .readFailure
      else .ok fileSize

/-- What is read has the expected size. -/
theorem ModelLoader.eq_of_load {path : Str} {expectedBytes bytes : Bytes}
    {fileSize : Option Bytes} {readable : Bool}
    (h : load path expectedBytes fileSize readable = .ok bytes) : bytes = expectedBytes := by
  cases fileSize with
  | none =>
    rw [load] at h
    split_ifs at h
  | some fileSize =>
    rw [load] at h
    split_ifs at h with _ hsize
    obtain rfl := Except.ok.inj h
    exact not_not.1 hsize

end Gpumemd
