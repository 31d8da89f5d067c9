import Gpumemd.Accelerator.Interface

/-!
# The Metal backend

`MetalBackend` (`src/backend/metal_backend.mm`): a table of buffers, which are released when
they leave it. It needs a device, which may be missing, and the device may fail to allocate
a buffer. Of the ids, it only checks the length.
-/

namespace Gpumemd

open Library

namespace Accelerator

/-- The state of a `MetalBackend`: whether there is a device, and the lengths of the
    buffers. -/
structure MetalBackend where
  device : Bool
  buffers : Table Str Bytes := ∅

namespace MetalBackend

variable (s : MetalBackend)

/-- The check of the ids. -/
def validId (id : Str) : Bool := !(id.isEmpty || id.length > 64)

/-- `MetalBackend::load`, where the device allocates a buffer or not. A size is an
    `NSUInteger`, so that none is too large for one. -/
def load (id : Str) (bytes : Bytes) (allocated : Bool) : MetalBackend × BackendOperationResult :=
  if !validId id then (s, ⟨.invalidModelId, 0⟩)
  else if bytes = 0 then (s, ⟨.invalidSize, 0⟩)
  else if !s.device then (s, ⟨.deviceUnavailable, 0⟩)
  else if id ∈ s.buffers then (s, ⟨.alreadyLoaded, 0⟩)
  else if !allocated then (s, ⟨.allocationFailed, 0⟩)
  else ({ s with buffers := Table.emplace s.buffers id bytes }, ⟨.none, bytes⟩)

/-- `MetalBackend::load` of data, with nothing between its two locks. -/
def loadData (id : Str) (size : Bytes) (allocated : Bool) : MetalBackend × BackendOperationResult :=
  let (s, result) := s.load id size allocated
  if !result.ok then (s, result)
  else
    match s.buffers.lookup id with
    | none => (s, ⟨.runtimeFailure, 0⟩)
    | some _ => (s, result)

/-- `MetalBackend::unload`. -/
def unload (id : Str) : MetalBackend × BackendOperationResult :=
  if !validId id then (s, ⟨.invalidModelId, 0⟩)
  else
    match s.buffers.lookup id with
    | none => (s, ⟨.notLoaded, 0⟩)
    | some bytes => ({ s with buffers := s.buffers.erase id }, ⟨.none, bytes⟩)

end MetalBackend

/-- `MetalBackend`. -/
def metalBackend : AcceleratorBackend MetalBackend Bool where
  load := MetalBackend.load
  loadData := MetalBackend.loadData
  unload s id _ := s.unload id
  share s _ _ := (s, ⟨.unsupported, 0, []⟩)
  isLoaded s id := id ∈ s.buffers
  snapshot s := Table.sortedEntries s.buffers

namespace MetalBackend

/-- The buffers are what the other backend holds. -/
def Abstracts (s : MetalBackend) (b : Backend) : Prop := b.allocations = s.buffers

variable {s : MetalBackend} {b : Backend} {id : Str} {bytes : Bytes} {allocated : Bool}

/-- The ids that the other backends accept are accepted, and more. -/
theorem validId_of_validId (h : Backend.validId id = true) : validId id = true := by
  obtain ⟨hne, hlength, -⟩ := nameShape_iff.1 h
  simp [validId, hne, hlength]

/-- A load fails and changes nothing, or adds a buffer. -/
theorem load_cases (s : MetalBackend) (id : Str) (bytes : Bytes) (allocated : Bool) :
    (∃ error, error ≠ .none ∧ s.load id bytes allocated = (s, ⟨error, 0⟩)) ∨
      bytes ≠ 0 ∧ id ∉ s.buffers ∧
        s.load id bytes allocated =
          ({ s with buffers := s.buffers.insert id bytes }, ⟨.none, bytes⟩) := by
  rw [load]
  split_ifs with _ hbytes _ hmem
  · exact .inl ⟨_, by decide, rfl⟩
  · exact .inl ⟨_, by decide, rfl⟩
  · exact .inl ⟨_, by decide, rfl⟩
  · exact .inl ⟨_, by decide, rfl⟩
  · exact .inl ⟨_, by decide, rfl⟩
  · exact .inr ⟨hbytes, hmem, by rw [Table.emplace_of_notMem hmem]⟩

theorem loadData_eq (s : MetalBackend) (id : Str) (bytes : Bytes) (allocated : Bool) :
    s.loadData id bytes allocated = s.load id bytes allocated := by
  rw [loadData]
  rcases load_cases s id bytes allocated with ⟨error, herror, hload⟩ | ⟨-, -, hload⟩
  · have hfailed : (⟨error, 0⟩ : BackendOperationResult).ok = false := by
      simpa [BackendOperationResult.ok] using herror
    rw [hload]
    dsimp only
    rw [hfailed]
    rfl
  · -- the buffer that has just been added is found
    rw [hload]
    dsimp only
    rw [Finmap.lookup_insert]
    rfl

theorem matches_load (h : Abstracts s b) (hid : Backend.validId id = true) :
    Matches Abstracts (s.load id bytes allocated)
      (b.load id bytes (!(s.load id bytes allocated).2.ok)) := by
  rcases load_cases s id bytes allocated with ⟨error, herror, hload⟩ | ⟨hbytes, hnew, hload⟩
  · have hfailed : (!(⟨error, 0⟩ : BackendOperationResult).ok) = true := by
      simpa [BackendOperationResult.ok] using herror
    rw [hload, hfailed]
    exact .load_refused h herror
  · have hsame : b.allocations = s.buffers := h
    have hnew' : id ∉ b.allocations := hsame ▸ hnew
    have hcall : b.load id bytes false = (⟨b.allocations.insert id bytes⟩, ⟨.none, bytes⟩) := by
      simp [Backend.load, hid, hbytes, hnew', Table.emplace_of_notMem]
    rw [hload]
    show Matches Abstracts _ (b.load id bytes false)
    rw [hcall]
    refine ⟨?_, rfl, rfl⟩
    show b.allocations.insert id bytes = s.buffers.insert id bytes
    rw [hsame]

theorem matches_unload (h : Abstracts s b) (hid : Backend.validId id = true) :
    Matches Abstracts (s.unload id) (b.unload id (!(s.unload id).2.ok)) := by
  have hsame : b.allocations = s.buffers := h
  rw [unload, validId_of_validId hid]
  cases hlookup : s.buffers.lookup id with
  | none => exact .unload_refused h (by decide)
  | some bytes =>
    have hcall : b.unload id false = (⟨b.allocations.erase id⟩, ⟨.none, bytes⟩) := by
      simp [Backend.unload, hid, hsame, hlookup]
    show Matches Abstracts _ (b.unload id false)
    rw [hcall]
    refine ⟨?_, rfl, rfl⟩
    show b.allocations.erase id = s.buffers.erase id
    rw [hsame]

end MetalBackend

/-- The Metal backend stands for one whose calls fail as its device does, on the ids that
    the daemon uses. -/
theorem implements_metalBackend :
    Implements metalBackend (fun _ _ => True) MetalBackend.Abstracts where
  load _ h _ hid := MetalBackend.matches_load h hid
  loadData {s b answers id} size h _ hid := by
    show Matches _ (s.loadData id size answers) (b.load id size (!(s.loadData id size answers).2.ok))
    rw [MetalBackend.loadData_eq]
    exact MetalBackend.matches_load h hid
  unload h _ hid := MetalBackend.matches_unload h hid
  share _ _ h := ⟨h, .mock, rfl⟩
  isLoaded id h := by
    show decide (id ∈ _) = decide (id ∈ _)
    rw [h]
  snapshot h := by
    show Table.sortedEntries _ = Table.sortedEntries _
    rw [h]

end Accelerator

end Gpumemd
