import Gpumemd.Accelerator.Interface
import Gpumemd.Library.Ledger

/-!
# The CUDA backend

`CUDABackend` (`src/backend/cuda_backend.cu`): a table of device allocations with their
pointers, under a mutex. The driver keeps a ledger of the memory of the device
(`CudaDevice`), and what it answers is an argument of the calls (`CudaAnswers`); what it
promises is that `cudaMalloc` returns a new pointer (`Promised`).

A load of data takes the mutex twice, once to allocate and once to copy (`copyData`). The
pointers in the table are live, and each stands for one allocation of the size in the
table (`Owned`), which no call of the backend breaks. So the backend stands for one whose
calls fail as the driver's do (`implements_cudaBackend`).
-/

namespace Gpumemd

open Library

namespace Accelerator

/-- A device pointer. The null pointer is `0`. -/
abbrev Pointer := ℕ

/-- The memory of the device. -/
structure CudaDevice where
  memory : Ledger Pointer := {}
  /-- The size of the latest allocation at each pointer. -/
  size : Pointer → Bytes := fun _ => 0
  /-- More has been copied to an allocation than it holds. -/
  overrun : Bool := false

namespace CudaDevice

variable (d : CudaDevice) (pointer : Pointer)

/-- `cudaMalloc`, where it succeeds. -/
def malloc (bytes : Bytes) : CudaDevice :=
  { d with memory := d.memory.grant pointer, size := Function.update d.size pointer bytes }

/-- `cudaMemcpy` to the device. -/
def memcpy (size : Bytes) : CudaDevice :=
  { d with memory := d.memory.use pointer, overrun := d.overrun || d.size pointer < size }

/-- `cudaIpcGetMemHandle`. -/
def ipcGetMemHandle : CudaDevice := { d with memory := d.memory.use pointer }

/-- `cudaFree`. -/
def free (freed : Bool) : CudaDevice := { d with memory := d.memory.giveBack pointer freed }

end CudaDevice

/-- `CUDABackend::Impl::Allocation`. -/
structure CudaAllocation where
  pointer : Pointer
  bytes : Bytes
  deriving DecidableEq

/-- What the driver answers to a call. -/
structure CudaAnswers where
  /-- The free memory that `cudaMemGetInfo` reports, if it succeeds. -/
  freeBytes : Option Bytes := none
  /-- What `cudaMalloc` returns, if it succeeds. -/
  pointer : Option Pointer := none
  copied : Bool := true
  freed : Bool := true
  /-- What `cudaIpcGetMemHandle` returns, if it succeeds. -/
  handle : Option Str := none

/-- The state of a `CUDABackend`, and of its device. -/
structure CudaBackend where
  allocations : Table Str CudaAllocation := ∅
  device : CudaDevice := {}

namespace CudaBackend

variable (s : CudaBackend)

/-- `CUDABackend::load`. A size is a `std::size_t`, so that none is too large for one. -/
def load (id : Str) (bytes : Bytes) (answers : CudaAnswers) : CudaBackend × BackendOperationResult :=
  if !Backend.validId id then (s, ⟨.invalidModelId, 0⟩)
  else if bytes = 0 then (s, ⟨.invalidSize, 0⟩)
  else if id ∈ s.allocations then (s, ⟨.alreadyLoaded, 0⟩)
  else
    match answers.freeBytes with
    | none => (s, ⟨.runtimeFailure, 0⟩)
    | some freeBytes =>
      if bytes > freeBytes then (s, ⟨.allocationFailed, 0⟩)
      else
        match answers.pointer with
        | none => (s, ⟨.allocationFailed, 0⟩)
        | some pointer =>
          ({ allocations := Table.emplace s.allocations id ⟨pointer, bytes⟩
             device := s.device.malloc pointer bytes }, ⟨.none, bytes⟩)

/-- The end of `CUDABackend::load` of data, under the second lock. -/
def copyData (id : Str) (size : Bytes) (result : BackendOperationResult) (answers : CudaAnswers) :
    CudaBackend × BackendOperationResult :=
  match s.allocations.lookup id with
  | none => (s, ⟨.runtimeFailure, 0⟩)
  | some allocation =>
    let device := s.device.memcpy allocation.pointer size
    if !answers.copied then
      ({ allocations := s.allocations.erase id
         device := device.free allocation.pointer answers.freed }, ⟨.runtimeFailure, 0⟩)
    else ({ s with device }, result)

/-- `CUDABackend::load` of data, with nothing between its two locks. -/
def loadData (id : Str) (size : Bytes) (answers : CudaAnswers) :
    CudaBackend × BackendOperationResult :=
  let (s, result) := s.load id size answers
  if !result.ok then (s, result) else s.copyData id size result answers

/-- `CUDABackend::unload`. -/
def unload (id : Str) (answers : CudaAnswers) : CudaBackend × BackendOperationResult :=
  if !Backend.validId id then (s, ⟨.invalidModelId, 0⟩)
  else
    match s.allocations.lookup id with
    | none => (s, ⟨.notLoaded, 0⟩)
    | some allocation =>
      let device := s.device.free allocation.pointer answers.freed
      if !answers.freed then ({ s with device }, ⟨.runtimeFailure, 0⟩)
      else ({ allocations := s.allocations.erase id, device }, ⟨.none, allocation.bytes⟩)

/-- `CUDABackend::share`. -/
def share (id : Str) (answers : CudaAnswers) : CudaBackend × BackendShareResult :=
  match s.allocations.lookup id with
  | none => (s, ⟨.notLoaded, 0, []⟩)
  | some allocation =>
    let device := s.device.ipcGetMemHandle allocation.pointer
    match answers.handle with
    | none => ({ s with device }, ⟨.runtimeFailure, 0, []⟩)
    | some handle => ({ s with device }, ⟨.none, allocation.bytes, hexToken handle⟩)

/-- `CUDABackend::is_loaded`. -/
def isLoaded (id : Str) : Bool := id ∈ s.allocations

/-- `CUDABackend::snapshot`. -/
def snapshot : List (Str × Bytes) :=
  (Table.sortedEntries s.allocations).map fun entry => (entry.1, entry.2.bytes)

/-- The loop of `CUDABackend::~CUDABackend`, through the entries of the table. -/
def freeAll (device : CudaDevice) (freed : Str → Bool) : List (Str × CudaAllocation) → CudaDevice
  | [] => device
  | (id, allocation) :: entries =>
    freeAll
      (if allocation.pointer ≠ 0 then device.free allocation.pointer (freed id) else device)
      freed entries

/-- `CUDABackend::~CUDABackend`: what is left is the device, without a backend. -/
def destroy (freed : Str → Bool) : CudaBackend :=
  { device := freeAll s.device freed (Table.sortedEntries s.allocations) }

end CudaBackend

/-- `CUDABackend`. -/
def cudaBackend : AcceleratorBackend CudaBackend CudaAnswers where
  load := CudaBackend.load
  loadData := CudaBackend.loadData
  unload := CudaBackend.unload
  share := CudaBackend.share
  isLoaded := CudaBackend.isLoaded
  snapshot := CudaBackend.snapshot

namespace CudaBackend

/-- What the driver promises: that it allocates at a new pointer, which is not null. -/
def Promised (s : CudaBackend) (answers : CudaAnswers) : Prop :=
  ∀ pointer ∈ answers.pointer, pointer ≠ 0 ∧ pointer ∉ s.device.memory.live

instance (s : CudaBackend) (answers : CudaAnswers) : Decidable (s.Promised answers) :=
  decidable_of_iff
    (answers.pointer.all fun pointer => decide (pointer ≠ 0 ∧ pointer ∉ s.device.memory.live))
    (by simp [Promised, Option.all_eq_true])

/-- The pointers in the table. -/
def held (s : CudaBackend) : Multiset Pointer := Table.image (·.pointer) s.allocations

/-- The pointers in the table are live, each stands for an allocation of its own, of the
    size in the table, and no call has named another one. What is live beside them is lost. -/
structure Owned (s : CudaBackend) (lost : Multiset Pointer) : Prop where
  accounts : s.device.memory.Accounts s.held lost
  distinct : s.device.memory.live.Nodup
  sized : ∀ id allocation, s.allocations.lookup id = some allocation →
    allocation.pointer ≠ 0 ∧ s.device.size allocation.pointer = allocation.bytes

variable {s : CudaBackend} {lost : Multiset Pointer} {id : Str} {bytes size : Bytes}
  {answers : CudaAnswers} {allocation : CudaAllocation} {result : BackendOperationResult}

/-! ## What the calls do -/

/-- A load fails and changes nothing, or allocates at the pointer that it gets. -/
theorem load_cases (s : CudaBackend) (id : Str) (bytes : Bytes) (answers : CudaAnswers) :
    (∃ error, error ≠ .none ∧ s.load id bytes answers = (s, ⟨error, 0⟩)) ∨
      ∃ pointer, answers.pointer = some pointer ∧ bytes ≠ 0 ∧ id ∉ s.allocations ∧
        s.load id bytes answers =
          ({ allocations := s.allocations.insert id ⟨pointer, bytes⟩
             device := s.device.malloc pointer bytes }, ⟨.none, bytes⟩) := by
  rw [load]
  split_ifs with hid hbytes hmem
  · exact .inl ⟨_, by decide, rfl⟩
  · exact .inl ⟨_, by decide, rfl⟩
  · exact .inl ⟨_, by decide, rfl⟩
  · cases answers.freeBytes with
    | none => exact .inl ⟨_, by decide, rfl⟩
    | some freeBytes =>
      dsimp only
      split_ifs
      · exact .inl ⟨_, by decide, rfl⟩
      · cases answers.pointer with
        | none => exact .inl ⟨_, by decide, rfl⟩
        | some pointer =>
          refine .inr ⟨pointer, rfl, hbytes, hmem, ?_⟩
          dsimp only
          rw [Table.emplace_of_notMem hmem]

/-- An unload fails and changes nothing, or frees the pointer in the table, which stays there
    if the driver fails to. -/
theorem unload_cases (s : CudaBackend) (id : Str) (answers : CudaAnswers) :
    (∃ error, error ≠ .none ∧ s.unload id answers = (s, ⟨error, 0⟩)) ∨
      ∃ allocation, s.allocations.lookup id = some allocation ∧
        (answers.freed = false ∧ s.unload id answers =
            ({ s with device := s.device.free allocation.pointer false }, ⟨.runtimeFailure, 0⟩) ∨
          answers.freed = true ∧ s.unload id answers =
            ({ allocations := s.allocations.erase id
               device := s.device.free allocation.pointer true }, ⟨.none, allocation.bytes⟩)) := by
  rw [unload]
  by_cases hid : (!Backend.validId id) = true
  · rw [if_pos hid]
    exact .inl ⟨_, by decide, rfl⟩
  · rw [if_neg hid]
    cases hlookup : s.allocations.lookup id with
    | none => exact .inl ⟨_, by decide, rfl⟩
    | some allocation =>
      cases hfreed : answers.freed with
      | false => exact .inr ⟨allocation, rfl, .inl ⟨rfl, rfl⟩⟩
      | true => exact .inr ⟨allocation, rfl, .inr ⟨rfl, rfl⟩⟩

theorem held_insert {t : Table Str CudaAllocation} (hnew : id ∉ t) {device : CudaDevice} :
    held ⟨t.insert id allocation, device⟩ = allocation.pointer ::ₘ held ⟨t, device⟩ :=
  Table.image_insert hnew

theorem held_erase (device : CudaDevice) (hlookup : s.allocations.lookup id = some allocation) :
    s.held = allocation.pointer ::ₘ held ⟨s.allocations.erase id, device⟩ :=
  (Table.image_erase hlookup).symm

theorem pointer_mem_held (hlookup : s.allocations.lookup id = some allocation) :
    allocation.pointer ∈ s.held :=
  Table.mem_image.2 ⟨id, allocation, hlookup, rfl⟩

namespace Owned

/-- Naming a pointer of the table leaves the ledger alone. -/
theorem use (h : Owned s lost) (hlookup : s.allocations.lookup id = some allocation) :
    s.device.memory.use allocation.pointer = s.device.memory :=
  h.accounts.use (pointer_mem_held hlookup)

theorem of_memory {device : CudaDevice} (h : Owned s lost)
    (hmemory : device.memory = s.device.memory) (hsize : device.size = s.device.size) :
    Owned { s with device } lost :=
  ⟨hmemory ▸ h.accounts, hmemory ▸ h.distinct, hsize ▸ h.sized⟩

/-- A new allocation is recorded. -/
theorem malloc (h : Owned s lost) {pointer : Pointer} (hnull : pointer ≠ 0)
    (hfresh : pointer ∉ s.device.memory.live) (hnew : id ∉ s.allocations) :
    Owned { allocations := s.allocations.insert id ⟨pointer, bytes⟩
            device := s.device.malloc pointer bytes } lost := by
  refine ⟨?_, Multiset.nodup_cons.2 ⟨hfresh, h.distinct⟩, fun id' allocation hlookup => ?_⟩
  · rw [held_insert hnew]
    exact h.accounts.grant pointer
  · rw [Table.lookup_insert] at hlookup
    split_ifs at hlookup
    · obtain rfl := Option.some.inj hlookup
      exact ⟨hnull, Function.update_self _ _ _⟩
    · -- what is recorded already is elsewhere
      obtain ⟨hnull', hsize⟩ := h.sized id' allocation hlookup
      have hne : allocation.pointer ≠ pointer := fun heq =>
        hfresh (heq ▸ h.accounts.mem_live (pointer_mem_held hlookup))
      exact ⟨hnull', (Function.update_of_ne hne _ _).trans hsize⟩

/-- Where a pointer leaves the table, it is freed, or lost. -/
theorem free (h : Owned s lost) (hlookup : s.allocations.lookup id = some allocation)
    (freed : Bool) :
    Owned { allocations := s.allocations.erase id
            device := s.device.free allocation.pointer freed }
      (if freed then lost else allocation.pointer ::ₘ lost) := by
  have haccounts := h.accounts
  rw [held_erase (s.device.free allocation.pointer freed) hlookup] at haccounts
  refine ⟨haccounts.drop freed, ?_, fun id' allocation' hlookup' => ?_⟩
  · show (if freed then s.device.memory.live.erase allocation.pointer
      else s.device.memory.live).Nodup
    cases freed with
    | true => exact h.distinct.erase _
    | false => exact h.distinct
  · rw [Table.lookup_erase] at hlookup'
    split_ifs at hlookup'
    exact h.sized id' allocation' hlookup'

theorem load (h : Owned s lost) (hpromised : s.Promised answers) :
    Owned (s.load id bytes answers).1 lost := by
  rcases load_cases s id bytes answers with ⟨error, -, hload⟩ | ⟨pointer, hpointer, -, hnew, hload⟩
  · rw [hload]
    exact h
  · rw [hload]
    obtain ⟨hnull, hfresh⟩ := hpromised pointer hpointer
    exact h.malloc hnull hfresh hnew

/-- The copy names a pointer of the table. If it fails, the pointer leaves the table. -/
theorem copyData (h : Owned s lost) :
    ∃ lost', Owned (s.copyData id size result answers).1 lost' ∧
      (answers.freed = true → lost' = lost) := by
  rw [CudaBackend.copyData]
  split
  next => exact ⟨lost, h, fun _ => rfl⟩
  next allocation hlookup =>
    have hcopied : Owned { s with device := s.device.memcpy allocation.pointer size } lost :=
      h.of_memory (h.use hlookup) rfl
    dsimp only
    split_ifs
    · refine ⟨_, hcopied.free hlookup answers.freed, fun hfreed => ?_⟩
      rw [hfreed, if_pos rfl]
    · exact ⟨lost, hcopied, fun _ => rfl⟩

theorem loadData (h : Owned s lost) (hpromised : s.Promised answers) :
    ∃ lost', Owned (s.loadData id size answers).1 lost' ∧
      (answers.freed = true → lost' = lost) := by
  have hload : Owned (s.load id size answers).1 lost := h.load hpromised
  rw [CudaBackend.loadData]
  dsimp only
  split_ifs
  · exact ⟨lost, hload, fun _ => rfl⟩
  · exact hload.copyData

theorem unload (h : Owned s lost) : Owned (s.unload id answers).1 lost := by
  rcases unload_cases s id answers with ⟨error, -, hunload⟩ |
    ⟨allocation, hlookup, ⟨-, hunload⟩ | ⟨-, hunload⟩⟩
  · rw [hunload]
    exact h
  · -- the pointer stays in the table
    rw [hunload]
    exact h.of_memory (h.accounts.refuse (pointer_mem_held hlookup)) rfl
  · rw [hunload]
    exact h.free hlookup true

theorem share (h : Owned s lost) : Owned (s.share id answers).1 lost := by
  rw [CudaBackend.share]
  split
  next => exact h
  next allocation hlookup =>
    have hnamed : Owned { s with device := s.device.ipcGetMemHandle allocation.pointer } lost :=
      h.of_memory (h.use hlookup) rfl
    split <;> exact hnamed

end Owned

/-- The destructor frees what is in the table, once. -/
theorem accounts_freeAll {device : CudaDevice} {entries : List (Str × CudaAllocation)}
    (freed : Str → Bool)
    (haccounts : device.memory.Accounts (entries.map fun entry => entry.2.pointer : List Pointer) lost)
    (hdistinct : device.memory.live.Nodup) (hnull : ∀ entry ∈ entries, entry.2.pointer ≠ 0) :
    ∃ lost', (freeAll device freed entries).memory.Accounts 0 lost' ∧
      (freeAll device freed entries).memory.live.Nodup ∧
      ((∀ entry ∈ entries, freed entry.1 = true) → lost' = lost) := by
  induction entries generalizing device lost with
  | nil => exact ⟨lost, haccounts, hdistinct, fun _ => rfl⟩
  | cons entry entries ih =>
    obtain ⟨id, allocation⟩ := entry
    rw [List.forall_mem_cons] at hnull
    have hfirst : device.memory.Accounts
        (allocation.pointer ::ₘ (entries.map fun entry => entry.2.pointer : List Pointer)) lost :=
      haccounts
    have hdistinct' : (device.free allocation.pointer (freed id)).memory.live.Nodup := by
      show (if freed id then device.memory.live.erase allocation.pointer
        else device.memory.live).Nodup
      cases freed id with
      | true => exact hdistinct.erase _
      | false => exact hdistinct
    obtain ⟨lost', haccounts', hnodup', hlost'⟩ := ih (hfirst.drop (freed id)) hdistinct' hnull.2
    rw [freeAll, if_pos hnull.1]
    refine ⟨lost', haccounts', hnodup', fun hfreed => ?_⟩
    rw [List.forall_mem_cons] at hfreed
    rw [hlost' hfreed.2, hfreed.1, if_pos rfl]

/-- What a destroyed backend leaves behind is what it had lost, and what the driver fails to
    free. -/
theorem Owned.destroy (h : Owned s lost) (freed : Str → Bool) :
    ∃ lost', Owned (s.destroy freed) lost' ∧ ((∀ id, freed id = true) → lost' = lost) := by
  have haccounts := h.accounts
  rw [held, ← Table.coe_map_sortedEntries] at haccounts
  have hnull : ∀ entry ∈ Table.sortedEntries s.allocations, entry.2.pointer ≠ 0 := by
    rintro ⟨id, allocation⟩ hentry
    exact (h.sized id allocation (Table.mem_sortedEntries.1 hentry)).1
  obtain ⟨lost', haccounts', hdistinct', hlost'⟩ :=
    accounts_freeAll freed haccounts h.distinct hnull
  refine ⟨lost', ⟨haccounts', hdistinct', ?_⟩, fun hfreed => hlost' fun entry _ => hfreed entry.1⟩
  intro id allocation hlookup
  cases hlookup

/-! ## What the backend stands for -/

/-- The backend holds what the other one does, at pointers that are its own. -/
def Abstracts (s : CudaBackend) (b : Backend) : Prop :=
  (∃ lost, Owned s lost) ∧
    ∀ id, b.allocations.lookup id = (s.allocations.lookup id).map (·.bytes)

variable {b : Backend}

theorem Abstracts.mem_iff (h : Abstracts s b) : id ∈ b.allocations ↔ id ∈ s.allocations := by
  rw [← Finmap.lookup_isSome, ← Finmap.lookup_isSome, h.2, Option.isSome_map]

theorem matches_load (h : Abstracts s b) (hpromised : s.Promised answers)
    (hid : Backend.validId id = true) :
    Matches Abstracts (s.load id bytes answers)
      (b.load id bytes (!(s.load id bytes answers).2.ok)) := by
  have howned : ∃ lost, Owned (s.load id bytes answers).1 lost :=
    h.1.imp fun _ hlost => hlost.load hpromised
  rcases load_cases s id bytes answers with ⟨error, herror, hload⟩ |
    ⟨pointer, -, hbytes, hnew, hload⟩
  · have hfailed : (!(⟨error, 0⟩ : BackendOperationResult).ok) = true := by
      simpa [BackendOperationResult.ok] using herror
    rw [hload, hfailed]
    exact .load_refused h herror
  · rw [hload] at howned ⊢
    obtain ⟨hok, hstate⟩ := Backend.load_of_notMem hid hbytes (h.mem_iff.not.2 hnew)
    have hamount : (b.load id bytes false).2.amount = bytes := by
      simp [Backend.load, hid, hbytes, h.mem_iff.not.2 hnew]
    refine ⟨?_, hok, hamount⟩
    show Abstracts _ (b.load id bytes false).1
    rw [hstate]
    refine ⟨howned, fun id' => ?_⟩
    rw [Table.lookup_insert, Table.lookup_insert, h.2]
    split_ifs
    · rfl
    · rfl

theorem Abstracts.of_allocations {t : CudaBackend} (h : Abstracts s b)
    (hallocations : t.allocations = s.allocations) (howned : ∃ lost, Owned t lost) :
    Abstracts t b :=
  ⟨howned, fun id => hallocations ▸ h.2 id⟩

theorem matches_loadData (h : Abstracts s b) (hpromised : s.Promised answers)
    (hid : Backend.validId id = true) :
    Matches Abstracts (s.loadData id size answers)
      (b.load id size (!(s.loadData id size answers).2.ok)) := by
  have howned : ∃ lost, Owned (s.loadData id size answers).1 lost := by
    obtain ⟨⟨lost, hlost⟩, -⟩ := h
    exact hlost.loadData hpromised |>.imp fun _ hlost' => hlost'.1
  have hmatches : Matches Abstracts (s.load id size answers)
      (b.load id size (!(s.load id size answers).2.ok)) := matches_load h hpromised hid
  have hcall : s.loadData id size answers =
      if !(s.load id size answers).2.ok then s.load id size answers
      else (s.load id size answers).1.copyData id size (s.load id size answers).2 answers := by
    rw [loadData]
  cases hok : (s.load id size answers).2.ok with
  | false =>
    have hfailed : s.loadData id size answers = s.load id size answers := by
      rw [hcall, hok]
      rfl
    rw [hfailed]
    exact hmatches
  | true =>
    rcases load_cases s id size answers with ⟨error, herror, hload⟩ |
      ⟨pointer, -, -, hnew, hload⟩
    · rw [hload] at hok
      exact absurd (by simpa [BackendOperationResult.ok] using hok) herror
    · -- what has just been allocated is there to be copied to
      have hcopy : s.loadData id size answers =
          (s.load id size answers).1.copyData id size (s.load id size answers).2 answers := by
        rw [hcall, hok]
        rfl
      have hlookup : (s.load id size answers).1.allocations.lookup id = some ⟨pointer, size⟩ := by
        rw [hload]
        exact Finmap.lookup_insert _
      rw [copyData, hlookup] at hcopy
      dsimp only at hcopy
      cases hcopied : answers.copied with
      | true =>
        rw [hcopied] at hcopy
        rw [hcopy] at howned ⊢
        exact ⟨hmatches.state.of_allocations rfl howned, hmatches.ok, hmatches.amount⟩
      | false =>
        rw [hcopied] at hcopy
        rw [hcopy] at howned ⊢
        refine .load_refused (h.of_allocations ?_ howned) (by decide)
        show (s.load id size answers).1.allocations.erase id = s.allocations
        rw [hload, ← Table.emplace_of_notMem hnew]
        exact Table.erase_emplace hnew

theorem matches_unload (h : Abstracts s b) (hid : Backend.validId id = true) :
    Matches Abstracts (s.unload id answers) (b.unload id (!(s.unload id answers).2.ok)) := by
  have howned : ∃ lost, Owned (s.unload id answers).1 lost := h.1.imp fun _ hlost => hlost.unload
  rcases unload_cases s id answers with ⟨error, herror, hunload⟩ |
    ⟨allocation, hlookup, ⟨-, hunload⟩ | ⟨-, hunload⟩⟩
  · have hfailed : (!(⟨error, 0⟩ : BackendOperationResult).ok) = true := by
      simpa [BackendOperationResult.ok] using herror
    rw [hunload, hfailed]
    exact .unload_refused h herror
  · rw [hunload] at howned ⊢
    exact .unload_refused (h.of_allocations rfl howned) (by decide)
  · rw [hunload] at howned ⊢
    have hheld : b.allocations.lookup id = some allocation.bytes := by
      rw [h.2, hlookup, Option.map_some]
    have hcall : b.unload id false = (⟨b.allocations.erase id⟩, ⟨.none, allocation.bytes⟩) := by
      simp [Backend.unload, hid, hheld]
    show Matches Abstracts _ (b.unload id false)
    rw [hcall]
    refine ⟨⟨howned, fun id' => ?_⟩, rfl, rfl⟩
    rw [Table.lookup_erase, Table.lookup_erase, h.2]
    split_ifs
    · rfl
    · rfl

theorem snapshot_eq (h : Abstracts s b) : s.snapshot = b.snapshot := by
  have hkeys : Table.sortedKeys b.allocations = Table.sortedKeys s.allocations := by
    have hsame : b.allocations.keys = s.allocations.keys := by
      ext id
      rw [Finmap.mem_keys, Finmap.mem_keys, h.mem_iff]
    rw [Table.sortedKeys, Table.sortedKeys, hsame]
  rw [snapshot, Backend.snapshot, Table.sortedEntries, Table.sortedEntries, hkeys,
    List.map_filterMap]
  refine List.filterMap_congr fun id _ => ?_
  rw [h.2, Option.map_map, Option.map_map]
  rfl

end CudaBackend

open CudaBackend in
/-- The CUDA backend stands for one whose calls fail as the driver's do. -/
theorem implements_cudaBackend : Implements cudaBackend Promised Abstracts where
  load _ h hpromised hid := matches_load h hpromised hid
  loadData _ h hpromised hid := matches_loadData h hpromised hid
  unload h _ hid := matches_unload h hid
  share {s b} answers id h := by
    have howned : ∃ lost, Owned (s.share id answers).1 lost := h.1.imp fun _ hlost => hlost.share
    have hbytes := h.2 id
    refine ⟨?_, .cuda answers.handle, ?_⟩
    · refine h.of_allocations ?_ howned
      show (s.share id answers).1.allocations = s.allocations
      rw [CudaBackend.share]
      split
      · rfl
      · dsimp only
        split <;> rfl
    · show b.share id (.cuda answers.handle) = (s.share id answers).2.narrow
      rw [Backend.share, CudaBackend.share, hbytes]
      cases s.allocations.lookup id with
      | none => rfl
      | some allocation => cases answers.handle <;> rfl
  isLoaded id h := by
    show decide (id ∈ _) = decide (id ∈ _)
    rw [decide_eq_decide, h.mem_iff]
  snapshot h := snapshot_eq h

end Accelerator

end Gpumemd
