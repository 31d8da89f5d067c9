import Mathlib.Data.List.Sort
import Gpumemd.Basic
import Gpumemd.Library.Machine

/-!
# The memory allocator

`MemoryAllocator` (`src/core/memory_allocator.cpp`): the ranges of bytes that live
allocations occupy. The strategy `Direct` only counts; `Pool` keeps a list of free
blocks, from which an allocation takes the front of the first one that is large enough,
and to which a release gives its range back, joining it with the blocks it touches.

The field `wrapped` records whether an arithmetic operation on offsets and sizes has
wrapped, and is never read by the code.
-/

namespace Gpumemd

open Library

/-- `AllocationStrategy`. -/
inductive AllocationStrategy
  | direct
  | pool
  deriving DecidableEq

/-- `AllocatorError`. -/
inductive AllocatorError
  | none
  | invalidId
  | invalidSize
  | duplicateAllocation
  | unknownAllocation
  | outOfMemory
  deriving DecidableEq

/-- `AllocationResult`. -/
structure AllocationResult where
  error : AllocatorError
  offset : Bytes
  bytes : Bytes
  deriving DecidableEq

/-- `AllocationResult::ok`. -/
def AllocationResult.ok (result : AllocationResult) : Bool := result.error == .none

/-- `FreeBlock`. -/
structure FreeBlock where
  offset : Bytes
  bytes : Bytes
  deriving DecidableEq

/-- `AllocationRecord`. -/
structure AllocationRecord where
  id : Str
  offset : Bytes
  bytes : Bytes
  deriving DecidableEq

/-- The state of a `MemoryAllocator`. -/
structure MemoryAllocator where
  capacity : Bytes
  strategy : AllocationStrategy
  used : Bytes := 0
  directNextOffset : Bytes := 0
  freeBlocks : List FreeBlock
  allocations : List AllocationRecord := []
  /-- An operation on offsets and sizes has wrapped. -/
  wrapped : Bool := false
  deriving DecidableEq

namespace MemoryAllocator

/-- The constructor: `std::invalid_argument` for no capacity. -/
def create (capacity : Bytes) (strategy : AllocationStrategy) : Except String MemoryAllocator :=
  if capacity = 0 then .error "allocator capacity must be positive"
  else .ok { capacity := capacity, strategy := strategy, freeBlocks := [⟨0, capacity⟩] }

theorem eq_of_create {capacity : Bytes} {strategy : AllocationStrategy} {s : MemoryAllocator}
    (h : create capacity strategy = .ok s) :
    s = { capacity := capacity, strategy := strategy, freeBlocks := [⟨0, capacity⟩] } := by
  rw [create] at h
  split_ifs at h
  exact (Except.ok.inj h).symm

/-- `MemoryAllocator::valid_id`. -/
def validId (id : Str) : Bool := nameShape id

/-- Whether `left + right` wraps. -/
def addWraps (left right : Bytes) : Bool := UInt64.size ≤ left.toNat + right.toNat

variable (s : MemoryAllocator)

/-! ## `allocate` -/

/-- Takes `bytes` from the front of the first free block that has as many: the block as
    it was, and the blocks that are left. -/
def carve (bytes : Bytes) : List FreeBlock → Option (FreeBlock × List FreeBlock)
  | [] => none
  | block :: blocks =>
    if block.bytes ≥ bytes then
      let rest : FreeBlock := ⟨block.offset + bytes, block.bytes - bytes⟩
      some (block, if rest.bytes = 0 then blocks else rest :: blocks)
    else (carve bytes blocks).map fun (found, left) => (found, block :: left)

/-- The end of `allocate`: records the allocation. -/
def record (id : Str) (offset bytes : Bytes) : MemoryAllocator × AllocationResult :=
  ({ s with
    allocations := s.allocations ++ [⟨id, offset, bytes⟩]
    used := s.used + bytes
    wrapped := s.wrapped || addWraps s.used bytes }, ⟨.none, offset, bytes⟩)

/-- `allocate` with the strategy `Direct`, after its checks. -/
def allocateDirect (id : Str) (bytes : Bytes) : MemoryAllocator × AllocationResult :=
  let s := { s with wrapped := s.wrapped || s.capacity < s.used }
  if bytes > s.capacity - s.used then (s, ⟨.outOfMemory, 0, 0⟩)
  else
    let offset := s.directNextOffset
    { s with
      directNextOffset := s.directNextOffset + bytes
      wrapped := s.wrapped || addWraps s.directNextOffset bytes }.record id offset bytes

/-- `allocate` with the strategy `Pool`, after its checks. The size that is left of the
    block cannot wrap: the block is large enough. -/
def allocatePool (id : Str) (bytes : Bytes) : MemoryAllocator × AllocationResult :=
  match carve bytes s.freeBlocks with
  | none => (s, ⟨.outOfMemory, 0, 0⟩)
  | some (block, freeBlocks) =>
    { s with
      freeBlocks
      wrapped := s.wrapped || addWraps block.offset bytes }.record id block.offset bytes

/-- `MemoryAllocator::allocate`. -/
def allocate (id : Str) (bytes : Bytes) : MemoryAllocator × AllocationResult :=
  if !validId id then (s, ⟨.invalidId, 0, 0⟩)
  else if bytes = 0 then (s, ⟨.invalidSize, 0, 0⟩)
  else if s.allocations.any fun allocation => allocation.id == id then
    (s, ⟨.duplicateAllocation, 0, 0⟩)
  else
    match s.strategy with
    | .direct => s.allocateDirect id bytes
    | .pool => s.allocatePool id bytes

/-! ## `release` -/

/-- The loop of `coalesce_locked`, where `back` is the last of the merged blocks, and
    whether an addition in it wraps. -/
def coalesceFrom : FreeBlock → List FreeBlock → List FreeBlock × Bool
  | back, [] => ([back], false)
  | back, block :: blocks =>
    if back.offset + back.bytes = block.offset then
      let (merged, wrapped) := coalesceFrom ⟨back.offset, back.bytes + block.bytes⟩ blocks
      (merged, wrapped || addWraps back.offset back.bytes || addWraps back.bytes block.bytes)
    else
      let (merged, wrapped) := coalesceFrom block blocks
      (back :: merged, wrapped || addWraps back.offset back.bytes)

/-- The loop of `coalesce_locked` from its start. -/
def coalesce : List FreeBlock → List FreeBlock × Bool
  | [] => ([], false)
  | block :: blocks => coalesceFrom block blocks

/-- `coalesce_locked`. Where two blocks had the same offset, `std::sort` might order them
    in another way. -/
def coalesceLocked : MemoryAllocator :=
  let sorted := s.freeBlocks.insertionSort fun left right => left.offset ≤ right.offset
  { s with
    freeBlocks := (coalesce sorted).1
    wrapped := s.wrapped || (coalesce sorted).2 }

/-- What `release` does with the range of the allocation: with the strategy `Pool`, it
    becomes a free block again. -/
def giveBack (block : FreeBlock) : MemoryAllocator :=
  match s.strategy with
  | .direct => s
  | .pool => coalesceLocked { s with freeBlocks := s.freeBlocks ++ [block] }

/-- `MemoryAllocator::release`. -/
def release (id : Str) : MemoryAllocator × AllocationResult :=
  match s.allocations.find? fun allocation => allocation.id == id with
  | none => (s, ⟨.unknownAllocation, 0, 0⟩)
  | some allocation =>
    let s := s.giveBack ⟨allocation.offset, allocation.bytes⟩
    ({ s with
      used := s.used - allocation.bytes
      allocations := s.allocations.eraseP fun allocation => allocation.id == id
      wrapped := s.wrapped || s.used < allocation.bytes },
      ⟨.none, allocation.offset, allocation.bytes⟩)

/-! ## Runs -/

/-- The steps. -/
inductive Action
  | allocate (id : Str) (bytes : Bytes)
  | release (id : Str)

/-- The effect of a step, and its result. -/
def perform : Action → MemoryAllocator × AllocationResult
  | .allocate id bytes => s.allocate id bytes
  | .release id => s.release id

/-- The runs of an allocator. -/
def machine : Machine MemoryAllocator Action where
  init s := ∃ capacity strategy, create capacity strategy = .ok s
  step s a s' := (s.perform a).1 = s'

/-- The state after the steps. -/
def performAll (as : List Action) : MemoryAllocator := as.foldl (fun s a => (s.perform a).1) s

theorem reachable_performAll {s : MemoryAllocator} (h : machine.Reachable s) (as : List Action) :
    machine.Reachable (s.performAll as) := by
  induction as generalizing s with
  | nil => exact h
  | cons a as ih => exact ih (h.step rfl)

end MemoryAllocator

end Gpumemd
