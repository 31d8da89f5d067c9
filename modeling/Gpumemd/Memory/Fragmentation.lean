import Gpumemd.Memory.Canonical

/-!
# How fragmented a pool gets

The free blocks of a pool have gaps between them, and each gap has a live allocation in it. So
there is at most one more free block than there are live allocations, whatever has been allocated
and released before, and the largest one has its share of the free memory at least: a pool refuses
an allocation for lack of memory only where a block of its size would be more than that
(`granted_of_share`).
-/

namespace Gpumemd

open Library Interval

namespace MemoryAllocator

variable {s : MemoryAllocator} {id : Str} {bytes : Bytes}

namespace Pooled

theorem length_freeBlocks_le (h : Pooled s) : s.freeBlocks.length ≤ s.allocations.length + 1 := by
  simpa using h.partition.length_le h.separated h.positive

/-- What is not used is free. -/
theorem sum_freeBlocks (h : Pooled s) :
    (s.freeBlocks.map (·.bytes.toNat)).sum = s.capacity.toNat - s.used.toNat := by
  have hsum := h.partition.sum_length h.positive
  rw [ranges, rangesOf, List.map_append, List.sum_append, ← h.used, List.map_map] at hsum
  exact Nat.eq_sub_of_add_eq hsum

end Pooled

/-- In every state that a pool reaches, there is at most one more free block than there are live
    allocations, and an allocation succeeds if blocks of one byte less, as many as that, would be
    less than what is free. -/
theorem granted_of_share (h : machine.Reachable s) (hpool : s.strategy = .pool) :
    s.freeBlocks.length ≤ s.allocations.length + 1 ∧
      ∀ id bytes, validId id = true → (∀ allocation ∈ s.allocations, allocation.id ≠ id) →
        0 < bytes →
        (s.allocations.length + 1) * (bytes.toNat - 1) < s.capacity.toNat - s.used.toNat →
        (s.allocate id bytes).2.error = .none := by
  have hs := reachable_pooled h hpool
  refine ⟨hs.length_freeBlocks_le, fun id bytes hid hunused hbytes hshare => ?_⟩
  rw [allocate_of_checks hpool hid hunused hbytes, allocatePool]
  cases hcarve : carve bytes s.freeBlocks with
  | some _ => rfl
  | none =>
    -- then every block is smaller, and they do not make up what is free
    have hsmall : ∀ size ∈ s.freeBlocks.map (·.bytes.toNat), size ≤ bytes.toNat - 1 := by
      intro size hsize
      obtain ⟨block, hblock, rfl⟩ := List.mem_map.1 hsize
      exact Nat.le_sub_one_of_lt (UInt64.lt_iff_toNat_lt.1 (carve_eq_none.1 hcarve block hblock))
    have hle : s.capacity.toNat - s.used.toNat ≤
        (s.allocations.length + 1) * (bytes.toNat - 1) := by
      calc s.capacity.toNat - s.used.toNat
        _ = (s.freeBlocks.map (·.bytes.toNat)).sum := hs.sum_freeBlocks.symm
        _ ≤ s.freeBlocks.length * (bytes.toNat - 1) := by
          simpa using List.sum_le_card_nsmul _ _ hsmall
        _ ≤ (s.allocations.length + 1) * (bytes.toNat - 1) :=
          Nat.mul_le_mul_right _ hs.length_freeBlocks_le
    exact absurd hshare (Nat.not_lt.2 hle)

/-- In the pool with the allocations `b` and `d`, 75 bytes are free, so 25 of them are in one
    block. -/
theorem fragmented_granted :
    fragmented.allocations.length = 2 ∧ (fragmented.allocate (ascii "e") 25).2.error = .none := by
  have hunused : ∀ allocation ∈ fragmented.allocations, allocation.id ≠ ascii "e" := by decide
  exact ⟨by decide, (granted_of_share fragmented_reachable (by decide)).2 (ascii "e") 25 (by decide)
    hunused (by decide) (by decide)⟩

end MemoryAllocator

end Gpumemd
