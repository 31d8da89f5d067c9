import Mathlib.Order.Bounds.Basic
import Gpumemd.Memory.Pool

/-!
# The free list is canonical

The free blocks of a pool are determined by its live allocations: they are the only separate
blocks that make up the other bytes (`Pooled.ext`). So the first block that is large enough
starts the lowest hole that is, and an allocation only fails where there is no hole
(`allocate_lowest`), and what is left after releases does not depend on their order
(`release_canonical`).
-/

namespace Gpumemd

open Library Interval

theorem FreeBlock.range_injective : Function.Injective FreeBlock.range := by
  rintro ⟨offset, bytes⟩ ⟨offset', bytes'⟩ h
  obtain ⟨hoffset, hbytes⟩ := Interval.mk.inj h
  exact FreeBlock.mk.injEq .. ▸ ⟨UInt64.toNat_inj.1 hoffset, UInt64.toNat_inj.1 hbytes⟩

namespace MemoryAllocator

variable {s s' : MemoryAllocator} {id : Str} {bytes : Bytes} {block : FreeBlock} {offset n : ℕ}

/-- None of the `n` bytes from `offset` on is in a live allocation. -/
def Vacant (s : MemoryAllocator) (offset n : ℕ) : Prop :=
  ∀ allocation ∈ s.allocations, ∀ x, offset ≤ x → x < offset + n →
    ¬ (allocation.offset.toNat ≤ x ∧ x < allocation.offset.toNat + allocation.bytes.toNat)

namespace Pooled

theorem cover_add (h : Pooled s) (x : ℕ) :
    cover (s.freeBlocks.map (·.range)) x + cover (s.allocations.map (·.range)) x =
      if x < s.capacity.toNat then 1 else 0 := cover_append.symm.trans (h.partition x)

theorem positive_freeBlocks (h : Pooled s) : Positive (s.freeBlocks.map (·.range)) :=
  fun i hi => h.positive i (List.mem_append_left _ hi)

/-- The live allocations determine the free blocks, and what is used. -/
theorem ext (h : Pooled s) (h' : Pooled s') (hcapacity : s.capacity = s'.capacity)
    (hallocations : s.allocations = s'.allocations) :
    s.freeBlocks = s'.freeBlocks ∧ s.used = s'.used := by
  constructor
  · refine FreeBlock.range_injective.list_map (h.separated.ext h'.separated h.positive_freeBlocks
      h'.positive_freeBlocks fun x => ?_)
    have hx := h.cover_add x
    rw [hallocations, hcapacity, ← h'.cover_add x] at hx
    exact Nat.add_right_cancel hx
  · rw [← UInt64.toNat_inj, h.used, h'.used, hallocations]

/-! ## Holes -/

/-- A block is a hole. -/
theorem vacant (h : Pooled s) (hblock : block ∈ s.freeBlocks) :
    s.Vacant block.offset.toNat block.bytes.toNat := by
  intro allocation hallocation x hstart hstop hx
  have hfree : 0 < cover (s.freeBlocks.map (·.range)) x :=
    cover_pos.2 ⟨block.range, List.mem_map_of_mem hblock, hstart, hstop⟩
  have hlive : 0 < cover (s.allocations.map (·.range)) x :=
    cover_pos.2 ⟨allocation.range, List.mem_map_of_mem hallocation, hx⟩
  -- a byte that is free and live would be counted twice
  have hone := h.cover_add x
  split_ifs at hone <;> omega

/-- A hole is inside of a block. -/
theorem exists_block (h : Pooled s) (hn : 0 < n) (hbound : offset + n ≤ s.capacity.toNat)
    (hvacant : s.Vacant offset n) :
    ∃ block ∈ s.freeBlocks, block.offset.toNat ≤ offset ∧ offset + n ≤ block.range.stop := by
  have hrun (x : ℕ) (hstart : offset ≤ x) (hstop : x < offset + n) :
      0 < cover (s.freeBlocks.map (·.range)) x := by
    have hlive : cover (s.allocations.map (·.range)) x = 0 := by
      by_contra hne
      obtain ⟨i, hi, hx⟩ := cover_pos.1 (Nat.pos_of_ne_zero hne)
      obtain ⟨allocation, hallocation, rfl⟩ := List.mem_map.1 hi
      exact hvacant allocation hallocation x hstart hstop hx
    have hone := h.cover_add x
    rw [hlive, if_pos (by omega)] at hone
    omega
  obtain ⟨i, hi, hstart, hstop⟩ := h.separated.exists_of_run hn hrun
  obtain ⟨block, hblock, rfl⟩ := List.mem_map.1 hi
  exact ⟨block, hblock, hstart, hstop⟩

theorem stop_le_capacity (h : Pooled s) (hblock : block ∈ s.freeBlocks) :
    block.offset.toNat + block.bytes.toNat ≤ s.capacity.toNat :=
  h.partition.stop_le h.positive (range_mem hblock)

end Pooled

theorem Vacant.mono {m : ℕ} (h : s.Vacant offset n) (hle : m ≤ n) : s.Vacant offset m :=
  fun allocation hallocation x hstart hstop => h allocation hallocation x hstart (by omega)

/-- The block from which an allocation is taken starts the lowest hole that is large
    enough. -/
theorem Pooled.carve_lowest (h : Pooled s) (hbytes : 0 < bytes.toNat) {left : List FreeBlock}
    (hcarve : carve bytes s.freeBlocks = some (block, left)) :
    block.offset.toNat + bytes.toNat ≤ s.capacity.toNat ∧
      IsLeast {offset | s.Vacant offset bytes.toNat} block.offset.toNat := by
  obtain ⟨before, after, hblocks, hbefore, hfits, -⟩ := carve_eq_some hcarve
  have hmem : block ∈ s.freeBlocks := by simp [hblocks]
  have hle : bytes.toNat ≤ block.bytes.toNat := UInt64.le_iff_toNat_le.1 hfits
  have hstop := h.stop_le_capacity hmem
  refine ⟨by omega, (h.vacant hmem).mono hle, fun offset hvacant => Nat.not_lt.1 fun hlt => ?_⟩
  -- a lower hole would be inside of a block
  obtain ⟨found, hfound, hstart, hend⟩ := h.exists_block hbytes (by omega) hvacant
  simp only [FreeBlock.range, stop] at hend
  rw [hblocks, List.mem_append, List.mem_cons] at hfound
  rcases hfound with hfound | rfl | hfound
  · -- one that is too small
    have hsmall := UInt64.lt_iff_toNat_lt.1 (hbefore found hfound)
    omega
  · omega
  · -- one that starts after this block
    have hgap : block.range.stop < found.range.start := by
      have hseparated := h.separated
      rw [hblocks, List.map_append, List.map_cons] at hseparated
      exact (List.pairwise_cons.1 (List.pairwise_append.1 hseparated).2.1).1 _
        (List.mem_map_of_mem hfound)
    simp only [FreeBlock.range, stop] at hgap
    omega

/-- The checks of a pool that let an allocation through. -/
theorem allocate_of_checks (hpool : s.strategy = .pool) (hid : validId id = true)
    (hunused : ∀ allocation ∈ s.allocations, allocation.id ≠ id) (hbytes : 0 < bytes) :
    s.allocate id bytes = s.allocatePool id bytes := by
  have hsize : bytes ≠ 0 := (UInt64.lt_iff_le_and_ne.1 hbytes).2.symm
  have hany : ¬ s.allocations.any (fun allocation => allocation.id == id) = true := by
    simpa using hunused
  rw [allocate, hid, if_neg (by decide), if_neg hsize, if_neg hany, hpool]

/-- A pool fails to allocate exactly where no hole is large enough, and else allocates at the
    start of the lowest one. -/
theorem allocate_lowest (h : machine.Reachable s) (hpool : s.strategy = .pool)
    (hid : validId id = true) (hunused : ∀ allocation ∈ s.allocations, allocation.id ≠ id)
    (hbytes : 0 < bytes) :
    ((s.allocate id bytes).2.error = .outOfMemory ↔
      ¬ ∃ offset, offset + bytes.toNat ≤ s.capacity.toNat ∧ s.Vacant offset bytes.toNat) ∧
    ((s.allocate id bytes).2.error ≠ .outOfMemory →
      (s.allocate id bytes).2.error = .none ∧ (s.allocate id bytes).2.bytes = bytes ∧
      (s.allocate id bytes).2.offset.toNat + bytes.toNat ≤ s.capacity.toNat ∧
      IsLeast {offset | s.Vacant offset bytes.toNat} (s.allocate id bytes).2.offset.toNat) := by
  have hs := reachable_pooled h hpool
  have hpos : 0 < bytes.toNat := UInt64.lt_iff_toNat_lt.1 hbytes
  rw [allocate_of_checks hpool hid hunused hbytes, allocatePool]
  cases hcarve : carve bytes s.freeBlocks with
  | none =>
    refine ⟨iff_of_true rfl ?_, fun hne => absurd rfl hne⟩
    rintro ⟨offset, hbound, hvacant⟩
    obtain ⟨block, hblock, hstart, hstop⟩ := hs.exists_block hpos hbound hvacant
    have hsmall := UInt64.lt_iff_toNat_lt.1 (carve_eq_none.1 hcarve block hblock)
    simp only [FreeBlock.range, stop] at hstop
    omega
  | some p =>
    obtain ⟨hbound, hleast⟩ := hs.carve_lowest hpos hcarve
    exact ⟨iff_of_false (fun hfail => AllocatorError.noConfusion hfail)
      (not_not.2 ⟨_, hbound, hleast.1⟩), fun _ => ⟨rfl, rfl, hbound, hleast⟩⟩

/-- In a pool with holes of 10, 30 and 35 bytes, 30 bytes go into the second one. -/
theorem allocate_lowest_fragmented :
    (fragmented.allocate (ascii "e") 30).2.error = .none ∧
      (fragmented.allocate (ascii "e") 30).2.offset = 30 ∧
      IsLeast {offset | fragmented.Vacant offset 30} 30 := by
  have hunused : ∀ allocation ∈ fragmented.allocations, allocation.id ≠ ascii "e" := by decide
  obtain ⟨herror, _, _, hleast⟩ := (allocate_lowest fragmented_reachable (by decide) (by decide)
    hunused (by decide : (0 : Bytes) < 30)).2 (by decide)
  exact ⟨herror, by decide, hleast⟩

/-! ## Releases -/

/-- A range is given back to the free blocks only. -/
theorem fixed_giveBack (s : MemoryAllocator) (block : FreeBlock) :
    (s.giveBack block).allocations = s.allocations ∧
      (s.giveBack block).directNextOffset = s.directNextOffset := by
  rw [giveBack]
  split <;> exact ⟨rfl, rfl⟩

theorem directNextOffset_release (s : MemoryAllocator) (id : Str) :
    (s.release id).1.directNextOffset = s.directNextOffset := by
  rw [release]
  split
  next => rfl
  next => exact (fixed_giveBack s _).2

/-- A release takes the allocation with the id away. -/
theorem Pooled.allocations_release (h : Pooled s) (id : Str) :
    (s.release id).1.allocations = s.allocations.filter (·.id != id) := by
  refine Eq.trans ?_ (eraseP_key h.ids id)
  rw [MemoryAllocator.release]
  split
  next hnone => exact (List.eraseP_of_forall_not (List.find?_eq_none.1 hnone)).symm
  next => exact congrArg (List.eraseP _) (fixed_giveBack s _).1

/-- What is left after releases. -/
theorem Pooled.releases (h : Pooled s) (hpool : s.strategy = .pool) (ids : List Str) :
    Pooled (s.performAll (ids.map .release)) ∧
      (s.performAll (ids.map .release)).capacity = s.capacity ∧
      (s.performAll (ids.map .release)).strategy = s.strategy ∧
      (s.performAll (ids.map .release)).directNextOffset = s.directNextOffset ∧
      (s.performAll (ids.map .release)).allocations =
        s.allocations.filter fun allocation => allocation.id ∉ ids := by
  induction ids generalizing s with
  | nil => exact ⟨h, rfl, rfl, rfl, (List.filter_eq_self.2 (by simp)).symm⟩
  | cons id ids ih =>
    obtain ⟨hcapacity, hstrategy⟩ := fixed_perform s (.release id)
    obtain ⟨hpooled, hcapacity', hstrategy', hnext, hallocations⟩ :=
      ih (h.release hpool id) (hstrategy.trans hpool)
    refine ⟨hpooled, hcapacity'.trans hcapacity, hstrategy'.trans hstrategy,
      hnext.trans (directNextOffset_release s id), hallocations.trans ?_⟩
    rw [h.allocations_release, List.filter_filter]
    refine List.filter_congr fun allocation _ => Bool.eq_iff_iff.2 ?_
    simp [and_comm]

/-- Pools with the same live allocations are the same. -/
theorem Pooled.eq (h : Pooled s) (h' : Pooled s') (hcapacity : s.capacity = s'.capacity)
    (hstrategy : s.strategy = s'.strategy) (hnext : s.directNextOffset = s'.directNextOffset)
    (hallocations : s.allocations = s'.allocations) : s = s' := by
  obtain ⟨hfree, hused⟩ := h.ext h' hcapacity hallocations
  have hwrapped : s.wrapped = s'.wrapped := h.unwrapped.trans h'.unwrapped.symm
  cases s
  cases s'
  simp only [mk.injEq]
  exact ⟨hcapacity, hstrategy, hused, hnext, hfree, hallocations, hwrapped⟩

/-- What an allocation that succeeds adds. -/
theorem allocations_allocate (hpool : s.strategy = .pool)
    (hok : (s.allocate id bytes).2.ok = true) :
    (∀ allocation ∈ s.allocations, allocation.id ≠ id) ∧
      (s.allocate id bytes).1.directNextOffset = s.directNextOffset ∧
      ∃ offset, (s.allocate id bytes).1.allocations = s.allocations ++ [⟨id, offset, bytes⟩] := by
  rw [allocate, hpool] at hok ⊢
  split_ifs at hok ⊢ with hid hbytes hany
  · cases hok
  · cases hok
  · cases hok
  · rw [allocatePool] at hok ⊢
    refine ⟨by simpa using hany, ?_⟩
    cases hcarve : carve bytes s.freeBlocks with
    | none =>
      rw [hcarve] at hok
      cases hok
    | some p => exact ⟨rfl, p.1.offset, rfl⟩

theorem capacity_ne_zero (h : machine.Reachable s) : s.capacity ≠ 0 := by
  refine h.invariant (P := fun s => s.capacity ≠ 0) ?_ ?_
  · rintro s ⟨capacity, strategy, hcreate⟩ hzero
    rw [eq_of_create hcreate] at hzero
    obtain rfl : capacity = 0 := hzero
    cases hcreate
  · rintro s a _ _ hs rfl
    rwa [capacity_perform]

/-- A pool without allocations is as it was created. -/
theorem Pooled.eq_of_allocations_eq_nil (h : Pooled s) (hcapacity : s.capacity ≠ 0)
    (hnil : s.allocations = []) : s.freeBlocks = [⟨0, s.capacity⟩] ∧ s.used = 0 := by
  have hcreate : MemoryAllocator.create s.capacity .pool =
      .ok { capacity := s.capacity, strategy := .pool, freeBlocks := [⟨0, s.capacity⟩] } :=
    if_neg hcapacity
  exact h.ext (.create hcreate) rfl hnil

/-- The order of releases does not matter; a release undoes the allocation before it; and
    releasing everything leaves one free block. -/
theorem release_canonical (h : machine.Reachable s) (hpool : s.strategy = .pool) :
    (∀ ids ids' : List Str, ids.Perm ids' →
      s.performAll (ids.map .release) = s.performAll (ids'.map .release)) ∧
    (∀ id bytes, (s.allocate id bytes).2.ok = true →
      ((s.allocate id bytes).1.release id).1 = s) ∧
    ∀ ids : List Str, (∀ allocation ∈ s.allocations, allocation.id ∈ ids) →
      (s.performAll (ids.map .release)).freeBlocks = [⟨0, s.capacity⟩] ∧
      (s.performAll (ids.map .release)).used = 0 ∧
      (s.performAll (ids.map .release)).allocations = [] := by
  have hs := reachable_pooled h hpool
  refine ⟨fun ids ids' hperm => ?_, fun id bytes hok => ?_, fun ids hids => ?_⟩
  · obtain ⟨hpooled, hcapacity, hstrategy, hnext, hallocations⟩ := hs.releases hpool ids
    obtain ⟨hpooled', hcapacity', hstrategy', hnext', hallocations'⟩ := hs.releases hpool ids'
    refine hpooled.eq hpooled' (hcapacity.trans hcapacity'.symm)
      (hstrategy.trans hstrategy'.symm) (hnext.trans hnext'.symm) ?_
    rw [hallocations, hallocations']
    exact List.filter_congr fun allocation _ => by simp [hperm.mem_iff]
  · obtain ⟨hunused, hnext, offset, hallocations⟩ := allocations_allocate hpool hok
    obtain ⟨hcapacity, hstrategy⟩ := fixed_perform s (.allocate id bytes)
    obtain ⟨hcapacity', hstrategy'⟩ := fixed_perform (s.allocate id bytes).1 (.release id)
    have hpooled := hs.allocate hpool id bytes
    refine (hpooled.release (hstrategy.trans hpool) id).eq hs (hcapacity'.trans hcapacity)
      (hstrategy'.trans hstrategy) ((directNextOffset_release _ id).trans hnext) ?_
    rw [hpooled.allocations_release, hallocations, List.filter_append,
      List.filter_eq_self.2 (by simpa using hunused)]
    simp
  · obtain ⟨hpooled, hcapacity, _, _, hallocations⟩ := hs.releases hpool ids
    have hnil : (s.performAll (ids.map .release)).allocations = [] := by
      rw [hallocations, List.filter_eq_nil_iff]
      simpa using hids
    obtain ⟨hfree, hused⟩ := hpooled.eq_of_allocations_eq_nil
      (hcapacity.symm ▸ capacity_ne_zero h) hnil
    exact ⟨hcapacity ▸ hfree, hused, hnil⟩

/-- The two orders in which what is left in `fragmented` is released. -/
theorem release_canonical_fragmented :
    fragmented.performAll ([ascii "b", ascii "d"].map .release) =
        fragmented.performAll ([ascii "d", ascii "b"].map .release) ∧
      ((fragmented.allocate (ascii "e") 30).1.release (ascii "e")).1 = fragmented ∧
      (fragmented.performAll ([ascii "d", ascii "b"].map .release)).freeBlocks =
        [⟨0, fragmented.capacity⟩] := by
  obtain ⟨horder, hundo, hall⟩ := release_canonical fragmented_reachable (by decide)
  have hok : (fragmented.allocate (ascii "e") 30).2.ok = true := by decide
  have hids : ∀ allocation ∈ fragmented.allocations,
      allocation.id ∈ [ascii "d", ascii "b"] := by decide
  exact ⟨horder _ _ (.swap _ _ _), hundo _ _ hok, (hall _ hids).1⟩

end MemoryAllocator

end Gpumemd
