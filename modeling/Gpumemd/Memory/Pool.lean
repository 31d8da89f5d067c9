import Gpumemd.Library.Interval
import Gpumemd.Library.Keyed
import Gpumemd.Memory.Allocator

/-!
# The pool

With the strategy `Pool`, the free blocks and the live allocations partition the managed
range, and the free blocks are as few as possible: sorted, with gaps between them
(`reachable_pool`). The arithmetic of the code on offsets and sizes is exact then, so
its loop over the sorted free blocks joins the ranges as `Interval.coalesce` does
(`map_range_coalesceFrom`).
-/

namespace Gpumemd

open Library Interval

/-- The bytes of a free block. -/
def FreeBlock.range (block : FreeBlock) : Interval := ⟨block.offset.toNat, block.bytes.toNat⟩

/-- The bytes of an allocation. -/
def AllocationRecord.range (allocation : AllocationRecord) : Interval :=
  ⟨allocation.offset.toNat, allocation.bytes.toNat⟩

namespace MemoryAllocator

variable {s : MemoryAllocator} {id : Str} {bytes : Bytes} {block : FreeBlock}
  {blocks left : List FreeBlock} {allocation : AllocationRecord} {x : ℕ}

/-- The ranges of the free blocks and of the allocations. -/
def rangesOf (blocks : List FreeBlock) (allocations : List AllocationRecord) : List Interval :=
  blocks.map (·.range) ++ allocations.map (·.range)

/-- The ranges of the free blocks and of the live allocations. -/
def ranges (s : MemoryAllocator) : List Interval := rangesOf s.freeBlocks s.allocations

/-- The invariant of a pool. -/
structure Pooled (s : MemoryAllocator) : Prop where
  separated : Separated (s.freeBlocks.map (·.range))
  positive : Positive s.ranges
  partition : Partitions s.ranges s.capacity.toNat
  ids : (s.allocations.map (·.id)).Nodup
  used : s.used.toNat = ((s.allocations.map (·.range)).map length).sum
  unwrapped : s.wrapped = false

namespace Pooled

theorem create {capacity : Bytes} (h : create capacity .pool = .ok s) : Pooled s := by
  have hcapacity : capacity ≠ 0 := by
    rintro rfl
    cases h
  obtain rfl := eq_of_create h
  refine ⟨List.pairwise_singleton _ _, fun i hi => ?_, fun x => ?_, .nil, rfl, rfl⟩
  · obtain rfl := List.mem_singleton.1 hi
    exact Nat.pos_of_ne_zero fun hzero => hcapacity (UInt64.toNat_inj.1 hzero)
  · -- one block, from 0 to the capacity
    show cover [⟨0, capacity.toNat⟩] x = _
    simp [cover, contains, stop]

theorem stop_lt (h : Pooled s) {i : Interval} (hi : i ∈ s.ranges) : i.stop < UInt64.size :=
  (h.partition.stop_le h.positive hi).trans_lt s.capacity.toNat_lt

theorem range_mem (h : block ∈ s.freeBlocks) : block.range ∈ s.ranges :=
  List.mem_append_left _ (List.mem_map_of_mem h)

/-- Allocations that fit beside each other take no more than the capacity. -/
theorem used_le {l l' : List Interval} {n : ℕ} (h : Partitions (l ++ l') n)
    (hpositive : Positive (l ++ l')) : (l'.map length).sum ≤ n := by
  rw [← h.sum_length hpositive, List.map_append, List.sum_append]
  exact Nat.le_add_left _ _

end Pooled

/-! ## `allocate` -/

/-- The first block that is large enough gives up its front. -/
theorem carve_eq_some (h : carve bytes blocks = some (block, left)) :
    ∃ before after, blocks = before ++ block :: after ∧ (∀ b ∈ before, b.bytes < bytes) ∧
      bytes ≤ block.bytes ∧
      left = before ++ (if block.bytes - bytes = 0 then after
        else ⟨block.offset + bytes, block.bytes - bytes⟩ :: after) := by
  induction blocks generalizing left with
  | nil => cases h
  | cons first blocks ih =>
    rw [carve] at h
    split_ifs at h with hfits
    · obtain ⟨rfl, rfl⟩ := Prod.mk.inj (Option.some.inj h)
      exact ⟨[], blocks, rfl, by simp, hfits, rfl⟩
    · obtain ⟨⟨found, left'⟩, hcarve, heq⟩ := Option.map_eq_some_iff.1 h
      obtain ⟨rfl, rfl⟩ := Prod.mk.inj heq
      obtain ⟨before, after, rfl, hbefore, hfound, rfl⟩ := ih hcarve
      exact ⟨first :: before, after, rfl,
        List.forall_mem_cons.2 ⟨UInt64.not_le.1 hfits, hbefore⟩, hfound, rfl⟩

/-- No block gives up its front where none is large enough. -/
theorem carve_eq_none : carve bytes blocks = none ↔ ∀ b ∈ blocks, b.bytes < bytes := by
  induction blocks with
  | nil => simp [carve]
  | cons first blocks ih =>
    rw [carve, List.forall_mem_cons, ← ih]
    split_ifs with hfits
    · exact ⟨nofun, fun h => absurd h.1 (UInt64.not_lt.2 hfits)⟩
    · rw [Option.map_eq_none_iff, and_iff_right (UInt64.not_le.1 hfits)]

/-- What a block is left with when it gives up its front. -/
theorem range_rest (hfits : bytes ≤ block.bytes) (hstop : block.range.stop < UInt64.size) :
    FreeBlock.range ⟨block.offset + bytes, block.bytes - bytes⟩ =
      ⟨block.offset.toNat + bytes.toNat, block.bytes.toNat - bytes.toNat⟩ := by
  have hle : bytes.toNat ≤ block.bytes.toNat := UInt64.le_iff_toNat_le.1 hfits
  have hsum : block.offset.toNat + bytes.toNat < UInt64.size :=
    (Nat.add_le_add_left hle _).trans_lt hstop
  rw [FreeBlock.range, UInt64.toNat_add, Nat.mod_eq_of_lt hsum, UInt64.toNat_sub_of_le _ _ hfits]

/-- The blocks that are left and the front that one of them gave up make up the blocks
    that there were. -/
theorem carve_spec (h : carve bytes blocks = some (block, left))
    (hbound : ∀ b ∈ blocks, b.range.stop < UInt64.size)
    (hseparated : Separated (blocks.map (·.range)))
    (hpositive : Positive (blocks.map (·.range))) :
    Separated (left.map (·.range)) ∧ Positive (left.map (·.range)) ∧
      ∀ x, cover (⟨block.offset.toNat, bytes.toNat⟩ :: left.map (·.range)) x =
        cover (blocks.map (·.range)) x := by
  obtain ⟨before, after, rfl, _, hfits, rfl⟩ := carve_eq_some h
  have hle : bytes.toNat ≤ block.range.length := UInt64.le_iff_toNat_le.1 hfits
  have hrest := range_rest hfits (hbound block (List.mem_append_right _ List.mem_cons_self))
  have hmap : (before ++ block :: after).map (·.range) =
      before.map (·.range) ++ block.range :: after.map (·.range) := List.map_append
  rw [hmap] at hseparated hpositive ⊢
  have hblock (x : ℕ) : cover (before.map (·.range) ++ block.range :: after.map (·.range)) x =
      cover (⟨block.offset.toNat, bytes.toNat⟩ ::
        ⟨block.offset.toNat + bytes.toNat, block.bytes.toNat - bytes.toNat⟩ ::
          (before.map (·.range) ++ after.map (·.range))) x := cover_middle.trans (cover_split hle)
  split_ifs with hzero
  · -- the block is used up
    have hlength : block.bytes.toNat - bytes.toNat = 0 := by
      rw [← UInt64.toNat_sub_of_le _ _ hfits, hzero]
      rfl
    have hsub : (before.map (·.range) ++ after.map (·.range)).Sublist
        (before.map (·.range) ++ block.range :: after.map (·.range)) :=
      (List.sublist_cons_self _ _).append_left _
    rw [List.map_append]
    refine ⟨hseparated.sublist hsub, fun i hi => hpositive i (hsub.subset hi), fun x => ?_⟩
    rw [hblock, cover_cons, cover_cons, cover_of_length_eq_zero hlength]
  · have hlength : 0 < block.bytes.toNat - bytes.toNat := by
      rw [← UInt64.toNat_sub_of_le _ _ hfits]
      exact Nat.pos_of_ne_zero fun hnone => hzero (UInt64.toNat_inj.1 hnone)
    rw [List.map_append, List.map_cons, hrest]
    refine ⟨hseparated.shrink (Nat.le_add_right _ _) ?_, ?_, fun x => ?_⟩
    · show _ + _ + _ ≤ _ + _
      have hbytes : bytes.toNat ≤ block.bytes.toNat := hle
      simp only [FreeBlock.range]
      omega
    · intro i hi
      rcases List.mem_append.1 hi with hi | hi
      · exact hpositive i (List.mem_append_left _ hi)
      · rcases List.mem_cons.1 hi with rfl | hi
        · exact hlength
        · exact hpositive i (List.mem_append_right _ (List.mem_cons_of_mem _ hi))
    · rw [hblock, cover_cons, cover_middle, cover_cons (i := ⟨block.offset.toNat, bytes.toNat⟩)]

theorem Pooled.allocatePool (h : Pooled s) (hid : id ∉ s.allocations.map (·.id))
    (hbytes : bytes ≠ 0) : Pooled (s.allocatePool id bytes).1 := by
  rw [MemoryAllocator.allocatePool]
  split
  next => exact h
  next block left hcarve =>
    obtain ⟨before, after, hblocks, _, hfits, _⟩ := carve_eq_some hcarve
    have hblock : block ∈ s.freeBlocks := by simp [hblocks]
    have hstop (b : FreeBlock) (hb : b ∈ s.freeBlocks) := h.stop_lt (range_mem hb)
    obtain ⟨hseparated, hleft, hcover⟩ := carve_spec hcarve hstop h.separated
      fun i hi => h.positive i (List.mem_append_left _ hi)
    -- the new allocation has the range that the block gave up
    have hranges : (rangesOf left (s.allocations ++ [⟨id, block.offset, bytes⟩])).Perm
        (⟨block.offset.toNat, bytes.toNat⟩ :: left.map (·.range) ++
          s.allocations.map (·.range)) := by
      rw [rangesOf, List.map_append, List.cons_append, ← List.append_assoc]
      exact List.perm_append_singleton _ _
    have hpositive : Positive (rangesOf left (s.allocations ++ [⟨id, block.offset, bytes⟩])) := by
      intro i hi
      rcases List.mem_append.1 (hranges.subset hi) with hi | hi
      · rcases List.mem_cons.1 hi with rfl | hi
        · exact Nat.pos_of_ne_zero fun hzero => hbytes (UInt64.toNat_inj.1 hzero)
        · exact hleft i hi
      · exact h.positive i (List.mem_append_right _ hi)
    have hpartition : Partitions (rangesOf left (s.allocations ++ [⟨id, block.offset, bytes⟩]))
        s.capacity.toNat := by
      intro x
      rw [cover_perm hranges, cover_append, hcover, ← cover_append]
      exact h.partition x
    -- so it is counted without wrapping
    have hused : s.used.toNat + bytes.toNat =
        ((List.map AllocationRecord.range
          (s.allocations ++ [⟨id, block.offset, bytes⟩])).map length).sum := by
      rw [List.map_append, List.map_append, List.sum_append, h.used]
      rfl
    have hlt : s.used.toNat + bytes.toNat < UInt64.size :=
      hused ▸ (used_le hpartition hpositive).trans_lt s.capacity.toNat_lt
    have hfront : block.offset.toNat + bytes.toNat < UInt64.size :=
      (Nat.add_le_add_left (UInt64.le_iff_toNat_le.1 hfits) _).trans_lt (hstop block hblock)
    refine ⟨hseparated, hpositive, hpartition, ?_, ?_, ?_⟩
    · rw [record, List.map_append]
      exact List.nodup_append.2 ⟨h.ids, List.nodup_singleton _, by simpa using hid⟩
    · rw [record, UInt64.toNat_add, Nat.mod_eq_of_lt hlt]
      exact hused
    · simp [record, addWraps, h.unwrapped, hlt, hfront]

/-- A failed allocation changes nothing. -/
theorem Pooled.allocate (h : Pooled s) (hpool : s.strategy = .pool) (id : Str) (bytes : Bytes) :
    Pooled (s.allocate id bytes).1 := by
  rw [MemoryAllocator.allocate, hpool]
  split_ifs with _ hbytes hid
  · exact h
  · exact h
  · exact h
  · exact h.allocatePool (by simpa using hid) hbytes

/-! ## `release` -/

theorem addWraps_eq_false {left right : Bytes} :
    addWraps left right = false ↔ left.toNat + right.toNat < UInt64.size := by
  simp [addWraps]

/-- Where the arithmetic of the code is exact, it joins the ranges of the blocks. -/
theorem map_range_coalesceFrom (hordered : Ordered ((block :: blocks).map (·.range)))
    (hbound : ∀ b ∈ block :: blocks, b.range.stop < UInt64.size) :
    (coalesceFrom block blocks).1.map (·.range) =
        Interval.coalesceFrom block.range (blocks.map (·.range)) ∧
      (coalesceFrom block blocks).2 = false := by
  induction blocks generalizing block with
  | nil => exact ⟨rfl, rfl⟩
  | cons next blocks ih =>
    rw [List.forall_mem_cons] at hbound
    have hsum : block.offset.toNat + block.bytes.toNat < UInt64.size := hbound.1
    have hstop : (block.offset + block.bytes).toNat = block.range.stop := by
      rw [UInt64.toNat_add, Nat.mod_eq_of_lt hsum]
      rfl
    have htouch : block.offset + block.bytes = next.offset ↔ block.range.stop = next.range.start := by
      rw [← UInt64.toNat_inj, hstop]
      rfl
    rw [coalesceFrom, List.map_cons, Interval.coalesceFrom]
    simp only [htouch]
    split_ifs with hjoin
    · -- the joined block ends where the next one did
      have hnext : next.range.stop < UInt64.size := hbound.2 next List.mem_cons_self
      have hbytes : block.bytes.toNat + next.bytes.toNat < UInt64.size := by
        simp only [stop, FreeBlock.range] at hjoin hnext
        omega
      have hrange : FreeBlock.range ⟨block.offset, block.bytes + next.bytes⟩ =
          ⟨block.range.start, block.range.length + next.range.length⟩ := by
        rw [FreeBlock.range, UInt64.toNat_add, Nat.mod_eq_of_lt hbytes]
        rfl
      have hjoined : (FreeBlock.range ⟨block.offset, block.bytes + next.bytes⟩).stop <
          UInt64.size := by
        rw [hrange]
        simp only [stop, FreeBlock.range] at hjoin hnext ⊢
        omega
      have hjoinedOrdered : Ordered
          (List.map (·.range) (⟨block.offset, block.bytes + next.bytes⟩ :: blocks)) := by
        rw [List.map_cons, hrange]
        exact hordered.join hjoin
      have hrest := ih hjoinedOrdered
        (List.forall_mem_cons.2 ⟨hjoined, (List.forall_mem_cons.1 hbound.2).2⟩)
      rw [hrange] at hrest
      simp [hrest.1, hrest.2, addWraps_eq_false.2 hsum, addWraps_eq_false.2 hbytes]
    · have hrest := ih (List.pairwise_cons.1 hordered).2 hbound.2
      simp [hrest.1, hrest.2, addWraps_eq_false.2 hsum]

theorem map_range_coalesce (hordered : Ordered (blocks.map (·.range)))
    (hbound : ∀ b ∈ blocks, b.range.stop < UInt64.size) :
    (coalesce blocks).1.map (·.range) = Interval.coalesce (blocks.map (·.range)) ∧
      (coalesce blocks).2 = false := by
  cases blocks with
  | nil => exact ⟨rfl, rfl⟩
  | cons block blocks => exact map_range_coalesceFrom hordered hbound

/-- Sorting the blocks and joining them gives the same bytes, in separate ranges. -/
theorem coalesceLocked_spec {n : ℕ} {l : List Interval} (hn : n < UInt64.size)
    (hpartition : Partitions (s.freeBlocks.map (·.range) ++ l) n)
    (hpositive : Positive (s.freeBlocks.map (·.range) ++ l)) :
    Separated (s.coalesceLocked.freeBlocks.map (·.range)) ∧
      Partitions (s.coalesceLocked.freeBlocks.map (·.range) ++ l) n ∧
      Positive (s.coalesceLocked.freeBlocks.map (·.range) ++ l) ∧
      s.coalesceLocked.wrapped = s.wrapped := by
  let before (left right : FreeBlock) : Prop := left.offset ≤ right.offset
  have htotal : Std.Total before := ⟨fun left right => UInt64.le_total _ _⟩
  have htrans : IsTrans FreeBlock before := ⟨fun _ _ _ => UInt64.le_trans⟩
  set sorted := s.freeBlocks.insertionSort before with hsorted
  have hperm : (sorted.map (·.range)).Perm (s.freeBlocks.map (·.range)) :=
    (List.perm_insertionSort before s.freeBlocks).map _
  have hpositive' : Positive (sorted.map (·.range)) := fun i hi =>
    hpositive i (List.mem_append_left _ (hperm.subset hi))
  have hordered : Ordered (sorted.map (·.range)) := by
    refine ordered_of_cover ?_ hpositive' fun x => ?_
    · rw [List.pairwise_map]
      exact (List.pairwise_insertionSort before _).imp UInt64.le_iff_toNat_le.1
    · rw [cover_perm hperm]
      exact (Nat.le_add_right _ _).trans (cover_append.symm.trans_le (hpartition.le_one x))
  have hbound : ∀ b ∈ sorted, b.range.stop < UInt64.size := fun b hb =>
    (hpartition.stop_le hpositive
      (List.mem_append_left _ (hperm.subset (List.mem_map_of_mem hb)))).trans_lt hn
  obtain ⟨hranges, hwrapped⟩ := map_range_coalesce hordered hbound
  have hblocks : s.coalesceLocked.freeBlocks.map (·.range) =
      Interval.coalesce (sorted.map (·.range)) := hranges
  rw [hblocks]
  refine ⟨separated_coalesce hordered, fun x => ?_, fun i hi => ?_, ?_⟩
  · rw [cover_append, cover_coalesce, cover_perm hperm, ← cover_append]
    exact hpartition x
  · rcases List.mem_append.1 hi with hi | hi
    · exact positive_coalesce hpositive' i hi
    · exact hpositive i (List.mem_append_right _ hi)
  · show (s.wrapped || (coalesce sorted).2) = s.wrapped
    rw [hwrapped, Bool.or_false]

theorem giveBack_of_pool (hpool : s.strategy = .pool) :
    s.giveBack block = coalesceLocked { s with freeBlocks := s.freeBlocks ++ [block] } := by
  rw [giveBack]
  split
  next hdirect =>
    rw [hpool] at hdirect
    cases hdirect
  next => rfl

theorem Pooled.release (h : Pooled s) (hpool : s.strategy = .pool) (id : Str) :
    Pooled (s.release id).1 := by
  rw [MemoryAllocator.release]
  split
  next => exact h
  next allocation hfind =>
    have hperm := perm_of_find? hfind
    set rest := s.allocations.eraseP fun allocation => allocation.id == id
    -- the range of the allocation goes from one list to the other
    have hranges : (rangesOf (s.freeBlocks ++ [⟨allocation.offset, allocation.bytes⟩]) rest).Perm
        s.ranges := by
      rw [rangesOf, List.map_append, List.append_assoc]
      exact (hperm.map AllocationRecord.range).symm.append_left _
    obtain ⟨hseparated, hpartition, hpositive, hwrapped⟩ := coalesceLocked_spec
      (s := { s with freeBlocks := s.freeBlocks ++ [⟨allocation.offset, allocation.bytes⟩] })
      s.capacity.toNat_lt (fun x => (cover_perm hranges).trans (h.partition x))
      fun i hi => h.positive i (hranges.subset hi)
    have hused : s.used.toNat = allocation.bytes.toNat + ((rest.map (·.range)).map length).sum :=
      h.used.trans ((hperm.map AllocationRecord.range).map length).sum_eq
    have hle : allocation.bytes ≤ s.used :=
      UInt64.le_iff_toNat_le.2 (hused ▸ Nat.le_add_right _ _)
    rw [giveBack_of_pool hpool]
    refine ⟨hseparated, hpositive, hpartition, ?_, ?_, ?_⟩
    · exact h.ids.sublist (List.eraseP_sublist.map _)
    · show (s.used - allocation.bytes).toNat = ((rest.map (·.range)).map length).sum
      rw [UInt64.toNat_sub_of_le _ _ hle, hused, Nat.add_sub_cancel_left]
    · have hlt : ¬ s.used < allocation.bytes := UInt64.not_lt.2 hle
      refine (congrArg (· || decide (s.used < allocation.bytes)) hwrapped).trans ?_
      rw [h.unwrapped, Bool.false_or, decide_eq_false hlt]

/-! ## Runs -/

/-- What the constructor has set stays. -/
theorem fixed_perform (s : MemoryAllocator) (a : Action) :
    (s.perform a).1.capacity = s.capacity ∧ (s.perform a).1.strategy = s.strategy := by
  cases a with
  | allocate id bytes =>
    rw [perform, MemoryAllocator.allocate]
    split_ifs
    · exact ⟨rfl, rfl⟩
    · exact ⟨rfl, rfl⟩
    · exact ⟨rfl, rfl⟩
    · split
      · rw [allocateDirect]
        split_ifs <;> exact ⟨rfl, rfl⟩
      · rw [MemoryAllocator.allocatePool]
        split <;> exact ⟨rfl, rfl⟩
  | release id =>
    rw [perform, MemoryAllocator.release]
    split
    · exact ⟨rfl, rfl⟩
    · simp only [giveBack]
      split <;> exact ⟨rfl, rfl⟩

theorem capacity_perform (s : MemoryAllocator) (a : Action) :
    (s.perform a).1.capacity = s.capacity := (fixed_perform s a).1

theorem strategy_perform (s : MemoryAllocator) (a : Action) :
    (s.perform a).1.strategy = s.strategy := (fixed_perform s a).2

theorem reachable_pooled (h : machine.Reachable s) (hpool : s.strategy = .pool) : Pooled s := by
  refine h.invariant (P := fun s => s.strategy = .pool → Pooled s) ?_ ?_ hpool
  · rintro s ⟨capacity, strategy, hcreate⟩ hpool
    obtain rfl : strategy = .pool := by rw [← hpool, eq_of_create hcreate]
    exact .create hcreate
  · rintro s a _ _ hs rfl hpool
    rw [strategy_perform] at hpool
    cases a with
    | allocate id bytes => exact (hs hpool).allocate hpool id bytes
    | release id => exact (hs hpool).release hpool id

/-- In every state that a pool reaches: the free blocks are sorted and nonempty, with a
    gap between any two of them; the ids are distinct; every byte below the capacity is in
    exactly one free block or live allocation, and no other byte in any; what is used is
    the sum of the live allocations; and no arithmetic has wrapped. -/
theorem reachable_pool (h : machine.Reachable s) (hpool : s.strategy = .pool) :
    s.freeBlocks.Pairwise (fun left right => left.offset < right.offset) ∧
      (∀ block ∈ s.freeBlocks, 0 < block.bytes) ∧
      (∀ allocation ∈ s.allocations, 0 < allocation.bytes) ∧
      s.freeBlocks.Pairwise (fun left right =>
        left.offset.toNat + left.bytes.toNat < right.offset.toNat) ∧
      (s.allocations.map (·.id)).Nodup ∧
      (∀ x, (s.freeBlocks.countP fun block => block.range.contains x) +
          (s.allocations.countP fun allocation => allocation.range.contains x) =
        if x < s.capacity.toNat then 1 else 0) ∧
      s.used.toNat = (s.allocations.map fun allocation => allocation.bytes.toNat).sum ∧
      (∀ block ∈ s.freeBlocks, block.offset.toNat + block.bytes.toNat ≤ s.capacity.toNat) ∧
      (∀ allocation ∈ s.allocations,
        allocation.offset.toNat + allocation.bytes.toNat ≤ s.capacity.toNat) ∧
      s.wrapped = false := by
  have hs := reachable_pooled h hpool
  have hgaps : s.freeBlocks.Pairwise fun left right =>
      left.offset.toNat + left.bytes.toNat < right.offset.toNat := List.pairwise_map.1 hs.separated
  have hblock {block : FreeBlock} (hb : block ∈ s.freeBlocks) : block.range ∈ s.ranges :=
    Pooled.range_mem hb
  have hallocation {allocation : AllocationRecord} (ha : allocation ∈ s.allocations) :
      allocation.range ∈ s.ranges := List.mem_append_right _ (List.mem_map_of_mem ha)
  refine ⟨hgaps.imp fun hlt => ?_, fun block hb => ?_, fun allocation ha => ?_, hgaps, hs.ids,
    fun x => ?_, ?_, fun block hb => ?_, fun allocation ha => ?_, hs.unwrapped⟩
  · exact UInt64.lt_iff_toNat_lt.2 ((Nat.le_add_right _ _).trans_lt hlt)
  · exact UInt64.lt_iff_toNat_lt.2 (hs.positive _ (hblock hb))
  · exact UInt64.lt_iff_toNat_lt.2 (hs.positive _ (hallocation ha))
  · rw [← hs.partition x, ranges, rangesOf, cover_append, cover, cover, List.countP_map,
      List.countP_map]
    rfl
  · rw [hs.used, List.map_map]
    rfl
  · exact hs.partition.stop_le hs.positive (hblock hb)
  · exact hs.partition.stop_le hs.positive (hallocation ha)

/-- A pool of 100 bytes with the allocations `b` and `d`, after the releases of `a` and
    `c`. -/
def fragmented : MemoryAllocator :=
  performAll { capacity := 100, strategy := .pool, freeBlocks := [⟨0, 100⟩] }
    [.allocate (ascii "a") 10, .allocate (ascii "b") 20, .allocate (ascii "c") 30,
      .allocate (ascii "d") 5, .release (ascii "c"), .release (ascii "a")]

theorem fragmented_reachable : machine.Reachable fragmented :=
  reachable_performAll (.init ⟨100, .pool, rfl⟩) _

theorem fragmented_pool :
    fragmented.freeBlocks = [⟨0, 10⟩, ⟨30, 30⟩, ⟨65, 35⟩] ∧ fragmented.used = 25 ∧
      fragmented.freeBlocks.Pairwise (fun left right =>
        left.offset.toNat + left.bytes.toNat < right.offset.toNat) :=
  ⟨by decide, by decide, (reachable_pool fragmented_reachable (by decide)).2.2.2.1⟩

end MemoryAllocator

end Gpumemd
