import Gpumemd.Memory.Pool

/-!
# Direct allocation

With the strategy `Direct`, an allocation starts where the counter stands, and no release
moves the counter back, while what is admitted is only compared with the free total. So the
live allocations stay within the managed range, and apart from each other, exactly as long as
the counter has room for every allocation that is admitted (`placed_iff`).
-/

namespace Gpumemd

open Library Interval

namespace MemoryAllocator

variable {s : MemoryAllocator} {id : Str} {bytes : Bytes} {a : Action}

/-- The live allocations are within the managed range, and no two of them share a byte. -/
structure Placed (s : MemoryAllocator) : Prop where
  within : ∀ allocation ∈ s.allocations,
    allocation.offset.toNat + allocation.bytes.toNat ≤ s.capacity.toNat
  disjoint : s.allocations.Pairwise fun left right =>
    ∀ x, ¬ (left.range.contains x = true ∧ right.range.contains x = true)

/-- The checks that `allocate` makes with the strategy `Direct`. -/
def Admits (s : MemoryAllocator) (id : Str) (bytes : Bytes) : Prop :=
  validId id = true ∧ bytes ≠ 0 ∧ (∀ allocation ∈ s.allocations, allocation.id ≠ id) ∧
    bytes ≤ s.capacity - s.used

/-- An allocation that passes the checks fits between the counter and the capacity. -/
def HasRoom (s : MemoryAllocator) : Action → Prop
  | .allocate id bytes =>
    s.Admits id bytes → s.directNextOffset.toNat + bytes.toNat ≤ s.capacity.toNat
  | .release _ => True

instance (s : MemoryAllocator) (id : Str) (bytes : Bytes) : Decidable (s.Admits id bytes) :=
  inferInstanceAs (Decidable (_ ∧ _))

instance (s : MemoryAllocator) : (a : Action) → Decidable (s.HasRoom a)
  | .allocate id bytes => inferInstanceAs (Decidable (s.Admits id bytes → _))
  | .release _ => .isTrue trivial

/-! ## One step -/

/-- An allocation that is admitted starts at the counter, which moves behind it. -/
theorem allocate_of_admits (hdirect : s.strategy = .direct) (h : s.Admits id bytes) :
    (s.allocate id bytes).1.allocations = s.allocations ++ [⟨id, s.directNextOffset, bytes⟩] ∧
      (s.allocate id bytes).1.directNextOffset = s.directNextOffset + bytes := by
  obtain ⟨hid, hbytes, hnew, hfree⟩ := h
  have hany : (s.allocations.any fun allocation => allocation.id == id) = false := by
    simpa using hnew
  simp [allocate, allocateDirect, record, hdirect, hid, hbytes, hany, UInt64.not_lt.2 hfree]

/-- An allocation that is refused changes no allocation. -/
theorem allocate_of_not_admits (hdirect : s.strategy = .direct) (h : ¬ s.Admits id bytes) :
    (s.allocate id bytes).1.allocations = s.allocations ∧
      (s.allocate id bytes).1.directNextOffset = s.directNextOffset := by
  rw [allocate, hdirect]
  split_ifs with hid hbytes hany
  · exact ⟨rfl, rfl⟩
  · exact ⟨rfl, rfl⟩
  · exact ⟨rfl, rfl⟩
  · simp only [allocateDirect]
    split_ifs with hfree
    · exact ⟨rfl, rfl⟩
    · exact absurd ⟨by simpa using hid, hbytes, by simpa using hany, UInt64.not_lt.1 hfree⟩ h

/-- A release takes an allocation away, and leaves the counter where it is. -/
theorem release_direct (id : Str) (hdirect : s.strategy = .direct) :
    (s.release id).1.allocations.Sublist s.allocations ∧
      (s.release id).1.directNextOffset = s.directNextOffset := by
  rw [release]
  split
  next => exact ⟨List.Sublist.refl _, rfl⟩
  next =>
    rw [giveBack, hdirect]
    exact ⟨List.eraseP_sublist, rfl⟩

/-! ## Runs -/

/-- The invariant of a run whose allocations all have room: the allocations come one after
    the other, and the counter comes after all of them. -/
structure Bumped (s : MemoryAllocator) : Prop where
  direct : s.strategy = .direct
  ordered : Ordered (s.allocations.map (·.range))
  below : ∀ allocation ∈ s.allocations, allocation.range.stop ≤ s.directNextOffset.toNat
  within : s.directNextOffset.toNat ≤ s.capacity.toNat

namespace Bumped

theorem create {capacity : Bytes} (h : create capacity .direct = .ok s) : Bumped s := by
  obtain rfl := eq_of_create h
  exact ⟨rfl, .nil, List.forall_mem_nil _, Nat.zero_le _⟩

theorem placed (h : Bumped s) : Placed s := by
  refine ⟨fun allocation ha => (h.below allocation ha).trans h.within, ?_⟩
  refine (List.pairwise_map.1 h.ordered).imp fun hle x ⟨hleft, hright⟩ => ?_
  have hstop := (contains_iff.1 hleft).2
  have hstart := (contains_iff.1 hright).1
  omega

theorem allocate (h : Bumped s) (hroom : s.HasRoom (.allocate id bytes)) :
    Bumped (s.allocate id bytes).1 := by
  have hstrategy : (s.allocate id bytes).1.strategy = .direct :=
    (strategy_perform s (.allocate id bytes)).trans h.direct
  have hcapacity : (s.allocate id bytes).1.capacity = s.capacity :=
    capacity_perform s (.allocate id bytes)
  by_cases hadmits : s.Admits id bytes
  · obtain ⟨hallocations, hnext⟩ := allocate_of_admits h.direct hadmits
    have hle := hroom hadmits
    -- the counter does not wrap
    have hcounter : (s.directNextOffset + bytes).toNat = s.directNextOffset.toNat + bytes.toNat := by
      rw [UInt64.toNat_add, Nat.mod_eq_of_lt (hle.trans_lt s.capacity.toNat_lt)]
    refine ⟨hstrategy, ?_, ?_, ?_⟩
    · rw [hallocations, List.map_append]
      refine List.pairwise_append.2 ⟨h.ordered, List.pairwise_singleton _ _, ?_⟩
      intro i hi j hj
      obtain ⟨allocation, ha, rfl⟩ := List.mem_map.1 hi
      obtain rfl := List.mem_singleton.1 hj
      exact h.below allocation ha
    · rw [hallocations, hnext, hcounter]
      intro allocation ha
      rcases List.mem_append.1 ha with ha | ha
      · exact (h.below allocation ha).trans (Nat.le_add_right _ _)
      · obtain rfl := List.mem_singleton.1 ha
        exact le_rfl
    · rw [hnext, hcounter, hcapacity]
      exact hle
  · obtain ⟨hallocations, hnext⟩ := allocate_of_not_admits h.direct hadmits
    refine ⟨hstrategy, ?_, ?_, ?_⟩
    · rw [hallocations]
      exact h.ordered
    · rw [hallocations, hnext]
      exact h.below
    · rw [hnext, hcapacity]
      exact h.within

theorem release (h : Bumped s) (id : Str) : Bumped (s.release id).1 := by
  obtain ⟨hsublist, hnext⟩ := release_direct id h.direct
  refine ⟨(strategy_perform s (.release id)).trans h.direct, h.ordered.sublist (hsublist.map _), ?_, ?_⟩
  · rw [hnext]
    exact fun allocation ha => h.below allocation (hsublist.subset ha)
  · rw [hnext, show (s.release id).1.capacity = s.capacity from capacity_perform s (.release id)]
    exact h.within

theorem perform (h : Bumped s) (hroom : s.HasRoom a) : Bumped (s.perform a).1 := by
  cases a with
  | allocate id bytes => exact h.allocate hroom
  | release id => exact h.release id

end Bumped

/-- An allocation that is admitted without room is not within the managed range. -/
theorem hasRoom_of_placed (hdirect : s.strategy = .direct) (h : Placed (s.perform a).1) :
    s.HasRoom a := by
  cases a with
  | allocate id bytes =>
    intro hadmits
    have hmem : (⟨id, s.directNextOffset, bytes⟩ : AllocationRecord) ∈
        (s.perform (.allocate id bytes)).1.allocations := by
      rw [perform, (allocate_of_admits hdirect hadmits).1]
      exact List.mem_append_right _ (List.mem_singleton_self _)
    rw [← capacity_perform s (.allocate id bytes)]
    exact h.within _ hmem
  | release id => trivial

theorem performAll_take_succ {as : List Action} {n : ℕ} (h : as[n]? = some a) :
    s.performAll (as.take (n + 1)) = ((s.performAll (as.take n)).perform a).1 := by
  rw [List.take_add_one, h, performAll, List.foldl_append]
  rfl

theorem strategy_performAll (s : MemoryAllocator) (as : List Action) :
    (s.performAll as).strategy = s.strategy := by
  induction as generalizing s with
  | nil => rfl
  | cons a as ih => exact (ih _).trans (strategy_perform s a)

/-- In all states of a run, the live allocations are within the managed range and apart from
    each other, exactly if each allocation of the run that is admitted has room. -/
theorem placed_iff {capacity : Bytes} (h : create capacity .direct = .ok s) (as : List Action) :
    (∀ n, Placed (s.performAll (as.take n))) ↔
      ∀ n, ∀ a ∈ as[n]?, (s.performAll (as.take n)).HasRoom a := by
  have hdirect (n : ℕ) : (s.performAll (as.take n)).strategy = .direct := by
    rw [strategy_performAll, eq_of_create h]
  constructor
  · intro hplaced n a ha
    refine hasRoom_of_placed (hdirect n) ?_
    rw [← performAll_take_succ (Option.mem_def.1 ha)]
    exact hplaced (n + 1)
  · intro hroom n
    refine Bumped.placed ?_
    induction n with
    | zero => exact .create h
    | succ n ih =>
      cases ha : as[n]? with
      | some a =>
        rw [performAll_take_succ ha]
        exact ih.perform (hroom n a ha)
      | none =>
        -- the run is over
        have hlength : as.length ≤ n := List.getElem?_eq_none_iff.1 ha
        rw [List.take_of_length_le (Nat.le_succ_of_le hlength)]
        rwa [List.take_of_length_le hlength] at ih

/-- An allocator of ten bytes. -/
def ten : MemoryAllocator := { capacity := 10, strategy := .direct, freeBlocks := [⟨0, 10⟩] }

/-- Every allocation has room. -/
def reused : List Action :=
  [.allocate (ascii "a") 4, .release (ascii "a"), .allocate (ascii "b") 6]

theorem reused_placed :
    (ten.performAll reused).allocations = [⟨ascii "b", 4, 6⟩] ∧ Placed (ten.performAll reused) := by
  have hroom : ∀ n < 3, ∀ a ∈ reused[n]?, (ten.performAll (reused.take n)).HasRoom a := by decide
  have hcreate : create 10 .direct = .ok ten := rfl
  have hplaced := (placed_iff hcreate reused).2 fun n a ha =>
    hroom n (List.getElem?_eq_some_iff.1 ha).1 a ha
  exact ⟨by decide, hplaced 3⟩

/-- What a release gives back is counted as free, but is behind the counter. -/
def overrun : List Action :=
  [.allocate (ascii "a") 6, .release (ascii "a"), .allocate (ascii "b") 6]

theorem overrun_not_placed :
    (ten.performAll overrun).allocations = [⟨ascii "b", 6, 6⟩] ∧
      ¬ ∀ capacity s, create capacity .direct = .ok s → ∀ as, Placed (s.performAll as) := by
  refine ⟨by decide, fun h => ?_⟩
  exact absurd ((h 10 ten rfl overrun).within ⟨ascii "b", 6, 6⟩ (by decide)) (by decide)

end MemoryAllocator

end Gpumemd
