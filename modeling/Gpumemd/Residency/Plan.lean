import Gpumemd.Library.Filling
import Gpumemd.Residency.Capacity

/-!
# The plan of a load

A load plans with the free memory that it has read and with the footprints of its
candidates, in the order in which it has ranked them. What it adds up never exceeds the
capacity (`free_add_footprints_le`), so the loop counts exactly: the plan fails if and only
if all candidates together do not suffice, and otherwise chooses the shortest prefix of the
ranking that does (`plan_eq`).
-/

namespace Gpumemd

open Library

/-- What a resident model gives when it is evicted, unless it is retained. -/
def ResidencyRecord.obtainable (record : ResidencyRecord) : ℕ :=
  if record.resident && record.refCount == 0 then record.footprintBytes.toNat else 0

namespace Daemon

variable {s : Daemon} {id : Str} {model : ModelRecord} {evictions : List Str} {input : Input}

/-! ## What can be obtained -/

/-- The free memory and the footprints of the resident models that are not retained. -/
def obtainable (s : Daemon) : ℕ :=
  s.resources.free.toNat + Table.weight ResidencyRecord.obtainable s.records

/-- The footprint in the record of a candidate is that of its reservation. -/
theorem lookup_of_isCandidate (h : Inv s) (hs : s.Steady) (hid : s.IsCandidate id) :
    s.resources.modelReservations.lookup id = some (s.recordFootprint id) := by
  obtain ⟨bytes, hbytes⟩ := heldBytes_isSome hid
  rw [h.reserved, hs.expected_eq, hbytes, recordFootprint_of_heldBytes hbytes]

/-- Whatever the order of the candidates, their footprints are what can be obtained from
    them. -/
theorem obtainable_eq {ranking : List Str} (hranking : s.Ranks ranking) :
    s.obtainable = s.resources.free.toNat + s.footprints ranking := by
  have hrecord : ∀ id ∈ ranking, s.records.lookup id = some ((s.records.lookup id).getD {}) := by
    intro id hid
    obtain ⟨record, hrecord, _⟩ := (hranking.2 id).1 hid
    rw [hrecord, Option.getD_some]
  rw [obtainable, Table.weight_eq_sum hranking.1 hrecord, footprints]
  · congr 2
    refine List.map_congr_left fun id hid => ?_
    obtain ⟨record, hrecord, hresident, hcount⟩ := (hranking.2 id).1 hid
    rw [recordFootprint, hrecord, Option.getD_some, ResidencyRecord.obtainable, hresident, hcount]
    rfl
  · -- what is not ranked is not a candidate
    intro id record hrecord hnot
    rw [ResidencyRecord.obtainable, if_neg]
    intro hcandidate
    rw [Bool.and_eq_true, beq_iff_eq] at hcandidate
    exact hnot ((hranking.2 id).2 ⟨record, hrecord, hcandidate⟩)

/-- Distinct candidates are charged within the capacity. -/
theorem free_add_footprints_le (h : Inv s) (hs : s.Steady) (hnodup : evictions.Nodup)
    (hcandidates : ∀ id ∈ evictions, s.IsCandidate id) :
    s.resources.free.toNat + s.footprints evictions ≤ s.resources.capacity.toNat := by
  have hweight := Table.weight_eraseAll (w := UInt64.toNat) hnodup fun id hid =>
    lookup_of_isCandidate h hs (hcandidates id hid)
  obtain ⟨haccounted, _⟩ := ResourceManager.reachable_inv h.resources
  have hused := haccounted.balanced.used_eq
  have hle := haccounted.balanced.used_le
  rw [haccounted.free_toNat, footprints]
  omega

/-! ## The plan -/

/-- The evictions that the loop comes to: the shortest prefix of the ranking whose footprints
    suffice, beside the free memory. -/
def needed (s : Daemon) (model : ModelRecord) (ranking : List Str) : List Str :=
  fill (fun id => (s.recordFootprint id).toNat) model.footprintBytes.toNat s.resources.free.toNat
    ranking

/-- As long as the sum does not wrap, the loop counts exactly. -/
theorem chooseEvictions_eq {footprintBytes available : Bytes} {candidates : List ResidencyRecord}
    (hfit : available.toNat + (candidates.map fun record => record.footprintBytes.toNat).sum <
      2 ^ 64) :
    chooseEvictions footprintBytes candidates available =
      if footprintBytes.toNat ≤
          available.toNat + (candidates.map fun record => record.footprintBytes.toNat).sum then
        some ((fill (fun record => record.footprintBytes.toNat) footprintBytes.toNat available.toNat
          candidates).map (·.id))
      else none := by
  induction candidates generalizing available with
  | nil =>
    have hlt : available < footprintBytes ↔ ¬ footprintBytes.toNat ≤ available.toNat :=
      UInt64.lt_iff_toNat_lt.trans Nat.not_le.symm
    rw [chooseEvictions, List.map_nil, List.sum_nil, Nat.add_zero]
    split_ifs with hlack hle hle
    · exact absurd hle (hlt.1 hlack)
    · rfl
    · rfl
    · exact absurd (hlt.2 hle) hlack
  | cons candidate candidates ih =>
    rw [List.map_cons, List.sum_cons, ← Nat.add_assoc] at hfit ⊢
    have hadd : (available + candidate.footprintBytes).toNat =
        available.toNat + candidate.footprintBytes.toNat := by
      rw [UInt64.toNat_add, Nat.mod_eq_of_lt (by omega)]
    have hlt : available < footprintBytes ↔ available.toNat < footprintBytes.toNat :=
      UInt64.lt_iff_toNat_lt
    rw [chooseEvictions, fill]
    by_cases hlack : available < footprintBytes
    · rw [if_pos hlack, if_pos (hlt.1 hlack), ih (by rw [hadd]; exact hfit), hadd]
      split_ifs
      · rfl
      · rfl
    · have hle : footprintBytes.toNat ≤ available.toNat := Nat.not_lt.1 (mt hlt.2 hlack)
      rw [if_neg hlack, if_neg (Nat.not_lt.2 hle), if_pos (by omega)]
      rfl

/-- The footprints of the ranked candidates. -/
theorem sum_ranking (h : Inv s) (hs : s.Steady) {ranking : List Str}
    (hranking : ∀ id ∈ ranking, s.IsCandidate id) :
    ((ranking.filterMap (s.records.lookup ·)).map fun record => record.footprintBytes.toNat).sum =
      s.footprints ranking := by
  have hids := h.map_id_ranking hs hranking
  have hfootprints : (ranking.filterMap (s.records.lookup ·)).map
      (fun record => record.footprintBytes.toNat) =
      ((ranking.filterMap (s.records.lookup ·)).map (·.id)).map
        fun id => (s.recordFootprint id).toNat := by
    rw [List.map_map]
    refine List.map_congr_left fun candidate hcandidate => ?_
    rw [Function.comp_apply, recordFootprint_of_mem h hs hcandidate]
  rw [hfootprints, hids, footprints]

/-- The plan fails exactly if all candidates together do not suffice, and otherwise chooses
    what is needed. -/
theorem plan_eq (h : Inv s) (hs : s.Steady) (model : ModelRecord) {ranking : List Str}
    (hranking : s.Ranks ranking) :
    s.plan model ranking =
      if model.footprintBytes.toNat ≤ s.obtainable then
        s.proceed (.fetching model (s.needed model ranking))
      else s.returned .insufficientMemory 0 := by
  have hcandidates (id : Str) (hid : id ∈ ranking) : s.IsCandidate id := (hranking.2 id).1 hid
  have hle := free_add_footprints_le h hs hranking.1 hcandidates
  have hsum := sum_ranking h hs hcandidates
  have hneeded : (fill (fun record => record.footprintBytes.toNat) model.footprintBytes.toNat
      s.resources.free.toNat (ranking.filterMap (s.records.lookup ·))).map (·.id) =
      s.needed model ranking := by
    have hids := h.map_id_ranking hs hcandidates
    rw [needed, ← congrArg (fill _ _ _) hids, fill_map]
    refine congrArg (List.map _) (fill_congr (fun candidate hcandidate => ?_) _)
    rw [Function.comp_apply, recordFootprint_of_mem h hs hcandidate]
  rw [obtainable_eq hranking, plan]
  by_cases hlarge : model.footprintBytes > s.resources.capacity
  · have hlt : s.resources.capacity.toNat < model.footprintBytes.toNat :=
      UInt64.lt_iff_toNat_lt.1 hlarge
    rw [if_pos hlarge, if_neg (by omega)]
  · rw [if_neg hlarge]
    by_cases hlack : s.resources.free < model.footprintBytes
    · have hbound := s.resources.capacity.toNat_lt
      rw [if_pos hlack, chooseEvictions_eq (by rw [hsum]; omega), hsum, hneeded]
      split_ifs
      · rfl
      · rfl
    · -- nothing is needed
      have hfits : model.footprintBytes.toNat ≤ s.resources.free.toNat :=
        UInt64.le_iff_toNat_le.1 (UInt64.not_lt.1 hlack)
      rw [if_neg hlack, if_pos (by omega), needed, fill_of_le hfits]

/-- What is needed suffices. -/
theorem le_footprints_needed {ranking : List Str} (hranking : s.Ranks ranking)
    (hle : model.footprintBytes.toNat ≤ s.obtainable) :
    model.footprintBytes.toNat ≤
      s.resources.free.toNat + s.footprints (s.needed model ranking) := by
  rw [obtainable_eq hranking] at hle
  exact le_sum_fill hle

theorem evictable_needed (model : ModelRecord) {ranking : List Str} (hranking : s.Ranks ranking) :
    s.Evictable (s.needed model ranking) := by
  have hfirst : s.needed model ranking <+: ranking := prefix_fill _ _
  exact ⟨hranking.1.sublist hfirst.sublist, fun id hid => (hranking.2 id).1 (hfirst.subset hid)⟩

/-- A plan that fails has found that all candidates together do not suffice. -/
theorem obtainable_lt_of_plan (h : Inv s) (hrunning : s.running = some (.planning model))
    (hranking : s.Ranks input.ranking)
    (hplan : (s.plan model input.ranking).2 ≠ .running) :
    s.obtainable < model.footprintBytes.toNat := by
  rw [plan_eq h (by simp [Steady, hrunning]) model hranking] at hplan
  split_ifs at hplan with hle
  · exact absurd rfl hplan
  · exact Nat.not_le.1 hle

/-- The models `a` and `b` of 30 bytes each are resident, and 40 bytes are free. -/
def shelved : Daemon :=
  performAll { resources := { capacity := 100, schedulingPolicy := .priorityFifo } }
    [.registerModel (ascii "a") 30 (ascii "-"), .registerModel (ascii "b") 30 (ascii "-"),
      .registerModel (ascii "n") 60 (ascii "-"), .load (ascii "a"), .advance {}, .advance {},
      .advance {}, .advance {}, .load (ascii "b"), .advance { ranking := [ascii "a"] },
      .advance {}, .advance {}, .advance {}]

theorem shelved_reachable : machine.Reachable shelved :=
  Machine.Reachable.run (.init ⟨100, .priorityFifo, _, rfl, rfl⟩)
    (run_performAll (C := fun _ _ _ => True) (by decide)).of_restrict

end Daemon

end Gpumemd
