import Mathlib.Algebra.Order.Field.Rat
import Gpumemd.Residency.Plan

/-!
# The choice of what to evict

The score by which a load ranks its candidates, without the rounding of `long double`, and
the orders in which `std::sort` may leave them (`Sorts`): for equal scores it may leave them
in any order, which then depends on how `records_` enumerates them.

So may the choice. A candidate is evicted in some order if those of smaller scores do not
suffice, and kept in some if the others, up to its score, do. The choice is the same in all
orders exactly if no candidate is between the two (`decided_unique_iff`).
-/

namespace Gpumemd

open Library

/-- The measured cost, the load history and the recency of a record. -/
def ResidencyRecord.worth (record : ResidencyRecord) : ℕ :=
  record.lastLoaded * (max record.estimatedLoadCostMs 1).toNat * (record.loadCount + 1)

/-- The size by which the worth is divided. -/
def ResidencyRecord.size (record : ResidencyRecord) : ℕ := (max record.footprintBytes 1).toNat

/-- `score`, without rounding. -/
def ResidencyRecord.score (record : ResidencyRecord) : ℚ := record.worth / record.size

/-- Costs and footprints count as one at least. -/
theorem toNat_max_one_pos (n : UInt64) : 0 < (max n 1).toNat := by
  show 0 < (if n ≤ 1 then 1 else n).toNat
  split_ifs with hle
  · exact Nat.one_pos
  · exact Nat.zero_lt_of_lt (UInt64.lt_iff_toNat_lt.1 (UInt64.not_le.1 hle))

theorem ResidencyRecord.size_pos (record : ResidencyRecord) : 0 < record.size :=
  toNat_max_one_pos _

/-- Scores are compared across. -/
theorem ResidencyRecord.score_le_iff {record record' : ResidencyRecord} :
    record.score ≤ record'.score ↔ record.worth * record'.size ≤ record'.worth * record.size := by
  have hpos : (0 : ℚ) < record.size := Nat.cast_pos.2 record.size_pos
  have hpos' : (0 : ℚ) < record'.size := Nat.cast_pos.2 record'.size_pos
  rw [score, score, div_le_div_iff₀ hpos hpos']
  exact_mod_cast Iff.rfl

namespace Daemon

variable {s : Daemon} {id id' : Str} {model : ModelRecord} {ranking : List Str}

/-- The eviction candidates. -/
def candidates (s : Daemon) : Finset Str := s.records.keys.filter s.IsCandidate

/-- The record of `id`, or an empty one. -/
def record (s : Daemon) (id : Str) : ResidencyRecord := (s.records.lookup id).getD {}

/-- The score of the record of `id`. -/
def score (s : Daemon) (id : Str) : ℚ := (s.record id).score

/-- The ranking is an order in which `std::sort` may leave the candidates. -/
def Sorts (s : Daemon) (ranking : List Str) : Prop :=
  s.Ranks ranking ∧ ranking.Pairwise fun id id' => s.score id ≤ s.score id'

/-- What `load` decides to evict; nothing, if it returns. -/
def decided (s : Daemon) (model : ModelRecord) (ranking : List Str) : List Str :=
  match (s.plan model ranking).1.running with
  | some (.fetching _ evictions) => evictions
  | _ => []

/-- The footprints of the candidates of smaller scores. -/
def cheaper (s : Daemon) (id : Str) : ℕ :=
  ∑ id' ∈ s.candidates with s.score id' < s.score id, (s.recordFootprint id').toNat

/-- The footprints of the other candidates, up to the score. -/
def others (s : Daemon) (id : Str) : ℕ :=
  ∑ id' ∈ s.candidates with id' ≠ id ∧ s.score id' ≤ s.score id, (s.recordFootprint id').toNat

theorem mem_candidates : id ∈ s.candidates ↔ s.IsCandidate id := by
  rw [candidates, Finset.mem_filter, Finmap.mem_keys]
  refine and_iff_right_of_imp ?_
  rintro ⟨record, hrecord, _⟩
  exact Finmap.mem_iff.2 ⟨record, hrecord⟩

theorem sorts_iff : s.Sorts ranking ↔ Orders s.score s.candidates ranking := by
  constructor
  · rintro ⟨⟨hnodup, hmem⟩, hsorted⟩
    exact ⟨hnodup, fun id => (hmem id).trans mem_candidates.symm, hsorted⟩
  · rintro ⟨hnodup, hmem, hsorted⟩
    exact ⟨⟨hnodup, fun id => (hmem id).trans mem_candidates⟩, hsorted⟩

instance (ranking : List Str) : Decidable (s.Sorts ranking) :=
  decidable_of_iff
    (s.Ranks ranking ∧ ranking.Pairwise fun id id' =>
      (s.record id).worth * (s.record id').size ≤ (s.record id').worth * (s.record id).size)
    (and_congr_right fun _ => by simp only [score, ResidencyRecord.score_le_iff])

theorem decided_eq (h : Inv s) (hs : s.Steady) (hranking : s.Ranks ranking) :
    s.decided model ranking =
      if model.footprintBytes.toNat ≤ s.obtainable then s.needed model ranking else [] := by
  rw [decided, plan_eq h hs model hranking]
  split_ifs
  · rfl
  · rfl

/-- All candidates together are enough if those up to some score are. -/
theorem free_add_others_le (s : Daemon) (id : Str) :
    s.resources.free.toNat + s.others id ≤ s.obtainable := by
  obtain ⟨ranking, hranking⟩ := exists_orders s.score s.candidates
  have hranks := (sorts_iff.2 hranking).1
  have hall : ranking.toFinset = s.candidates := by
    ext id'
    rw [List.mem_toFinset, hranking.mem]
  rw [obtainable_eq hranks, footprints, ← List.sum_toFinset _ hranks.1, hall]
  exact Nat.add_le_add_left (Finset.sum_le_sum_of_subset (Finset.filter_subset _ _)) _

/-- The decision of a load is the same in whatever order the candidates are sorted exactly
    if there is none of which those of smaller scores do not suffice while the others, up to
    its score, do. -/
theorem decided_unique_iff (hs : machine.Reachable s)
    (hrunning : s.running = some (.planning model)) :
    (∀ ranking ranking', s.Sorts ranking → s.Sorts ranking' →
        ∀ id, id ∈ s.decided model ranking ↔ id ∈ s.decided model ranking') ↔
      ∀ id, s.IsCandidate id →
        ¬ (s.resources.free.toNat + s.cheaper id < model.footprintBytes.toNat ∧
          model.footprintBytes.toNat ≤ s.resources.free.toNat + s.others id) := by
  have hinv := reachable_inv hs
  have hsteady : s.Steady := by simp [Steady, hrunning]
  by_cases hle : model.footprintBytes.toNat ≤ s.obtainable
  · have hdecided (ranking : List Str) (hranking : s.Sorts ranking) :
        s.decided model ranking = s.needed model ranking := by
      rw [decided_eq hinv hsteady hranking.1, if_pos hle]
    have hunique := fill_unique_iff (fun id => (s.recordFootprint id).toNat)
      model.footprintBytes.toNat s.resources.free.toNat s.score s.candidates
    simp only [← sorts_iff, mem_candidates] at hunique
    refine Iff.trans ⟨fun h l l' hl hl' id => ?_, fun h l l' hl hl' id => ?_⟩ hunique
    · have hsame := h l l' hl hl' id
      rwa [hdecided l hl, hdecided l' hl'] at hsame
    · rw [hdecided l hl, hdecided l' hl']
      exact h l l' hl hl' id
  · -- the load returns, whatever the order
    have hdecided (ranking : List Str) (hranking : s.Sorts ranking) :
        s.decided model ranking = [] := by
      rw [decided_eq hinv hsteady hranking.1, if_neg hle]
    refine iff_of_true (fun l l' hl hl' id => ?_) fun id _ hbetween => ?_
    · rw [hdecided l hl, hdecided l' hl']
    · exact hle (hbetween.2.trans (s.free_add_others_le id))

/-- The models `a` and `b` are resident, and `n` is to be loaded. -/
def shelving : Daemon := shelved.performAll [.load (ascii "n")]

theorem shelving_reachable : machine.Reachable shelving :=
  shelved_reachable.run (run_performAll (C := fun _ _ _ => True) (by decide)).of_restrict

theorem shelving_decided :
    shelving.Sorts [ascii "a", ascii "b"] ∧ ∀ ranking, shelving.Sorts ranking →
      ∀ id, id ∈ shelving.decided ⟨ascii "n", ascii "-", 60, 0, 0, []⟩ ranking ↔ id = ascii "a" := by
  have hsorts : shelving.Sorts [ascii "a", ascii "b"] := by decide
  refine ⟨hsorts, fun ranking hranking id => ?_⟩
  have hrunning : shelving.running =
      some (.planning ⟨ascii "n", ascii "-", 60, 0, 0, []⟩) := by decide
  have hsame := (decided_unique_iff shelving_reachable hrunning).2 ?_ ranking _ hranking hsorts id
  · have hdecided : shelving.decided ⟨ascii "n", ascii "-", 60, 0, 0, []⟩ [ascii "a", ascii "b"] =
        [ascii "a"] := by decide
    rw [hsame, hdecided, List.mem_singleton]
  · -- without `a` the other one is not enough, and without `b` it is
    have hnone : ∀ id ∈ shelving.candidates, ¬ (shelving.resources.free.toNat +
        shelving.cheaper id < 60 ∧ 60 ≤ shelving.resources.free.toNat + shelving.others id) := by
      decide +kernel
    exact fun id hid => hnone id (mem_candidates.2 hid)

/-- The model `b` is twice as large as `a` and was loaded second; `n` of 5 bytes is to be
    loaded, and no memory is free. -/
def tied : Daemon :=
  performAll { resources := { capacity := 30, schedulingPolicy := .priorityFifo } }
    [.registerModel (ascii "a") 10 (ascii "-"), .registerModel (ascii "b") 20 (ascii "-"),
      .registerModel (ascii "n") 5 (ascii "-"), .load (ascii "a"), .advance {}, .advance {},
      .advance {}, .advance {}, .load (ascii "b"), .advance { ranking := [ascii "a"] },
      .advance {}, .advance {}, .advance {}, .load (ascii "n")]

/-- Either of two models of one score is evicted, as the sort leaves them. -/
theorem tied_decided :
    tied.decided ⟨ascii "n", ascii "-", 5, 0, 0, []⟩ [ascii "a", ascii "b"] = [ascii "a"] ∧
      tied.decided ⟨ascii "n", ascii "-", 5, 0, 0, []⟩ [ascii "b", ascii "a"] = [ascii "b"] ∧
      ¬ ∀ s model, machine.Reachable s → s.running = some (.planning model) →
        ∀ ranking ranking', s.Sorts ranking → s.Sorts ranking' →
          ∀ id, id ∈ s.decided model ranking ↔ id ∈ s.decided model ranking' := by
  have ha : tied.decided ⟨ascii "n", ascii "-", 5, 0, 0, []⟩ [ascii "a", ascii "b"] =
      [ascii "a"] := by decide
  have hb : tied.decided ⟨ascii "n", ascii "-", 5, 0, 0, []⟩ [ascii "b", ascii "a"] =
      [ascii "b"] := by decide
  refine ⟨ha, hb, fun h => ?_⟩
  have hs : machine.Reachable tied :=
    Machine.Reachable.run (.init ⟨30, .priorityFifo, _, rfl, rfl⟩)
      (run_performAll (C := fun _ _ _ => True) (by decide)).of_restrict
  have hsame := h tied ⟨ascii "n", ascii "-", 5, 0, 0, []⟩ hs (by decide) [ascii "a", ascii "b"]
    [ascii "b", ascii "a"] (by decide) (by decide) (ascii "a")
  rw [ha, hb] at hsame
  exact absurd (hsame.1 List.mem_cons_self) (by decide)

end Daemon

end Gpumemd
