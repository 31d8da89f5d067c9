import Mathlib.Algebra.BigOperators.Group.Finset.Piecewise
import Mathlib.Algebra.Order.BigOperators.Group.Finset
import Mathlib.Algebra.BigOperators.Group.List.Basic
import Mathlib.Algebra.Order.Ring.Nat
import Mathlib.Data.Finset.Max

/-!
# Scheduling in turn into the least loaded bin

Jobs of known sizes are put into bins, one after the other, each into one of the least loaded
bins at that time (`ScheduledInTurn`).

* A bin has at most the load of any other, and one of its jobs more
  (`ScheduledInTurn.workload_le_add`).
* For `m` bins, no load is more than `2 - 1 / m` times the largest one of whatever other
  schedule of the same jobs (`ScheduledInTurn.workload_le_mul`).
* Where a job does not fit into any bin, no other schedule of all jobs has loads that stay
  within `1 / (2 * m - 1)` of what fits into all bins (`exists_lt_mul_workload`).
-/

namespace Library

variable {α ι : Type*} [DecidableEq ι]

section

variable (size : α → ℕ) (bin : α → ι)

/-- The load of a bin. -/
def workload (jobs : List α) (i : ι) : ℕ := ((jobs.filter (bin · == i)).map size).sum

/-- Each job is put into one of the least loaded of the bins. -/
inductive ScheduledInTurn (bins : Finset ι) : List α → Prop
  | nil : ScheduledInTurn bins []
  | snoc {jobs : List α} {a : α} : ScheduledInTurn bins jobs →
      (∀ i ∈ bins, workload size bin jobs (bin a) ≤ workload size bin jobs i) →
      ScheduledInTurn bins (jobs ++ [a])

end

variable {size : α → ℕ} {bin other : α → ι} {bins : Finset ι} {jobs : List α} {a : α} {i : ι}

theorem workload_append_singleton : workload size bin (jobs ++ [a]) i =
    workload size bin jobs i + if bin a = i then size a else 0 := by
  rw [workload, List.filter_append, List.map_append, List.sum_append]
  by_cases heq : bin a = i
  · simp [workload, heq]
  · simp [workload, heq]

/-- All loads together are all sizes, wherever the jobs are. -/
theorem sum_workload (hbin : ∀ a ∈ jobs, bin a ∈ bins) :
    ∑ i ∈ bins, workload size bin jobs i = (jobs.map size).sum := by
  induction jobs using List.reverseRecOn with
  | nil => exact Finset.sum_const_zero
  | append_singleton jobs a ih =>
    have ha : bin a ∈ bins := hbin a (by simp)
    simp only [workload_append_singleton, Finset.sum_add_distrib, Finset.sum_ite_eq, if_pos ha]
    rw [ih fun b hb => hbin b (List.mem_append_left _ hb)]
    simp

/-- A job is part of the load of its bin. -/
theorem size_le_workload (ha : a ∈ jobs) : size a ≤ workload size bin jobs (bin a) :=
  List.single_le_sum (fun _ _ => Nat.zero_le _) _
    (List.mem_map_of_mem (List.mem_filter.2 ⟨ha, beq_self_eq_true _⟩))

/-- Some bin has at least the average load. -/
theorem exists_sum_le_mul_workload (size : α → ℕ) (hbins : bins.Nonempty)
    (hbin : ∀ a ∈ jobs, bin a ∈ bins) :
    ∃ j ∈ bins, (jobs.map size).sum ≤ bins.card * workload size bin jobs j ∧
      ∀ a ∈ jobs, size a ≤ workload size bin jobs j := by
  obtain ⟨j, hj, hmax⟩ := bins.exists_max_image (workload size bin jobs) hbins
  refine ⟨j, hj, ?_, fun a ha => (size_le_workload ha).trans (hmax _ (hbin a ha))⟩
  calc (jobs.map size).sum = ∑ i ∈ bins, workload size bin jobs i := (sum_workload hbin).symm
    _ ≤ bins.card • workload size bin jobs j := Finset.sum_le_card_nsmul _ _ _ hmax
    _ = bins.card * workload size bin jobs j := Nat.nsmul_eq_mul _ _

omit [DecidableEq ι] in
/-- One bin, and the other ones. -/
theorem card_mul (hbins : bins.Nonempty) (n : ℕ) : bins.card * n = n + (bins.card - 1) * n := by
  obtain ⟨m, hm⟩ := Nat.exists_eq_succ_of_ne_zero hbins.card_pos.ne'
  rw [hm, Nat.succ_sub_one, Nat.succ_mul, Nat.add_comm]

/-- What is at most the sizes of all jobs, and of one of them for each bin but one, is at most
    `2 * m - 1` times the largest load of any schedule. -/
theorem exists_le_mul_workload {n : ℕ} (hother : ∀ a ∈ jobs, other a ∈ bins)
    (hbins : bins.Nonempty) (ha : a ∈ jobs)
    (hn : n ≤ (jobs.map size).sum + (bins.card - 1) * size a) :
    ∃ j ∈ bins, n ≤ (2 * bins.card - 1) * workload size other jobs j := by
  obtain ⟨j, hj, hsum, hsize⟩ := exists_sum_le_mul_workload size hbins hother
  refine ⟨j, hj, hn.trans ?_⟩
  have hcard : 0 < bins.card := hbins.card_pos
  have hsplit : 2 * bins.card - 1 = bins.card + (bins.card - 1) := by omega
  rw [hsplit, Nat.add_mul]
  exact Nat.add_le_add hsum (Nat.mul_le_mul_left _ (hsize a ha))

namespace ScheduledInTurn

/-- The last job of a bin was put there when it was one of the least loaded. -/
theorem workload_le_add (h : ScheduledInTurn size bin bins jobs)
    (hload : workload size bin jobs i ≠ 0) :
    ∃ a ∈ jobs, bin a = i ∧
      ∀ j ∈ bins, workload size bin jobs i ≤ workload size bin jobs j + size a := by
  induction h with
  | nil => exact absurd rfl hload
  | @snoc jobs a _ hleast ih =>
    have hmono (j : ι) : workload size bin jobs j ≤ workload size bin (jobs ++ [a]) j := by
      rw [workload_append_singleton]
      exact Nat.le_add_right _ _
    by_cases heq : bin a = i
    · refine ⟨a, by simp, heq, fun j hj => ?_⟩
      rw [workload_append_singleton, if_pos heq]
      exact Nat.add_le_add_right ((heq ▸ hleast j hj).trans (hmono j)) _
    · rw [workload_append_singleton, if_neg heq, Nat.add_zero] at hload ⊢
      obtain ⟨b, hb, hbin, hle⟩ := ih hload
      refine ⟨b, List.mem_append_left _ hb, hbin, fun j hj => ?_⟩
      exact (hle j hj).trans (Nat.add_le_add_right (hmono j) _)

/-- The largest load, against that of any other schedule of the jobs. -/
theorem workload_le_mul (h : ScheduledInTurn size bin bins jobs)
    (hbin : ∀ a ∈ jobs, bin a ∈ bins) (hother : ∀ a ∈ jobs, other a ∈ bins) (hi : i ∈ bins) :
    ∃ j ∈ bins, bins.card * workload size bin jobs i ≤
      (2 * bins.card - 1) * workload size other jobs j := by
  by_cases hload : workload size bin jobs i = 0
  · exact ⟨i, hi, by simp [hload]⟩
  obtain ⟨a, ha, -, hle⟩ := h.workload_le_add hload
  refine exists_le_mul_workload hother ⟨i, hi⟩ ha ?_
  -- its own load, and that of each other bin with the job
  have hrest : ∑ j ∈ bins.erase i, workload size bin jobs i ≤
      ∑ j ∈ bins.erase i, (workload size bin jobs j + size a) :=
    Finset.sum_le_sum fun j hj => hle j (Finset.mem_of_mem_erase hj)
  rw [Finset.sum_add_distrib, Finset.sum_const, Finset.sum_const, Nat.nsmul_eq_mul, Nat.nsmul_eq_mul,
    Finset.card_erase_of_mem hi] at hrest
  rw [card_mul ⟨i, hi⟩, ← sum_workload hbin, ← Finset.add_sum_erase _ _ hi, Nat.add_assoc]
  exact Nat.add_le_add_left hrest _

end ScheduledInTurn

/-- A job that does not fit into any bin, where `capacity` is what fits. -/
theorem exists_lt_mul_workload {capacity : ι → ℕ} (hbins : bins.Nonempty)
    (hbin : ∀ b ∈ jobs, bin b ∈ bins) (hother : ∀ b ∈ jobs ++ [a], other b ∈ bins)
    (hfull : ∀ i ∈ bins, capacity i < workload size bin jobs i + size a) :
    ∃ j ∈ bins, ∑ i ∈ bins, capacity i <
      (2 * bins.card - 1) * workload size other (jobs ++ [a]) j := by
  have hsum : ∑ i ∈ bins, capacity i < (jobs.map size).sum + bins.card * size a := by
    rw [← sum_workload hbin, ← Nat.nsmul_eq_mul, ← Finset.sum_const, ← Finset.sum_add_distrib]
    exact Finset.sum_lt_sum_of_nonempty hbins hfull
  refine exists_le_mul_workload (n := ∑ i ∈ bins, capacity i + 1) hother hbins
    (List.mem_append_right _ (List.mem_singleton_self a)) (Nat.succ_le_of_lt (hsum.trans_eq ?_))
  rw [card_mul hbins, List.map_append, List.sum_append, List.map_singleton, List.sum_singleton,
    Nat.add_assoc]

end Library
