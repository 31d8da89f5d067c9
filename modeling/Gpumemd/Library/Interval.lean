import Mathlib.Algebra.BigOperators.Group.Finset.Piecewise
import Mathlib.Algebra.Order.BigOperators.Group.Finset
import Mathlib.Algebra.Group.Action.Defs
import Mathlib.Algebra.GroupWithZero.Nat
import Mathlib.Order.Interval.Finset.Nat

/-!
# Intervals of natural numbers

Half-open intervals, given by their start and their length. How many intervals of a
list contain a point (`cover`) says whether they overlap and what they make up
together: the lengths add up to the sum of the cover (`sum_length`), and intervals in
the order of their starts that cover no point twice come one after the other
(`ordered_of_cover`).

Intervals that come one after the other are joined where they touch (`coalesce`): this
covers the same points, and leaves gaps between all of them (`separated_coalesce`).
Intervals with gaps between them are the only ones that make up their points
(`Separated.ext`), and points in a row that they make up are in one of them
(`Separated.exists_of_run`).
-/

namespace Library

/-- A half-open interval. -/
structure Interval where
  start : ℕ
  length : ℕ
  deriving DecidableEq

namespace Interval

/-- The first point after the interval. -/
def stop (i : Interval) : ℕ := i.start + i.length

/-- The point is in the interval. -/
def contains (i : Interval) (x : ℕ) : Bool := i.start ≤ x && x < i.stop

/-- How many of the intervals contain the point. -/
def cover (l : List Interval) (x : ℕ) : ℕ := l.countP (·.contains x)

/-- The intervals come one after the other. -/
def Ordered (l : List Interval) : Prop := l.Pairwise fun i j => i.stop ≤ j.start

/-- The intervals come one after the other, with gaps between them. -/
def Separated (l : List Interval) : Prop := l.Pairwise fun i j => i.stop < j.start

/-- No interval is empty. -/
def Positive (l : List Interval) : Prop := ∀ i ∈ l, 0 < i.length

/-- Every point below `n` is in exactly one of the intervals, and no other point in any. -/
def Partitions (l : List Interval) (n : ℕ) : Prop := ∀ x, cover l x = if x < n then 1 else 0

variable {i j : Interval} {l l' : List Interval} {n x : ℕ}

theorem contains_iff : i.contains x = true ↔ i.start ≤ x ∧ x < i.stop := by
  rw [contains, Bool.and_eq_true, decide_eq_true_eq, decide_eq_true_eq]

/-! ## Cover -/

theorem cover_cons : cover (i :: l) x = cover l x + if i.contains x then 1 else 0 :=
  List.countP_cons

theorem cover_append : cover (l ++ l') x = cover l x + cover l' x := List.countP_append

theorem cover_perm (h : l.Perm l') : cover l x = cover l' x := h.countP_eq _

theorem cover_middle : cover (l ++ i :: l') x = cover (i :: (l ++ l')) x :=
  cover_perm List.perm_middle

/-- An interval is covered by its two parts. -/
theorem cover_split (h : n ≤ i.length) :
    cover (i :: l) x = cover (⟨i.start, n⟩ :: ⟨i.start + n, i.length - n⟩ :: l) x := by
  simp only [cover_cons, contains_iff, stop]
  split_ifs <;> omega

/-- Two intervals that touch are covered by the one they make up. -/
theorem cover_join (h : i.stop = j.start) :
    cover (⟨i.start, i.length + j.length⟩ :: l) x = cover (i :: j :: l) x := by
  rw [stop] at h
  simp only [cover_cons, contains_iff, stop]
  split_ifs <;> omega

theorem cover_of_length_eq_zero (h : i.length = 0) : cover (i :: l) x = cover l x := by
  have hout : i.contains x = false := by
    rw [Bool.eq_false_iff, ne_eq, contains_iff, stop, h]
    omega
  rw [cover_cons, hout]
  rfl

/-- The length of an interval is the number of its points. -/
theorem length_eq_sum (h : i.stop ≤ n) :
    i.length = ∑ x ∈ Finset.range n, if i.contains x then 1 else 0 := by
  have hpoints : (Finset.range n).filter (fun x => i.contains x = true) =
      Finset.Ico i.start i.stop := by
    ext x
    rw [Finset.mem_filter, Finset.mem_range, contains_iff, Finset.mem_Ico]
    omega
  rw [← Finset.card_filter, hpoints, Nat.card_Ico, stop]
  omega

/-- The lengths add up to the cover of all points. -/
theorem sum_length (h : ∀ i ∈ l, i.stop ≤ n) :
    (l.map length).sum = ∑ x ∈ Finset.range n, cover l x := by
  induction l with
  | nil => exact (Finset.sum_const_zero).symm
  | cons i l ih =>
    rw [List.forall_mem_cons] at h
    simp only [cover_cons]
    rw [Finset.sum_add_distrib, List.map_cons, List.sum_cons, ih h.2, length_eq_sum h.1,
      Nat.add_comm]

namespace Partitions

theorem le_one (h : Partitions l n) (x : ℕ) : cover l x ≤ 1 := by
  rw [h]
  split_ifs <;> omega

/-- The intervals end by `n`. -/
theorem stop_le (h : Partitions l n) (hpositive : Positive l) (hi : i ∈ l) : i.stop ≤ n := by
  by_contra hlt
  -- otherwise the last point is covered
  have hlast : i.contains (i.stop - 1) = true := by
    have hlength := hpositive i hi
    rw [contains_iff, stop]
    omega
  have hpos : 0 < cover l (i.stop - 1) := List.countP_pos_iff.2 ⟨i, hi, hlast⟩
  rw [h, if_neg (by omega)] at hpos
  exact absurd hpos (Nat.lt_irrefl 0)

/-- The lengths add up to `n`. -/
theorem sum_length (h : Partitions l n) (hpositive : Positive l) : (l.map length).sum = n := by
  have hone : ∀ x ∈ Finset.range n, cover l x = 1 := fun x hx =>
    (h x).trans (if_pos (Finset.mem_range.1 hx))
  rw [Interval.sum_length fun i hi => h.stop_le hpositive hi, Finset.sum_congr rfl hone,
    Finset.sum_const, Finset.card_range, smul_eq_mul, Nat.mul_one]

end Partitions

/-- Intervals that are sorted by their starts and cover no point twice come one after
    the other. -/
theorem ordered_of_cover (hsorted : l.Pairwise fun i j => i.start ≤ j.start)
    (hpositive : Positive l) (hcover : ∀ x, cover l x ≤ 1) : Ordered l := by
  induction l with
  | nil => exact .nil
  | cons i l ih =>
    rw [List.pairwise_cons] at hsorted
    have hl : ∀ x, cover l x ≤ 1 := fun x =>
      (Nat.le_add_right _ _).trans (cover_cons.symm.trans_le (hcover x))
    refine List.pairwise_cons.2
      ⟨fun j hj => ?_, ih hsorted.2 (fun j hj => hpositive j (List.mem_cons_of_mem _ hj)) hl⟩
    by_contra hlt
    -- otherwise the start of `j` is in both
    have hi : i.contains j.start = true := contains_iff.2 ⟨hsorted.1 j hj, not_le.1 hlt⟩
    have hj' : j.contains j.start = true :=
      contains_iff.2 ⟨le_rfl, Nat.lt_add_of_pos_right (hpositive j (List.mem_cons_of_mem _ hj))⟩
    have hpos : 0 < cover l j.start := List.countP_pos_iff.2 ⟨j, hj, hj'⟩
    have htwice := hcover j.start
    rw [cover_cons, if_pos hi] at htwice
    omega

/-- An interval may shrink where it stands. -/
theorem Separated.shrink (h : Separated (l ++ i :: l')) (hstart : i.start ≤ j.start)
    (hstop : j.stop ≤ i.stop) : Separated (l ++ j :: l') := by
  obtain ⟨hl, hl', happend⟩ := List.pairwise_append.1 h
  rw [List.pairwise_cons] at hl'
  refine List.pairwise_append.2
    ⟨hl, List.pairwise_cons.2 ⟨fun k hk => hstop.trans_lt (hl'.1 k hk), hl'.2⟩, ?_⟩
  intro k hk k' hk'
  rcases List.mem_cons.1 hk' with rfl | hk'
  · exact (happend k hk i List.mem_cons_self).trans_le hstart
  · exact happend k hk k' (List.mem_cons_of_mem _ hk')

/-! ## Intervals with gaps between them -/

theorem cover_pos : 0 < cover l x ↔ ∃ i ∈ l, i.start ≤ x ∧ x < i.stop := by
  simp only [cover, List.countP_pos_iff, contains_iff]

/-- No point is covered before the first interval. -/
theorem Separated.start_le (h : Separated (i :: l)) (hcover : 0 < cover (i :: l) x) :
    i.start ≤ x := by
  obtain ⟨j, hj, hstart, _⟩ := cover_pos.1 hcover
  rcases List.mem_cons.1 hj with rfl | hj
  · exact hstart
  · have hgap : i.start + i.length < j.start := (List.pairwise_cons.1 h).1 j hj
    omega

/-- The first interval ends in a gap. -/
theorem Separated.cover_stop (h : Separated (i :: l)) : cover (i :: l) i.stop = 0 := by
  by_contra hcover
  obtain ⟨j, hj, hstart, hstop⟩ := cover_pos.1 (Nat.pos_of_ne_zero hcover)
  rcases List.mem_cons.1 hj with rfl | hj
  · exact Nat.lt_irrefl _ hstop
  · exact Nat.not_lt.2 hstart ((List.pairwise_cons.1 h).1 j hj)

/-- So does each of them. -/
theorem Separated.cover_stop_of_mem (h : Separated l) (hi : i ∈ l) : cover l i.stop = 0 := by
  induction l with
  | nil => cases hi
  | cons k l ih =>
    rcases List.mem_cons.1 hi with rfl | hi
    · exact h.cover_stop
    · have hgap : k.stop < i.start := (List.pairwise_cons.1 h).1 i hi
      have hout : ¬ k.contains i.stop = true := by
        rw [contains_iff, not_and, not_lt]
        exact fun _ => hgap.le.trans (Nat.le_add_right _ _)
      rw [cover_cons, ih (List.pairwise_cons.1 h).2 hi, if_neg hout]

/-- Where other intervals fill the gaps, each of them ends at the end of everything, or one of the
    others starts there. -/
theorem Partitions.stop_eq (h : Partitions (l ++ l') n) (hseparated : Separated l)
    (hpositive : Positive (l ++ l')) (hi : i ∈ l) : i.stop = n ∨ ∃ j ∈ l', j.start = i.stop := by
  have hmem : i ∈ l ++ l' := List.mem_append_left _ hi
  refine (h.stop_le hpositive hmem).eq_or_lt.imp_right fun hlt => ?_
  have hstop := h i.stop
  rw [cover_append, hseparated.cover_stop_of_mem hi, if_pos hlt, Nat.zero_add] at hstop
  obtain ⟨j, hj, hstart, hend⟩ := cover_pos.1 (hstop ▸ Nat.one_pos)
  refine ⟨j, hj, hstart.antisymm (not_lt.1 fun hbefore => ?_)⟩
  -- otherwise the last point of `i` is in `j` as well
  have hlength := hpositive i hmem
  have hlast : i.start ≤ i.stop - 1 ∧ i.stop - 1 < i.stop := by
    rw [stop]
    omega
  have hfirst : 0 < cover l (i.stop - 1) := cover_pos.2 ⟨i, hi, hlast⟩
  have hsecond : 0 < cover l' (i.stop - 1) := cover_pos.2 ⟨j, hj, by omega, by omega⟩
  have hone := h.le_one (i.stop - 1)
  rw [cover_append] at hone
  omega

/-- So there is at most one more of them than of the others. -/
theorem Partitions.length_le (h : Partitions (l ++ l') n) (hseparated : Separated l)
    (hpositive : Positive (l ++ l')) : l.length ≤ l'.length + 1 := by
  have hnodup : (l.map stop).Nodup :=
    List.pairwise_map.2 (hseparated.imp fun hlt => (hlt.trans_le (Nat.le_add_right _ _)).ne)
  have hsubset : l.map stop ⊆ n :: l'.map start := by
    intro x hx
    obtain ⟨i, hi, rfl⟩ := List.mem_map.1 hx
    rcases h.stop_eq hseparated hpositive hi with hlast | ⟨j, hj, hnext⟩
    · exact hlast ▸ List.mem_cons_self
    · exact List.mem_cons_of_mem _ (List.mem_map.2 ⟨j, hj, hnext⟩)
  simpa using (List.subperm_of_subset hnodup hsubset).length_le

/-- The first intervals start at the first point, and end at the first gap after it. -/
theorem Separated.head_le (h : Separated (i :: l)) (h' : Separated (j :: l'))
    (hi : 0 < i.length) (hj : 0 < j.length)
    (hcover : ∀ x, cover (i :: l) x = cover (j :: l') x) : i.start = j.start ∧ i.stop ≤ j.stop := by
  have hstart : i.start = j.start := by
    refine Nat.le_antisymm (h.start_le ?_) (h'.start_le ?_)
    · exact hcover j.start ▸ cover_pos.2 ⟨j, List.mem_cons_self, le_rfl, Nat.lt_add_of_pos_right hj⟩
    · exact hcover i.start ▸ cover_pos.2 ⟨i, List.mem_cons_self, le_rfl, Nat.lt_add_of_pos_right hi⟩
  refine ⟨hstart, Nat.not_lt.1 fun hlt => ?_⟩
  -- otherwise `i` contains the gap that `j` ends in
  have hgap : 0 < cover (i :: l) j.stop :=
    cover_pos.2 ⟨i, List.mem_cons_self, hstart.trans_le (Nat.le_add_right _ _), hlt⟩
  rw [hcover, h'.cover_stop] at hgap
  exact Nat.lt_irrefl 0 hgap

/-- Intervals with gaps between them are determined by the points they make up. -/
theorem Separated.ext (h : Separated l) (h' : Separated l') (hpositive : Positive l)
    (hpositive' : Positive l') (hcover : ∀ x, cover l x = cover l' x) : l = l' := by
  induction l generalizing l' with
  | nil =>
    cases l' with
    | nil => rfl
    | cons j l' =>
      have hj : 0 < cover (j :: l') j.start := cover_pos.2
        ⟨j, List.mem_cons_self, le_rfl, Nat.lt_add_of_pos_right (hpositive' j List.mem_cons_self)⟩
      rw [← hcover] at hj
      exact absurd hj (Nat.lt_irrefl 0)
  | cons i l ih =>
    have hi := hpositive i List.mem_cons_self
    cases l' with
    | nil =>
      have hi' : 0 < cover (i :: l) i.start :=
        cover_pos.2 ⟨i, List.mem_cons_self, le_rfl, Nat.lt_add_of_pos_right hi⟩
      rw [hcover] at hi'
      exact absurd hi' (Nat.lt_irrefl 0)
    | cons j l' =>
      have hj := hpositive' j List.mem_cons_self
      obtain ⟨hstart, hle⟩ := h.head_le h' hi hj hcover
      have hge := (h'.head_le h hj hi fun x => (hcover x).symm).2
      obtain rfl : i = j := by
        cases i
        cases j
        simp only [stop] at hstart hle hge
        simp only [mk.injEq]
        omega
      refine congrArg (i :: ·) (ih (List.pairwise_cons.1 h).2 (List.pairwise_cons.1 h').2
        (fun j hj => hpositive j (List.mem_cons_of_mem _ hj))
        (fun j hj => hpositive' j (List.mem_cons_of_mem _ hj)) fun x => ?_)
      have hx := hcover x
      rw [cover_cons, cover_cons] at hx
      exact Nat.add_right_cancel hx

/-- Points in a row that are covered are in one interval. -/
theorem Separated.exists_of_run (h : Separated l) {start n : ℕ} (hn : 0 < n)
    (hrun : ∀ x, start ≤ x → x < start + n → 0 < cover l x) :
    ∃ i ∈ l, i.start ≤ start ∧ start + n ≤ i.stop := by
  obtain ⟨i, hi, hstart, hlt⟩ := cover_pos.1 (hrun start le_rfl (Nat.lt_add_of_pos_right hn))
  refine ⟨i, hi, hstart, Nat.not_lt.1 fun hstop => ?_⟩
  -- otherwise the interval that contains the end of `i` touches `i`
  obtain ⟨j, hj, hjstart, hjstop⟩ := cover_pos.1 (hrun i.stop hlt.le hstop)
  have hne : i ≠ j := by
    rintro rfl
    exact Nat.lt_irrefl _ hjstop
  have hsymmetric : Std.Symm fun i j : Interval => i.stop < j.start ∨ j.stop < i.start :=
    ⟨fun _ _ => Or.symm⟩
  have happart : l.Pairwise fun i j => i.stop < j.start ∨ j.stop < i.start := h.imp .inl
  rcases happart.forall hi hj hne with hgap | hgap
  · exact Nat.not_lt.2 hjstart hgap
  · have hstart' : i.start ≤ i.stop := Nat.le_add_right _ _
    omega

/-! ## Joining intervals that touch -/

/-- Joins the interval `back` with those of the list it touches, and so on along the
    list. -/
def coalesceFrom : Interval → List Interval → List Interval
  | back, [] => [back]
  | back, i :: l =>
    if back.stop = i.start then coalesceFrom ⟨back.start, back.length + i.length⟩ l
    else back :: coalesceFrom i l

/-- Joins the intervals that touch the one before them. -/
def coalesce : List Interval → List Interval
  | [] => []
  | i :: l => coalesceFrom i l

/-- An interval joined with the next one comes before the others still. -/
theorem Ordered.join (h : Ordered (i :: j :: l)) (hjoin : i.stop = j.start) :
    Ordered (⟨i.start, i.length + j.length⟩ :: l) := by
  obtain ⟨hj, hl⟩ := List.pairwise_cons.1 (List.pairwise_cons.1 h).2
  refine List.pairwise_cons.2 ⟨fun k hk => le_trans ?_ (hj k hk), hl⟩
  rw [stop] at hjoin
  simp only [stop]
  omega

theorem cover_coalesceFrom (l : List Interval) (x : ℕ) :
    cover (coalesceFrom i l) x = cover (i :: l) x := by
  induction l generalizing i with
  | nil => rfl
  | cons j l ih =>
    rw [coalesceFrom]
    split_ifs with h
    · rw [ih, cover_join h]
    · rw [cover_cons, ih, cover_cons (i := i)]

theorem positive_coalesceFrom (h : Positive (i :: l)) : Positive (coalesceFrom i l) := by
  induction l generalizing i with
  | nil => exact h
  | cons j l ih =>
    rw [Positive, List.forall_mem_cons] at h
    rw [coalesceFrom]
    split_ifs
    · refine ih (List.forall_mem_cons.2 ⟨Nat.add_pos_left h.1 _, ?_⟩)
      exact (List.forall_mem_cons.1 h.2).2
    · exact List.forall_mem_cons.2 ⟨h.1, ih h.2⟩

/-- What is joined starts no earlier than its first part. -/
theorem le_start_of_mem_coalesceFrom (h : Ordered (i :: l)) (hj : j ∈ coalesceFrom i l) :
    i.start ≤ j.start := by
  induction l generalizing i with
  | nil => exact (List.mem_singleton.1 hj) ▸ le_rfl
  | cons k l ih =>
    rw [coalesceFrom] at hj
    split_ifs at hj with hjoin
    · exact ih (i := ⟨i.start, i.length + k.length⟩) (h.join hjoin) hj
    · rcases List.mem_cons.1 hj with rfl | hj
      · exact le_rfl
      · have hk : i.stop ≤ k.start := (List.pairwise_cons.1 h).1 k List.mem_cons_self
        exact (Nat.le_add_right _ _).trans (hk.trans (ih (List.pairwise_cons.1 h).2 hj))

theorem separated_coalesceFrom (h : Ordered (i :: l)) : Separated (coalesceFrom i l) := by
  induction l generalizing i with
  | nil => exact List.pairwise_singleton _ _
  | cons j l ih =>
    rw [coalesceFrom]
    split_ifs with hjoin
    · exact ih (h.join hjoin)
    · -- what follows starts at `j` or later, past the gap after `i`
      obtain ⟨hi, hl⟩ := List.pairwise_cons.1 h
      refine List.pairwise_cons.2 ⟨fun k hk => ?_, ih hl⟩
      have hgap : i.stop < j.start := lt_of_le_of_ne (hi j List.mem_cons_self) hjoin
      exact hgap.trans_le (le_start_of_mem_coalesceFrom hl hk)

/-- Joining covers the same points. -/
theorem cover_coalesce (l : List Interval) (x : ℕ) : cover (coalesce l) x = cover l x := by
  cases l with
  | nil => rfl
  | cons i l => exact cover_coalesceFrom l x

theorem positive_coalesce (h : Positive l) : Positive (coalesce l) := by
  cases l with
  | nil => exact h
  | cons i l => exact positive_coalesceFrom h

/-- Joining leaves gaps between all intervals. -/
theorem separated_coalesce (h : Ordered l) : Separated (coalesce l) := by
  cases l with
  | nil => exact .nil
  | cons i l => exact separated_coalesceFrom h

end Interval

end Library
