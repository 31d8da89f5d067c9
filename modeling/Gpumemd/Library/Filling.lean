import Mathlib.Algebra.BigOperators.Group.Finset.Basic
import Mathlib.Algebra.Order.BigOperators.Group.Finset
import Mathlib.Algebra.Ring.Nat
import Mathlib.Data.List.Sort

/-!
# Filling up to a need

The elements of a list are taken from its front until what they weigh, beside what there is
already, reaches a need: this takes the shortest prefix that does (`fill`).

The list may be any order of a set in which a key does not decrease (`Orders`). An element
is taken in some of these orders if the elements of smaller keys are not enough
(`exists_mem_fill_iff`), and left in some if the other elements, up to its key, are
(`exists_notMem_fill_iff`). So all orders take the same elements exactly if none is between
the two (`fill_unique_iff`); if all keys differ, none is.
-/

namespace Library

variable {α β κ : Type*} {w : α → ℕ} {need n : ℕ} {a b : α} {l first : List α}

/-- The shortest prefix of the list that, beside `n`, weighs what is needed, or all of the
    list if there is none. -/
def fill (w : α → ℕ) (need : ℕ) : ℕ → List α → List α
  | _, [] => []
  | n, a :: l => if n < need then a :: fill w need (n + w a) l else []

theorem fill_of_le (h : need ≤ n) (l : List α) : fill w need n l = [] := by
  cases l with
  | nil => rfl
  | cons => exact if_neg (Nat.not_lt.2 h)

theorem fill_map (f : β → α) (l : List β) (n : ℕ) :
    fill w need n (l.map f) = (fill (w ∘ f) need n l).map f := by
  induction l generalizing n with
  | nil => rfl
  | cons b l ih =>
    rw [List.map_cons, fill, fill, ih]
    split_ifs
    · rfl
    · rfl

theorem fill_congr {v : α → ℕ} (h : ∀ a ∈ l, v a = w a) (n : ℕ) :
    fill v need n l = fill w need n l := by
  induction l generalizing n with
  | nil => rfl
  | cons a l ih =>
    rw [List.forall_mem_cons] at h
    rw [fill, fill, h.1, ih h.2]

/-- What is taken comes first. -/
theorem prefix_fill (l : List α) (n : ℕ) : fill w need n l <+: l := by
  induction l generalizing n with
  | nil => exact List.nil_prefix
  | cons a l ih =>
    rw [fill]
    split_ifs
    · exact List.prefix_cons_inj a |>.2 (ih _)
    · exact List.nil_prefix

/-- What is taken is enough, if all of the list is. -/
theorem le_sum_fill (h : need ≤ n + (l.map w).sum) :
    need ≤ n + ((fill w need n l).map w).sum := by
  induction l generalizing n with
  | nil => exact h
  | cons a l ih =>
    rw [List.map_cons, List.sum_cons, ← Nat.add_assoc] at h
    rw [fill]
    split_ifs with hlt
    · rw [List.map_cons, List.sum_cons, ← Nat.add_assoc]
      exact ih h
    · exact (Nat.not_lt.1 hlt).trans (Nat.le_add_right _ _)

/-- Less of it is not enough. -/
theorem sum_lt_of_fill (h : first <+: fill w need n l) (hne : first ≠ fill w need n l) :
    n + (first.map w).sum < need := by
  induction l generalizing n first with
  | nil => exact absurd (List.prefix_nil.1 h) hne
  | cons a l ih =>
    rw [fill] at h hne
    split_ifs at h hne with hlt
    · cases first with
      | nil => exact hlt
      | cons b first =>
        obtain ⟨rfl, hrest⟩ := List.cons_prefix_cons.1 h
        rw [List.map_cons, List.sum_cons, ← Nat.add_assoc]
        exact ih hrest fun heq => hne (congrArg (b :: ·) heq)
    · exact absurd (List.prefix_nil.1 h) hne

/-- An element is taken if those before it are not enough. -/
theorem mem_fill_append_iff {l' : List α} (ha : a ∉ l) :
    a ∈ fill w need n (l ++ a :: l') ↔ n + (l.map w).sum < need := by
  induction l generalizing n with
  | nil =>
    rw [List.nil_append, fill]
    split_ifs with hlt
    · exact iff_of_true List.mem_cons_self hlt
    · exact iff_of_false List.not_mem_nil hlt
  | cons b l ih =>
    rw [List.mem_cons, not_or] at ha
    rw [List.cons_append, fill, List.map_cons, List.sum_cons, ← Nat.add_assoc]
    split_ifs with hlt
    · rw [List.mem_cons, or_iff_right ha.1]
      exact ih ha.2
    · exact iff_of_false List.not_mem_nil (by omega)

/-- In a sorted list, what comes first is not after the rest. -/
theorem rel_of_notMem_first {r : α → α → Prop} (hsorted : l.Pairwise r) (hfirst : first <+: l)
    (ha : a ∈ first) (hb : b ∈ l) (hnot : b ∉ first) : r a b := by
  obtain ⟨rest, rfl⟩ := hfirst
  exact (List.pairwise_append.1 hsorted).2.2 a ha b ((List.mem_append.1 hb).resolve_left hnot)

/-! ## Orders by a key -/

/-- The list is an order of the elements of `S` in which the key does not decrease. -/
structure Orders [LE κ] (key : α → κ) (S : Finset α) (l : List α) : Prop where
  nodup : l.Nodup
  mem : ∀ a, a ∈ l ↔ a ∈ S
  sorted : l.Pairwise fun a b => key a ≤ key b

section LinearOrder

variable [LinearOrder κ] {key : α → κ} {S : Finset α}

theorem exists_orders (key : α → κ) (S : Finset α) : ∃ l, Orders key S l := by
  let r : α → α → Prop := fun a b => key a ≤ key b
  have : Std.Total r := ⟨fun a b => le_total (key a) (key b)⟩
  have : IsTrans α r := ⟨fun a b c => le_trans⟩
  exact ⟨S.toList.insertionSort r, (List.perm_insertionSort r _).nodup_iff.2 S.nodup_toList,
    fun a => (List.mem_insertionSort r).trans Finset.mem_toList,
    List.pairwise_insertionSort r _⟩

variable [DecidableEq α]

/-- The elements before `a` in an order: all those of smaller keys, and none but those of
    keys up to its own. -/
theorem Orders.split (h : Orders key S l) (ha : a ∈ S) :
    ∃ l₁ l₂, l = l₁ ++ a :: l₂ ∧ a ∉ l₁ ∧
      ∑ b ∈ S with key b < key a, w b ≤ (l₁.map w).sum ∧
      (l₁.map w).sum ≤ ∑ b ∈ S with b ≠ a ∧ key b ≤ key a, w b := by
  obtain ⟨l₁, l₂, rfl⟩ := List.append_of_mem ((h.mem a).2 ha)
  obtain ⟨hnodup₁, -, hdisjoint⟩ := List.nodup_append.1 h.nodup
  have hnot : a ∉ l₁ := fun hmem => hdisjoint a hmem a List.mem_cons_self rfl
  obtain ⟨-, hafter, hbefore⟩ := List.pairwise_append.1 h.sorted
  refine ⟨l₁, l₂, rfl, hnot, ?_, ?_⟩
  · rw [← List.sum_toFinset w hnodup₁]
    refine Finset.sum_le_sum_of_subset fun b hb => ?_
    obtain ⟨hS, hlt⟩ := Finset.mem_filter.1 hb
    rw [List.mem_toFinset]
    -- what comes after `a` has no smaller key
    rcases List.mem_append.1 ((h.mem b).2 hS) with hmem | hmem
    · exact hmem
    · rcases List.mem_cons.1 hmem with rfl | hmem
      · exact absurd hlt (lt_irrefl _)
      · exact absurd hlt (not_lt.2 ((List.pairwise_cons.1 hafter).1 b hmem))
  · rw [← List.sum_toFinset w hnodup₁]
    refine Finset.sum_le_sum_of_subset fun b hb => ?_
    rw [List.mem_toFinset] at hb
    refine Finset.mem_filter.2 ⟨(h.mem b).1 (List.mem_append_left _ hb), ?_,
      hbefore b hb a List.mem_cons_self⟩
    rintro rfl
    exact hnot hb

/-- An order may put any elements of keys up to its own before `a`, if they include those of
    smaller keys. -/
theorem exists_orders_append (ha : a ∈ S) (p : α → Prop) [DecidablePred p]
    (hle : ∀ b, p b → key b ≤ key a) (hge : ∀ b, ¬ p b → key a ≤ key b) :
    ∃ l₁ l₂, Orders key S (l₁ ++ a :: l₂) ∧ a ∉ l₁ ∧
      (l₁.map w).sum = ∑ b ∈ S with b ≠ a ∧ p b, w b := by
  obtain ⟨l, hnodup, hmem, hsorted⟩ := exists_orders key S
  have hmem₁ (b : α) : b ∈ l.filter (fun b => b ≠ a ∧ p b) ↔ b ∈ S ∧ b ≠ a ∧ p b := by
    rw [List.mem_filter, hmem, decide_eq_true_iff]
  have hmem₂ (b : α) : b ∈ l.filter (fun b => b ≠ a ∧ ¬ p b) ↔ b ∈ S ∧ b ≠ a ∧ ¬ p b := by
    rw [List.mem_filter, hmem, decide_eq_true_iff]
  refine ⟨l.filter fun b => b ≠ a ∧ p b, l.filter fun b => b ≠ a ∧ ¬ p b, ⟨?_, fun b => ?_, ?_⟩,
    fun h => ((hmem₁ a).1 h).2.1 rfl, ?_⟩
  · refine List.nodup_append.2 ⟨hnodup.filter _, List.nodup_cons.2
      ⟨fun h => ((hmem₂ a).1 h).2.1 rfl, hnodup.filter _⟩, fun b hb c hc => ?_⟩
    rintro rfl
    obtain ⟨-, hne, hp⟩ := (hmem₁ b).1 hb
    rcases List.mem_cons.1 hc with rfl | hc
    · exact hne rfl
    · exact ((hmem₂ b).1 hc).2.2 hp
  · rw [List.mem_append, List.mem_cons, hmem₁, hmem₂]
    by_cases hb : b = a
    · simp [hb, ha]
    · by_cases hp : p b
      · simp [hb, hp]
      · simp [hb, hp]
  · refine List.pairwise_append.2 ⟨hsorted.filter _, List.pairwise_cons.2 ⟨fun b hb => ?_,
      hsorted.filter _⟩, fun b hb c hc => ?_⟩
    · exact hge b ((hmem₂ b).1 hb).2.2
    · have hb' := hle b ((hmem₁ b).1 hb).2.2
      rcases List.mem_cons.1 hc with rfl | hc
      · exact hb'
      · exact hb'.trans (hge c ((hmem₂ c).1 hc).2.2)
  · rw [← List.sum_toFinset w (hnodup.filter _)]
    refine Finset.sum_congr (Finset.ext fun b => ?_) fun _ _ => rfl
    rw [List.mem_toFinset, hmem₁, Finset.mem_filter]

/-- An element is taken in some order if those of smaller keys are not enough. -/
theorem exists_mem_fill_iff (ha : a ∈ S) :
    (∃ l, Orders key S l ∧ a ∈ fill w need n l) ↔
      n + ∑ b ∈ S with key b < key a, w b < need := by
  constructor
  · rintro ⟨l, hl, hmem⟩
    obtain ⟨l₁, l₂, rfl, hnot, hle, -⟩ := hl.split (w := w) ha
    rw [mem_fill_append_iff hnot] at hmem
    omega
  · intro hlt
    -- put `a` before all others of its key
    obtain ⟨l₁, l₂, hl, hnot, hsum⟩ := exists_orders_append (w := w) ha (fun b => key b < key a)
      (fun _ => le_of_lt) fun _ => not_lt.1
    refine ⟨_, hl, (mem_fill_append_iff hnot).2 ?_⟩
    have hsame : (S.filter fun b => b ≠ a ∧ key b < key a) = S.filter fun b => key b < key a :=
      Finset.filter_congr fun b _ => and_iff_right_of_imp fun hb => ne_of_apply_ne key hb.ne
    rwa [hsum, hsame]

/-- An element is left in some order if the others, up to its key, are enough. -/
theorem exists_notMem_fill_iff (ha : a ∈ S) :
    (∃ l, Orders key S l ∧ a ∉ fill w need n l) ↔
      need ≤ n + ∑ b ∈ S with b ≠ a ∧ key b ≤ key a, w b := by
  constructor
  · rintro ⟨l, hl, hmem⟩
    obtain ⟨l₁, l₂, rfl, hnot, -, hle⟩ := hl.split (w := w) ha
    rw [mem_fill_append_iff hnot] at hmem
    omega
  · intro hle
    -- put `a` after all others of its key
    obtain ⟨l₁, l₂, hl, hnot, hsum⟩ := exists_orders_append (w := w) ha (fun b => key b ≤ key a)
      (fun _ => id) fun _ hb => (not_le.1 hb).le
    refine ⟨_, hl, ?_⟩
    rw [mem_fill_append_iff hnot, hsum]
    exact Nat.not_lt.2 hle

/-- All orders take the same elements exactly if none may be taken or left. -/
theorem fill_unique_iff (w : α → ℕ) (need n : ℕ) (key : α → κ) (S : Finset α) :
    (∀ l l', Orders key S l → Orders key S l' →
        ∀ a, a ∈ fill w need n l ↔ a ∈ fill w need n l') ↔
      ∀ a ∈ S, ¬ (n + ∑ b ∈ S with key b < key a, w b < need ∧
        need ≤ n + ∑ b ∈ S with b ≠ a ∧ key b ≤ key a, w b) := by
  constructor
  · rintro hsame a ha ⟨hlt, hle⟩
    obtain ⟨l, hl, hmem⟩ := (exists_mem_fill_iff ha).2 hlt
    obtain ⟨l', hl', hnot⟩ := (exists_notMem_fill_iff ha).2 hle
    exact hnot ((hsame l l' hl hl' a).1 hmem)
  · intro hnone l l' hl hl' a
    have htaken (l l' : List α) (hl : Orders key S l) (hl' : Orders key S l')
        (hmem : a ∈ fill w need n l) : a ∈ fill w need n l' := by
      have ha : a ∈ S := (hl.mem a).1 ((prefix_fill l n).subset hmem)
      by_contra hnot
      exact hnone a ha ⟨(exists_mem_fill_iff ha).1 ⟨l, hl, hmem⟩,
        (exists_notMem_fill_iff ha).1 ⟨l', hl', hnot⟩⟩
    exact ⟨htaken l l' hl hl', htaken l' l hl' hl⟩

end LinearOrder

end Library
