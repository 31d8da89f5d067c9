import Mathlib.Tactic.Common

/-!
# Selecting the best element of a list

One scan of a list for the best of the elements it accepts: an accepted element
is taken if there is no selection yet, or if it is strictly better than the one
so far. The scan gives the index of its selection together with the element.

Over a strict order, no accepted element is better than the selection
(`not_better_of_select`), and there is a selection as soon as an element is
accepted (`select_eq_none_iff`). Where what is no better than an element is no better than
all that it is no better than, the selection is the first of the best
(`better_of_select_of_lt`).
-/

namespace Library

variable {α : Type*} (ok : α → Bool) (better : α → α → Bool)

/-- The selection of the scan of a list whose head has the index `i`, after the
    selection `best` so far. -/
def scan : List α → ℕ → Option (ℕ × α) → Option (ℕ × α)
  | [], _, best => best
  | a :: l, i, best =>
    scan l (i + 1) (if ok a && best.all fun p => better a p.2 then some (i, a) else best)

/-- The best accepted element of the list, and its index. -/
def select (l : List α) : Option (ℕ × α) := scan ok better l 0 none

variable {ok better}

/-- Only how the elements of the list compare counts. -/
theorem scan_congr {better' : α → α → Bool} {P : α → Prop}
    (h : ∀ a b, P a → P b → better a b = better' a b) {l : List α} (hl : ∀ a ∈ l, P a) (i : ℕ)
    {best : Option (ℕ × α)} (hbest : ∀ p ∈ best, P p.2) :
    scan ok better l i best = scan ok better' l i best := by
  induction l generalizing i best with
  | nil => rfl
  | cons a l ih =>
    rw [List.forall_mem_cons] at hl
    have hall : best.all (fun p => better a p.2) = best.all fun p => better' a p.2 := by
      cases best with
      | none => rfl
      | some p => exact h a p.2 hl.1 (hbest p rfl)
    rw [scan, scan, hall]
    refine ih hl.2 _ fun p hp => ?_
    split_ifs at hp
    · obtain rfl := Option.some.inj hp
      exact hl.1
    · exact hbest p hp

theorem select_congr {better' : α → α → Bool} {P : α → Prop}
    (h : ∀ a b, P a → P b → better a b = better' a b) {l : List α} (hl : ∀ a ∈ l, P a) :
    select ok better l = select ok better' l :=
  scan_congr h hl 0 fun _ hp => nomatch hp

/-- Once something is selected, the scan keeps a selection. -/
theorem scan_some_ne_none (l : List α) (i : ℕ) (p : ℕ × α) :
    scan ok better l i (some p) ≠ none := by
  induction l generalizing i p with
  | nil => exact Option.some_ne_none p
  | cons a l ih =>
    rw [scan]
    split_ifs <;> exact ih _ _

/-- Nothing is selected only if nothing is accepted. -/
theorem scan_eq_none {l : List α} {i : ℕ} (h : scan ok better l i none = none) :
    ∀ a ∈ l, ok a = false := by
  induction l generalizing i with
  | nil => exact fun _ ha => absurd ha List.not_mem_nil
  | cons a l ih =>
    rw [scan] at h
    split_ifs at h with ha
    · exact absurd h (scan_some_ne_none l _ _)
    · exact List.forall_mem_cons.2 ⟨by simpa using ha, ih h⟩

/-- There is a selection unless nothing is accepted. -/
theorem select_eq_none_iff {l : List α} : select ok better l = none ↔ ∀ a ∈ l, ok a = false := by
  refine ⟨scan_eq_none, fun h => ?_⟩
  rw [select]
  -- the index counts up, so the induction is over every index
  generalize 0 = i
  induction l generalizing i with
  | nil => rfl
  | cons a l ih =>
    rw [List.forall_mem_cons] at h
    simpa [scan, h.1] using ih h.2 (i + 1)

/-- The selection is the one before the scan, or an accepted element of the list
    at its index. -/
theorem scan_mem {l : List α} {i j : ℕ} {best : Option (ℕ × α)} {b : α}
    (h : scan ok better l i best = some (j, b)) :
    best = some (j, b) ∨ ∃ k, j = i + k ∧ l[k]? = some b ∧ ok b = true := by
  induction l generalizing i best with
  | nil => exact .inl h
  | cons a l ih =>
    rw [scan] at h
    rcases ih h with h' | ⟨k, hj, hk, hb⟩
    · split_ifs at h' with ha
      · obtain ⟨rfl, rfl⟩ := Prod.mk.inj (Option.some.inj h')
        exact .inr ⟨0, rfl, rfl, (Bool.and_eq_true_iff.1 ha).1⟩
      · exact .inl h'
    · exact .inr ⟨k + 1, by omega, hk, hb⟩

theorem getElem?_of_select {l : List α} {i : ℕ} {b : α} (h : select ok better l = some (i, b)) :
    l[i]? = some b := by
  obtain ⟨k, rfl, hk, _⟩ := (scan_mem h).resolve_left (by simp)
  rwa [Nat.zero_add]

theorem mem_of_select {l : List α} {i : ℕ} {b : α} (h : select ok better l = some (i, b)) :
    b ∈ l :=
  List.mem_of_getElem? (getElem?_of_select h)

theorem ok_of_select {l : List α} {i : ℕ} {b : α} (h : select ok better l = some (i, b)) :
    ok b = true := by
  obtain ⟨_, _, _, hb⟩ := (scan_mem h).resolve_left (by simp)
  exact hb

section StrictOrder

variable (irrefl : ∀ a, better a a = false)
  (trans : ∀ a b c, better a b = true → better b c = true → better a c = true)

include irrefl trans

/-- Over a strict order, the scan only moves to better elements, and past none
    that is better than its selection. -/
theorem scan_best {l : List α} {i j : ℕ} {best : Option (ℕ × α)} {b : α}
    (h : scan ok better l i best = some (j, b)) :
    (∀ p, best = some p → p.2 = b ∨ better b p.2 = true) ∧
      ∀ a ∈ l, ok a = true → better a b = false := by
  -- the selection only gets better, so what loses to it once loses to the last
  have asymm {a c : α} (hac : a = c ∨ better c a = true) : better a c = false := by
    rcases hac with rfl | hca
    · exact irrefl _
    · refine Bool.eq_false_iff.2 fun hac => ?_
      have hcc := trans _ _ _ hca hac
      rw [irrefl] at hcc
      exact Bool.false_ne_true hcc
  induction l generalizing i best with
  | nil => exact ⟨fun p hp => .inl (by rw [scan, hp] at h; cases h; rfl), by simp⟩
  | cons a l ih =>
    rw [scan] at h
    obtain ⟨hbest, hl⟩ := ih h
    split_ifs at hbest with ha
    · -- `a` is taken, as better than the selection so far
      have hab := hbest _ rfl
      refine ⟨fun p hp => .inr ?_, List.forall_mem_cons.2 ⟨fun _ => asymm hab, hl⟩⟩
      have hap : better a p.2 = true := by simpa [hp] using (Bool.and_eq_true_iff.1 ha).2
      rcases hab with rfl | hba
      · exact hap
      · exact trans _ _ _ hba hap
    · -- `a` is passed, as not accepted or not better than the selection so far
      refine ⟨hbest, List.forall_mem_cons.2 ⟨fun hok => ?_, hl⟩⟩
      refine Bool.eq_false_iff.2 fun hab => ha ?_
      cases best with
      | none => simpa using hok
      | some p =>
        have hap : better a p.2 = true := by
          rcases hbest p rfl with hp | hbp
          · rwa [hp]
          · exact trans _ _ _ hab hbp
        simp [hok, hap]

theorem not_better_of_select {l : List α} {i : ℕ} {b : α} (h : select ok better l = some (i, b))
    {a : α} (ha : a ∈ l) (hok : ok a = true) : better a b = false :=
  (scan_best irrefl trans h).2 a ha hok

end StrictOrder

section WeakOrder

variable (trans : ∀ a b c, better a b = true → better b c = true → better a c = true)
  (negTrans : ∀ a b c, better a b = false → better b c = false → better a c = false)

include trans negTrans

/-- Over a strict weak order, the scan selects nothing that comes later than an element as
    good. -/
theorem scan_first {l : List α} {i j : ℕ} {best : Option (ℕ × α)} {b : α}
    (h : scan ok better l i best = some (j, b)) (hbest : ∀ p, best = some p → p.1 < i) :
    (∀ p, best = some p → p = (j, b) ∨ better b p.2 = true) ∧
      ∀ k a, l[k]? = some a → i + k < j → ok a = true → better b a = true := by
  induction l generalizing i best with
  | nil => exact ⟨fun p hp => .inl (by rw [scan, hp] at h; exact Option.some.inj h), by simp⟩
  | cons a l ih =>
    rw [scan] at h
    split_ifs at h with ha
    · -- `a` is taken, as better than the selection so far
      obtain ⟨hfirst, hl⟩ := ih h fun p hp => by
        obtain rfl := Option.some.inj hp
        exact Nat.lt_succ_self i
      have hab := hfirst _ rfl
      refine ⟨fun p hp => .inr ?_, fun k c hc hlt hok => ?_⟩
      · have hap : better a p.2 = true := by simpa [hp] using (Bool.and_eq_true_iff.1 ha).2
        rcases hab with heq | hba
        · exact (Prod.mk.inj heq).2 ▸ hap
        · exact trans _ _ _ hba hap
      · cases k with
        | zero =>
          obtain rfl := Option.some.inj hc
          refine hab.resolve_left fun heq => ?_
          exact absurd (Prod.mk.inj heq).1 (Nat.ne_of_lt hlt)
        | succ k => exact hl k c hc (by omega) hok
    · -- `a` is passed, as not accepted or not better than the selection so far
      obtain ⟨hfirst, hl⟩ := ih h fun p hp => Nat.lt_succ_of_lt (hbest p hp)
      refine ⟨hfirst, fun k c hc hlt hok => ?_⟩
      cases k with
      | zero =>
        obtain rfl := Option.some.inj hc
        cases best with
        | none => simp [hok] at ha
        | some p =>
          have hap : better a p.2 = false := by simpa [hok] using ha
          have hbp : better b p.2 = true := by
            refine (hfirst p rfl).resolve_left fun heq => ?_
            have hp : j < i := by simpa [heq] using hbest p rfl
            omega
          by_contra hba
          exact absurd hbp (by simp [negTrans b a p.2 (by simpa using hba) hap])
      | succ k => exact hl k c hc (by omega) hok

/-- What is accepted before the selection is worse. -/
theorem better_of_select_of_lt {l : List α} {i k : ℕ} {a b : α}
    (h : select ok better l = some (i, b)) (ha : l[k]? = some a) (hlt : k < i)
    (hok : ok a = true) : better b a = true :=
  (scan_first trans negTrans h (by simp)).2 k a ha (by omega) hok

end WeakOrder

end Library
