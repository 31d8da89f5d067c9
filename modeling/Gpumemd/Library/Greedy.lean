import Mathlib.Data.List.Basic
import Gpumemd.Library.Selection

/-!
# Taking the best element again and again

A state with a queue, from which one takes the best element that fits, as long as any does
(`exhaust`). If what does not fit never fits later, this takes the same elements as one sweep
through the queue in the order of their ranks, which takes what fits when it is its turn and
passes over the rest (`exhaust_eq_sweep`).
-/

namespace Library

variable {σ α : Type*} (queue : σ → List α) (fits : σ → α → Bool) (better : α → α → Bool)
  (take : σ → ℕ → α → σ)

/-- Takes the best element that fits, with its index, for at most the given number of times. -/
def exhaust : ℕ → σ → σ
  | 0, s => s
  | n + 1, s =>
    match select (fits s) better (queue s) with
    | none => s
    | some (i, a) => exhaust n (take s i a)

variable [DecidableEq α]

/-- Takes what fits of the elements of the list, in turn. -/
def sweep : List α → σ → σ
  | [], s => s
  | a :: l, s => if fits s a then sweep l (take s ((queue s).idxOf a) a) else sweep l s

variable {queue fits better take}

/-- What is selected, at its index, leaves the queue. -/
theorem eraseIdx_of_select {ok : α → Bool} {l : List α} {i : ℕ} {a : α} (hnodup : l.Nodup)
    (h : select ok better l = some (i, a)) : i = l.idxOf a ∧ l.eraseIdx i = l.erase a := by
  obtain ⟨hi, rfl⟩ := List.getElem?_eq_some_iff.1 (getElem?_of_select h)
  have hidx : l.idxOf l[i] = i := hnodup.idxOf_getElem i hi
  exact ⟨hidx.symm, by rw [List.erase_eq_eraseIdx_of_idxOf hidx]⟩

section

variable {P : σ → Prop} (irrefl : ∀ a, better a a = false)
  (trans : ∀ a b c, better a b = true → better b c = true → better a c = true)
  (nodup : ∀ s, P s → (queue s).Nodup)
  (step : ∀ s i a, P s → select (fits s) better (queue s) = some (i, a) →
    P (take s i a) ∧ queue (take s i a) = (queue s).eraseIdx i ∧
      ∀ b, fits (take s i a) b = true → fits s b = true)

include irrefl trans nodup step

/-- Taking the best that fits again and again is a sweep through what may fit, from the best
    on. -/
theorem exhaust_eq_sweep {order : List α} {n : ℕ} {s : σ} (hs : P s)
    (hsorted : order.Pairwise fun a b => better a b = true) (hqueued : order ⊆ queue s)
    (hfits : ∀ a ∈ queue s, fits s a = true → a ∈ order) (hn : order.length ≤ n) :
    exhaust queue fits better take n s = sweep queue fits take order s := by
  induction order generalizing n s with
  | nil =>
    -- nothing fits
    have hnone : select (fits s) better (queue s) = none :=
      select_eq_none_iff.2 fun a ha => Bool.eq_false_iff.2 fun hfit =>
        absurd (hfits a ha hfit) List.not_mem_nil
    cases n with
    | zero => rfl
    | succ n => rw [exhaust, hnone, sweep]
  | cons a order ih =>
    rw [List.pairwise_cons] at hsorted
    have ha : a ∈ queue s := hqueued List.mem_cons_self
    cases hfit : fits s a with
    | false =>
      rw [sweep, hfit, if_neg Bool.false_ne_true]
      refine ih hs hsorted.2 (fun b hb => hqueued (List.mem_cons_of_mem a hb)) ?_
        (Nat.le_of_succ_le hn)
      intro b hb hfit'
      rcases List.mem_cons.1 (hfits b hb hfit') with rfl | hb'
      · rw [hfit] at hfit'
        cases hfit'
      · exact hb'
    | true =>
      obtain ⟨n, rfl⟩ : ∃ m, n = m + 1 :=
        Nat.exists_eq_succ_of_ne_zero (Nat.ne_of_gt (Nat.zero_lt_of_lt hn))
      cases hselect : select (fits s) better (queue s) with
      | none =>
        have hnot := select_eq_none_iff.1 hselect a ha
        rw [hfit] at hnot
        cases hnot
      | some best =>
        obtain ⟨i, b⟩ := best
        -- the first of the order is the best of what fits
        obtain rfl : b = a := by
          rcases List.mem_cons.1 (hfits b (mem_of_select hselect) (ok_of_select hselect)) with heq | hb
          · exact heq
          · have hnot := not_better_of_select irrefl trans hselect ha hfit
            rw [hsorted.1 b hb] at hnot
            cases hnot
        obtain ⟨htake, hqueue, hanti⟩ := step s i b hs hselect
        obtain ⟨hi, herase⟩ := eraseIdx_of_select (nodup s hs) hselect
        rw [exhaust, hselect, sweep, hfit, if_pos rfl, ← hi]
        refine ih htake hsorted.2 (fun c hc => ?_) (fun c hc hfit' => ?_) (Nat.le_of_succ_le_succ hn)
        · -- what comes later in the order is another element
          have hne : c ≠ b := by
            rintro rfl
            have hirrefl := hsorted.1 c hc
            rw [irrefl] at hirrefl
            cases hirrefl
          rw [hqueue, herase]
          exact (List.mem_erase_of_ne hne).2 (hqueued (List.mem_cons_of_mem b hc))
        · rw [hqueue, herase] at hc
          have hne : c ≠ b := ((nodup s hs).mem_erase_iff.1 hc).1
          exact (List.mem_cons.1 (hfits c (List.mem_of_mem_erase hc) (hanti c hfit'))).resolve_left hne

end

end Library
