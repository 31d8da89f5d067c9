import Gpumemd.Resource.Outcomes

/-!
# Refused calls

A call that returns an error other than a timeout has changed nothing
(`unchanged_of_refused`): every check comes before the first side effect. Such a call has
not waited either, since what has waited returns the outcome of its request, which is a
success or a timeout.
-/

namespace Gpumemd

open Library

/-- The result is an error, and not a timeout. -/
def OperationResult.Refused (result : OperationResult) : Prop :=
  result.error ≠ .none ∧ result.error ≠ .timeout

namespace ResourceManager

variable {s : ResourceManager} {now later : TimePoint} {name id : Str} {bytes : Bytes}
  {result : OperationResult} {n : ℕ}

/-- The outcome of a request is no refusal. -/
theorem Tracked.not_refused (h : Tracked s) (hout : s.outcome n = some result) : ¬ result.Refused := by
  rintro ⟨hnone, htimeout⟩
  rcases h.outcome_cases hout with hsuccess | rfl
  · exact hnone hsuccess
  · exact htimeout rfl

theorem tryAcquire_of_refused (h : Accounted s) (hrefused : (s.tryAcquire name bytes now).2.Refused) :
    (s.tryAcquire name bytes now).1 = s := by
  rw [tryAcquire, h.noteFree_eq] at hrefused ⊢
  split_ifs at hrefused ⊢
  · rfl
  · rfl
  · rfl
  · rfl
  · exact absurd rfl hrefused.1

/-- The cost is checked last, before the request takes its sequence number. -/
theorem acquire_of_refused (h : Accounted s) {options : AcquireOptions}
    (htracked : Tracked (s.acquire name bytes options now later).1)
    (hresult : (s.acquire name bytes options now later).2 = some result) (hrefused : result.Refused) :
    (s.acquire name bytes options now later).1 = s := by
  have hacquires := h.acquires name bytes options now later
  generalize s.acquire name bytes options now later = call at hacquires htracked hresult
  cases hacquires with
  | refuses => rfl
  | tries =>
    obtain rfl := Option.some.inj hresult
    exact tryAcquire_of_refused h hrefused
  | grants =>
    obtain rfl := Option.some.inj hresult
    exact absurd rfl hrefused.1
  | queues =>
    rw [(result_of_waitLoop _ _ _).1] at hresult
    exact absurd hrefused (htracked.not_refused hresult)

theorem release_of_refused (hrefused : (s.release name now).2.Refused) :
    (s.release name now).1 = s := by
  rw [release] at hrefused ⊢
  split_ifs at hrefused ⊢
  · rfl
  · split at hrefused
    next => rfl
    next => exact absurd rfl hrefused.1

theorem acquireModel_of_refused (h : Accounted s) (hrefused : (s.acquireModel id bytes).2.Refused) :
    (s.acquireModel id bytes).1 = s := by
  rw [acquireModel, h.noteFree_eq] at hrefused ⊢
  split_ifs at hrefused ⊢
  · rfl
  · rfl
  · rfl
  · rfl
  · exact absurd rfl hrefused.1

theorem releaseModel_of_refused (hrefused : (s.releaseModel id now).2.Refused) :
    (s.releaseModel id now).1 = s := by
  rw [releaseModel] at hrefused ⊢
  split_ifs at hrefused ⊢
  · rfl
  · split at hrefused
    next => rfl
    next => exact absurd rfl hrefused.1

/-- The evictions are only added up before the last check. -/
theorem replaceModelReservations_of_refused (h : Accounted s) {evictions : List Str}
    (hrefused : (s.replaceModelReservations evictions id bytes now).2.Refused) :
    (s.replaceModelReservations evictions id bytes now).1 = s := by
  rw [replaceModelReservations] at hrefused ⊢
  split_ifs at hrefused ⊢ with hid hpos hdup hnodup
  · rfl
  · rfl
  · rfl
  · have hused := h.balanced.used_eq
    obtain ⟨hsame, hle⟩ := sumEvictions_exact hnodup 0 s.modelReservations (fun _ _ => rfl) (by
      simp only [UInt64.toNat_zero]
      omega)
    generalize sumEvictions evictions 0 s = sum at hsame hle hrefused ⊢
    obtain ⟨t, total⟩ := sum
    obtain rfl : t = s := hsame
    cases total with
    | none => rfl
    | some total =>
      have htotal := hle total rfl
      have hfits := h.balanced.used_le
      have hcapacity := t.capacity.toNat_lt
      dsimp only at hrefused ⊢
      rw [h.noteFree_eq, noteAdd_eq (by rw [h.free_toNat]; omega)] at hrefused ⊢
      split_ifs at hrefused ⊢
      · rfl
      · exact absurd rfl hrefused.1
  · rfl

/-- A call that returns an error other than a timeout returns in the step in which it is
    made, and leaves the state as it was. -/
theorem unchanged_of_refused (hs : machine.Reachable s) {a : Action} (ha : s.Enabled a)
    (hresult : (s.perform a).2 = some result) (hnone : result.error ≠ .none)
    (htimeout : result.error ≠ .timeout) :
    (∀ n now, a ≠ .wake n now ∧ a ≠ .expireWait n now) ∧ (s.perform a).1 = s := by
  have hrefused : result.Refused := ⟨hnone, htimeout⟩
  have haccounted : Accounted s := (reachable_inv hs).accounted
  have htracked : Tracked (s.perform a).1 := (reachable_inv (reachable_perform hs ha)).tracked
  -- what a call with a request returns is the outcome of that request
  have hcaller (n : ℕ) (hn : a.caller s (s.perform a).1 = some n) : False := by
    rw [(result_of_perform (reachable_inv hs) ha hn).1] at hresult
    exact htracked.not_refused hresult hrefused
  cases a with
  | tryAcquire name bytes now =>
    obtain rfl := Option.some.inj hresult
    exact ⟨fun _ _ => ⟨nofun, nofun⟩, tryAcquire_of_refused haccounted hrefused⟩
  | acquire name bytes options now later =>
    exact ⟨fun _ _ => ⟨nofun, nofun⟩, acquire_of_refused haccounted htracked hresult hrefused⟩
  | wake n now => exact (hcaller n rfl).elim
  | expireWait n now => exact (hcaller n rfl).elim
  | release name now =>
    obtain rfl := Option.some.inj hresult
    exact ⟨fun _ _ => ⟨nofun, nofun⟩, release_of_refused hrefused⟩
  | acquireModel id bytes =>
    obtain rfl := Option.some.inj hresult
    exact ⟨fun _ _ => ⟨nofun, nofun⟩, acquireModel_of_refused haccounted hrefused⟩
  | releaseModel id now =>
    obtain rfl := Option.some.inj hresult
    exact ⟨fun _ _ => ⟨nofun, nofun⟩, releaseModel_of_refused hrefused⟩
  | replaceModelReservations evictions id bytes now =>
    obtain rfl := Option.some.inj hresult
    exact ⟨fun _ _ => ⟨nofun, nofun⟩, replaceModelReservations_of_refused haccounted hrefused⟩
  | cancelWaiters => cases hresult

/-- A client that waits already asks again, with a negative cost. -/
theorem contended_unchanged :
    (contended.perform (.acquire (ascii "first") 5 { estimatedCost := -1 } 0 0)).2 =
        some ⟨.duplicateClient, 0⟩ ∧
      (contended.perform (.acquire (ascii "first") 5 { estimatedCost := -1 } 0 0)).1 = contended := by
  have hresult : (contended.perform (.acquire (ascii "first") 5 { estimatedCost := -1 } 0 0)).2 =
      some ⟨.duplicateClient, 0⟩ := by decide
  have henabled : contended.Enabled (.acquire (ascii "first") 5 { estimatedCost := -1 } 0 0) := trivial
  exact ⟨hresult, (unchanged_of_refused contended_reachable henabled hresult (by decide) (by decide)).2⟩

end ResourceManager

end Gpumemd
