import Mathlib.Data.List.Basic

/-!
# Fields

A row is made of fields that are joined by one separator each. Cutting it at its first `n`
separators gives the fields back, if only the last of them may have separators, and this only
where it is the field after the `n`th separator (`fields_intercalate`).

Encoded items that are decoded one by one give the items back (`mapM_map`).
-/

namespace Library

variable {α β γ : Type*}

section Fields

variable [DecidableEq α] {sep : α} {field text : List α} {n : ℕ}

/-- The parts of a text between its first `n` separators, and what follows them. -/
def fields (sep : α) : ℕ → List α → List (List α)
  | 0, text => [text]
  | n + 1, text =>
    if sep ∈ text then
      text.takeWhile (· ≠ sep) :: fields sep n (text.dropWhile (· ≠ sep)).tail
    else [text]

theorem fields_of_notMem (h : sep ∉ text) : fields sep n text = [text] := by
  cases n with
  | zero => rfl
  | succ n => rw [fields, if_neg h]

theorem fields_append_cons (h : sep ∉ field) :
    fields sep (n + 1) (field ++ sep :: text) = field :: fields sep n text := by
  have hfield : ∀ a ∈ field, decide (a ≠ sep) = true := fun a ha =>
    decide_eq_true fun heq => h (heq ▸ ha)
  rw [fields, if_pos (by simp), List.takeWhile_append_of_pos hfield,
    List.dropWhile_append_of_pos hfield]
  simp

/-- The last field may have separators if the others are as many as are cut. -/
theorem fields_intercalate {before : List (List α)} {last : List α}
    (hbefore : ∀ field ∈ before, sep ∉ field) (hlength : before.length ≤ n)
    (hlast : before.length < n → sep ∉ last) :
    fields sep n ([sep].intercalate (before ++ [last])) = before ++ [last] := by
  induction before generalizing n with
  | nil =>
    rw [List.nil_append, List.intercalate_singleton]
    cases n with
    | zero => rfl
    | succ n => exact fields_of_notMem (hlast n.succ_pos)
  | cons field before ih =>
    rw [List.forall_mem_cons] at hbefore
    obtain ⟨n, rfl⟩ := Nat.exists_eq_add_of_lt (Nat.lt_of_lt_of_le before.length.succ_pos hlength)
    have hne : before ++ [last] ≠ [] := by simp
    rw [List.length_cons] at hlength hlast
    rw [List.cons_append, List.intercalate_cons_of_ne_nil hne, List.append_assoc,
      List.singleton_append, Nat.zero_add, fields_append_cons hbefore.1,
      ih hbefore.2 (by omega) fun hlt => hlast (by omega)]

end Fields

/-- Encoded items that are decoded one by one. -/
theorem mapM_map {encode : α → β} {decode : β → Option γ} {view : α → γ} {l : List α}
    (h : ∀ a ∈ l, decode (encode a) = some (view a)) :
    (l.map encode).mapM decode = some (l.map view) := by
  induction l with
  | nil => rfl
  | cons a l ih =>
    rw [List.forall_mem_cons] at h
    rw [List.map_cons, List.map_cons, List.mapM_cons, h.1, ih h.2]
    rfl

end Library
