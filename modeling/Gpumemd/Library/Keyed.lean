import Mathlib.Data.List.Nodup

/-!
# Lists with distinct keys

In a list whose elements have distinct keys, a key identifies an element: the
search for the key of an element finds it (`find?_key`), also where some elements
have no key (`filter_key`). What the search for any property finds is what an erasure takes
away (`perm_of_find?`), and to erase the element with a key is to keep the others
(`eraseP_key`).
-/

namespace Library

variable {α κ : Type*} [DecidableEq κ] {l : List α} {a : α} {k : κ}

/-- The search for the key of an element finds it. -/
theorem find?_key {key : α → κ} (hnodup : (l.map key).Nodup) (ha : a ∈ l) :
    l.find? (key · == key a) = some a := by
  have hfound : (l.find? (key · == key a)).isSome := by
    rw [List.find?_isSome]
    exact ⟨a, ha, by simp⟩
  obtain ⟨b, hb⟩ := Option.isSome_iff_exists.1 hfound
  have hkey : key b = key a := by simpa using List.find?_some hb
  rw [hb, List.inj_on_of_nodup_map hnodup (List.mem_of_find?_eq_some hb) ha hkey]

/-- Where only some elements have keys, the only element with the key of another is
    this one. -/
theorem filter_key {key : α → Option κ} (hnodup : (l.filterMap key).Nodup) (ha : a ∈ l)
    (hk : key a = some k) : (l.filter fun b => key b == some k) = [a] := by
  induction l with
  | nil => exact absurd ha List.not_mem_nil
  | cons b l ih =>
    rcases List.mem_cons.1 ha with rfl | ha
    · rw [List.filterMap_cons_some hk, List.nodup_cons] at hnodup
      rw [List.filter_cons_of_pos (by simp [hk]), List.filter_eq_nil_iff.2]
      intro c hc hck
      exact hnodup.1 (List.mem_filterMap.2 ⟨c, hc, by simpa using hck⟩)
    · have hb : key b ≠ some k := by
        intro hb
        rw [List.filterMap_cons_some hb, List.nodup_cons] at hnodup
        exact hnodup.1 (List.mem_filterMap.2 ⟨a, ha, hk⟩)
      rw [List.filter_cons_of_neg (by simpa using hb)]
      exact ih (hnodup.sublist ((List.sublist_cons_self b l).filterMap key)) ha

/-- To erase the element with a key is to keep the others. -/
theorem eraseP_key {κ : Type*} [BEq κ] [LawfulBEq κ] {key : α → κ} (hnodup : (l.map key).Nodup)
    (k : κ) : l.eraseP (key · == k) = l.filter (key · != k) := by
  induction l with
  | nil => rfl
  | cons a l ih =>
    rw [List.map_cons, List.nodup_cons] at hnodup
    by_cases ha : key a = k
    · rw [List.eraseP_cons_of_pos (by simpa using ha), List.filter_cons_of_neg (by simpa using ha)]
      refine (List.filter_eq_self.2 fun b hb => ?_).symm
      have hb' : key b ≠ k := fun hbk => hnodup.1 (ha ▸ hbk ▸ List.mem_map_of_mem hb)
      simpa using hb'
    · rw [List.eraseP_cons_of_neg (by simpa using ha), List.filter_cons_of_pos (by simpa using ha),
        ih hnodup.2]

/-- What the search finds, an erasure takes away. -/
theorem perm_of_find? {p : α → Bool} (h : l.find? p = some a) : l.Perm (a :: l.eraseP p) := by
  obtain ⟨hp, before, after, rfl, hbefore⟩ := List.find?_eq_some_iff_append.1 h
  rw [List.eraseP_append_right _ (by simpa using hbefore), List.eraseP_cons_of_pos hp]
  exact List.perm_middle

end Library
