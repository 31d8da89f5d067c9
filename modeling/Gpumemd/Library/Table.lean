import Mathlib.Data.Finmap
import Mathlib.Algebra.BigOperators.Group.Multiset.Basic
import Mathlib.Algebra.Order.BigOperators.Group.Multiset
import Mathlib.Algebra.Ring.Nat

/-!
# Tables

A finite table from keys to values, up to the order of its entries: what a hash
map holds, without the order in which it enumerates it. Insertion comes as
`emplace`, which leaves the entry of an existing key alone.

The values of a table weigh `w`: `weight w` is the exact total over its
entries. Inserting at a fresh key adds to it (`weight_insert`) what erasing
takes away (`weight_erase`), also for a list of distinct keys
(`weight_eraseAll`).
-/

namespace Library

/-- A finite table from `κ` to `ν`. -/
abbrev Table (κ ν : Type*) := Finmap fun _ : κ => ν

namespace Table

variable {κ ν β : Type*}

/-- The total weight of the entries of a table. -/
def weight (w : ν → ℕ) (t : Table κ ν) : ℕ := (t.entries.map fun e => w e.2).sum

/-- What `f` makes of the values of a table. -/
def image (f : ν → β) (t : Table κ ν) : Multiset β := t.entries.map fun e => f e.2

variable [DecidableEq κ] {w : ν → ℕ} {f : ν → β} {t : Table κ ν} {k k' : κ} {v : ν}

/-- Inserts the entry, unless the key is in the table already. -/
def emplace (t : Table κ ν) (k : κ) (v : ν) : Table κ ν := if k ∈ t then t else t.insert k v

/-- Erases the keys of the list in turn. -/
def eraseAll (t : Table κ ν) (ks : List κ) : Table κ ν := ks.foldl (fun t k => t.erase k) t

theorem eraseAll_nil (t : Table κ ν) : eraseAll t [] = t := rfl

theorem eraseAll_cons (k : κ) (ks : List κ) : eraseAll t (k :: ks) = eraseAll (t.erase k) ks := rfl

/-- What an insertion leaves at each key. -/
@[simp] theorem lookup_insert :
    (t.insert k v).lookup k' = if k' = k then some v else t.lookup k' := by
  split_ifs with h
  · rw [h, Finmap.lookup_insert]
  · exact Finmap.lookup_insert_of_ne _ h

/-- What an erasure leaves at each key. -/
@[simp] theorem lookup_erase :
    (t.erase k).lookup k' = if k' = k then none else t.lookup k' := by
  split_ifs with h
  · rw [h, Finmap.lookup_erase]
  · exact Finmap.lookup_erase_ne h

@[simp] theorem lookup_eraseAll (ks : List κ) :
    (eraseAll t ks).lookup k = if k ∈ ks then none else t.lookup k := by
  induction ks generalizing t with
  | nil => rfl
  | cons k' ks ih =>
    rw [eraseAll_cons, ih, lookup_erase]
    by_cases hk : k = k'
    · simp [hk]
    · simp [hk]

theorem mem_of_mem_eraseAll {ks : List κ} (h : k ∈ eraseAll t ks) : k ∈ t := by
  by_contra hnot
  refine Finmap.lookup_eq_none.1 ?_ h
  rw [lookup_eraseAll, Finmap.lookup_eq_none.2 hnot, ite_self]

theorem erase_of_notMem (h : k ∉ t) : t.erase k = t := by
  refine Finmap.ext_lookup fun k' => ?_
  rw [lookup_erase]
  split_ifs with hk
  · rw [hk, Finmap.lookup_eq_none.2 h]
  · rfl

theorem emplace_of_notMem (h : k ∉ t) : emplace t k v = t.insert k v := if_neg h

theorem lookup_emplace (h : k ∉ t) : (emplace t k v).lookup k = some v := by
  rw [emplace_of_notMem h, Finmap.lookup_insert]

@[simp] theorem mem_emplace : k' ∈ emplace t k v ↔ k' = k ∨ k' ∈ t := by
  rw [emplace]
  split_ifs with h
  · exact ⟨.inr, fun h' => h'.elim (· ▸ h) id⟩
  · exact Finmap.mem_insert

/-- Erasing a fresh entry right after its insertion gives the table back. -/
theorem erase_emplace (h : k ∉ t) : (emplace t k v).erase k = t := by
  refine Finmap.ext_lookup fun k' => ?_
  rw [emplace_of_notMem h, lookup_erase, lookup_insert]
  split_ifs with hk
  · rw [hk, Finmap.lookup_eq_none.2 h]
  · rfl

theorem weight_insert (h : k ∉ t) : weight w (t.insert k v) = w v + weight w t := by
  rw [weight, weight, Finmap.entries_insert_of_notMem h, Multiset.map_cons, Multiset.sum_cons]

theorem weight_emplace (h : k ∉ t) : weight w (emplace t k v) = w v + weight w t := by
  rw [emplace_of_notMem h, weight_insert h]

/-- Erasing an entry takes its weight away. -/
theorem weight_erase (h : t.lookup k = some v) : w v + weight w (t.erase k) = weight w t := by
  -- insert what was erased again
  rw [← weight_insert (v := v) Finmap.notMem_erase_self]
  congr 1
  refine Finmap.ext_lookup fun k' => ?_
  rw [lookup_insert, lookup_erase]
  split_ifs with hk
  · rw [hk, h]
  · rfl

theorem mem_image {b : β} : b ∈ image f t ↔ ∃ k v, t.lookup k = some v ∧ f v = b := by
  rw [image, Multiset.mem_map]
  constructor
  · rintro ⟨⟨k, v⟩, he, rfl⟩
    exact ⟨k, v, Finmap.lookup_eq_some_iff.2 he, rfl⟩
  · rintro ⟨k, v, hk, rfl⟩
    exact ⟨⟨k, v⟩, Finmap.lookup_eq_some_iff.1 hk, rfl⟩

theorem image_insert (h : k ∉ t) : image f (t.insert k v) = f v ::ₘ image f t := by
  rw [image, image, Finmap.entries_insert_of_notMem h, Multiset.map_cons]

/-- Erasing an entry takes one copy of its value away. -/
theorem image_erase (h : t.lookup k = some v) : f v ::ₘ image f (t.erase k) = image f t := by
  rw [← image_insert Finmap.notMem_erase_self]
  congr 1
  refine Finmap.ext_lookup fun k' => ?_
  rw [lookup_insert, lookup_erase]
  split_ifs with hk
  · rw [hk, h]
  · rfl

/-- Erasing distinct keys takes the weights of their entries away. -/
theorem weight_eraseAll {f : κ → ν} {ks : List κ} (hnodup : ks.Nodup)
    (hks : ∀ k ∈ ks, t.lookup k = some (f k)) :
    (ks.map fun k => w (f k)).sum + weight w (eraseAll t ks) = weight w t := by
  induction ks generalizing t with
  | nil => exact Nat.zero_add _
  | cons k ks ih =>
    rw [List.nodup_cons] at hnodup
    rw [List.forall_mem_cons] at hks
    have hrest : ∀ k' ∈ ks, (t.erase k).lookup k' = some (f k') := by
      intro k' hk'
      have hne : k' ≠ k := fun heq => hnodup.1 (heq ▸ hk')
      rw [lookup_erase, if_neg hne]
      exact hks.2 k' hk'
    rw [List.map_cons, List.sum_cons, eraseAll_cons, Nat.add_assoc, ih hnodup.2 hrest]
    exact weight_erase hks.1

theorem weight_eq_zero (h : ∀ k v, t.lookup k = some v → w v = 0) : weight w t = 0 := by
  refine Multiset.sum_eq_zero fun n hn => ?_
  obtain ⟨e, he, rfl⟩ := Multiset.mem_map.1 hn
  exact h e.1 e.2 (Finmap.lookup_eq_some_iff.2 he)

/-- What does not weigh nothing is among the keys of the list. -/
theorem weight_eq_sum {f : κ → ν} {ks : List κ} (hnodup : ks.Nodup)
    (hks : ∀ k ∈ ks, t.lookup k = some (f k))
    (hrest : ∀ k v, t.lookup k = some v → k ∉ ks → w v = 0) :
    weight w t = (ks.map fun k => w (f k)).sum := by
  rw [← weight_eraseAll hnodup hks, weight_eq_zero, Nat.add_zero]
  intro k v hk
  rw [lookup_eraseAll] at hk
  split_ifs at hk with hmem
  exact hrest k v hk hmem

end Table

end Library
