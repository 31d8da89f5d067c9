import Mathlib.Data.List.Sort
import Gpumemd.Library.Table

/-!
# Tables in the order of their keys

The entries of a table, in the order of the keys. The list of the keys does
not depend on the order in which the table enumerates them, as they are distinct. The values
weigh what the table weighs (`sum_sortedEntries`).
-/

namespace Library

namespace Table

variable {κ ν : Type*} [LE κ] [DecidableLE κ] [Std.Total (α := κ) (· ≤ ·)]
  [Std.Antisymm (α := κ) (· ≤ ·)] [IsTrans κ (· ≤ ·)]

/-- The keys, in order. -/
def sortedKeys (t : Table κ ν) : List κ :=
  Quot.liftOn t.keys.val (List.insertionSort (· ≤ ·)) fun l l' (h : l.Perm l') =>
    (((List.perm_insertionSort _ l).trans h).trans (List.perm_insertionSort _ l').symm).eq_of_pairwise'
      (List.pairwise_insertionSort _ l) (List.pairwise_insertionSort _ l')

theorem sortedKeys_perm (t : Table κ ν) : (sortedKeys t : Multiset κ) = t.keys.val := by
  rw [sortedKeys]
  induction t.keys.val using Quot.ind with
  | mk l => exact Quot.sound (List.perm_insertionSort _ l)

variable {t : Table κ ν} {k : κ} {v : ν}

theorem mem_sortedKeys : k ∈ sortedKeys t ↔ k ∈ t := by
  rw [← Multiset.mem_coe, sortedKeys_perm]
  exact Finmap.mem_keys

theorem nodup_sortedKeys (t : Table κ ν) : (sortedKeys t).Nodup := by
  rw [← Multiset.coe_nodup, sortedKeys_perm]
  exact t.keys.nodup

variable [DecidableEq κ]

/-- The entries, in the order of their keys. -/
def sortedEntries (t : Table κ ν) : List (κ × ν) :=
  (sortedKeys t).filterMap fun k => (t.lookup k).map (k, ·)

/-- The values, in the order of their keys. -/
def values (t : Table κ ν) : List ν := (sortedEntries t).map (·.2)

theorem mem_sortedEntries : (k, v) ∈ sortedEntries t ↔ t.lookup k = some v := by
  simp only [sortedEntries, List.mem_filterMap, Option.map_eq_some_iff, Prod.mk.injEq]
  refine ⟨?_, fun h => ⟨k, mem_sortedKeys.2 (Finmap.mem_iff.2 ⟨v, h⟩), v, h, rfl, rfl⟩⟩
  rintro ⟨_, _, _, h, rfl, rfl⟩
  exact h

/-- Every key has one entry. -/
theorem map_fst_sortedEntries : (sortedEntries t).map Prod.fst = sortedKeys t := by
  have hkeys : ∀ k ∈ sortedKeys t, ((t.lookup k).map (k, ·)).map Prod.fst = some k := by
    intro k hk
    obtain ⟨v, hv⟩ := Finmap.mem_iff.1 (mem_sortedKeys.1 hk)
    rw [hv]
    rfl
  rw [sortedEntries, List.map_filterMap]
  refine (List.filterMap_congr hkeys).trans ?_
  exact List.filterMap_some

/-- The entries in order are the entries. -/
theorem coe_sortedEntries (t : Table κ ν) :
    (sortedEntries t : Multiset (κ × ν)) = t.entries.map fun entry => (entry.1, entry.2) := by
  have hsorted : (sortedEntries t).Nodup := by
    refine List.Nodup.of_map Prod.fst ?_
    rw [map_fst_sortedEntries]
    exact nodup_sortedKeys t
  have hentries : (t.entries.map fun entry => (entry.1, entry.2)).Nodup :=
    Multiset.Nodup.map (fun _ _ heq => Sigma.ext (Prod.mk.inj heq).1 (heq_of_eq (Prod.mk.inj heq).2))
      t.nodupKeys.nodup
  refine (Multiset.Nodup.ext (Multiset.coe_nodup.2 hsorted) hentries).2 fun ⟨k, v⟩ => ?_
  rw [Multiset.mem_coe, mem_sortedEntries, Finmap.lookup_eq_some_iff, Multiset.mem_map]
  refine ⟨fun h => ⟨⟨k, v⟩, h, rfl⟩, ?_⟩
  rintro ⟨⟨_, _⟩, h, heq⟩
  obtain ⟨rfl, rfl⟩ := Prod.mk.inj heq
  exact h

/-- The values weigh what the table weighs. -/
theorem sum_sortedEntries (w : ν → ℕ) :
    ((sortedEntries t).map fun entry => w entry.2).sum = weight w t := by
  have hsum := congrArg (fun entries => (entries.map fun entry => w entry.2).sum)
    (coe_sortedEntries t)
  simpa [weight, Function.comp_def] using hsum

/-- What is made of the values in order is what is made of them. -/
theorem coe_map_sortedEntries {β : Type*} (f : ν → β) :
    ((sortedEntries t).map fun entry => f entry.2 : Multiset β) = image f t := by
  have himage := congrArg (Multiset.map fun entry => f entry.2) (coe_sortedEntries t)
  simpa [image, Function.comp_def] using himage

theorem mem_values : v ∈ values t ↔ ∃ k, t.lookup k = some v := by
  simp [values, ← mem_sortedEntries]

end Table

end Library
