import Gpumemd.Library.Sorted
import Gpumemd.Residency.Consistency

/-!
# What the listings show

`ModelRegistry::models` and `ModelResidencyManager::residency`: the registered models and
the residency records, in the order of their ids.

Registered models have valid ids, metadata and paths (`of_mem_modelSnapshot`); so do the
records, between operations (`of_mem_residency`).
-/

namespace Gpumemd

open Library

namespace ModelRegistry

variable {s : ModelRegistry} {id path metadata : Str} {bytes : Bytes} {model model' : ModelRecord}

/-- `ModelRegistry::models`. -/
def modelSnapshot (s : ModelRegistry) : List ModelRecord :=
  (Table.values s.models).insertionSort fun left right => left.id ≤ right.id

/-- The metadata of every model are valid, and so is its path, if it has one. -/
def Described (s : ModelRegistry) : Prop :=
  ∀ id model, s.models.lookup id = some model →
    validMetadata model.metadata = true ∧ (model.sourcePath = [] ∨ validPath model.sourcePath = true)

namespace Described

theorem emplaceModel (h : s.Described) (hmetadata : validMetadata model.metadata = true)
    (hpath : model.sourcePath = [] ∨ validPath model.sourcePath = true) :
    (s.emplaceModel model).1.Described := by
  rw [ModelRegistry.emplaceModel]
  split_ifs with hmem
  · exact h
  · intro id model' hlookup
    rw [Table.emplace_of_notMem hmem, Table.lookup_insert] at hlookup
    split_ifs at hlookup
    · obtain rfl := Option.some.inj hlookup
      exact ⟨hmetadata, hpath⟩
    · exact h id model' hlookup

theorem registerModel (h : s.Described) : (s.registerModel id bytes metadata).1.Described := by
  rw [ModelRegistry.registerModel]
  split_ifs with hid hbytes hmetadata
  · exact h
  · exact h
  · exact h
  · exact h.emplaceModel (by simpa using hmetadata) (.inl rfl)

theorem registerFile (h : s.Described) {fileSize : Option Bytes} :
    (s.registerFile id path metadata fileSize).1.Described := by
  cases fileSize with
  | none =>
    rw [ModelRegistry.registerFile]
    split_ifs <;> exact h
  | some fileSize =>
    rw [ModelRegistry.registerFile]
    split_ifs with hid hpath hmetadata
    · exact h
    · exact h
    · exact h
    · exact h
    · exact h.emplaceModel (by simpa using hmetadata) (.inr (by simpa using hpath))

theorem access (h : s.Described) (hmodel : s.findModel id = some model) (count : ℕ) :
    (s.access id model count).Described := by
  intro id' model' hlookup
  rw [ModelRegistry.access, Table.lookup_insert] at hlookup
  split_ifs at hlookup
  · obtain rfl := Option.some.inj hlookup
    exact h id model hmodel
  · exact h id' model' hlookup

theorem erase (h : s.Described) : Described { s with models := s.models.erase id } := by
  intro id' model' hlookup
  rw [Table.lookup_erase] at hlookup
  split_ifs at hlookup
  exact h id' model' hlookup

end Described

end ModelRegistry

namespace Daemon

variable {s t : Daemon} {model : ModelRecord} {record : ResidencyRecord}

/-- `ModelResidencyManager::residency`. -/
def residency (s : Daemon) : List ResidencyRecord :=
  (Table.values s.records).insertionSort fun left right => left.id ≤ right.id

theorem described_effect (h : s.registry.Described) {a : Action} {response : Response}
    (heffect : Effect s a t response) : t.registry.Described := by
  cases heffect with
  | registerModel => exact h.registerModel
  | registerFile => exact h.registerFile
  | retain _ hmodel => exact h.access hmodel _
  | releaseModel _ hmodel _ => exact h.access hmodel _
  | unregisterModel => exact h.erase
  | _ => exact h

theorem reachable_described (h : machine.Reachable s) : s.registry.Described := by
  refine h.invariant (P := fun s => s.registry.Described) (fun s hinit => ?_)
    fun s a t _ hs hstep => ?_
  · obtain ⟨_, _, _, _, rfl⟩ := hinit
    exact fun _ _ hmodel => absurd hmodel (by simp)
  · obtain ⟨henabled, rfl⟩ := hstep
    exact described_effect hs (perform_effect henabled)

theorem of_mem_modelSnapshot (h : machine.Reachable s) (hmodel : model ∈ s.registry.modelSnapshot) :
    s.registry.findModel model.id = some model ∧ ModelRegistry.validId model.id = true ∧
      ModelRegistry.validMetadata model.metadata = true ∧
      (model.sourcePath = [] ∨ ModelRegistry.validPath model.sourcePath = true) := by
  rw [ModelRegistry.modelSnapshot, List.mem_insertionSort, Table.mem_values] at hmodel
  obtain ⟨id, hlookup⟩ := hmodel
  obtain ⟨rfl, hid, _⟩ := (reachable_inv h).registry id model hlookup
  exact ⟨hlookup, hid, reachable_described h model.id model hlookup⟩

theorem of_mem_residency (h : machine.Reachable s) (hidle : s.running = none)
    (hrecord : record ∈ s.residency) :
    s.records.lookup record.id = some record ∧ ModelRegistry.validId record.id = true := by
  have hinv := reachable_inv h
  rw [residency, List.mem_insertionSort, Table.mem_values] at hrecord
  obtain ⟨id, hlookup⟩ := hrecord
  obtain ⟨rfl, model, hmodel, _⟩ := hinv.agrees (by simp [hidle]) hlookup
  exact ⟨hlookup, (hinv.registry _ model hmodel).2.1⟩

end Daemon

end Gpumemd
