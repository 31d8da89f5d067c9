import Gpumemd.Library.Sorted
import Gpumemd.Residency.Backend

/-!
# Accelerator backends

`AcceleratorBackend` (`include/gpumemd/accelerator_backend.hpp`): what holds the models for
the daemon. An implementation has states of its own, and its calls read answers from
outside, those of a driver or a device.

The daemon is modelled over `Backend`, whose calls fail as they are told to. An
implementation stands for it (`Implements`) if each of its calls does what the one of
`Backend` does that is told to fail exactly if this one fails. `MockBackend`
(`src/backend/mock_backend.cpp`), which asks nobody, does so (`implements_mockBackend`).
-/

namespace Gpumemd

open Library

namespace Backend

/-- `is_loaded`. -/
def isLoaded (s : Backend) (id : Str) : Bool := id ∈ s.allocations

/-- `snapshot`: the allocations, in the order of their ids. -/
def snapshot (s : Backend) : List (Str × Bytes) := Table.sortedEntries s.allocations

end Backend

namespace Accelerator

/-- `BackendError`, all of it. -/
inductive BackendError
  | none
  | invalidModelId
  | invalidSize
  | alreadyLoaded
  | notLoaded
  | deviceUnavailable
  | allocationFailed
  | runtimeFailure
  | unsupported
  deriving DecidableEq

/-- As far as the daemon tells the errors apart. -/
def BackendError.narrow : BackendError → Gpumemd.BackendError
  | none => .none
  | invalidModelId => .invalidModelId
  | invalidSize => .invalidSize
  | alreadyLoaded => .alreadyLoaded
  | notLoaded => .notLoaded
  | deviceUnavailable | allocationFailed | runtimeFailure => .runtimeFailure
  | unsupported => .unsupported

/-- The errors that `MockBackend` reports. -/
def BackendError.widen : Gpumemd.BackendError → BackendError
  | .none => none
  | .invalidModelId => invalidModelId
  | .invalidSize => invalidSize
  | .alreadyLoaded => alreadyLoaded
  | .notLoaded => notLoaded
  | .runtimeFailure => runtimeFailure
  | .unsupported => unsupported

/-- `BackendOperationResult`. -/
structure BackendOperationResult where
  error : BackendError
  amount : Bytes
  deriving DecidableEq

/-- `BackendOperationResult::ok`. -/
def BackendOperationResult.ok (result : BackendOperationResult) : Bool := result.error == .none

/-- `BackendShareResult`. -/
structure BackendShareResult where
  error : BackendError
  amount : Bytes
  token : Str
  deriving DecidableEq

/-- The answer to `share`, as the daemon reads it. -/
def BackendShareResult.narrow (result : BackendShareResult) : Gpumemd.BackendShareResult :=
  ⟨result.error.narrow, result.amount, result.token⟩

/-- `AcceleratorBackend`: the calls of an implementation with the states `σ`, which read
    answers `ι` from outside. -/
structure AcceleratorBackend (σ ι : Type) where
  load (s : σ) (id : Str) (bytes : Bytes) (answers : ι) : σ × BackendOperationResult
  /-- `load`, of data with the given size. -/
  loadData (s : σ) (id : Str) (size : Bytes) (answers : ι) : σ × BackendOperationResult
  unload (s : σ) (id : Str) (answers : ι) : σ × BackendOperationResult
  share (s : σ) (id : Str) (answers : ι) : σ × BackendShareResult
  isLoaded (s : σ) (id : Str) : Bool
  snapshot (s : σ) : List (Str × Bytes)

variable {σ ι : Type} {R : σ → Backend → Prop}

/-- A call succeeds as one of `Backend` does, with the same amount, and leaves states that
    correspond. -/
structure Matches (R : σ → Backend → Prop) (call : σ × BackendOperationResult)
    (call' : Backend × Gpumemd.BackendOperationResult) : Prop where
  state : R call.1 call'.1
  ok : call'.2.ok = call.2.ok
  amount : call'.2.amount = call.2.amount

/-- Where the outside keeps its promises, the calls on valid ids are those of a `Backend` in
    the corresponding state, told to fail exactly if they do. -/
structure Implements (impl : AcceleratorBackend σ ι) (Promised : σ → ι → Prop)
    (R : σ → Backend → Prop) : Prop where
  load {s : σ} {b : Backend} {answers : ι} {id : Str} (bytes : Bytes) : R s b → Promised s answers →
    Backend.validId id = true →
    Matches R (impl.load s id bytes answers) (b.load id bytes (!(impl.load s id bytes answers).2.ok))
  loadData {s : σ} {b : Backend} {answers : ι} {id : Str} (size : Bytes) : R s b →
    Promised s answers → Backend.validId id = true →
    Matches R (impl.loadData s id size answers)
      (b.load id size (!(impl.loadData s id size answers).2.ok))
  unload {s : σ} {b : Backend} {answers : ι} {id : Str} : R s b → Promised s answers →
    Backend.validId id = true →
    Matches R (impl.unload s id answers) (b.unload id (!(impl.unload s id answers).2.ok))
  share {s : σ} {b : Backend} (answers : ι) (id : Str) : R s b →
    R (impl.share s id answers).1 b ∧
      ∃ sharing, b.share id sharing = (impl.share s id answers).2.narrow
  isLoaded {s : σ} {b : Backend} (id : Str) : R s b → impl.isLoaded s id = b.isLoaded id
  snapshot {s : σ} {b : Backend} : R s b → impl.snapshot s = b.snapshot

/-- A call that fails and changes nothing. -/
theorem Matches.refused {s : σ} {b : Backend} {error : BackendError}
    {call : Backend × Gpumemd.BackendOperationResult} (hs : R s b) (herror : error ≠ .none)
    (hstate : call.1 = b) (hok : call.2.ok = false) (hamount : call.2.amount = 0) :
    Matches R (s, ⟨error, 0⟩) call := by
  refine ⟨hstate ▸ hs, ?_, hamount⟩
  rw [hok]
  exact (beq_eq_false_iff_ne.2 herror).symm

/-- A load of `Backend` that is told to fail fails, and changes nothing. -/
theorem load_fault (b : Backend) (id : Str) (bytes : Bytes) :
    (b.load id bytes true).1 = b ∧ (b.load id bytes true).2.ok = false ∧
      (b.load id bytes true).2.amount = 0 := by
  rw [Backend.load, if_pos rfl]
  split_ifs <;> exact ⟨rfl, rfl, rfl⟩

/-- An unload of `Backend` that is told to fail fails, and changes nothing. -/
theorem unload_fault (b : Backend) (id : Str) :
    (b.unload id true).1 = b ∧ (b.unload id true).2.ok = false ∧
      (b.unload id true).2.amount = 0 := by
  simp only [Backend.unload, if_true]
  split_ifs
  · exact ⟨rfl, rfl, rfl⟩
  · split <;> exact ⟨rfl, rfl, rfl⟩

/-- A load that fails and changes nothing does what the load does that is told to fail. -/
theorem Matches.load_refused {s : σ} {b : Backend} {error : BackendError} {id : Str}
    {bytes : Bytes} (hs : R s b) (herror : error ≠ .none) :
    Matches R (s, ⟨error, 0⟩) (b.load id bytes true) := by
  obtain ⟨hstate, hok, hamount⟩ := load_fault b id bytes
  exact .refused hs herror hstate hok hamount

theorem Matches.unload_refused {s : σ} {b : Backend} {error : BackendError} {id : Str}
    (hs : R s b) (herror : error ≠ .none) :
    Matches R (s, ⟨error, 0⟩) (b.unload id true) := by
  obtain ⟨hstate, hok, hamount⟩ := unload_fault b id
  exact .refused hs herror hstate hok hamount

/-! ## The mock backend -/

/-- A call of `Backend` that nothing makes fail. -/
def unfailing (call : Backend × Gpumemd.BackendOperationResult) : Backend × BackendOperationResult :=
  (call.1, ⟨.widen call.2.error, call.2.amount⟩)

/-- `MockBackend`. -/
def mockBackend : AcceleratorBackend Backend Unit where
  load s id bytes _ := unfailing (s.load id bytes false)
  loadData s id size _ := unfailing (s.load id size false)
  unload s id _ := unfailing (s.unload id false)
  share s _ _ := (s, ⟨.unsupported, 0, []⟩)
  isLoaded := Backend.isLoaded
  snapshot := Backend.snapshot

/-- What fails unasked fails when told to. -/
theorem matches_unfailing (call : Bool → Backend × Gpumemd.BackendOperationResult) {b : Backend}
    (hfault : (call true).1 = b ∧ (call true).2.ok = false ∧ (call true).2.amount = 0)
    (hcall : (call false).2.ok = true ∨
      (call false).1 = b ∧ (call false).2.ok = false ∧ (call false).2.amount = 0) :
    Matches (· = ·) (unfailing (call false)) (call (!(unfailing (call false)).2.ok)) := by
  have hok : (unfailing (call false)).2.ok = (call false).2.ok := by
    rw [unfailing, BackendOperationResult.ok, Gpumemd.BackendOperationResult.ok]
    cases (call false).2.error <;> rfl
  rw [hok]
  rcases hcall with hsuccess | ⟨hstate, hfailure, hamount⟩
  · rw [hsuccess]
    exact ⟨rfl, hok.symm, rfl⟩
  · obtain ⟨hstate', hfailure', hamount'⟩ := hfault
    rw [hfailure]
    refine ⟨hstate.trans hstate'.symm, ?_, hamount'.trans hamount.symm⟩
    exact hfailure'.trans (hok.trans hfailure).symm

theorem implements_mockBackend : Implements mockBackend (fun _ _ => True) (· = ·) := by
  have hload (b : Backend) (id : Str) (bytes : Bytes) : (b.load id bytes false).2.ok = true ∨
      (b.load id bytes false).1 = b ∧ (b.load id bytes false).2.ok = false ∧
        (b.load id bytes false).2.amount = 0 := by
    rw [Backend.load]
    split_ifs with _ _ _ hnever
    · exact .inr ⟨rfl, rfl, rfl⟩
    · exact .inr ⟨rfl, rfl, rfl⟩
    · exact .inr ⟨rfl, rfl, rfl⟩
    · cases hnever
    · exact .inl rfl
  have hunload (b : Backend) (id : Str) : (b.unload id false).2.ok = true ∨
      (b.unload id false).1 = b ∧ (b.unload id false).2.ok = false ∧
        (b.unload id false).2.amount = 0 := by
    rw [Backend.unload]
    split_ifs with _ hnever
    · exact .inr ⟨rfl, rfl, rfl⟩
    · cases hnever
    · split
      · exact .inr ⟨rfl, rfl, rfl⟩
      · exact .inl rfl
  refine ⟨?_, ?_, ?_, ?_, ?_, ?_⟩
  · rintro s _ _ id bytes rfl - -
    exact matches_unfailing (s.load id bytes) (load_fault s id bytes) (hload s id bytes)
  · rintro s _ _ id size rfl - -
    exact matches_unfailing (s.load id size) (load_fault s id size) (hload s id size)
  · rintro s _ _ id rfl - -
    exact matches_unfailing (s.unload id) (unload_fault s id) (hunload s id)
  · rintro s _ _ id rfl
    exact ⟨rfl, .mock, rfl⟩
  · rintro s _ id rfl
    rfl
  · rintro s _ rfl
    rfl

end Accelerator

end Gpumemd
