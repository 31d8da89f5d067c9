import Gpumemd.Accelerator.Cuda
import Gpumemd.Library.Machine

/-!
# Concurrent calls of the CUDA backend

Any threads may call a `CUDABackend`. Each call holds its mutex throughout, but for a load
of data, which releases it between the allocation and the copy: other calls may run there.

* Whatever runs there, no call names memory that is not allocated, and each pointer in the
  table is that of one allocation. Memory is lost only where the driver fails to free it
  (`reachable_memory`).
* The copy goes to what the table holds by then. It fits as long as no thread unloads a
  model whose data is still to be copied, and may not fit otherwise (`reachable_overrun`).
-/

namespace Gpumemd

open Library

namespace Accelerator

/-- A backend, with the loads of data that are between their two locks: the ids, and the
    sizes of the data. -/
structure CudaThreads where
  backend : CudaBackend := {}
  copying : List (Str × Bytes) := []

namespace CudaThreads

/-- The steps. -/
inductive Action
  | load (id : Str) (bytes : Bytes) (answers : CudaAnswers)
  /-- A load of data, up to the release of its first lock. -/
  | loadData (id : Str) (size : Bytes) (answers : CudaAnswers)
  /-- The rest of a load of data. -/
  | copyData (index : ℕ) (answers : CudaAnswers)
  | unload (id : Str) (answers : CudaAnswers)
  | share (id : Str) (answers : CudaAnswers)
  /-- The backend is destroyed, and a new one made on the device. -/
  | destroy (freed : Str → Bool)

variable (s : CudaThreads)

/-- The state after a step, if it may be taken. -/
def perform : Action → Option CudaThreads
  | .load id bytes answers => some { s with backend := (s.backend.load id bytes answers).1 }
  | .loadData id size answers =>
    let (backend, result) := s.backend.load id size answers
    some { backend, copying := if !result.ok then s.copying else s.copying ++ [(id, size)] }
  | .copyData index answers =>
    match s.copying[index]? with
    | none => none
    | some (id, size) => some
      { backend := (s.backend.copyData id size ⟨.none, size⟩ answers).1
        copying := s.copying.eraseIdx index }
  | .unload id answers => some { s with backend := (s.backend.unload id answers).1 }
  | .share id answers => some { s with backend := (s.backend.share id answers).1 }
  | .destroy freed =>
    if s.copying.isEmpty then some { s with backend := s.backend.destroy freed } else none

/-- The driver keeps its promises. -/
def Promised : Action → Prop
  | .load _ _ answers => s.backend.Promised answers
  | .loadData _ _ answers => s.backend.Promised answers
  | _ => True

/-- The runs, from a new backend. -/
def machine : Machine CudaThreads Action where
  init s := s = {}
  step s a t := s.Promised a ∧ s.perform a = some t

/-- The driver does not fail to free memory. -/
def Frees : Action → Prop
  | .copyData _ answers => answers.freed = true
  | .destroy freed => ∀ id, freed id = true
  | _ => True

/-- No model is unloaded while data is still to be copied to it. -/
def Undisturbed : Action → Prop
  | .unload id _ => ∀ load ∈ s.copying, load.1 ≠ id
  | _ => True

variable {s} {t : CudaThreads} {a : Action} {lost : Multiset Pointer}

open CudaBackend in
/-- A step keeps the pointers in the table as they should be, and loses nothing if the
    driver does not fail to free it. -/
theorem owned_step (h : Owned s.backend lost) (hpromised : s.Promised a)
    (hstep : s.perform a = some t) :
    ∃ lost', Owned t.backend lost' ∧ (Frees a → lost' = lost) := by
  cases a with
  | load id bytes answers =>
    obtain rfl := Option.some.inj hstep
    exact ⟨lost, h.load hpromised, fun _ => rfl⟩
  | loadData id size answers =>
    obtain rfl := Option.some.inj hstep
    exact ⟨lost, h.load hpromised, fun _ => rfl⟩
  | copyData index answers =>
    rw [perform] at hstep
    split at hstep
    next => cases hstep
    next id size _ =>
      obtain rfl := Option.some.inj hstep
      exact h.copyData
  | unload id answers =>
    obtain rfl := Option.some.inj hstep
    exact ⟨lost, h.unload, fun _ => rfl⟩
  | share id answers =>
    obtain rfl := Option.some.inj hstep
    exact ⟨lost, h.share, fun _ => rfl⟩
  | destroy freed =>
    rw [perform] at hstep
    split_ifs at hstep
    obtain rfl := Option.some.inj hstep
    exact h.destroy freed

theorem owned_init : CudaBackend.Owned {} 0 :=
  ⟨.empty, Multiset.nodup_zero, fun _ _ hlookup => by cases hlookup⟩

theorem reachable_owned (h : machine.Reachable s) : ∃ lost, CudaBackend.Owned s.backend lost := by
  refine h.invariant (P := fun s => ∃ lost, CudaBackend.Owned s.backend lost) ?_ ?_
  · rintro s rfl
    exact ⟨0, owned_init⟩
  · rintro s a t - ⟨lost, hs⟩ ⟨hpromised, hstep⟩
    obtain ⟨lost', ht, -⟩ := owned_step hs hpromised hstep
    exact ⟨lost', ht⟩

/-- If the driver does not fail to free memory, none is lost. -/
theorem reachable_owned_frees (h : (machine.restrict fun _ a _ => Frees a).Reachable s) :
    CudaBackend.Owned s.backend 0 := by
  refine h.invariant (P := fun s => CudaBackend.Owned s.backend 0) ?_ ?_
  · rintro s rfl
    exact owned_init
  · rintro s a t - hs ⟨⟨hpromised, hstep⟩, hfrees⟩
    obtain ⟨lost', ht, hlost⟩ := owned_step hs hpromised hstep
    exact hlost hfrees ▸ ht

/-! ## Runs that are given by their steps -/

instance (s : CudaThreads) : (a : Action) → Decidable (s.Promised a)
  | .load _ _ answers => inferInstanceAs (Decidable (s.backend.Promised answers))
  | .loadData _ _ answers => inferInstanceAs (Decidable (s.backend.Promised answers))
  | .copyData .. | .unload .. | .share .. | .destroy _ => .isTrue trivial

/-- A step, where the driver keeps its promises. -/
def promised (s : CudaThreads) (a : Action) : Option CudaThreads :=
  if s.Promised a then s.perform a else none

theorem step_of_promised {a : Action} (h : s.promised a = some t) : machine.step s a t := by
  rw [promised] at h
  split_ifs at h with hpromised
  exact ⟨hpromised, h⟩

/-- The model `m` of a hundred bytes is unloaded before its data is copied, and loaded again
    with fifty. -/
def disturbing : List Action :=
  [.loadData (ascii "m") 100 { freeBytes := some 1000, pointer := some 1 },
    .unload (ascii "m") {}, .load (ascii "m") 50 { freeBytes := some 1000, pointer := some 2 },
    .copyData 0 {}]

/-- The state after these steps. -/
def disturbed : CudaThreads := (disturbing.foldlM promised {}).getD {}

theorem disturbed_reachable : machine.Reachable disturbed := by
  have hempty : machine.Reachable {} := .init rfl
  exact hempty.getD_foldlM (fun _ _ _ => step_of_promised) disturbing

/-! ## The memory of the device -/

/-- However the calls of any threads interleave, none names memory that is not allocated,
    and the table has one allocation of its own for each model, of its size. If the driver
    does not fail to free memory, nothing else is allocated, and a backend that is destroyed
    leaves nothing behind. -/
theorem reachable_memory (h : machine.Reachable s) :
    s.backend.device.memory.stale = false ∧ s.backend.device.memory.live.Nodup ∧
      s.backend.held ≤ s.backend.device.memory.live ∧
      (∀ id allocation, s.backend.allocations.lookup id = some allocation →
        s.backend.device.size allocation.pointer = allocation.bytes) ∧
      ((machine.restrict fun _ a _ => Frees a).Reachable s →
        s.backend.device.memory.live = s.backend.held ∧
          ∀ freed t, s.perform (.destroy freed) = some t → (∀ id, freed id = true) →
            t.backend.device.memory.live = 0) := by
  obtain ⟨lost, howned⟩ := reachable_owned h
  refine ⟨howned.accounts.fresh, howned.distinct, ?_,
    fun id allocation hlookup => (howned.sized id allocation hlookup).2, fun hfrees => ⟨?_, ?_⟩⟩
  · rw [howned.accounts.live]
    exact Multiset.le_add_right _ _
  · rw [(reachable_owned_frees hfrees).accounts.live, add_zero]
  · intro freed t hstep hall
    rw [perform] at hstep
    split_ifs at hstep
    obtain rfl := Option.some.inj hstep
    obtain ⟨lost', ht, hlost'⟩ := (reachable_owned_frees hfrees).destroy freed
    rw [ht.accounts.live, hlost' hall]
    rfl

theorem disturbed_memory :
    disturbed.backend.device.memory.stale = false ∧
      disturbed.backend.held ≤ disturbed.backend.device.memory.live := by
  obtain ⟨hfresh, -, hheld, -⟩ := reachable_memory disturbed_reachable
  exact ⟨hfresh, hheld⟩

/-! ## Copies -/

/-- The data that is still to be copied fits where it goes. -/
structure Fits (s : CudaThreads) : Prop where
  overrun : s.backend.device.overrun = false
  distinct : (s.copying.map Prod.fst).Nodup
  recorded : ∀ load ∈ s.copying, ∃ pointer,
    s.backend.allocations.lookup load.1 = some ⟨pointer, load.2⟩

namespace Fits

open CudaBackend

variable {id : Str} {bytes size : Bytes} {answers : CudaAnswers}

/-- A step that keeps what is in the table and copies nothing. -/
theorem of_lookup {backend : CudaBackend} (h : Fits s)
    (hoverrun : backend.device.overrun = s.backend.device.overrun)
    (hlookup : ∀ load ∈ s.copying, backend.allocations.lookup load.1 =
      s.backend.allocations.lookup load.1) : Fits { s with backend } := by
  refine ⟨hoverrun.trans h.overrun, h.distinct, fun load hload => ?_⟩
  rw [hlookup load hload]
  exact h.recorded load hload

/-- What is still to be copied has been allocated already. -/
theorem ne_of_notMem (h : Fits s) (hnew : id ∉ s.backend.allocations) :
    ∀ load ∈ s.copying, load.1 ≠ id := by
  rintro load hload rfl
  obtain ⟨pointer, hlookup⟩ := h.recorded load hload
  exact hnew (Finmap.mem_of_lookup_eq_some hlookup)

theorem load (h : Fits s) : Fits { s with backend := (s.backend.load id bytes answers).1 } := by
  rcases load_cases s.backend id bytes answers with ⟨error, -, hload⟩ |
    ⟨pointer, -, -, hnew, hload⟩
  · rw [hload]
    exact h
  · rw [hload]
    refine h.of_lookup rfl fun load hmem => ?_
    exact Finmap.lookup_insert_of_ne _ (h.ne_of_notMem hnew load hmem)

theorem loadData (h : Fits s) (hstep : s.perform (.loadData id size answers) = some t) : Fits t := by
  have hfits : Fits { s with backend := (s.backend.load id size answers).1 } := h.load
  rw [perform] at hstep
  rcases load_cases s.backend id size answers with ⟨error, herror, hload⟩ |
    ⟨pointer, -, -, hnew, hload⟩
  · have hfailed : (⟨error, 0⟩ : BackendOperationResult).ok = false := by
      simpa [BackendOperationResult.ok] using herror
    rw [hload] at hfits hstep
    dsimp only at hstep
    rw [hfailed] at hstep
    obtain rfl := Option.some.inj hstep
    exact hfits
  · rw [hload] at hfits hstep
    obtain rfl := Option.some.inj hstep
    refine ⟨hfits.overrun, ?_, fun load hmem => ?_⟩
    · show ((s.copying ++ [(id, size)]).map Prod.fst).Nodup
      rw [List.map_append]
      refine List.nodup_append.2 ⟨h.distinct, List.nodup_singleton id, ?_⟩
      rintro _ hmem _ hid rfl
      obtain ⟨load, hload', rfl⟩ := List.mem_map.1 hmem
      exact h.ne_of_notMem hnew load hload' (List.mem_singleton.1 hid)
    · rcases List.mem_append.1 hmem with hmem | hmem
      · exact hfits.recorded load hmem
      · obtain rfl := List.mem_singleton.1 hmem
        exact ⟨pointer, Finmap.lookup_insert _⟩

/-- The other loads that are still to be copied are of other models. -/
theorem ne_of_mem_eraseIdx {index : ℕ} (h : Fits s) (hindex : s.copying[index]? = some (id, size)) :
    ∀ load ∈ s.copying.eraseIdx index, load.1 ≠ id := by
  obtain ⟨hlt, hget⟩ := List.getElem?_eq_some_iff.1 hindex
  have hperm : (s.copying.map Prod.fst).Perm (id :: (s.copying.eraseIdx index).map Prod.fst) := by
    have hperm := (List.getElem_cons_eraseIdx_perm hlt).symm.map Prod.fst
    rwa [hget] at hperm
  have hnodup := hperm.nodup_iff.1 h.distinct
  rintro load hload rfl
  exact (List.nodup_cons.1 hnodup).1 (List.mem_map_of_mem hload)

theorem copyData {index : ℕ} (h : Fits s) (howned : Owned s.backend lost)
    (hstep : s.perform (.copyData index answers) = some t) : Fits t := by
  rw [perform] at hstep
  split at hstep
  next => cases hstep
  next id size hindex =>
    obtain rfl := Option.some.inj hstep
    obtain ⟨pointer, hlookup⟩ := h.recorded _ (List.mem_of_getElem? hindex)
    have hothers := h.ne_of_mem_eraseIdx hindex
    have hsub := List.eraseIdx_sublist (s.copying) index
    -- what it is copied to has the size of the data
    have hfits : (s.backend.device.memcpy pointer size).overrun = false := by
      obtain ⟨-, hsize⟩ := howned.sized id _ hlookup
      have hle : ¬ size < size := UInt64.lt_irrefl size
      rw [CudaDevice.memcpy, h.overrun, hsize]
      simp
    rw [CudaBackend.copyData, hlookup]
    dsimp only
    cases answers.copied with
    | true =>
      exact ⟨hfits, h.distinct.sublist (hsub.map _), fun load hload =>
        h.recorded load (hsub.subset hload)⟩
    | false =>
      refine ⟨hfits, h.distinct.sublist (hsub.map _), fun load hload => ?_⟩
      obtain ⟨pointer', hlookup'⟩ := h.recorded load (hsub.subset hload)
      exact ⟨pointer', (Finmap.lookup_erase_ne (hothers load hload)).trans hlookup'⟩

theorem overrun_unload (s : CudaBackend) :
    (s.unload id answers).1.device.overrun = s.device.overrun := by
  rcases unload_cases s id answers with ⟨error, -, hunload⟩ |
    ⟨allocation, -, ⟨-, hunload⟩ | ⟨-, hunload⟩⟩
  · rw [hunload]
  · rw [hunload]
    rfl
  · rw [hunload]
    rfl

theorem lookup_unload {id' : Str} (s : CudaBackend) (hne : id' ≠ id) :
    (s.unload id answers).1.allocations.lookup id' = s.allocations.lookup id' := by
  rcases unload_cases s id answers with ⟨error, -, hunload⟩ |
    ⟨allocation, -, ⟨-, hunload⟩ | ⟨-, hunload⟩⟩
  · rw [hunload]
  · rw [hunload]
  · rw [hunload]
    exact Finmap.lookup_erase_ne hne

theorem share_eq (s : CudaBackend) (id : Str) (answers : CudaAnswers) :
    (s.share id answers).1.device.overrun = s.device.overrun ∧
      (s.share id answers).1.allocations = s.allocations := by
  rw [CudaBackend.share]
  split
  · exact ⟨rfl, rfl⟩
  · dsimp only
    split <;> exact ⟨rfl, rfl⟩

theorem overrun_freeAll (device : CudaDevice) (freed : Str → Bool)
    (entries : List (Str × CudaAllocation)) :
    (freeAll device freed entries).overrun = device.overrun := by
  induction entries generalizing device with
  | nil => rfl
  | cons entry entries ih =>
    rw [freeAll, ih]
    split_ifs
    · rfl
    · rfl

theorem step (h : Fits s) (howned : Owned s.backend lost) (hundisturbed : s.Undisturbed a)
    (hstep : s.perform a = some t) : Fits t := by
  cases a with
  | load id bytes answers =>
    obtain rfl := Option.some.inj hstep
    exact h.load
  | loadData id size answers => exact h.loadData hstep
  | copyData index answers => exact h.copyData howned hstep
  | unload id answers =>
    obtain rfl := Option.some.inj hstep
    exact h.of_lookup (overrun_unload _) fun load hload => lookup_unload _ (hundisturbed load hload)
  | share id answers =>
    obtain rfl := Option.some.inj hstep
    obtain ⟨hoverrun, hallocations⟩ := share_eq s.backend id answers
    exact h.of_lookup hoverrun fun _ _ => by rw [hallocations]
  | destroy freed =>
    rw [perform] at hstep
    split_ifs at hstep with hnone
    obtain rfl := Option.some.inj hstep
    rw [List.isEmpty_iff] at hnone
    refine h.of_lookup (overrun_freeAll _ _ _) fun load hload => ?_
    rw [hnone] at hload
    cases hload

end Fits

end CudaThreads

end Accelerator

end Gpumemd
