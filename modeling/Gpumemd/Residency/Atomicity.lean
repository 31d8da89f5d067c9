import Gpumemd.Residency.Backing

/-!
# A load that fails changes nothing

`Loading` are the calls of `load`, piece by piece, with what clients and registrations
do meanwhile. Up to the replacement of the reservations a load has given its model to
the backend at most, and takes it back when the replacement is refused. From there on
it cannot fail. So a load that returns an error leaves the records, the reservations
of models and the backend as they were (`unchanged_of_load_error`).
-/

namespace Gpumemd

open Library

namespace Daemon

variable {s t u : Daemon} {id : Str} {model : ModelRecord} {evictions : List Str} {input : Input}
  {result : ModelOperationResult} {response : Response}

/-- What may run between the pieces of an operation: clients and registrations. -/
def Action.Interleaves : Action → Prop
  | .client _ => True
  | .registerModel .. => True
  | .registerFile .. => True
  | _ => False

/-- A call of `load` from `s`, as far as it has come, with its last answer. The backend
    does not fail to unload the model that the call has just loaded. -/
inductive Loading (s : Daemon) (id : Str) : Daemon → Response → Prop
  | call : s.running = none → Loading s id (s.load id).1 (s.load id).2
  | between {t : Daemon} {a : Action} : Loading s id t .running → a.Interleaves → t.Enabled a →
      Loading s id (t.perform a).1 .running
  | advance {t : Daemon} {input : Input} : Loading s id t .running → t.Enabled (.advance input) →
      (∀ model evictions, t.running = some (.rollingBack model evictions) → input.fault = false) →
      Loading s id (t.advance input).1 (t.advance input).2

theorem Loading.reachable (h : Loading s id t response) (hs : machine.Reachable s) :
    machine.Reachable t := by
  induction h with
  | call hidle => exact hs.step (a := .load id) ⟨hidle, rfl⟩
  | between _ _ henabled ih => exact ih.step ⟨henabled, rfl⟩
  | advance _ henabled _ ih => exact ih.step (a := .advance _) ⟨henabled, rfl⟩

/-! ## What a load leaves alone -/

/-- The records and the reservations of models are as they were. -/
structure Preserved (s t : Daemon) : Prop where
  records : t.records = s.records
  nextLoaded : t.nextLoaded = s.nextLoaded
  modelReservations : t.resources.modelReservations = s.resources.modelReservations

/-- The backend as well. -/
structure Unchanged (s t : Daemon) : Prop extends Preserved s t where
  backend : t.backend = s.backend

theorem Preserved.trans (h : Preserved s t) (h' : Preserved t u) : Preserved s u where
  records := h'.records.trans h.records
  nextLoaded := h'.nextLoaded.trans h.nextLoaded
  modelReservations := h'.modelReservations.trans h.modelReservations

theorem Unchanged.trans (h : Unchanged s t) (h' : Unchanged t u) : Unchanged s u where
  toPreserved := h.toPreserved.trans h'.toPreserved
  backend := h'.backend.trans h.backend

/-- The backend holds the model in addition. -/
def Lent (s t : Daemon) (model : ModelRecord) : Prop :=
  model.id ∉ s.backend.allocations ∧
    t.backend = ⟨s.backend.allocations.insert model.id model.footprintBytes⟩

/-- Where a load from `s` stands in `t`. -/
def LoadInv (s t : Daemon) : Prop :=
  match t.running with
  | some (.planning _) => Unchanged s t
  | some (.fetching _ _) => Unchanged s t
  | some (.swapping model _ _) => Preserved s t ∧ Lent s t model
  | some (.rollingBack model _) => Preserved s t ∧ Lent s t model
  | some (.evicting _ _ _) => True
  | _ => False

/-- What a load from `s` has come to in `t`: an error only where nothing has changed. -/
def Outcome (s t : Daemon) : Response → Prop
  | .running => LoadInv s t
  | .returned result => result.ok = false → Unchanged s t
  | _ => False

/-- Where the operation has not changed anything yet, a load has not either. -/
theorem LoadInv.unchanged (h : LoadInv s t) (hclean : t.Clean) : Unchanged s t := by
  rw [LoadInv] at h
  rw [Clean] at hclean
  generalize t.running = running at h hclean
  cases running with
  | none => exact h.elim
  | some frame =>
    cases frame with
    | planning => exact h
    | fetching => exact h
    | unloading => exact h.elim
    | _ => exact hclean.elim

namespace LoadInv

theorem call (h : Effect s (.load id) t response) :
    Outcome s t response := by
  cases h with
  | returned => exact fun _ => ⟨⟨rfl, rfl, rfl⟩, rfl⟩
  | load => exact ⟨⟨rfl, rfl, rfl⟩, rfl⟩

/-- The backend gives the model back. -/
theorem rollBack (h : Preserved s t) (hlent : Lent s t model)
    (hid : ModelRegistry.validId model.id = true) :
    Outcome s (t.rollBack model false).1 (t.rollBack model false).2 := by
  obtain ⟨hnew, hbackend⟩ := hlent
  refine fun _ => ⟨h.trans ⟨rfl, rfl, rfl⟩, ?_⟩
  have hmem : model.id ∈ t.backend.allocations := by
    rw [hbackend]
    exact Finmap.mem_insert.2 (.inl rfl)
  refine (Backend.unload_of_mem hid hmem).2.trans ?_
  rw [hbackend]
  dsimp only
  rw [← Table.emplace_of_notMem hnew, Table.erase_emplace hnew]

theorem between (h : LoadInv s t) {a : Action} (ha : a.Interleaves) (henabled : t.Enabled a) :
    LoadInv s (t.perform a).1 := by
  have hpreserved : Unchanged t (t.perform a).1 ∧ (t.perform a).1.running = t.running := by
    cases a with
    | client action =>
      exact ⟨⟨⟨rfl, rfl, ResourceManager.modelReservations_perform henabled.1⟩, rfl⟩, rfl⟩
    | registerModel => exact ⟨⟨⟨rfl, rfl, rfl⟩, rfl⟩, rfl⟩
    | registerFile => exact ⟨⟨⟨rfl, rfl, rfl⟩, rfl⟩, rfl⟩
    | _ => exact ha.elim
  obtain ⟨hunchanged, hrunning⟩ := hpreserved
  have hlent (model : ModelRecord) (hmodel : Lent s t model) : Lent s (t.perform a).1 model :=
    ⟨hmodel.1, hunchanged.backend.trans hmodel.2⟩
  rw [LoadInv] at h ⊢
  rw [hrunning]
  generalize t.running = running at h
  cases running with
  | none => exact h
  | some frame =>
    cases frame with
    | planning => exact h.trans hunchanged
    | fetching => exact h.trans hunchanged
    | swapping model => exact ⟨h.1.trans hunchanged.toPreserved, hlent model h.2⟩
    | rollingBack model => exact ⟨h.1.trans hunchanged.toPreserved, hlent model h.2⟩
    | _ => exact h

/-- The next piece of a load. Only a load is where `LoadInv` says, so the effects on
    other operations are out of the question. -/
theorem advance (h : LoadInv s t) (hinv : Inv t)
    (hunloads : ∀ model evictions, t.running = some (.rollingBack model evictions) →
      input.fault = false)
    (heffect : Effect t (.advance input) u response) : Outcome s u response := by
  have hframe := hinv.frame
  have hload := h
  rw [FrameInv] at hframe
  rw [LoadInv] at hload
  cases heffect with
  | returned _ _ hclean => exact fun _ => (h.unchanged hclean).trans ⟨⟨rfl, rfl, rfl⟩, rfl⟩
  | plan hrunning =>
    rw [hrunning] at hload
    exact hload.trans ⟨⟨rfl, rfl, rfl⟩, rfl⟩
  | fetch hrunning hnew =>
    rw [hrunning] at hload
    -- the backend did not hold the model, so it can be taken back
    rw [hload.backend] at hnew
    refine ⟨hload.toPreserved.trans ⟨rfl, rfl, rfl⟩, hnew, ?_⟩
    rw [← hload.backend]
    rfl
  -- from here on no piece answers with an error
  | swap => trivial
  | refuse hrunning hrefused =>
    rw [hrunning] at hload
    have hsame := t.resources.replaceModelReservations_of_not_ok hrefused
    exact ⟨hload.1.trans ⟨rfl, rfl, hsame⟩, hload.2⟩
  | @rollBack _ model evictions hrunning =>
    rw [hrunning] at hload hframe
    -- the backend unloads what it was given in this call
    rw [hunloads model evictions hrunning]
    exact rollBack hload.1 hload.2 (hinv.registry model.id model hframe.1.1).2.1
  | evict => trivial
  | commit => exact fun hfail => absurd hfail Bool.noConfusion
  | unloadBackend hrunning | releaseReservation hrunning | reloading hrunning | reload hrunning
  | eraseRecord hrunning =>
    rw [hrunning] at hload
    exact hload.elim

end LoadInv

theorem Loading.outcome (h : Loading s id t response) (hs : machine.Reachable s) :
    Outcome s t response := by
  induction h with
  | call hidle => exact LoadInv.call (load_effect hidle id)
  | between _ ha henabled ih => exact LoadInv.between ih ha henabled
  | advance hloading henabled hunloads ih =>
    exact LoadInv.advance ih (reachable_inv (hloading.reachable hs)) hunloads
      (advance_effect henabled)

/-- A load that returns an error leaves the records, the load order, the reservations of
    models and the allocations of the backend as they were when it was called. -/
theorem unchanged_of_load_error (hs : machine.Reachable s)
    (hload : Loading s id t (.returned result)) (herror : result.ok = false) :
    t.records = s.records ∧ t.nextLoaded = s.nextLoaded ∧
      t.resources.modelReservations = s.resources.modelReservations ∧
      t.backend.allocations = s.backend.allocations := by
  obtain ⟨⟨hrecords, hnext, hreservations⟩, hbackend⟩ := hload.outcome hs herror
  exact ⟨hrecords, hnext, hreservations, congrArg Backend.allocations hbackend⟩

/-- A piece without faults, with the answer that it gives. -/
theorem Loading.go (h : Loading s id t .running) (ranking : List Str)
    (henabled : t.Enabled (.advance { ranking }))
    (hanswer : (t.advance { ranking }).2 = response) :
    Loading s id (t.advance { ranking }).1 response :=
  hanswer ▸ h.advance henabled fun _ _ _ => rfl

/-- The model `n` of 30 bytes is registered beside `m`. -/
def stockedBeside : Daemon := stocked.performAll [.registerModel (ascii "n") 30 (ascii "-")]

/-- `n` is loaded, and a client takes the memory before the reservations are replaced. -/
def overtaken : Daemon :=
  stockedBeside.performAll [.load (ascii "n"), .advance { ranking := [ascii "m"] }, .advance {},
    .client (.tryAcquire (ascii "c") 40 0), .advance {}, .advance {}]

theorem overtaken_loading :
    Loading stockedBeside (ascii "n") overtaken (.returned ⟨.insufficientMemory, 0⟩) := by
  have hcall : Loading stockedBeside (ascii "n") (stockedBeside.load (ascii "n")).1 .running := by
    have hanswer : (stockedBeside.load (ascii "n")).2 = .running := by decide
    exact hanswer ▸ .call (by decide)
  have hplanned := hcall.go [ascii "m"] (by decide) (Eq.refl Response.running)
  have hfetched := hplanned.go [] (by decide) (Eq.refl Response.running)
  have htaken := hfetched.between (a := .client (.tryAcquire (ascii "c") 40 0)) trivial (by decide)
  have hrefused := htaken.go [] (by decide) (Eq.refl Response.running)
  exact hrefused.go [] (by decide) (by decide)

theorem overtaken_unchanged :
    overtaken.records = stockedBeside.records ∧
      overtaken.nextLoaded = stockedBeside.nextLoaded ∧
      overtaken.resources.modelReservations = stockedBeside.resources.modelReservations ∧
      overtaken.backend.allocations = stockedBeside.backend.allocations := by
  have hs : machine.Reachable stockedBeside :=
    (stocked_reachable.run (run_performAll (by decide))).of_restrict
  exact unchanged_of_load_error hs overtaken_loading rfl

end Daemon

end Gpumemd
