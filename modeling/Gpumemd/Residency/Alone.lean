import Gpumemd.Residency.Plan
import Gpumemd.Resource.Replacement

/-!
# A load on its own

A call of `load` between whose pieces nothing runs (`loadAlone`), with `MockBackend`
(`Mocked`). Its plan reads one state and its replacement of the reservations another, under
another lock, but the two agree on what suffices: the call succeeds exactly if the footprint
is at most the free memory and the footprints of the candidates, and it then has exchanged
its evictions for the model, in all three places (`loadAlone_eq`).
-/

namespace Gpumemd

open Library

/-- The source of the model, if it has one, is read correctly. -/
def Input.Reads (input : Input) (model : ModelRecord) : Prop :=
  model.sourcePath.isEmpty = true ∨
    input.fileSize = some model.footprintBytes ∧ input.readable = true

namespace Daemon

variable {s t : Daemon} {id : Str} {model : ModelRecord} {evictions : List Str} {input : Input}
  {response : Response} {n : ℕ}

/-- The backend is `MockBackend`, which has no faults. -/
def Mocked (_ : Daemon) (a : Action) (_ : Daemon) : Prop :=
  match a with
  | .advance input => input.fault = false
  | _ => True

instance (t : Daemon) : (a : Action) → Decidable (s.Mocked a t)
  | .advance input => inferInstanceAs (Decidable (input.fault = false))
  | .client _ | .registerModel .. | .registerFile .. | .load _ | .unload _ | .share .. | .retain _
  | .releaseModel _ | .unregisterModel _ => .isTrue trivial

/-- At most `n` pieces of the running operation, one after the other, up to its return. -/
def goOn (input : Input) : ℕ → Daemon × Response → Daemon × Response
  | n + 1, (s, .running) => goOn input n (s.advance input)
  | _, reply => reply

/-- A call of `load` with nothing between its pieces: of these there are at most four, and
    one for each eviction. Each reads from the input what it needs. -/
def loadAlone (s : Daemon) (id : Str) (input : Input) : Daemon × Response :=
  goOn input (input.ranking.length + 4) (s.load id)

/-- The models that are resident. -/
def resident (s : Daemon) : Set Str := {id | s.residentRecord id ≠ none}

/-- The record of a model that has been loaded. -/
def loadedRecord (s : Daemon) (model : ModelRecord) (loadCostMs : UInt64) : ResidencyRecord where
  id := model.id
  footprintBytes := model.footprintBytes
  refCount := model.refCount
  resident := true
  lastLoaded := s.nextLoaded + 1
  loadCount := ((s.records.lookup model.id).getD {}).loadCount + 1
  estimatedLoadCostMs := loadCostMs

/-- `t` is `s` with the evictions exchanged for the model. -/
structure Exchanged (s : Daemon) (model : ModelRecord) (evictions : List Str) (input : Input)
    (t : Daemon) : Prop where
  /-- The evictions are distinct, resident and not retained. -/
  evictable : s.Evictable evictions
  held : ∀ id ∈ evictions,
    s.resources.modelReservations.lookup id = some (s.recordFootprint id) ∧
      s.backend.allocations.lookup id = some (s.recordFootprint id)
  records : ∀ id, t.records.lookup id =
    if id = model.id then some (s.loadedRecord model (max input.elapsed 1))
    else if id ∈ evictions then
      (s.records.lookup id).map fun record => { record with resident := false }
    else s.records.lookup id
  reservations : t.resources.modelReservations =
    (Table.eraseAll s.resources.modelReservations evictions).insert model.id model.footprintBytes
  allocations : t.backend.allocations =
    (Table.eraseAll s.backend.allocations evictions).insert model.id model.footprintBytes
  registry : t.registry = s.registry
  idle : t.running = none

/-! ## Runs -/

theorem goOn_running (input : Input) (n : ℕ) (s : Daemon) :
    goOn input (n + 1) (s, .running) = goOn input n (s.advance input) := rfl

theorem goOn_returned (input : Input) (n : ℕ) (s : Daemon) (result : ModelOperationResult) :
    goOn input n (s, .returned result) = (s, .returned result) := by
  cases n with
  | zero => rfl
  | succ => rfl

/-- An operation that goes on does not plan next. -/
theorem Effect.enabled (h : Effect s (.advance input) t .running) : t.Enabled (.advance input) := by
  generalize hresponse : Response.running = response at h
  cases h with
  | plan | fetch | swap | refuse | evict | unloadBackend | reloading => trivial
  | _ => cases hresponse

theorem Effect.enabled_of_load (h : Effect s (.load id) t .running)
    (hranking : s.Ranks input.ranking) : t.Enabled (.advance input) := by
  generalize hresponse : Response.running = response at h
  cases h with
  | returned => cases hresponse
  | load => exact hranking

/-- The pieces of an operation are steps of the daemon. -/
theorem reachable_goOn (hs : (machine.restrict Mocked).Reachable s) (hfault : input.fault = false)
    (henabled : response = .running → s.Enabled (.advance input)) (n : ℕ) :
    (machine.restrict Mocked).Reachable (goOn input n (s, response)).1 := by
  induction n generalizing s response with
  | zero => exact hs
  | succ n ih =>
    cases response with
    | running =>
      have henabled := henabled rfl
      have hstep : (machine.restrict Mocked).Reachable (s.advance input).1 :=
        hs.step (a := .advance input) ⟨⟨henabled, rfl⟩, hfault⟩
      have heffect := advance_effect henabled
      rw [goOn_running]
      exact ih hstep fun hrunning => Effect.enabled (hrunning ▸ heffect)
    | _ => exact hs

/-- So is a call of `load` with nothing between them. -/
theorem reachable_loadAlone (hs : (machine.restrict Mocked).Reachable s) (hidle : s.running = none)
    (hranking : s.Ranks input.ranking) (hfault : input.fault = false) (id : Str) :
    (machine.restrict Mocked).Reachable (s.loadAlone id input).1 := by
  have hstep : (machine.restrict Mocked).Reachable (s.load id).1 :=
    hs.step (a := .load id) ⟨⟨hidle, rfl⟩, trivial⟩
  exact reachable_goOn hstep hfault
    (fun hrunning => Effect.enabled_of_load (hrunning ▸ load_effect hidle id) hranking) _

/-! ## The pieces -/

theorem fetched_of_reads (hreads : input.Reads model) (hpos : model.footprintBytes ≠ 0) :
    fetched model input = .ok model.footprintBytes := by
  rw [fetched]
  by_cases hpath : model.sourcePath.isEmpty = true
  · rw [if_pos hpath]
  · obtain ⟨hsize, hreadable⟩ := hreads.resolve_left hpath
    rw [if_neg hpath, hsize, hreadable]
    simp [ModelLoader.load, hpath, hpos]

theorem fetch_eq (evictions : List Str) (hreads : input.Reads model) (hpos : model.footprintBytes ≠ 0)
    (hid : ModelRegistry.validId model.id = true) (hnew : model.id ∉ s.backend.allocations)
    (hfault : input.fault = false) :
    s.fetch model evictions input =
      { s with backend := ⟨s.backend.allocations.insert model.id model.footprintBytes⟩ }.proceed
        (.swapping model evictions (max input.elapsed 1)) := by
  obtain ⟨hok, hloaded⟩ := Backend.load_of_notMem (s := s.backend) hid hpos hnew
  rw [fetch, fetched_of_reads hreads hpos, hfault]
  dsimp only
  rw [hok, hloaded]
  rfl

theorem swap_eq (loadCostMs : UInt64) (now : TimePoint) (h : ResourceManager.Accounted s.resources)
    (hreplaceable : s.resources.Replaceable evictions model.id model.footprintBytes)
    (hfits : model.footprintBytes.toNat ≤
      s.resources.free.toNat + s.resources.evicted evictions) :
    s.swap model evictions loadCostMs now =
      { s with
        resources := (s.resources.exchange evictions model.id
          model.footprintBytes).grantWaitersLocked now }.proceed
        (.evicting model evictions loadCostMs) := by
  rw [swap, ResourceManager.replaceModelReservations_of_replaceable h hreplaceable, if_pos hfits]
  rfl

/-- The evictions that are left are unloaded one after the other, and then the record is
    written. -/
theorem goOn_evicting {loadCostMs : UInt64}
    (hrunning : s.running = some (.evicting model evictions loadCostMs))
    (hnew : model.id ∉ evictions) (hvalid : ∀ id ∈ evictions, ModelRegistry.validId id = true)
    (hfault : input.fault = false) (hn : evictions.length + 1 ≤ n) :
    ∃ t, goOn input n (s, .running) = (t, .returned ⟨.none, model.footprintBytes.toNat⟩) ∧
      t.registry = s.registry ∧ t.resources = s.resources ∧
      t.backend.allocations = Table.eraseAll s.backend.allocations evictions ∧
      (∀ id, t.records.lookup id =
        if id = model.id then some (s.loadedRecord model loadCostMs)
        else if id ∈ evictions then
          (s.records.lookup id).map fun record => { record with resident := false }
        else s.records.lookup id) ∧
      t.running = none := by
  obtain ⟨n, rfl⟩ : ∃ m, n = m + 1 := ⟨n - 1, by omega⟩
  rw [goOn_running, advance, hrunning]
  induction evictions generalizing s n with
  | nil =>
    refine ⟨(s.commit model loadCostMs).1, goOn_returned .., rfl, rfl, rfl, fun id => ?_, rfl⟩
    have hinsert : (s.commit model loadCostMs).1.records =
        s.records.insert model.id (s.loadedRecord model loadCostMs) := rfl
    rw [hinsert, Table.lookup_insert]
    simp
  | cons evicted evictions ih =>
    rw [List.mem_cons, not_or] at hnew
    rw [List.forall_mem_cons] at hvalid
    obtain ⟨n, rfl⟩ : ∃ m, n = m + 1 := ⟨n - 1, by rw [List.length_cons] at hn; omega⟩
    -- the first of them leaves, and the others are left as they were
    obtain ⟨t, hgoOn, hregistry, hresources, hallocations, hrecords, hidle⟩ :=
      ih (s := (s.evict evicted model evictions loadCostMs input.fault).1) rfl hnew.2 hvalid.2 n
        (by rw [List.length_cons] at hn; omega)
    have hleave (id : Str) :
        (s.evict evicted model evictions loadCostMs input.fault).1.records.lookup id =
          if id = evicted then
            (s.records.lookup id).map fun record => { record with resident := false }
          else s.records.lookup id := lookup_leave_eq _ evicted id
    refine ⟨t, hgoOn, hregistry, hresources, ?_, fun id => ?_, hidle⟩
    · rw [hallocations, Table.eraseAll_cons]
      refine congrArg (Table.eraseAll · evictions) ?_
      show (s.backend.unload evicted input.fault).1.allocations = _
      rw [hfault, Backend.unload_eq hvalid.1]
    · have hwritten : (s.evict evicted model evictions loadCostMs input.fault).1.loadedRecord model
          loadCostMs = s.loadedRecord model loadCostMs := by
        rw [loadedRecord, hleave, if_neg hnew.1]
        rfl
      rw [hrecords, hwritten, hleave]
      by_cases hid : id = evicted
      · rw [if_pos hid, Option.map_map, if_pos (List.mem_cons.2 (.inl hid))]
        split_ifs <;> rfl
      · rw [if_neg hid]
        simp [hid]

/-! ## The whole call -/

/-- Between operations, a model that is not resident has neither a reservation nor an
    allocation, and it may take the place of candidates. -/
theorem replaceable_of_idle (h : Inv s) (hidle : s.running = none) (hloads : s.Loads model)
    (hevictable : s.Evictable evictions) :
    s.resources.Replaceable evictions model.id model.footprintBytes := by
  have hs := steady_of_idle hidle
  obtain ⟨-, hid, hpos⟩ := h.registry model.id model hloads.1
  refine ⟨hid, hpos, ?_, hevictable.1, fun id hid => ?_⟩
  · rw [← Finmap.lookup_eq_none, h.reserved, hs.expected_eq]
    exact heldBytes_eq_none_iff.2 hloads.2
  · exact Finmap.mem_iff.2 ⟨_, lookup_of_isCandidate h hs (hevictable.2 id hid)⟩

/-- With `MockBackend` the backend holds what is reserved, between operations. -/
theorem allocations_eq_of_mocked (hs : (machine.restrict Mocked).Reachable s)
    (hidle : s.running = none) : s.backend.allocations = s.resources.modelReservations := by
  have hbacked : Backed s := by
    refine reachable_backed (hs.mono fun s a t hmocked => ?_)
    cases a with
    | advance => exact fun _ _ _ => hmocked
    | _ => exact trivial
  exact allocations_eq (reachable_inv hs.of_restrict) hbacked (by simp [hidle]) (by rw [hidle]; rfl)

/-- From the evictions chosen on, nothing fails. -/
theorem goOn_fetching (hs : (machine.restrict Mocked).Reachable s) (hidle : s.running = none)
    (hfault : input.fault = false) (hloads : s.Loads model) (hreads : input.Reads model)
    (hevictable : s.Evictable evictions)
    (henough : model.footprintBytes.toNat ≤ s.resources.free.toNat + s.footprints evictions)
    (hn : evictions.length + 3 ≤ n) :
    ∃ t, goOn input n (s.proceed (.fetching model evictions)) =
        (t, .returned ⟨.none, model.footprintBytes.toNat⟩) ∧
      s.Exchanged model evictions input t ∧
      t.resources = (s.resources.exchange evictions model.id
        model.footprintBytes).grantWaitersLocked input.now := by
  have hinv := reachable_inv hs.of_restrict
  have hsteady := steady_of_idle hidle
  have hheld := allocations_eq_of_mocked hs hidle
  obtain ⟨-, hid, hpos⟩ := hinv.registry model.id model hloads.1
  have hreplaceable := replaceable_of_idle hinv hidle hloads hevictable
  have hnew : model.id ∉ evictions := fun hmem =>
    Inv.ne_of_candidate hloads (hevictable.2 _ hmem) rfl
  have hreserved (id : Str) (hmem : id ∈ evictions) :
      s.resources.modelReservations.lookup id = some (s.recordFootprint id) :=
    lookup_of_isCandidate hinv hsteady (hevictable.2 id hmem)
  have hvalid (id : Str) (hmem : id ∈ evictions) : ModelRegistry.validId id = true :=
    hinv.validId_of_candidate (hsteady.1 id) (hevictable.2 id hmem)
  obtain ⟨haccounted, -⟩ := ResourceManager.reachable_inv hinv.resources
  have hfits : model.footprintBytes.toNat ≤
      s.resources.free.toNat + s.resources.evicted evictions := by
    rwa [ResourceManager.evicted_eq hreserved]
  -- the backend holds what is reserved, so the model is as new to it as to the reservations
  obtain ⟨n, rfl⟩ : ∃ m, n = m + 2 := ⟨n - 2, by omega⟩
  have hfetch := fetch_eq (s := (s.proceed (.fetching model evictions)).1) evictions hreads hpos hid
    (hheld ▸ hreplaceable.unreserved) hfault
  have hswap := swap_eq (s := { (s.proceed (.swapping model evictions (max input.elapsed 1))).1 with
      backend := ⟨s.backend.allocations.insert model.id model.footprintBytes⟩ })
    (max input.elapsed 1) input.now haccounted hreplaceable hfits
  obtain ⟨t, hgoOn, hregistry, hresources, hallocations, hrecords, hidle'⟩ :=
    goOn_evicting (s := { s with
        backend := ⟨s.backend.allocations.insert model.id model.footprintBytes⟩
        resources := (s.resources.exchange evictions model.id
          model.footprintBytes).grantWaitersLocked input.now
        running := some (.evicting model evictions (max input.elapsed 1)) })
      rfl hnew hvalid hfault (by omega : _ ≤ n)
  refine ⟨t, ?_, ⟨hevictable, fun id hmem => ⟨hreserved id hmem, hheld ▸ hreserved id hmem⟩,
    hrecords, ?_, ?_, hregistry, hidle'⟩, hresources⟩
  · rw [proceed, goOn_running]
    refine (congrArg (goOn input (n + 1)) hfetch).trans ?_
    rw [proceed, goOn_running]
    exact (congrArg (goOn input n) hswap).trans hgoOn
  · rw [hresources]
    exact ResourceManager.modelReservations_grantWaitersLocked
  · rw [hallocations]
    refine Finmap.ext_lookup fun id => ?_
    rw [Table.lookup_eraseAll, Table.lookup_insert, Table.lookup_insert, Table.lookup_eraseAll]
    by_cases heq : id = model.id
    · rw [if_pos heq, if_pos heq, if_neg (heq ▸ hnew)]
    · rw [if_neg heq, if_neg heq]

/-- The set of resident models becomes the old one less the evictions and with the model. -/
theorem Exchanged.resident (h : s.Exchanged model evictions input t) :
    t.resident = (s.resident \ {id | id ∈ evictions}) ∪ {model.id} := by
  ext id
  rw [Set.mem_union, Set.mem_sdiff, Set.mem_singleton_iff]
  show t.residentRecord id ≠ none ↔ (s.residentRecord id ≠ none ∧ id ∉ evictions) ∨ id = model.id
  rw [residentRecord, h.records, residentRecord]
  split_ifs with hid hmem
  · simp [hid, loadedRecord]
  · cases s.records.lookup id <;> simp [hid, hmem]
  · simp [hid, hmem]

/-- With the plan, the call either returns or has chosen what suffices. -/
theorem loadAlone_eq_of_loads (h : Inv s) (hidle : s.running = none)
    (hranking : s.Ranks input.ranking) (hmodel : s.registry.findModel id = some model)
    (hrecord : s.residentRecord id = none) :
    s.loadAlone id input =
      if model.footprintBytes.toNat ≤ s.obtainable then
        goOn input (input.ranking.length + 3)
          (s.proceed (.fetching model (s.needed model input.ranking)))
      else (s, .returned ⟨.insufficientMemory, 0⟩) := by
  obtain ⟨rfl, -⟩ := h.registry id model hmodel
  have hload : s.load model.id = s.proceed (.planning model) := by
    rw [load, hmodel]
    dsimp only
    rw [hrecord]
  have hplan := plan_eq (h.load hidle hmodel hrecord) (by simp [Steady, proceed]) model
    (show (s.proceed (.planning model)).1.Ranks input.ranking from hranking)
  have hsame : ({ s with running := none } : Daemon) = s := hidle ▸ rfl
  rw [loadAlone, hload, proceed, goOn_running]
  refine (congrArg (goOn input (input.ranking.length + 3)) hplan).trans ?_
  show goOn input _ (if model.footprintBytes.toNat ≤ s.obtainable then
    s.proceed (.fetching model (s.needed model input.ranking))
    else ({ s with running := none }, .returned ⟨.insufficientMemory, 0⟩)) = _
  rw [hsame]
  split_ifs
  · rfl
  · exact goOn_returned ..

/-- A load for which enough can be obtained succeeds, with the evictions that it needs. -/
theorem loadAlone_of_le (hs : (machine.restrict Mocked).Reachable s) (hidle : s.running = none)
    (hranking : s.Ranks input.ranking) (hfault : input.fault = false)
    (hmodel : s.registry.findModel id = some model) (hrecord : s.residentRecord id = none)
    (hreads : input.Reads model) (hle : model.footprintBytes.toNat ≤ s.obtainable) :
    ∃ t, s.loadAlone id input = (t, .returned ⟨.none, model.footprintBytes.toNat⟩) ∧
      s.Exchanged model (s.needed model input.ranking) input t ∧
      t.resources = (s.resources.exchange (s.needed model input.ranking) model.id
        model.footprintBytes).grantWaitersLocked input.now := by
  have hinv := reachable_inv hs.of_restrict
  obtain ⟨rfl, -⟩ := hinv.registry id model hmodel
  have hlength : (s.needed model input.ranking).length ≤ input.ranking.length :=
    (prefix_fill _ _).length_le
  rw [loadAlone_eq_of_loads hinv hidle hranking hmodel hrecord, if_pos hle]
  exact goOn_fetching hs hidle hfault ⟨hmodel, hrecord⟩ hreads (evictable_needed model hranking)
    (le_footprints_needed hranking hle) (Nat.add_le_add_right hlength 3)

/-- A resident model is loaded with no effect. -/
theorem loadAlone_of_resident (h : Inv s) (hidle : s.running = none) (input : Input)
    (hmodel : s.registry.findModel id = some model) (hresident : s.residentRecord id ≠ none) :
    s.loadAlone id input = (s, .returned ⟨.none, model.footprintBytes.toNat⟩) := by
  obtain ⟨rfl, -⟩ := h.registry id model hmodel
  obtain ⟨record, hrecord⟩ := Option.ne_none_iff_exists'.1 hresident
  obtain ⟨-, model', hmodel', hfootprint, -⟩ :=
    h.agrees ((steady_of_idle hidle).1 _) (residentRecord_eq_some_iff.1 hrecord).1
  obtain rfl := Option.some.inj (hmodel.symm.trans hmodel')
  have hload : s.load model.id = s.returned .none model.footprintBytes.toNat := by
    rw [← hfootprint, load, hmodel]
    dsimp only
    rw [hrecord]
  have hsame : ({ s with running := none } : Daemon) = s := hidle ▸ rfl
  rw [loadAlone, hload, returned, goOn_returned, hsame]

/-- A load with nothing between its pieces, where the source of the model is read correctly
    and the backend is `MockBackend`, succeeds exactly if the footprint is at most the free
    memory and the footprints of the resident models that are not retained. It then has
    exchanged some of these for the model, and otherwise it lacks memory and changes nothing.
    A resident model is loaded with no effect. No sum that the plan forms exceeds the
    capacity. -/
theorem loadAlone_eq (hs : (machine.restrict Mocked).Reachable s) (hidle : s.running = none)
    (input : Input) (hranking : s.Ranks input.ranking) (hfault : input.fault = false)
    (hmodel : s.registry.findModel id = some model) :
    (s.residentRecord id = none → input.Reads model →
      ((s.loadAlone id input).2 = .returned ⟨.none, model.footprintBytes.toNat⟩ ↔
        model.footprintBytes.toNat ≤ s.obtainable) ∧
      (model.footprintBytes.toNat ≤ s.obtainable →
        ∃ evictions, s.Exchanged model evictions input (s.loadAlone id input).1 ∧
          (s.loadAlone id input).1.resident = (s.resident \ {id | id ∈ evictions}) ∪ {id}) ∧
      (s.obtainable < model.footprintBytes.toNat →
        s.loadAlone id input = (s, .returned ⟨.insufficientMemory, 0⟩))) ∧
    (s.residentRecord id ≠ none →
      s.loadAlone id input = (s, .returned ⟨.none, model.footprintBytes.toNat⟩)) ∧
    ∀ first, first <+: input.ranking →
      s.resources.free.toNat + s.footprints first ≤ s.resources.capacity.toNat := by
  have hinv := reachable_inv hs.of_restrict
  have hsteady := steady_of_idle hidle
  obtain ⟨rfl, -⟩ := hinv.registry id model hmodel
  refine ⟨fun hrecord hreads => ?_, fun hresident => ?_, fun first hfirst => ?_⟩
  · by_cases hle : model.footprintBytes.toNat ≤ s.obtainable
    · obtain ⟨t, hload, hexchanged, -⟩ :=
        loadAlone_of_le hs hidle hranking hfault hmodel hrecord hreads hle
      rw [hload]
      exact ⟨iff_of_true rfl hle, fun _ => ⟨_, hexchanged, hexchanged.resident⟩,
        fun hlt => absurd hle (Nat.not_le.2 hlt)⟩
    · rw [loadAlone_eq_of_loads hinv hidle hranking hmodel hrecord, if_neg hle]
      refine ⟨iff_of_false ?_ hle, fun hle' => absurd hle' hle, fun _ => rfl⟩
      rintro ⟨⟩
  · exact loadAlone_of_resident hinv hidle input hmodel hresident
  · exact free_add_footprints_le hinv hsteady (hranking.1.sublist hfirst.sublist) fun id hid =>
      (hranking.2 id).1 (hfirst.subset hid)

theorem shelved_mocked : (machine.restrict Mocked).Reachable shelved :=
  Machine.Reachable.run (.init ⟨100, .priorityFifo, _, rfl, rfl⟩)
    (run_performAll (C := Mocked) (by decide))

/-- The load of `n` evicts one of `a` and `b`. -/
theorem shelved_loadAlone :
    (shelved.loadAlone (ascii "n") { ranking := [ascii "a", ascii "b"] }).2 =
        .returned ⟨.none, 60⟩ ∧
      ∃ evictions, shelved.Exchanged ⟨ascii "n", ascii "-", 60, 0, 0, []⟩ evictions
        { ranking := [ascii "a", ascii "b"] }
        (shelved.loadAlone (ascii "n") { ranking := [ascii "a", ascii "b"] }).1 := by
  have hmodel : shelved.registry.findModel (ascii "n") =
      some ⟨ascii "n", ascii "-", 60, 0, 0, []⟩ := by decide
  obtain ⟨hload, -, -⟩ := loadAlone_eq shelved_mocked (by decide)
    { ranking := [ascii "a", ascii "b"] } (by decide) rfl hmodel
  obtain ⟨hiff, hexchanged, -⟩ := hload (by decide) (.inl rfl)
  have hle : 60 ≤ shelved.obtainable := by decide
  obtain ⟨evictions, h, -⟩ := hexchanged hle
  exact ⟨hiff.2 hle, evictions, h⟩

end Daemon

end Gpumemd
