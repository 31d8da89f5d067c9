import Gpumemd.Residency.Alone

/-!
# A load and an unload

An unload gives back what a load has taken (`Restored`), if the load has brought the model in
and has evicted nothing, and if the two run one right after the other with `MockBackend`: no
waiting request fits before the load, so the pass that the unload makes grants none
(`unloadAlone_restored`). An unload never has to load the backend again (`not_reloading`). A
load of a resident model takes nothing, but an unload takes this model away all the same
(`not_restored`).
-/

namespace Gpumemd

open Library

/-- A source that has been fetched has been read correctly. -/
theorem Input.reads_of_fetched {input : Input} {model : ModelRecord} {bytes : Bytes}
    (h : Daemon.fetched model input = .ok bytes) : input.Reads model := by
  rw [Daemon.fetched] at h
  split_ifs at h with hpath
  · exact .inl hpath
  · refine .inr ?_
    cases hsize : input.fileSize with
    | none =>
      rw [hsize, ModelLoader.load] at h
      split_ifs at h
    | some size =>
      rw [hsize, ModelLoader.load] at h
      split_ifs at h with _ hexpected hreadable
      exact ⟨congrArg some (not_not.1 hexpected), by simpa using hreadable⟩

namespace Daemon

variable {s t : Daemon} {id : Str} {model : ModelRecord} {evictions : List Str}
  {input later : Input} {n amount : ℕ}

/-- A call of `unload` with nothing between its pieces: of these there are at most three. -/
def unloadAlone (s : Daemon) (id : Str) (input : Input) : Daemon × Response :=
  goOn input 3 (s.unload id)

/-- `t` holds what `s` does, and the same requests wait in it. -/
structure Restored (s t : Daemon) : Prop where
  reservations : t.resources.reservations = s.resources.reservations
  modelReservations : t.resources.modelReservations = s.resources.modelReservations
  used : t.resources.used = s.resources.used
  pending : t.resources.pending = s.resources.pending
  allocations : t.backend.allocations = s.backend.allocations
  resident : ∀ id, t.residentRecord id = s.residentRecord id

/-! ## The unload -/

theorem unloadBackend_eq (hid : Backend.validId id = true) (hmem : id ∈ s.backend.allocations) :
    s.unloadBackend id false =
      { s with backend := ⟨s.backend.allocations.erase id⟩ }.proceed (.releasing id) := by
  obtain ⟨hok, hunloaded⟩ := Backend.unload_of_mem hid hmem
  rw [unloadBackend]
  dsimp only
  rw [hok, hunloaded]
  rfl

theorem releaseReservation_eq (now : TimePoint) (hid : ResourceManager.validName id = true)
    (hmem : id ∈ s.resources.modelReservations) :
    s.releaseReservation id now =
      ({ s with resources := (s.resources.releaseModel id now).1 }.leave id).returned .none
        (s.recordFootprint id).toNat := by
  have hok : (s.resources.releaseModel id now).2.ok = true :=
    ResourceManager.releaseModel_ok hid hmem
  rw [releaseReservation]
  dsimp only
  rw [hok]
  rfl

/-- A resident model that is not retained can be unloaded. -/
theorem unloadAlone_eq (hs : (machine.restrict Mocked).Reachable s) (hidle : s.running = none)
    (hfault : input.fault = false) (hmodel : s.registry.findModel id = some model)
    (hfree : model.refCount = 0) (hresident : s.residentRecord id ≠ none) :
    s.unloadAlone id input =
      ({ s with
          backend := ⟨s.backend.allocations.erase id⟩
          resources := (s.resources.releaseModel id input.now).1
          running := none }.leave id,
        .returned ⟨.none, model.footprintBytes.toNat⟩) := by
  have hinv := reachable_inv hs.of_restrict
  have hsteady := steady_of_idle hidle
  obtain ⟨record, hrecord⟩ := Option.ne_none_iff_exists'.1 hresident
  obtain ⟨hlookup, htrue⟩ := residentRecord_eq_some_iff.1 hrecord
  obtain ⟨-, model', hmodel', hfootprint, hcount⟩ := hinv.agrees (hsteady.1 id) hlookup
  obtain rfl := Option.some.inj (hmodel.symm.trans hmodel')
  have hcandidate : s.IsCandidate id := ⟨record, hlookup, htrue, hcount.trans hfree⟩
  have hvalid := hinv.validId_of_candidate (hsteady.1 id) hcandidate
  have hreserved : id ∈ s.resources.modelReservations :=
    Finmap.mem_iff.2 ⟨_, lookup_of_isCandidate hinv hsteady hcandidate⟩
  have hheld : id ∈ s.backend.allocations :=
    (allocations_eq_of_mocked hs hidle).symm ▸ hreserved
  have hcall : s.unload id = s.proceed (.unloading id) := by
    rw [unload, hmodel]
    dsimp only
    rw [hrecord]
    exact if_neg (not_not.2 (hcount.trans hfree))
  have hbackend := unloadBackend_eq (s := (s.proceed (.unloading id)).1) hvalid hheld
  have hrelease := releaseReservation_eq (s := { s with
    backend := ⟨s.backend.allocations.erase id⟩, running := some (.releasing id) })
    input.now hvalid hreserved
  have hbytes : s.recordFootprint id = model.footprintBytes := by
    rw [recordFootprint, hlookup, ← hfootprint]
    rfl
  rw [unloadAlone, hcall, proceed, goOn_running]
  refine (congrArg (goOn input 2) ((congrArg (unloadBackend _ id) hfault).trans hbackend)).trans ?_
  rw [proceed, goOn_running]
  refine (congrArg (goOn input 1) hrelease).trans ?_
  rw [returned, goOn_returned]
  show (_, Response.returned ⟨.none, (s.recordFootprint id).toNat⟩) = _
  rw [hbytes]
  rfl

/-- No unload ever has its reservation refused, so none loads the backend again. -/
theorem not_reloading (hs : machine.Reachable s) (id : Str) : s.running ≠ some (.reloading id) := by
  intro hrunning
  have hframe := (reachable_inv hs).frame
  rwa [FrameInv, hrunning] at hframe

/-! ## The load -/

/-- A load that succeeds has read the source of the model correctly. -/
theorem reads_of_goOn
    (h : (goOn input (n + 1) (s.proceed (.fetching model evictions))).2 =
      .returned ⟨.none, amount⟩) : input.Reads model := by
  have hfetch : (goOn input n ((s.proceed (.fetching model evictions)).1.fetch model evictions
      input)).2 = .returned ⟨.none, amount⟩ := h
  cases hfetched : fetched model input with
  | ok => exact Input.reads_of_fetched hfetched
  | error error =>
    rw [fetch, hfetched] at hfetch
    dsimp only at hfetch
    rw [returned, goOn_returned] at hfetch
    cases error <;> cases hfetch

/-- A load that evicts nothing has charged the model, and has made a grant pass. -/
theorem exchanged_of_kept (hs : (machine.restrict Mocked).Reachable s) (hidle : s.running = none)
    (hranking : s.Ranks input.ranking) (hfault : input.fault = false)
    (hmodel : s.registry.findModel id = some model) (hrecord : s.residentRecord id = none)
    (hload : (s.loadAlone id input).2 = .returned ⟨.none, n⟩)
    (hkept : s.resident ⊆ (s.loadAlone id input).1.resident) :
    model.footprintBytes.toNat ≤ s.resources.free.toNat ∧
      s.Exchanged model [] input (s.loadAlone id input).1 ∧
      (s.loadAlone id input).1.resources = (s.resources.exchange [] model.id
        model.footprintBytes).grantWaitersLocked input.now := by
  have hinv := reachable_inv hs.of_restrict
  obtain ⟨rfl, -⟩ := hinv.registry id model hmodel
  have hcall := loadAlone_eq_of_loads hinv hidle hranking hmodel hrecord
  by_cases hle : model.footprintBytes.toNat ≤ s.obtainable
  · rw [if_pos hle] at hcall
    have hreads : input.Reads model := reads_of_goOn (hcall ▸ hload)
    obtain ⟨t, hloaded, hexchanged, hresources⟩ :=
      loadAlone_of_le hs hidle hranking hfault hmodel hrecord hreads hle
    rw [hloaded] at hkept ⊢
    -- what is evicted is not resident any more
    have hnil : s.needed model input.ranking = [] := by
      refine List.eq_nil_iff_forall_not_mem.2 fun evicted hevicted => ?_
      have hcandidate := hexchanged.evictable.2 evicted hevicted
      obtain ⟨record, hresident, -⟩ := isCandidate_iff.1 hcandidate
      have hwas : evicted ∈ s.resident := by simp [resident, hresident]
      have hgone := hkept hwas
      rw [hexchanged.resident] at hgone
      rcases hgone with hgone | hnew
      · exact hgone.2 hevicted
      · exact Inv.ne_of_candidate ⟨hmodel, hrecord⟩ hcandidate hnew
    have henough := le_footprints_needed hranking hle
    rw [hnil] at henough hexchanged hresources
    exact ⟨henough, hexchanged, hresources⟩
  · rw [hcall, if_neg hle] at hload
    cases hload

/-- A model that fits is brought in without evictions. -/
theorem loadAlone_of_fits (hs : (machine.restrict Mocked).Reachable s) (hidle : s.running = none)
    (hranking : s.Ranks input.ranking) (hfault : input.fault = false)
    (hmodel : s.registry.findModel id = some model) (hrecord : s.residentRecord id = none)
    (hreads : input.Reads model)
    (hfits : model.footprintBytes.toNat ≤ s.resources.free.toNat) :
    (s.loadAlone id input).2 = .returned ⟨.none, model.footprintBytes.toNat⟩ ∧
      s.resident ⊆ (s.loadAlone id input).1.resident := by
  obtain ⟨t, hload, hexchanged, -⟩ := loadAlone_of_le hs hidle hranking hfault hmodel hrecord
    hreads (hfits.trans (Nat.le_add_right _ _))
  have hnil : s.needed model input.ranking = [] := fill_of_le hfits _
  rw [hnil] at hexchanged
  rw [hload]
  refine ⟨rfl, fun id hid => ?_⟩
  rw [hexchanged.resident]
  exact .inl ⟨hid, List.not_mem_nil⟩

/-! ## The way there and back -/

/-- What a load without evictions has exchanged, an unload gives back. -/
theorem Exchanged.restored (h : s.Exchanged model [] input t)
    (hrecord : s.residentRecord model.id = none) (hnew : model.id ∉ s.backend.allocations)
    (hresources : (t.resources.releaseModel model.id later.now).1 = s.resources.notifyAll) :
    s.Restored ({ t with
      backend := ⟨t.backend.allocations.erase model.id⟩
      resources := (t.resources.releaseModel model.id later.now).1
      running := none }.leave model.id) where
  reservations := by rw [leave, hresources]; rfl
  modelReservations := by rw [leave, hresources]; rfl
  used := by rw [leave, hresources]; rfl
  pending := by rw [leave, hresources]; rfl
  allocations := by
    show t.backend.allocations.erase model.id = s.backend.allocations
    rw [h.allocations, Table.eraseAll_nil, ← Table.emplace_of_notMem hnew, Table.erase_emplace hnew]
  resident id := by
    rw [residentRecord_leave]
    split_ifs with hid
    · rw [hid, hrecord]
    · show t.residentRecord id = s.residentRecord id
      rw [residentRecord, h.records, if_neg hid, if_neg List.not_mem_nil, residentRecord]

/-- With `MockBackend`, a model that is not retained is unloaded right after its load, if the
    load evicts nothing. No pass of the two grants a request if no deadline is reached until
    then. So the reservations, the queue, the backend and what is resident are what they were
    before, exactly if the load has brought the model in: one that was resident has been
    loaded with no effect, and is gone. At no point of any run does an unload go on to load the
    backend again. -/
theorem unloadAlone_restored (hs : (machine.restrict Mocked).Reachable s) (hidle : s.running = none)
    (hranking : s.Ranks input.ranking) (hfault : input.fault = false)
    (hfault' : later.fault = false) (hmodel : s.registry.findModel id = some model)
    (hfree : model.refCount = 0) (hload : (s.loadAlone id input).2 = .returned ⟨.none, n⟩)
    (hkept : s.resident ⊆ (s.loadAlone id input).1.resident) (hle : input.now ≤ later.now)
    (hlive : ∀ r ∈ s.resources.pending, r.expired later.now = false) :
    ((s.loadAlone id input).1.unloadAlone id later).2 =
        .returned ⟨.none, model.footprintBytes.toNat⟩ ∧
      (s.Restored ((s.loadAlone id input).1.unloadAlone id later).1 ↔ s.residentRecord id = none) ∧
      ∀ t id', machine.Reachable t → t.running ≠ some (.reloading id') := by
  have hinv := reachable_inv hs.of_restrict
  have hreached := reachable_loadAlone hs hidle hranking hfault id
  obtain ⟨rfl, -⟩ := hinv.registry id model hmodel
  by_cases hrecord : s.residentRecord model.id = none
  · obtain ⟨hfits, hexchanged, hresources⟩ :=
      exchanged_of_kept hs hidle hranking hfault hmodel hrecord hload hkept
    have hresident : (s.loadAlone model.id input).1.residentRecord model.id ≠ none := by
      rw [residentRecord, hexchanged.records, if_pos rfl]
      simp [loadedRecord]
    have hunload := unloadAlone_eq hreached hexchanged.idle hfault'
      (hexchanged.registry.symm ▸ hmodel) hfree hresident
    -- nobody who waits fits before the load
    have hreplaceable := replaceable_of_idle hinv hidle ⟨hmodel, hrecord⟩
      ⟨List.nodup_nil, List.forall_mem_nil _⟩
    have hnew : model.id ∉ s.backend.allocations :=
      (allocations_eq_of_mocked hs hidle).symm ▸ hreplaceable.unreserved
    have hgiven := ResourceManager.releaseModel_exchange
      (ResourceManager.reachable_inv hinv.resources).accounted
      (ResourceManager.reachable_settled hinv.resources) hreplaceable hfits hle hlive
    rw [← hresources] at hgiven
    rw [hunload]
    exact ⟨rfl, iff_of_true (hexchanged.restored hrecord hnew (congrArg Prod.fst hgiven)) hrecord,
      fun t id' ht => not_reloading ht id'⟩
  · have hunload := unloadAlone_eq hs hidle hfault' hmodel hfree hrecord
    rw [loadAlone_of_resident hinv hidle input hmodel hrecord, hunload]
    refine ⟨rfl, iff_of_false (fun hrestored => hrecord ?_) hrecord,
      fun t id' ht => not_reloading ht id'⟩
    rw [← hrestored.resident, residentRecord_leave, if_pos rfl]

/-- A client waits for more than what is free, next to the models `a` and `b`. -/
def crowded : Daemon :=
  shelved.performAll [.registerModel (ascii "m") 20 (ascii "-"),
    .client (.acquire (ascii "client") 50 {} 0 0)]

theorem crowded_mocked : (machine.restrict Mocked).Reachable crowded :=
  shelved_mocked.run (run_performAll (C := Mocked) (by decide))

/-- A load of `m` finds room, and an unload gives it back. -/
theorem crowded_restored :
    crowded.resources.pending.length = 1 ∧
      crowded.Restored ((crowded.loadAlone (ascii "m")
        { ranking := [ascii "a", ascii "b"] }).1.unloadAlone (ascii "m") { now := 5 }).1 := by
  have hmodel : crowded.registry.findModel (ascii "m") =
      some ⟨ascii "m", ascii "-", 20, 0, 0, []⟩ := by decide
  have hranking : crowded.Ranks ({ ranking := [ascii "a", ascii "b"] } : Input).ranking := by decide
  have hlater : ({ now := 5 } : Input).fault = false := rfl
  obtain ⟨hload, hkept⟩ := loadAlone_of_fits crowded_mocked (by decide) hranking rfl hmodel
    (by decide) (.inl rfl) (by decide)
  obtain ⟨-, hrestored, -⟩ := unloadAlone_restored crowded_mocked (by decide) hranking rfl hlater
    hmodel rfl hload hkept (by decide) (by decide)
  exact ⟨by decide, hrestored.2 (by decide)⟩

/-- A resident model is not brought in by a load, and is gone after an unload. -/
theorem not_restored :
    ¬ ∀ (s : Daemon) (id : Str) (model : ModelRecord) (input later : Input) (n : ℕ),
      (machine.restrict Mocked).Reachable s → s.running = none → s.Ranks input.ranking →
      input.fault = false → later.fault = false → s.registry.findModel id = some model →
      model.refCount = 0 → (s.loadAlone id input).2 = .returned ⟨.none, n⟩ →
      s.resident ⊆ (s.loadAlone id input).1.resident → input.now ≤ later.now →
      (∀ r ∈ s.resources.pending, r.expired later.now = false) →
      ((s.loadAlone id input).1.unloadAlone id later).2 =
          .returned ⟨.none, model.footprintBytes.toNat⟩ ∧
        s.Restored ((s.loadAlone id input).1.unloadAlone id later).1 := by
  intro h
  have hmodel : shelved.registry.findModel (ascii "a") =
      some ⟨ascii "a", ascii "-", 30, 0, 0, []⟩ := by decide
  have hload := loadAlone_of_resident (reachable_inv shelved_mocked.of_restrict) (by decide)
    { ranking := [ascii "a", ascii "b"] } hmodel (by decide)
  obtain ⟨-, hrestored⟩ := h shelved (ascii "a") _ { ranking := [ascii "a", ascii "b"] } {} 30
    shelved_mocked (by decide) (by decide) rfl rfl hmodel rfl (by rw [hload]; rfl)
    (by rw [hload]) (by decide) (by decide)
  have hresident := hrestored.resident (ascii "a")
  rw [hload] at hresident
  exact absurd hresident (by decide)

end Daemon

end Gpumemd
