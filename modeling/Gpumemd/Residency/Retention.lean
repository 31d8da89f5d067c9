import Gpumemd.Residency.Backing

/-!
# What is retained stays

A load evicts, and `unload` unloads, only models whose records have the reference
count zero. The records copy the count of the registry, so a resident model that is
retained keeps its registration, its residency and its reservation through every step
but the last `release_model` of it (`run_retained`).
-/

namespace Gpumemd

open Library

namespace Daemon

variable {s t : Daemon} {id id' : Str} {bytes : Bytes} {model : ModelRecord} {input : Input}

/-- The model is resident, and registered with the footprint and a positive reference
    count. -/
def Retained (s : Daemon) (id : Str) (footprintBytes : Bytes) : Prop :=
  ∃ model record, s.registry.findModel id = some model ∧ model.footprintBytes = footprintBytes ∧
    model.refCount ≠ 0 ∧ s.residentRecord id = some record

namespace Retained

/-- A step that touches neither the registration nor the residency of the model. -/
theorem move (h : s.Retained id bytes)
    (hmodel : t.registry.findModel id = s.registry.findModel id)
    (hrecord : t.residentRecord id = s.residentRecord id) : t.Retained id bytes := by
  rw [Retained, hmodel, hrecord]
  exact h

theorem resident (h : s.Retained id bytes) : s.residentRecord id ≠ none := by
  obtain ⟨_, record, _, _, _, hrecord⟩ := h
  rw [hrecord]
  exact Option.some_ne_none record

theorem not_erasing (h : s.Retained id bytes) (hinv : Inv s) : s.running ≠ some (.erasing id) := by
  intro hrunning
  have hframe := hinv.frame
  rw [FrameInv, hrunning] at hframe
  exact h.resident hframe

/-- The record has the reference count of the registry: it is no eviction candidate. -/
theorem not_isCandidate (h : s.Retained id bytes) (hinv : Inv s) : ¬ s.IsCandidate id := by
  rintro ⟨record, hrecord, _, hzero⟩
  -- a candidate has the count zero in its record, hence in the registry
  obtain ⟨_, model', hmodel', _, hcopy⟩ := hinv.agrees (h.not_erasing hinv) hrecord
  obtain ⟨model, _, hmodel, _, hcount, _⟩ := h
  obtain rfl := Option.some.inj (hmodel.symm.trans hmodel')
  exact hcount (hcopy.symm.trans hzero)

theorem ne_of_isCandidate (h : s.Retained id bytes) (hinv : Inv s) (hid : s.IsCandidate id') :
    id ≠ id' := by
  rintro rfl
  exact h.not_isCandidate hinv hid

theorem ne_of_loads (h : s.Retained id bytes) (hloads : s.Loads model) : id ≠ model.id := by
  rintro rfl
  exact h.resident hloads.2

/-- The record has the footprint of the registry. -/
theorem heldBytes (h : s.Retained id bytes) (hinv : Inv s) : s.heldBytes id = some bytes := by
  have herasing := h.not_erasing hinv
  obtain ⟨model, record, hmodel, rfl, _, hrecord⟩ := h
  obtain ⟨_, model', hmodel', hcopy, _⟩ :=
    hinv.agrees herasing (residentRecord_eq_some_iff.1 hrecord).1
  obtain rfl := Option.some.inj (hmodel.symm.trans hmodel')
  rw [Daemon.heldBytes, hrecord, Option.map_some, hcopy]

/-- The reservation of a retained model is its footprint, also while a load gives up
    reservations ahead of the records. -/
theorem reserved (h : s.Retained id bytes) (hinv : Inv s) :
    s.resources.modelReservations.lookup id = some bytes := by
  rw [hinv.reserved]
  by_cases hevicting : ∃ model evictions loadCostMs,
      s.running = some (.evicting model evictions loadCostMs)
  · obtain ⟨model, evictions, _, hrunning⟩ := hevicting
    have hframe := hinv.frame
    rw [FrameInv, hrunning] at hframe
    obtain ⟨hloads, _, hcandidates⟩ := hframe
    -- it is neither the model that is loaded nor one of its evictions
    have hevicted : id ∉ evictions := fun hid => h.not_isCandidate hinv (hcandidates id hid)
    rw [expected_evicting hrunning, if_neg (h.ne_of_loads hloads), if_neg hevicted]
    exact h.heldBytes hinv
  · have hs : s.expected = s.heldBytes :=
      expected_eq fun model evictions loadCostMs hrunning =>
        hevicting ⟨model, evictions, loadCostMs, hrunning⟩
    rw [hs]
    exact h.heldBytes hinv

/-! ## Steps -/

/-- The registry and the record count alike. -/
theorem recount (h : s.Retained id bytes) (hinv : Inv s)
    (hmodel : s.registry.findModel id' = some model) {count amount : ℕ} {error : ModelError}
    (hcount : id' = id → count ≠ 0) :
    ((s.recount id' model count).returned error amount).1.Retained id bytes := by
  obtain ⟨rfl, _⟩ := hinv.registry id' model hmodel
  by_cases hid : id = model.id
  · subst hid
    obtain ⟨before, record, hbefore, hbytes, _, hrecord⟩ := h
    obtain rfl := Option.some.inj (hmodel.symm.trans hbefore)
    refine ⟨_, { record with refCount := count },
      ModelRegistry.findModel_access.trans (if_pos rfl), hbytes, hcount rfl, ?_⟩
    refine (residentRecord_counted (s := s) rfl).trans ((if_pos rfl).trans ?_)
    rw [hrecord]
    rfl
  · exact h.move (ModelRegistry.findModel_access.trans (if_neg hid))
      ((residentRecord_counted (s := s) rfl).trans (if_neg hid))

theorem register (h : s.Retained id bytes) {registry : ModelRegistry}
    (hregisters : ModelRegistry.Registers s.registry registry) :
    Retained { s with registry } id bytes := by
  obtain ⟨model, record, hmodel, hretained⟩ := h
  exact ⟨model, record, hregisters.findModel hmodel, hretained⟩

end Retained

/-- The step is not the release that brings the reference count of `id` to zero. -/
def KeepsCount (id : Str) (_ : Daemon) (a : Action) (t : Daemon) : Prop :=
  match a with
  | .releaseModel id' => id' = id → ∀ model ∈ t.registry.findModel id, model.refCount ≠ 0
  | _ => True

instance (t : Daemon) : (a : Action) → Decidable (KeepsCount id s a t)
  | .releaseModel id' => inferInstanceAs
    (Decidable (id' = id → ∀ model ∈ t.registry.findModel id, model.refCount ≠ 0))
  | .client _ | .registerModel .. | .registerFile .. | .load _ | .unload _ | .share .. | .retain _
  | .unregisterModel _ | .advance _ => .isTrue trivial

/-- What a step takes away is not retained. -/
theorem Retained.effect (h : s.Retained id bytes) (hinv : Inv s) {a : Action} {response : Response}
    (heffect : Effect s a t response) (hcount : KeepsCount id s a t) : t.Retained id bytes := by
  have hframe := hinv.frame
  rw [FrameInv] at hframe
  cases heffect with
  | client => exact h.move rfl rfl
  | registerModel hregisters => exact h.register hregisters
  | registerFile hregisters => exact h.register hregisters
  | share => exact h
  | returned => exact h.move rfl rfl
  | load => exact h.move rfl rfl
  | plan => exact h.move rfl rfl
  | fetch => exact h.move rfl rfl
  | swap => exact h.move rfl rfl
  | refuse => exact h.move rfl rfl
  | rollBack => exact h.move rfl rfl
  | @evict _ evicted _ _ _ hrunning =>
    -- what is evicted is a candidate, and stays one while the load goes on
    rw [hrunning] at hframe
    have hid := h.ne_of_isCandidate hinv (hframe.2.2 evicted List.mem_cons_self)
    exact h.move rfl ((residentRecord_leave _ evicted id).trans (if_neg hid))
  | commit hrunning =>
    rw [hrunning] at hframe
    exact h.move rfl ((residentRecord_insert rfl).trans (if_neg (h.ne_of_loads hframe.1)))
  | unload => exact h.move rfl rfl
  | unloadBackend => exact h.move rfl rfl
  | @releaseReservation _ released hrunning =>
    rw [hrunning] at hframe
    have hid := h.ne_of_isCandidate hinv hframe
    exact h.move rfl ((residentRecord_leave _ released id).trans (if_neg hid))
  | reloading => exact h.move rfl rfl
  | reload => exact h.move rfl rfl
  | retain _ hmodel => exact h.recount hinv hmodel fun _ => Nat.succ_ne_zero _
  | @releaseModel released model _ hmodel _ =>
    refine h.recount hinv hmodel ?_
    rintro rfl
    exact hcount rfl _ (ModelRegistry.findModel_access.trans (if_pos rfl))
  | unregisterModel _ hrecord =>
    -- a resident model is not unregistered
    have hid : id ≠ _ := fun heq => h.resident (heq ▸ hrecord)
    exact h.move (Finmap.lookup_erase_ne hid) rfl
  | eraseRecord hrunning =>
    have hid : id ≠ _ := fun heq => h.not_erasing hinv (heq ▸ hrunning)
    exact h.move rfl ((residentRecord_erase rfl).trans (if_neg hid))

/-- A resident model with a positive reference count stays resident and registered, and
    its reservation stays its footprint, in every run that does not release it so often
    that its count comes to zero. -/
theorem run_retained {as : List Action} (hs : machine.Reachable s)
    (hretained : s.Retained id bytes) (hrun : (machine.restrict (KeepsCount id)).Run s as t) :
    t.Retained id bytes ∧ t.resources.modelReservations.lookup id = some bytes := by
  have ht : machine.Reachable t := hs.run hrun.of_restrict
  have hkept : t.Retained id bytes := by
    refine hrun.stable_restrict (P := fun s => s.Retained id bytes) ?_ hs hretained
    rintro s a _ hs h ⟨henabled, rfl⟩ hcount
    exact h.effect (reachable_inv hs) (perform_effect henabled) hcount
  exact ⟨hkept, hkept.reserved (reachable_inv ht)⟩

/-- The model `m` is retained twice. -/
def retaining : Daemon := stocked.performAll [.retain (ascii "m"), .retain (ascii "m")]

/-- A load of 60 bytes, an unload and one release, of which only the last succeeds. -/
def attempts : List Action :=
  [.registerModel (ascii "n") 60 (ascii "-"), .load (ascii "n"), .advance {}, .unload (ascii "m"),
    .releaseModel (ascii "m")]

theorem retaining_retained :
    (retaining.performAll attempts).Retained (ascii "m") 60 ∧
      (retaining.performAll attempts).resources.modelReservations.lookup (ascii "m") = some 60 := by
  have hs : machine.Reachable retaining :=
    (stocked_reachable.run (run_performAll (by decide))).of_restrict
  have hretained : retaining.Retained (ascii "m") 60 :=
    ⟨⟨ascii "m", ascii "-", 60, 2, 2, []⟩, ⟨ascii "m", 60, 2, true, 1, 1, 1⟩, by decide, rfl,
      by decide, by decide⟩
  exact run_retained hs hretained (run_performAll (by decide))

end Daemon

end Gpumemd
