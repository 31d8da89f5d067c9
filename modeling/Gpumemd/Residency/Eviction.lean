import Gpumemd.Residency.Atomicity
import Gpumemd.Residency.Bookkeeping

/-!
# What a load evicts

A load that succeeds has evicted what it decided on when it planned, whatever clients do
meanwhile (`Follows`). If it sorted its candidates by their scores, that is a shortest prefix
of this order that suffices (`evicted_shortest`). No two resident models have the same place
in the order of loading (`Stamped`), so of models that differ in nothing else, those that
were loaded first go first.
-/

namespace Gpumemd

open Library

/-- The two records differ in none of cost, load history and footprint. -/
def ResidencyRecord.Alike (record record' : ResidencyRecord) : Prop :=
  record.estimatedLoadCostMs = record'.estimatedLoadCostMs ∧
    record.loadCount = record'.loadCount ∧ record.footprintBytes = record'.footprintBytes

/-- Scores of such records are in the order of loading. -/
theorem ResidencyRecord.Alike.lastLoaded_le {record record' : ResidencyRecord}
    (h : record.Alike record') (hle : record.score ≤ record'.score) :
    record.lastLoaded ≤ record'.lastLoaded := by
  obtain ⟨hcost, hcount, hfootprint⟩ := h
  have hsize : record.size = record'.size := by rw [size, size, hfootprint]
  rw [score_le_iff, hsize] at hle
  have hworth := Nat.le_of_mul_le_mul_right hle record'.size_pos
  rw [worth, worth, hcost, hcount, Nat.mul_assoc, Nat.mul_assoc] at hworth
  exact Nat.le_of_mul_le_mul_right hworth (Nat.mul_pos (toNat_max_one_pos _) (Nat.succ_pos _))

namespace Daemon

variable {s t u : Daemon} {id id' : Str} {model : ModelRecord} {evictions : List Str}
  {input : Input} {response : Response}

/-! ## The order of loading -/

/-- The place of `id` in the order of loading, if it is resident. -/
def stamp (s : Daemon) (id : Str) : Option ℕ := (s.residentRecord id).map (·.lastLoaded)

/-- The places are distinct, and have all been given. -/
structure Stamped (s : Daemon) : Prop where
  le : ∀ id n, s.stamp id = some n → n ≤ s.nextLoaded
  inj : ∀ id id' n, s.stamp id = some n → s.stamp id' = some n → id = id'

theorem reachable_stamped (h : machine.Reachable s) : Stamped s := by
  obtain ⟨loads, hloads⟩ := exists_recorded h
  have hbooked := booked_of_recorded hloads
  -- what is resident has been loaded
  have hloaded {id : Str} {n : ℕ} (hid : s.stamp id = some n) :
      (s.record id).loadCount ≠ 0 ∧ (s.record id).lastLoaded = n := by
    obtain ⟨record, hresident, rfl⟩ := Option.map_eq_some_iff.1 hid
    obtain ⟨hrecord, htrue⟩ := residentRecord_eq_some_iff.1 hresident
    have heq := record_of_lookup hrecord
    exact ⟨hbooked.resident id (by rwa [heq]), by rw [heq]⟩
  constructor
  · intro id n hid
    obtain ⟨hcount, rfl⟩ := hloaded hid
    exact (hbooked.mem_Icc hcount).2
  · intro id id' n hid hid'
    obtain ⟨hcount, hlast⟩ := hloaded hid
    obtain ⟨hcount', hlast'⟩ := hloaded hid'
    exact hbooked.inj hcount hcount' (hlast.trans hlast'.symm)

/-! ## The rest of a load -/

/-- While a load runs, its pieces are carried out, and clients and registrations between
    them. -/
def GoesOn (_ : Daemon) (a : Action) (_ : Daemon) : Prop :=
  match a with
  | .advance _ => True
  | a => a.Interleaves

instance (t : Daemon) : (a : Action) → Decidable (GoesOn s a t)
  | .advance _ | .client _ | .registerModel .. | .registerFile .. => .isTrue trivial
  | .load _ | .unload _ | .share .. | .retain _ | .releaseModel _ | .unregisterModel _ =>
    .isFalse not_false

/-- The resident model `id` has left if it is in the list, and else it is as it was. -/
def Left (s t : Daemon) (gone : List Str) (id : Str) : Prop :=
  (id ∈ gone → t.residentRecord id = none) ∧
    (id ∉ gone → t.residentRecord id = s.residentRecord id)

theorem Left.congr {gone : List Str} (h : Left s t gone id)
    (hsame : u.residentRecord id = t.residentRecord id) : Left s u gone id := by
  rw [Left, hsame]
  exact h

theorem Left.leave {gone : List Str} (h : Left s t gone id)
    (hleave : u.residentRecord id = if id = id' then none else t.residentRecord id) :
    Left s u (gone ++ [id']) id := by
  rw [Left, hleave, List.mem_append, List.mem_singleton]
  by_cases hid : id = id'
  · simp [hid]
  · rw [or_iff_left hid, if_neg hid]
    exact h

/-- `t` is reached from `s`, in which a load of the model has decided on the evictions. -/
def Follows (s : Daemon) (model : ModelRecord) (evictions : List Str) (t : Daemon) : Prop :=
  match t.running with
  | none => t.residentRecord model.id ≠ none → ∀ id, id ≠ model.id → Left s t evictions id
  | some (.fetching model' left) => (model' = model ∧ left = evictions) ∧ t.records = s.records
  | some (.swapping model' left _) => (model' = model ∧ left = evictions) ∧ t.records = s.records
  | some (.rollingBack model' left) => (model' = model ∧ left = evictions) ∧ t.records = s.records
  | some (.evicting model' left _) =>
    model' = model ∧ ∃ gone, evictions = gone ++ left ∧ ∀ id, Left s t gone id
  | _ => False

namespace Follows

/-- What runs between the pieces of the load. -/
theorem congr (h : Follows s model evictions t) (hrunning : u.running = t.running)
    (hrecords : u.records = t.records) : Follows s model evictions u := by
  have hresident (id : Str) : u.residentRecord id = t.residentRecord id :=
    residentRecord_congr hrecords
  simp only [Follows, Left, hrunning, hrecords, hresident] at h ⊢
  exact h

/-- A load that returns without having changed the records has not loaded the model. -/
theorem returned (hloads : s.residentRecord model.id = none) (hrunning : u.running = none)
    (hrecords : u.records = s.records) : Follows s model evictions u := by
  rw [Follows, hrunning]
  intro hresident
  rw [residentRecord_congr hrecords] at hresident
  exact absurd hloads hresident

theorem effect (h : Follows s model evictions t) (hloads : s.residentRecord model.id = none)
    {a : Action} (heffect : Effect t a u response) (hgoes : GoesOn t a u) :
    Follows s model evictions u := by
  have hfollows := h
  rw [Follows] at h
  cases heffect with
  | client | registerModel | registerFile => exact hfollows.congr rfl rfl
  | returned error amount hclean =>
    rw [Clean] at hclean
    generalize hrunning : t.running = running at h hclean
    cases running with
    | none => exact hfollows.congr hrunning.symm rfl
    | some frame =>
      cases frame with
      | fetching => exact returned hloads rfl h.2
      | planning | unloading => exact h.elim
      | _ => exact hclean.elim
  | share | load | unload | retain | releaseModel | unregisterModel => exact hgoes.elim
  | fetch hrunning | refuse hrunning =>
    rw [hrunning] at h
    exact h
  | swap hrunning =>
    rw [hrunning] at h
    obtain ⟨⟨rfl, rfl⟩, hrecords⟩ := h
    -- nothing has left yet
    exact ⟨rfl, [], rfl, fun id => ⟨fun hmem => absurd hmem List.not_mem_nil,
      fun _ => residentRecord_congr hrecords⟩⟩
  | rollBack hrunning =>
    rw [hrunning] at h
    exact returned hloads rfl h.2
  | @evict _ evicted _ left _ hrunning =>
    rw [hrunning] at h
    obtain ⟨rfl, gone, rfl, hgone⟩ := h
    exact ⟨rfl, gone ++ [evicted], by simp, fun id =>
      (hgone id).leave (residentRecord_leave _ evicted id)⟩
  | commit hrunning =>
    rw [hrunning] at h
    obtain ⟨rfl, gone, rfl, hgone⟩ := h
    intro _ id hid
    rw [List.append_nil]
    exact (hgone id).congr ((residentRecord_insert rfl).trans (if_neg hid))
  | plan hrunning | unloadBackend hrunning | releaseReservation hrunning | reloading hrunning
  | reload hrunning | eraseRecord hrunning =>
    rw [hrunning] at h
    exact h.elim

end Follows

/-- Once the load has returned, the records stay as they are. -/
theorem run_idle {as : List Action} (hrun : (machine.restrict GoesOn).Run s as t)
    (hidle : s.running = none) : t.running = none ∧ t.records = s.records := by
  refine hrun.preserved (P := fun t => t.running = none ∧ t.records = s.records) ?_ ⟨hidle, rfl⟩
  rintro t a _ ⟨hidle, hrecords⟩ ⟨⟨henabled, rfl⟩, hgoes⟩
  cases a with
  | client | registerModel | registerFile => exact ⟨hidle, hrecords⟩
  | advance input =>
    rw [Enabled, hidle] at henabled
    exact henabled.elim
  | _ => exact hgoes.elim

/-- A load that succeeds has found enough when it planned, and has evicted what it decided on
    then. -/
theorem mem_decided_iff (hs : machine.Reachable s)
    (hrunning : s.running = some (.planning model)) (hranking : s.Ranks input.ranking)
    {as : List Action} (hrun : (machine.restrict GoesOn).Run s (.advance input :: as) t)
    (hidle : t.running = none) (hsuccess : t.residentRecord model.id ≠ none) :
    model.footprintBytes.toNat ≤ s.obtainable ∧
      ∀ id, id ∈ s.decided model input.ranking ↔
        s.residentRecord id ≠ none ∧ t.residentRecord id = none := by
  have hinv := reachable_inv hs
  have hsteady : s.Steady := by simp [Steady, hrunning]
  have hloads : s.Loads model := by
    have hframe := hinv.frame
    rwa [FrameInv, hrunning] at hframe
  have hadvance : s.advance input = s.plan model input.ranking := by rw [advance, hrunning]
  cases hrun with
  | cons hstep hrest =>
    obtain ⟨⟨_, rfl⟩, _⟩ := hstep
    rw [perform, hadvance, plan_eq hinv hsteady model hranking] at hrest
    rw [decided_eq hinv hsteady hranking]
    split_ifs at hrest ⊢ with hle
    · refine ⟨hle, fun id => ?_⟩
      have hplanned : machine.Reachable
          (s.proceed (.fetching model (s.needed model input.ranking))).1 := by
        refine hs.step (a := .advance input) ⟨by rwa [Enabled, hrunning], ?_⟩
        rw [perform, hadvance, plan_eq hinv hsteady model hranking, if_pos hle]
      have hfollows : Follows s model (s.needed model input.ranking) t := by
        refine hrest.stable_restrict (P := Follows s model (s.needed model input.ranking)) ?_
          hplanned ⟨⟨rfl, rfl⟩, rfl⟩
        rintro t a _ _ h ⟨henabled, rfl⟩ hgoes
        exact h.effect hloads.2 (perform_effect henabled) hgoes
      rw [Follows, hidle] at hfollows
      have hevictable := evictable_needed model hranking
      by_cases hid : id = model.id
      · subst hid
        exact iff_of_false (fun hmem => Inv.ne_of_candidate hloads (hevictable.2 _ hmem) rfl)
          fun hevicted => hsuccess hevicted.2
      · obtain ⟨hgone, hkept⟩ := hfollows hsuccess id hid
        by_cases hmem : id ∈ s.needed model input.ranking
        · obtain ⟨record, hrecord, _⟩ := isCandidate_iff.1 (hevictable.2 id hmem)
          exact iff_of_true hmem ⟨by simp [hrecord], hgone hmem⟩
        · rw [hkept hmem]
          exact iff_of_false hmem fun hevicted => hevicted.1 hevicted.2
    · -- a load that has failed does not load the model
      obtain ⟨-, hrecords⟩ := run_idle hrest rfl
      rw [residentRecord_congr hrecords] at hsuccess
      exact absurd hloads.2 hsuccess

/-- A sorted ranking has models that differ in nothing else in the order of loading. -/
theorem Sorts.pairwise_lastLoaded (hs : machine.Reachable s) {ranking : List Str}
    (hsorts : s.Sorts ranking) :
    ranking.Pairwise fun id id' => (s.record id).Alike (s.record id') →
      (s.record id).lastLoaded < (s.record id').lastLoaded := by
  obtain ⟨⟨hnodup, hmem⟩, hsorted⟩ := hsorts
  have hstamped := reachable_stamped hs
  have hstamp (id : Str) (hid : id ∈ ranking) : s.stamp id = some (s.record id).lastLoaded := by
    obtain ⟨record, hrecord, -⟩ := isCandidate_iff.1 ((hmem id).1 hid)
    rw [stamp, Daemon.record, (residentRecord_eq_some_iff.1 hrecord).1, hrecord]
    rfl
  refine ((List.Pairwise.and_mem.1 hsorted).and hnodup).imp fun {id id'} h halike => ?_
  obtain ⟨⟨hid, hid', hle⟩, hne⟩ := h
  refine lt_of_le_of_ne (halike.lastLoaded_le hle) fun heq => hne ?_
  exact hstamped.inj id id' _ (hstamp id hid) (heq ▸ hstamp id' hid')

/-- What a load that succeeds has evicted is a shortest sufficient prefix of the candidates in
    the order of their scores, when it planned: the evicted models have scores up to those of
    the candidates that are kept, they suffice, and less of the prefix would not. So nothing is
    evicted if the model fits. Of models that differ in nothing else, those loaded first go
    first. -/
theorem evicted_shortest (hs : machine.Reachable s) (hrunning : s.running = some (.planning model))
    (hsorts : s.Sorts input.ranking) {as : List Action}
    (hrun : (machine.restrict GoesOn).Run s (.advance input :: as) t) (hidle : t.running = none)
    (hsuccess : t.residentRecord model.id ≠ none) :
    ∃ evictions, evictions <+: input.ranking ∧
      (∀ id, id ∈ evictions ↔ s.residentRecord id ≠ none ∧ t.residentRecord id = none) ∧
      (∀ id ∈ evictions, ∀ id', s.IsCandidate id' → id' ∉ evictions → s.score id ≤ s.score id' ∧
        ((s.record id).Alike (s.record id') →
          (s.record id).lastLoaded < (s.record id').lastLoaded)) ∧
      model.footprintBytes.toNat ≤ s.resources.free.toNat + s.footprints evictions ∧
      (∀ first, first <+: evictions → first ≠ evictions →
        s.resources.free.toNat + s.footprints first < model.footprintBytes.toNat) ∧
      (model.footprintBytes ≤ s.resources.free → evictions = []) ∧
      input.ranking.Pairwise fun id id' => (s.record id).Alike (s.record id') →
        (s.record id).lastLoaded < (s.record id').lastLoaded := by
  obtain ⟨hle, hevicted⟩ := mem_decided_iff hs hrunning hsorts.1 hrun hidle hsuccess
  rw [decided_eq (reachable_inv hs) (by simp [Steady, hrunning]) hsorts.1, if_pos hle] at hevicted
  have hearlier := hsorts.pairwise_lastLoaded hs
  have hneeded : s.needed model input.ranking <+: input.ranking := prefix_fill _ _
  refine ⟨s.needed model input.ranking, hneeded, hevicted, fun id hid id' hid' hkept => ?_,
    le_footprints_needed hsorts.1 hle, fun first hfirst hne => sum_lt_of_fill hfirst hne,
    fun hfits => fill_of_le (UInt64.le_iff_toNat_le.1 hfits) _, hearlier⟩
  have hranked := (hsorts.1.2 id').2 hid'
  exact ⟨rel_of_notMem_first (r := fun id id' => s.score id ≤ s.score id') hsorts.2 hneeded hid
    hranked hkept, rel_of_notMem_first hearlier hneeded hid hranked hkept⟩

/-- The load of `n` goes on to its end. -/
def shelvingRest : List Action :=
  [.advance { ranking := [ascii "a", ascii "b"] }, .advance {}, .advance {}, .advance {},
    .advance {}]

/-- It evicts `a`, which was loaded before `b`. -/
theorem shelving_evicted :
    ∃ evictions, evictions <+: [ascii "a", ascii "b"] ∧
      (∀ id, id ∈ evictions ↔ shelving.residentRecord id ≠ none ∧
        (shelving.performAll shelvingRest).residentRecord id = none) ∧
      60 ≤ 40 + shelving.footprints evictions ∧
      ∀ first, first <+: evictions → first ≠ evictions → 40 + shelving.footprints first < 60 := by
  have hrunning : shelving.running =
      some (.planning ⟨ascii "n", ascii "-", 60, 0, 0, []⟩) := by decide
  have hrun : (machine.restrict GoesOn).Run shelving shelvingRest
      (shelving.performAll shelvingRest) := run_performAll (by decide)
  obtain ⟨evictions, hfirst, hevicted, -, henough, hshortest, -⟩ :=
    evicted_shortest shelving_reachable hrunning (by decide) hrun (by decide) (by decide)
  have hfree : shelving.resources.free.toNat = 40 := by decide
  rw [hfree] at henough hshortest
  exact ⟨evictions, hfirst, hevicted, henough, hshortest⟩

end Daemon

end Gpumemd
