import Gpumemd.Residency.Effects
import Gpumemd.Resource.Models

/-!
# Registry, records and reservations agree

What is resident is stored three times: in the records, in the model reservations
and in the backend, and the records copy the footprint and the reference count of
the registry. The invariant `Inv` says how the records, the registry and the
reservations fit together at each point of an operation; between operations they
agree (`reachable_inv`). It holds however the backend behaves. What the backend holds
is a matter of its faults, and of `Gpumemd.Residency.Backing`.
-/

namespace Gpumemd

open Library

namespace Daemon

variable {s t : Daemon} {id id' : Str} {record : ResidencyRecord} {model : ModelRecord}
  {evictions : List Str} {input : Input}

/-! ## What is resident -/

/-- The footprint of `id`, if it is resident. -/
def heldBytes (s : Daemon) (id : Str) : Option Bytes :=
  (s.residentRecord id).map (·.footprintBytes)

theorem heldBytes_isSome (h : s.IsCandidate id) : ∃ bytes, s.heldBytes id = some bytes := by
  obtain ⟨record, hrecord, _⟩ := isCandidate_iff.1 h
  exact ⟨record.footprintBytes, by rw [heldBytes, hrecord, Option.map_some]⟩

theorem heldBytes_eq_none_iff : s.heldBytes id = none ↔ s.residentRecord id = none :=
  Option.map_eq_none_iff

theorem residentRecord_congr (h : t.records = s.records) :
    t.residentRecord id = s.residentRecord id := by
  rw [residentRecord, residentRecord, h]

theorem residentRecord_insert (h : t.records = s.records.insert id' record) :
    t.residentRecord id =
      if id = id' then (if record.resident then some record else none)
      else s.residentRecord id := by
  rw [residentRecord, residentRecord, h, Table.lookup_insert]
  split_ifs with heq hres
  · rw [Option.filter_some, if_pos hres]
  · rw [Option.filter_some, if_neg hres]
  · rfl

theorem residentRecord_erase (h : t.records = s.records.erase id') :
    t.residentRecord id = if id = id' then none else s.residentRecord id := by
  rw [residentRecord, residentRecord, h, Table.lookup_erase]
  split_ifs with heq
  · rfl
  · rfl

/-- A model that leaves keeps its record, and nothing else changes. -/
theorem lookup_leave_eq (s : Daemon) (id' id : Str) :
    (s.leave id').records.lookup id =
      if id = id' then (s.records.lookup id).map fun record => { record with resident := false }
      else s.records.lookup id := by
  cases hrecord : s.records.lookup id' with
  | none =>
    have hsame : (s.leave id').records = s.records := by simp [leave, hrecord]
    rw [hsame]
    split_ifs with hid
    · rw [hid, hrecord, Option.map_none]
    · rfl
  | some record =>
    have hinsert : (s.leave id').records =
        s.records.insert id' { record with resident := false } := by simp [leave, hrecord]
    rw [hinsert, Table.lookup_insert]
    split_ifs with hid
    · rw [hid, hrecord, Option.map_some]
    · rfl

/-- A model that leaves is not resident, and nothing else changes. -/
theorem residentRecord_leave (s : Daemon) (id' id : Str) :
    (s.leave id').residentRecord id = if id = id' then none else s.residentRecord id := by
  rw [residentRecord, lookup_leave_eq]
  split_ifs
  · cases s.records.lookup id <;> simp
  · rfl

theorem heldBytes_leave (s : Daemon) (id' id : Str) :
    (s.leave id').heldBytes id = if id = id' then none else s.heldBytes id := by
  rw [heldBytes, residentRecord_leave]
  split_ifs
  · rfl
  · rfl

/-- The records keep what they copy from the registry when a model leaves. -/
theorem lookup_leave (h : (s.leave id').records.lookup id = some record) :
    ∃ before, s.records.lookup id = some before ∧ record.id = before.id ∧
      record.footprintBytes = before.footprintBytes ∧ record.refCount = before.refCount := by
  rw [lookup_leave_eq] at h
  split_ifs at h
  · obtain ⟨before, hbefore, rfl⟩ := Option.map_eq_some_iff.1 h
    exact ⟨before, hbefore, rfl, rfl, rfl⟩
  · exact ⟨record, h, rfl, rfl, rfl⟩

/-- What is resident stays so when its reference count changes. -/
theorem residentRecord_counted {count : ℕ}
    (h : t.records = s.records.insert model.id (s.counted model count)) :
    t.residentRecord id =
      if id = model.id then
        (s.residentRecord id).map fun record => { record with refCount := count }
      else s.residentRecord id := by
  rw [residentRecord_insert h]
  split_ifs with heq hres
  · rw [heq]
    rw [counted] at hres ⊢
    split at hres
    next => cases hres
    next record hrecord =>
      rw [residentRecord_eq_some_iff.2 ⟨hrecord, hres⟩, Option.map_some]
  · rw [heq]
    rw [counted] at hres
    split at hres
    next hrecord => rw [residentRecord, hrecord, Option.filter_none, Option.map_none]
    next record hrecord =>
      rw [residentRecord, hrecord, Option.filter_some, if_neg hres, Option.map_none]
  · rfl

theorem heldBytes_counted {count : ℕ}
    (h : t.records = s.records.insert model.id (s.counted model count)) :
    t.heldBytes id = s.heldBytes id := by
  rw [heldBytes, residentRecord_counted h, heldBytes]
  split_ifs
  · rw [Option.map_map]
    rfl
  · rfl

/-! ## The invariant -/

/-- The record copies the footprint and the reference count of the registered model. -/
def Agrees (s : Daemon) (id : Str) (record : ResidencyRecord) : Prop :=
  ∃ model, s.registry.findModel id = some model ∧
    record.footprintBytes = model.footprintBytes ∧ record.refCount = model.refCount

/-- What the model reservations are. While a load evicts, those of its evictions are
    given up, and that of its model is made, ahead of the records. -/
def expected (s : Daemon) (id : Str) : Option Bytes :=
  match s.running with
  | some (.evicting model evictions _) =>
    if id = model.id then some model.footprintBytes
    else if evictions.contains id then none else s.heldBytes id
  | _ => s.heldBytes id

/-- The model that is loaded is registered and not resident yet. -/
def Loads (s : Daemon) (model : ModelRecord) : Prop :=
  s.registry.findModel model.id = some model ∧ s.residentRecord model.id = none

/-- The models that are evicted are distinct candidates. -/
def Evictable (s : Daemon) (evictions : List Str) : Prop :=
  evictions.Nodup ∧ ∀ id ∈ evictions, s.IsCandidate id

/-- What the local variables of the running operation are about. -/
def FrameInv (s : Daemon) : Prop :=
  match s.running with
  | none => True
  | some (.planning model) => s.Loads model
  | some (.fetching model evictions) => s.Loads model ∧ s.Evictable evictions
  | some (.swapping model evictions _) => s.Loads model ∧ s.Evictable evictions
  | some (.rollingBack model evictions) => s.Loads model ∧ s.Evictable evictions
  | some (.evicting model evictions _) => s.Loads model ∧ s.Evictable evictions
  | some (.unloading id) => s.IsCandidate id
  | some (.releasing id) => s.IsCandidate id
  | some (.reloading _) => False
  | some (.erasing id) => s.residentRecord id = none

/-- Registry, records and reservations fit together. -/
structure Inv (s : Daemon) : Prop where
  resources : ResourceManager.machine.Reachable s.resources
  registry : s.registry.WellFormed
  records : ∀ id record, s.records.lookup id = some record →
    record.id = id ∧ (s.Agrees id record ∨ s.running = some (.erasing id))
  reserved : ∀ id, s.resources.modelReservations.lookup id = s.expected id
  frame : s.FrameInv

/-- The operation is at no point where reservations or registry are ahead of the
    records. -/
def Steady (s : Daemon) : Prop :=
  (∀ id, s.running ≠ some (.erasing id)) ∧
    ∀ model evictions loadCostMs, s.running ≠ some (.evicting model evictions loadCostMs)

theorem expected_evicting {loadCostMs : UInt64}
    (h : s.running = some (.evicting model evictions loadCostMs)) :
    s.expected id = if id = model.id then some model.footprintBytes
      else if id ∈ evictions then none else s.heldBytes id := by
  rw [expected, h]
  simp only [List.contains_iff_mem]

theorem expected_eq
    (h : ∀ model evictions loadCostMs, s.running ≠ some (.evicting model evictions loadCostMs)) :
    s.expected = s.heldBytes := by
  funext id
  rw [expected]
  split
  next hrunning => exact absurd hrunning (h _ _ _)
  next => rfl

theorem Steady.expected_eq (h : s.Steady) : s.expected = s.heldBytes := Daemon.expected_eq h.2

theorem steady_of_idle (h : s.running = none) : s.Steady := by simp [Steady, h]

theorem Clean.steady (h : s.Clean) : s.Steady := by
  rw [Clean] at h
  rw [Steady]
  generalize s.running = running at h
  cases running with
  | none => simp
  | some frame =>
    cases frame with
    | planning => simp
    | fetching => simp
    | unloading => simp
    | _ => exact h.elim

namespace Inv

/-- The records agree with the registry, but for one that is about to be erased. -/
theorem agrees (h : Inv s) (hrunning : s.running ≠ some (.erasing id))
    (hrecord : s.records.lookup id = some record) : record.id = id ∧ s.Agrees id record := by
  obtain ⟨hid, hagrees⟩ := h.records id record hrecord
  exact ⟨hid, hagrees.resolve_right hrunning⟩

/-- What is resident is registered, under a valid name. -/
theorem validId_of_candidate (h : Inv s) (hrunning : s.running ≠ some (.erasing id))
    (hid : s.IsCandidate id) : ModelRegistry.validId id = true := by
  obtain ⟨record, hrecord, _⟩ := hid
  obtain ⟨_, model, hmodel, _⟩ := h.agrees hrunning hrecord
  exact (h.registry id model hmodel).2.1

/-- A piece of an operation that only moves on and works on the backend. -/
theorem move (h : Inv s) (hs : s.Steady) (hresources : t.resources = s.resources)
    (hregistry : t.registry = s.registry) (hrecords : t.records = s.records)
    (ht : t.expected = t.heldBytes) (hframe : t.FrameInv) : Inv t where
  resources := hresources ▸ h.resources
  registry := hregistry ▸ h.registry
  records id record hrecord := by
    rw [hrecords] at hrecord
    obtain ⟨hid, model, hmodel, hcopy⟩ := h.agrees (hs.1 id) hrecord
    exact ⟨hid, .inl ⟨model, hregistry ▸ hmodel, hcopy⟩⟩
  reserved id := by
    rw [hresources, h.reserved, hs.expected_eq, ht, heldBytes, heldBytes,
      residentRecord_congr hrecords]
  frame := hframe

/-- An operation returns without having done anything. -/
theorem returned (h : Inv s) (hclean : s.Clean) (error : ModelError) (amount : ℕ) :
    Inv (s.returned error amount).1 :=
  h.move hclean.steady rfl rfl rfl rfl trivial

/-! ## `load` -/

theorem load (h : Inv s) (hidle : s.running = none) (hmodel : s.registry.findModel id = some model)
    (hrecord : s.residentRecord model.id = none) : Inv (s.proceed (.planning model)).1 := by
  refine h.move (steady_of_idle hidle) rfl rfl rfl rfl ⟨?_, hrecord⟩
  rw [(h.registry id model hmodel).1]
  exact hmodel

/-- What is chosen comes first among the candidates. -/
theorem chooseEvictions_prefix {footprintBytes available : Bytes}
    {candidates : List ResidencyRecord}
    (h : chooseEvictions footprintBytes candidates available = some evictions) :
    evictions <+: candidates.map (·.id) := by
  induction candidates generalizing available evictions with
  | nil =>
    rw [chooseEvictions] at h
    split_ifs at h
    obtain rfl := Option.some.inj h
    exact List.nil_prefix
  | cons candidate candidates ih =>
    rw [chooseEvictions] at h
    split_ifs at h
    · obtain ⟨chosen, hchosen, rfl⟩ := Option.map_eq_some_iff.1 h
      rw [List.map_cons, List.prefix_cons_inj]
      exact ih hchosen
    · obtain rfl := Option.some.inj h
      exact List.nil_prefix

/-- The ids of the ranked candidates are the ranking. -/
theorem map_id_ranking (h : Inv s) (hs : s.Steady) {ranking : List Str}
    (hranking : ∀ id ∈ ranking, s.IsCandidate id) :
    (ranking.filterMap (s.records.lookup ·)).map (·.id) = ranking := by
  induction ranking with
  | nil => rfl
  | cons id ranking ih =>
    rw [List.forall_mem_cons] at hranking
    obtain ⟨⟨record, hrecord, _⟩, hranking⟩ := hranking
    have hcons : (id :: ranking).filterMap (s.records.lookup ·) =
        record :: ranking.filterMap (s.records.lookup ·) := List.filterMap_cons_some hrecord
    rw [hcons, List.map_cons, ih hranking, (h.agrees (hs.1 id) hrecord).1]

theorem plan (h : Inv s) (hrunning : s.running = some (.planning model)) {ranking : List Str}
    (hranking : s.Ranks ranking) (hchooses : s.Chooses model ranking evictions) :
    Inv (s.proceed (.fetching model evictions)).1 := by
  have hs : s.Steady := by simp [Steady, hrunning]
  have hloads : s.Loads model := by
    have hframe := h.frame
    rwa [FrameInv, hrunning] at hframe
  refine h.move hs rfl rfl rfl rfl ⟨hloads, ?_⟩
  obtain ⟨hnodup, hcandidates⟩ := hranking
  rcases hchooses.2 with ⟨_, rfl⟩ | ⟨_, hchosen⟩
  · exact ⟨List.nodup_nil, List.forall_mem_nil _⟩
  · -- what is chosen is the front of the ranking
    have hfirst := chooseEvictions_prefix hchosen
    rw [h.map_id_ranking hs fun id => (hcandidates id).1] at hfirst
    exact ⟨hnodup.sublist hfirst.sublist, fun id hid => (hcandidates id).1 (hfirst.subset hid)⟩

theorem fetch (h : Inv s) (hrunning : s.running = some (.fetching model evictions))
    {backend : Backend} {loadCostMs : UInt64} :
    Inv ({ s with backend }.proceed (.swapping model evictions loadCostMs)).1 := by
  have hframe := h.frame
  rw [FrameInv, hrunning] at hframe
  exact h.move (by simp [Steady, hrunning]) rfl rfl rfl rfl hframe

/-- A candidate is not the model that is loaded. -/
theorem ne_of_candidate (hloads : s.Loads model) (hid : s.IsCandidate id) : id ≠ model.id := by
  rintro rfl
  obtain ⟨record, hrecord, _⟩ := isCandidate_iff.1 hid
  rw [hloads.2] at hrecord
  cases hrecord

theorem reachable_replace (h : Inv s) (evictions : List Str) (id : Str) (bytes : Bytes)
    (now : TimePoint) : ResourceManager.machine.Reachable
      (s.resources.replaceModelReservations evictions id bytes now).1 :=
  ResourceManager.reachable_perform h.resources
    (a := .replaceModelReservations evictions id bytes now) trivial

/-- The reservations are replaced ahead of the records. -/
theorem swap (h : Inv s) {loadCostMs : UInt64} {now : TimePoint}
    (hrunning : s.running = some (.swapping model evictions loadCostMs))
    (hok : (s.resources.replaceModelReservations evictions model.id model.footprintBytes
      now).2.ok = true) :
    Inv ({ s with
      resources := (s.resources.replaceModelReservations evictions model.id model.footprintBytes
        now).1 }.proceed (.evicting model evictions loadCostMs)).1 := by
  have hs : s.Steady := by simp [Steady, hrunning]
  have hframe := h.frame
  rw [FrameInv, hrunning] at hframe
  obtain ⟨_, hchanged⟩ := s.resources.replaceModelReservations_of_ok hok
  refine ⟨h.reachable_replace .., h.registry, fun k record hrecord => ?_, fun k => ?_, hframe⟩
  · exact (h.agrees (hs.1 k) hrecord).imp_right .inl
  · -- the table after the replacement is the one expected while evicting
    have hreserved := h.reserved k
    rw [hs.expected_eq] at hreserved
    refine Eq.trans ?_ (expected_evicting rfl).symm
    show (s.resources.replaceModelReservations _ _ _ _).1.modelReservations.lookup k =
      if k = model.id then some model.footprintBytes
      else if k ∈ evictions then none else s.heldBytes k
    rw [hchanged, Table.lookup_insert, Table.lookup_eraseAll, hreserved]
    split_ifs with heq hevicted
    · rfl
    · rfl
    · rfl

theorem refuse (h : Inv s) {loadCostMs : UInt64} {now : TimePoint}
    (hrunning : s.running = some (.swapping model evictions loadCostMs))
    (hrefused : (s.resources.replaceModelReservations evictions model.id model.footprintBytes
      now).2.ok = false) :
    Inv ({ s with
      resources := (s.resources.replaceModelReservations evictions model.id model.footprintBytes
        now).1 }.proceed (.rollingBack model evictions)).1 := by
  have hs : s.Steady := by simp [Steady, hrunning]
  have hframe := h.frame
  rw [FrameInv, hrunning] at hframe
  have hsame := s.resources.replaceModelReservations_of_not_ok hrefused
  refine ⟨h.reachable_replace .., h.registry, fun k record hrecord => ?_, fun k => ?_, hframe⟩
  · exact (h.agrees (hs.1 k) hrecord).imp_right .inl
  · exact (hsame ▸ h.reserved k).trans (congrFun hs.expected_eq k)

theorem rollBack (h : Inv s) {fault : Bool}
    (hrunning : s.running = some (.rollingBack model evictions)) :
    Inv (s.rollBack model fault).1 :=
  h.move (by simp [Steady, hrunning]) rfl rfl rfl rfl trivial

/-- A model leaves: the other records still agree. -/
theorem agrees_leave (h : Inv s) (hs : ∀ id, s.running ≠ some (.erasing id))
    (hrecord : (s.leave id').records.lookup id = some record) :
    record.id = id ∧ s.Agrees id record := by
  obtain ⟨before, hbefore, hid, hfootprint, hcount⟩ := lookup_leave hrecord
  obtain ⟨hid', model, hmodel, hfootprint', hcount'⟩ := h.agrees (hs id) hbefore
  exact ⟨hid.trans hid', model, hmodel, hfootprint.trans hfootprint', hcount.trans hcount'⟩

theorem evict (h : Inv s) {loadCostMs : UInt64} {fault : Bool}
    (hrunning : s.running = some (.evicting model (id :: evictions) loadCostMs)) :
    Inv (s.evict id model evictions loadCostMs fault).1 := by
  have hframe := h.frame
  rw [FrameInv, hrunning] at hframe
  obtain ⟨hloads, hnodup, hcandidates⟩ := hframe
  rw [List.nodup_cons] at hnodup
  rw [List.forall_mem_cons] at hcandidates
  have hne : id ≠ model.id := ne_of_candidate hloads hcandidates.1
  -- the model that leaves is no longer expected to be evicted: the rest of the list is
  have hresident (k : Str) : (s.evict id model evictions loadCostMs fault).1.residentRecord k =
      if k = id then none else s.residentRecord k := residentRecord_leave _ id k
  refine ⟨h.resources, h.registry, fun k record hrecord => ?_, fun k => ?_, ⟨hloads.1, ?_⟩,
    hnodup.2, fun k hk => ?_⟩
  · exact (h.agrees_leave (by simp [hrunning]) hrecord).imp_right .inl
  · have hreserved := h.reserved k
    rw [expected_evicting hrunning] at hreserved
    refine hreserved.trans (Eq.trans ?_ (expected_evicting rfl).symm)
    show _ = if k = model.id then some model.footprintBytes
      else if k ∈ evictions then none
      else ((s.evict id model evictions loadCostMs fault).1.residentRecord k).map _
    rw [hresident]
    by_cases hk : k = id
    · subst hk
      simp [hne]
    · simp [hk, heldBytes]
  · exact (hresident model.id).trans (by rw [if_neg hne.symm, hloads.2])
  · -- the models left to evict are other ones, and their records are untouched
    have hk' : k ≠ id := by
      rintro rfl
      exact hnodup.1 hk
    rw [isCandidate_iff, hresident, if_neg hk', ← isCandidate_iff]
    exact hcandidates.2 k hk

theorem commit (h : Inv s) {loadCostMs : UInt64}
    (hrunning : s.running = some (.evicting model [] loadCostMs)) :
    Inv (s.commit model loadCostMs).1 := by
  have hframe := h.frame
  rw [FrameInv, hrunning] at hframe
  obtain ⟨hloads, _⟩ := hframe
  refine ⟨h.resources, h.registry, fun k record hrecord => ?_, fun k => ?_, trivial⟩
  · -- the record that is written copies the model found when the load began
    have hlookup : (s.records.insert model.id _).lookup k = some record := hrecord
    rw [Table.lookup_insert] at hlookup
    split_ifs at hlookup with hk
    · obtain rfl := Option.some.inj hlookup
      subst hk
      exact ⟨rfl, .inl ⟨model, hloads.1, rfl, rfl⟩⟩
    · exact (h.agrees (by simp [hrunning]) hlookup).imp_right .inl
  · have hreserved := h.reserved k
    rw [expected_evicting hrunning] at hreserved
    refine hreserved.trans ?_
    show _ = ((s.commit model loadCostMs).1.residentRecord k).map _
    rw [residentRecord_insert (t := (s.commit model loadCostMs).1) rfl]
    by_cases hk : k = model.id
    · simp [hk]
    · simp [hk, heldBytes]

/-! ## `unload` -/

theorem unload (h : Inv s) (hidle : s.running = none) (hid : s.IsCandidate id) :
    Inv (s.proceed (.unloading id)).1 :=
  h.move (steady_of_idle hidle) rfl rfl rfl rfl hid

theorem unloadBackend (h : Inv s) (hrunning : s.running = some (.unloading id))
    {backend : Backend} : Inv ({ s with backend }.proceed (.releasing id)).1 := by
  have hframe := h.frame
  rw [FrameInv, hrunning] at hframe
  exact h.move (by simp [Steady, hrunning]) rfl rfl rfl rfl hframe

/-- The reservation of a resident model can be released: `unload` never has to load the
    backend again. -/
theorem releaseModel_ok (h : Inv s) (now : TimePoint) (hrunning : s.running = some (.releasing id)) :
    (s.resources.releaseModel id now).2.ok = true := by
  have hs : s.Steady := by simp [Steady, hrunning]
  have hframe := h.frame
  rw [FrameInv, hrunning] at hframe
  obtain ⟨bytes, hbytes⟩ := heldBytes_isSome hframe
  have hreserved := h.reserved id
  rw [hs.expected_eq, hbytes] at hreserved
  exact ResourceManager.releaseModel_ok (h.validId_of_candidate (hs.1 id) hframe)
    (Finmap.mem_iff.2 ⟨bytes, hreserved⟩)

theorem releaseReservation (h : Inv s) {now : TimePoint} {error : ModelError} {amount : ℕ}
    (hrunning : s.running = some (.releasing id)) :
    Inv (({ s with resources := (s.resources.releaseModel id now).1 }.leave id).returned
      error amount).1 := by
  have hs : s.Steady := by simp [Steady, hrunning]
  have hresources : ResourceManager.machine.Reachable (s.resources.releaseModel id now).1 :=
    ResourceManager.reachable_perform h.resources (a := .releaseModel id now) trivial
  have hchanged := s.resources.releaseModel_of_ok (h.releaseModel_ok now hrunning)
  refine ⟨hresources, h.registry, fun k record hrecord => ?_, fun k => ?_, trivial⟩
  · exact (h.agrees_leave hs.1 hrecord).imp_right .inl
  · have hreserved := h.reserved k
    rw [hs.expected_eq] at hreserved
    refine (congrArg (Finmap.lookup k) hchanged).trans (Eq.trans ?_ (heldBytes_leave _ id k).symm)
    rw [Table.lookup_erase, hreserved]
    rfl

/-! ## The other operations -/

/-- The record of a registered model, with another reference count. -/
theorem counted_agrees (h : Inv s) (hs : s.Steady) (hmodel : s.registry.findModel id = some model)
    (count : ℕ) : (s.counted model count).id = id ∧
      (s.counted model count).footprintBytes = model.footprintBytes ∧
      (s.counted model count).refCount = count := by
  obtain ⟨rfl, _⟩ := h.registry id model hmodel
  rw [counted]
  split
  next => exact ⟨rfl, rfl, rfl⟩
  next record hrecord =>
    obtain ⟨hid, model', hmodel', hfootprint, _⟩ := h.agrees (hs.1 _) hrecord
    obtain rfl := Option.some.inj (hmodel.symm.trans hmodel')
    exact ⟨hid, hfootprint, rfl⟩

/-- The registry and the record change the reference count of a model alike. -/
theorem recount (h : Inv s) (hidle : s.running = none)
    (hmodel : s.registry.findModel id = some model) (count : ℕ) {error : ModelError} {amount : ℕ} :
    Inv ((s.recount id model count).returned error amount).1 := by
  have hs := steady_of_idle hidle
  obtain ⟨hcid, hcfootprint, hccount⟩ := h.counted_agrees hs hmodel count
  obtain ⟨rfl, _⟩ := h.registry id model hmodel
  refine ⟨h.resources, ModelRegistry.wellFormed_access h.registry hmodel,
    fun k record hrecord => ?_, fun k => ?_, trivial⟩
  · -- the model is found under its own id, so both tables change at the same place
    have hlookup : (s.records.insert model.id _).lookup k = some record := hrecord
    rw [Table.lookup_insert] at hlookup
    split_ifs at hlookup with hk
    · obtain rfl := Option.some.inj hlookup
      subst hk
      exact ⟨hcid, .inl ⟨_, ModelRegistry.findModel_access.trans (if_pos rfl), hcfootprint,
        hccount⟩⟩
    · obtain ⟨hid, model', hmodel', hcopy⟩ := h.agrees (hs.1 k) hlookup
      exact ⟨hid, .inl ⟨model', ModelRegistry.findModel_access.trans ((if_neg hk).trans hmodel'),
        hcopy⟩⟩
  · have hreserved := h.reserved k
    rw [hs.expected_eq] at hreserved
    exact hreserved.trans (heldBytes_counted (s := s) rfl).symm

/-- The registry forgets a model ahead of the records. -/
theorem unregisterModel (h : Inv s) (hidle : s.running = none) (hrecord : s.residentRecord id = none) :
    Inv ({ s with registry := { s.registry with models := s.registry.models.erase id } }.proceed
      (.erasing id)).1 := by
  have hs := steady_of_idle hidle
  refine ⟨h.resources, ModelRegistry.wellFormed_erase h.registry, fun k record hk => ?_,
    fun k => ?_, hrecord⟩
  · obtain ⟨hid, model, hmodel, hcopy⟩ := h.agrees (hs.1 k) hk
    by_cases heq : k = id
    · -- its record is erased in the next piece
      subst heq
      exact ⟨hid, .inr rfl⟩
    · exact ⟨hid, .inl ⟨model, (Finmap.lookup_erase_ne heq).trans hmodel, hcopy⟩⟩
  · exact (h.reserved k).trans (congrFun hs.expected_eq k)

theorem eraseRecord (h : Inv s) (hrunning : s.running = some (.erasing id)) :
    Inv (s.eraseRecord id).1 := by
  have hframe := h.frame
  rw [FrameInv, hrunning] at hframe
  refine ⟨h.resources, h.registry, fun k record hrecord => ?_, fun k => ?_, trivial⟩
  · have hlookup : (s.records.erase id).lookup k = some record := hrecord
    rw [Table.lookup_erase] at hlookup
    split_ifs at hlookup with hk
    refine (h.agrees ?_ hlookup).imp_right .inl
    rw [hrunning]
    rintro ⟨⟩
    exact hk rfl
  · have hreserved := h.reserved k
    rw [expected, hrunning] at hreserved
    refine hreserved.trans ?_
    show _ = ((s.eraseRecord id).1.residentRecord k).map _
    rw [residentRecord_erase (t := (s.eraseRecord id).1) rfl]
    split_ifs with hk
    · rw [hk, heldBytes, hframe]
    · rfl

/-! ## Steps between the pieces -/

/-- A client operation leaves the model reservations alone, also in the middle of an
    operation on models. -/
theorem client (h : Inv s) {action : ResourceManager.Action} (hclient : action.IsClient)
    (henabled : s.resources.Enabled action) :
    Inv { s with resources := (s.resources.perform action).1 } where
  resources := ResourceManager.reachable_perform h.resources henabled
  registry := h.registry
  records := h.records
  reserved id := by
    rw [ResourceManager.modelReservations_perform hclient]
    exact h.reserved id
  frame := h.frame

/-- A registration leaves the registered models alone, also in the middle of an
    operation on models. -/
theorem register (h : Inv s) {registry : ModelRegistry}
    (hregisters : ModelRegistry.Registers s.registry registry) : Inv { s with registry } where
  resources := h.resources
  registry := hregisters.wellFormed h.registry
  records id record hrecord := by
    obtain ⟨hid, hagrees⟩ := h.records id record hrecord
    refine ⟨hid, hagrees.imp_left ?_⟩
    exact fun ⟨model, hmodel, hcopy⟩ => ⟨model, hregisters.findModel hmodel, hcopy⟩
  reserved := h.reserved
  frame := by
    have hloads (model : ModelRecord) (hmodel : s.Loads model) :
        Loads { s with registry } model := ⟨hregisters.findModel hmodel.1, hmodel.2⟩
    have hframe := h.frame
    rw [FrameInv] at hframe ⊢
    dsimp only
    generalize s.running = running at hframe
    -- only the frames of a load speak of the registry
    rcases running with _ | _ | _ | _ | _ | _
    all_goals first
      | exact hframe
      | exact hloads _ hframe
      | exact ⟨hloads _ hframe.1, hframe.2⟩

/-! ## Runs -/

theorem effect (h : Inv s) {a : Action} {response : Response} (heffect : Effect s a t response) :
    Inv t := by
  cases heffect with
  | client hclient henabled => exact h.client hclient henabled
  | registerModel hregisters => exact h.register hregisters
  | registerFile hregisters => exact h.register hregisters
  | share => exact h
  | returned error amount hclean => exact h.returned hclean error amount
  | load hidle hmodel hrecord => exact h.load hidle hmodel hrecord
  | plan hrunning hranking hchooses => exact h.plan hrunning hranking hchooses
  | fetch hrunning _ => exact h.fetch hrunning
  | swap hrunning hok => exact h.swap hrunning hok
  | refuse hrunning hrefused => exact h.refuse hrunning hrefused
  | rollBack hrunning => exact h.rollBack hrunning
  | evict hrunning => exact h.evict hrunning
  | commit hrunning => exact h.commit hrunning
  | unload hidle hid => exact h.unload hidle hid
  | unloadBackend hrunning => exact h.unloadBackend hrunning
  | releaseReservation hrunning _ => exact h.releaseReservation hrunning
  | @reloading input _ hrunning hfailed =>
    -- the reservation of a resident model is there to be released
    rw [h.releaseModel_ok input.now hrunning] at hfailed
    cases hfailed
  -- so the backend is never loaded again
  | reload hrunning =>
    have hframe := h.frame
    rw [FrameInv, hrunning] at hframe
    exact hframe.elim
  | retain hidle hmodel => exact h.recount hidle hmodel _
  | releaseModel hidle hmodel _ => exact h.recount hidle hmodel _
  | unregisterModel hidle hrecord => exact h.unregisterModel hidle hrecord
  | eraseRecord hrunning => exact h.eraseRecord hrunning

end Inv

/-- Registry, records and reservations fit together in every state reached. -/
theorem reachable_inv (h : machine.Reachable s) : Inv s := by
  refine h.invariant (fun s hinit => ?_) fun s a t _ hinv hstep => ?_
  · obtain ⟨capacity, policy, resources, hcreate, rfl⟩ := hinit
    have hreserved : resources.modelReservations = ∅ := by
      rw [ResourceManager.eq_of_create hcreate]
    exact {
      resources := .init ⟨capacity, policy, hcreate⟩
      registry := fun _ _ hmodel => absurd hmodel (by simp)
      records := fun _ _ hrecord => absurd hrecord (by simp)
      reserved := fun _ => by rw [hreserved]; rfl
      frame := trivial }
  · obtain ⟨henabled, rfl⟩ := hstep
    exact hinv.effect (perform_effect henabled)

end Daemon

end Gpumemd
