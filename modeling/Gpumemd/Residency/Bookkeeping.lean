import Gpumemd.Residency.Choice

/-!
# The order of loading

The records say when their models have last been loaded, and how often, and loads rank what
they evict by it. Next to the history of the models that have been brought in (`Recorded`),
each record that has been loaded has the place of its latest load in this history, whatever
becomes of the model otherwise (`reachable_bookkeeping`): only the last piece of a load that
brings a model in writes there, and only an unregistration erases it.
-/

namespace Gpumemd

open Library

namespace Daemon

variable {s t : Daemon} {id id' : Str} {model : ModelRecord} {a : Action} {response : Response}
  {record : ResidencyRecord} {loads : List Str}

/-- What the record of `id` keeps of the loads: the place of the last one, and how many. -/
def loadHistory (s : Daemon) (id : Str) : ℕ × ℕ :=
  ((s.record id).lastLoaded, (s.record id).loadCount)

/-- The model that a step brings in: the last piece of a load does. -/
def broughtIn (s : Daemon) : Action → Option Str
  | .advance _ =>
    match s.running with
    | some (.evicting model [] _) => some model.id
    | _ => none
  | _ => none

/-- The model whose record a step erases: the last piece of an unregistration does. -/
def erased (s : Daemon) : Action → Option Str
  | .advance _ =>
    match s.running with
    | some (.erasing id) => some id
    | _ => none
  | _ => none

/-! ## Steps -/

theorem record_congr (h : t.records.lookup id = s.records.lookup id) : t.record id = s.record id := by
  rw [Daemon.record, h, Daemon.record]

theorem record_of_lookup (h : s.records.lookup id = some record) : s.record id = record := by
  rw [Daemon.record, h, Option.getD_some]

theorem record_insert (h : t.records = s.records.insert id' record) :
    t.record id = if id = id' then record else s.record id := by
  rw [Daemon.record, h, Table.lookup_insert, Daemon.record]
  split_ifs
  · rfl
  · rfl

theorem record_erase (h : t.records = s.records.erase id') :
    t.record id = if id = id' then {} else s.record id := by
  rw [Daemon.record, h, Table.lookup_erase, Daemon.record]
  split_ifs
  · rfl
  · rfl

/-- What a step does to the order of loading. -/
structure Books (s : Daemon) (a : Action) (t : Daemon) : Prop where
  next : t.nextLoaded = s.nextLoaded + (s.broughtIn a).toList.length
  histories : ∀ id, t.loadHistory id =
    if s.broughtIn a = some id then (s.nextLoaded + 1, (s.record id).loadCount + 1)
    else if s.erased a = some id then (0, 0) else s.loadHistory id
  resident : ∀ id, (t.record id).resident = true →
    (s.record id).resident = true ∧ s.erased a ≠ some id ∨ s.broughtIn a = some id

namespace Books

/-- A step that neither brings a model in nor erases a record. -/
theorem quiet (hbrought : s.broughtIn a = none) (herased : s.erased a = none)
    (hnext : t.nextLoaded = s.nextLoaded) (hhistories : ∀ id, t.loadHistory id = s.loadHistory id)
    (hresident : ∀ id, (t.record id).resident = true → (s.record id).resident = true) :
    Books s a t where
  next := by rw [hnext, hbrought]; rfl
  histories id := by
    rw [hbrought, herased, if_neg (by simp), if_neg (by simp)]
    exact hhistories id
  resident id hid := .inl ⟨hresident id hid, by simp [herased]⟩

/-- A step that leaves the records alone. -/
theorem congr (hbrought : s.broughtIn a = none) (herased : s.erased a = none)
    (hnext : t.nextLoaded = s.nextLoaded) (hrecords : t.records = s.records) : Books s a t := by
  have hsame (id : Str) : t.record id = s.record id := record_congr (by rw [hrecords])
  refine quiet hbrought herased hnext (fun id => ?_) fun id hid => ?_
  · rw [loadHistory, hsame, loadHistory]
  · rwa [hsame] at hid

/-- A model that leaves keeps its place. -/
theorem leave (hbrought : s.broughtIn a = none) (herased : s.erased a = none)
    (hnext : t.nextLoaded = s.nextLoaded) (hrecords : t.records = (s.leave id').records) :
    Books s a t := by
  have hlookup (id : Str) : t.record id =
      if id = id' then { s.record id with resident := false } else s.record id := by
    rw [Daemon.record, hrecords, lookup_leave_eq, Daemon.record]
    split_ifs
    · cases s.records.lookup id <;> rfl
    · rfl
  refine quiet hbrought herased hnext (fun id => ?_) fun id hid => ?_
  · rw [loadHistory, hlookup, loadHistory]
    split_ifs
    · rfl
    · rfl
  · rw [hlookup] at hid
    split_ifs at hid
    exact hid

/-- A record that is made for a count has not been loaded. -/
theorem counted {refCount : ℕ} (hbrought : s.broughtIn a = none) (herased : s.erased a = none)
    (hnext : t.nextLoaded = s.nextLoaded)
    (hrecords : t.records = s.records.insert model.id (s.counted model refCount)) : Books s a t := by
  have hcounted : (s.counted model refCount).lastLoaded = (s.record model.id).lastLoaded ∧
      (s.counted model refCount).loadCount = (s.record model.id).loadCount ∧
      (s.counted model refCount).resident = (s.record model.id).resident := by
    rw [Daemon.counted, Daemon.record]
    cases s.records.lookup model.id <;> exact ⟨rfl, rfl, rfl⟩
  refine quiet hbrought herased hnext (fun id => ?_) fun id hid => ?_
  · rw [loadHistory, record_insert hrecords, loadHistory]
    split_ifs with heq
    · rw [heq, hcounted.1, hcounted.2.1]
    · rfl
  · rw [record_insert hrecords] at hid
    split_ifs at hid with heq
    · rwa [heq, ← hcounted.2.2]
    · exact hid

/-- The model that is brought in gets the next place. -/
theorem commit {loadCostMs : UInt64} (hbrought : s.broughtIn a = some model.id)
    (herased : s.erased a = none) : Books s a (s.commit model loadCostMs).1 where
  next := by rw [hbrought]; rfl
  histories id := by
    rw [loadHistory, record_insert (t := (s.commit model loadCostMs).1) rfl, hbrought, herased,
      loadHistory]
    by_cases heq : id = model.id
    · rw [if_pos heq, if_pos (by rw [heq]), heq]
      rfl
    · rw [if_neg heq, if_neg fun hsome => heq (Option.some.inj hsome).symm, if_neg (by simp)]
  resident id hid := by
    rw [record_insert (t := (s.commit model loadCostMs).1) rfl] at hid
    split_ifs at hid with heq
    · exact .inr (by rw [hbrought, heq])
    · exact .inl ⟨hid, by simp [herased]⟩

/-- An unregistered model loses its place. -/
theorem eraseRecord (hbrought : s.broughtIn a = none) (herased : s.erased a = some id') :
    Books s a (s.eraseRecord id').1 where
  next := by rw [hbrought]; rfl
  histories id := by
    rw [loadHistory, record_erase (t := (s.eraseRecord id').1) rfl, hbrought, herased, loadHistory]
    by_cases heq : id = id'
    · rw [if_pos heq, if_neg (by simp), if_pos (by rw [heq])]
    · rw [if_neg heq, if_neg (by simp), if_neg fun hsome => heq (Option.some.inj hsome).symm]
  resident id hid := by
    rw [record_erase (t := (s.eraseRecord id').1) rfl] at hid
    split_ifs at hid with heq
    exact .inl ⟨hid, fun hsome => heq (Option.some.inj (herased.symm.trans hsome)).symm⟩

end Books

/-- Where nothing has been changed yet, no step brings a model in or erases a record. -/
theorem Clean.quiet (h : s.Clean) (a : Action) : s.broughtIn a = none ∧ s.erased a = none := by
  cases a with
  | advance input =>
    rw [Clean] at h
    rw [broughtIn, erased]
    generalize s.running = running at h
    cases running with
    | none => exact ⟨rfl, rfl⟩
    | some frame =>
      cases frame with
      | planning | fetching | unloading => exact ⟨rfl, rfl⟩
      | _ => exact h.elim
  | _ => exact ⟨rfl, rfl⟩

theorem Effect.books (heffect : Effect s a t response) : Books s a t := by
  cases heffect with
  | client | registerModel | registerFile | share | load | unload | unregisterModel =>
    exact .congr rfl rfl rfl rfl
  | returned _ _ hclean =>
    obtain ⟨hbrought, herased⟩ := hclean.quiet a
    exact .congr hbrought herased rfl rfl
  | plan hrunning | fetch hrunning | swap hrunning | refuse hrunning | rollBack hrunning
  | unloadBackend hrunning | reloading hrunning | reload hrunning =>
    exact .congr (by rw [broughtIn, hrunning]) (by rw [erased, hrunning]) rfl rfl
  | evict hrunning | releaseReservation hrunning =>
    exact .leave (by rw [broughtIn, hrunning]) (by rw [erased, hrunning]) rfl rfl
  | retain | releaseModel => exact .counted rfl rfl rfl rfl
  | commit hrunning => exact .commit (by rw [broughtIn, hrunning]) (by rw [erased, hrunning])
  | eraseRecord hrunning =>
    exact .eraseRecord (by rw [broughtIn, hrunning]) (by rw [erased, hrunning])

/-- What is brought in was not resident, and is then. -/
theorem resident_of_broughtIn (h : Inv s) (hbrought : s.broughtIn a = some id) :
    (s.record id).resident = false ∧ ((s.perform a).1.record id).resident = true := by
  obtain ⟨input, model, loadCostMs, rfl, hrunning, rfl⟩ : ∃ input model loadCostMs,
      a = .advance input ∧ s.running = some (.evicting model [] loadCostMs) ∧ model.id = id := by
    rw [broughtIn.eq_def] at hbrought
    split at hbrought
    · split at hbrought
      next hrunning => exact ⟨_, _, _, rfl, hrunning, Option.some.inj hbrought⟩
      next => cases hbrought
    · cases hbrought
  have hcommit : (s.perform (.advance input)).1 = (s.commit model loadCostMs).1 := by
    rw [perform, advance, hrunning]
  have hframe := h.frame
  rw [FrameInv, hrunning] at hframe
  have habsent : s.residentRecord model.id = none := hframe.1.2
  constructor
  · rw [residentRecord, Option.filter_eq_none_iff] at habsent
    rw [Daemon.record]
    cases hrecord : s.records.lookup model.id with
    | none => rfl
    | some record => simpa using habsent record hrecord
  · rw [hcommit, record_insert (t := (s.commit model loadCostMs).1) rfl, if_pos rfl]

/-! ## Runs -/

/-- A daemon, with the models that have been brought in, the latest first. -/
structure Recorded where
  daemon : Daemon
  loads : List Str := []

/-- The runs of a daemon, with the history of its loads. -/
def recorded : Machine Recorded Action where
  init r := machine.init r.daemon ∧ r.loads = []
  step r a r' :=
    machine.step r.daemon a r'.daemon ∧ r'.loads = (r.daemon.broughtIn a).toList ++ r.loads

/-- Every state of a daemon has a history. -/
theorem exists_recorded (h : machine.Reachable s) : ∃ loads, recorded.Reachable ⟨s, loads⟩ := by
  induction h with
  | init hinit => exact ⟨[], .init ⟨hinit, rfl⟩⟩
  | step _ hstep ih =>
    obtain ⟨loads, hloads⟩ := ih
    exact ⟨_, hloads.step ⟨hstep, rfl⟩⟩

theorem reachable_of_recorded {r : Recorded} (h : recorded.Reachable r) :
    machine.Reachable r.daemon := by
  induction h with
  | init hinit => exact .init hinit.1
  | step _ hstep ih => exact ih.step hstep.1

/-- The places of the records, in the history of the loads. -/
structure Booked (s : Daemon) (loads : List Str) : Prop where
  next : s.nextLoaded = loads.length
  resident : ∀ id, (s.record id).resident = true → (s.record id).loadCount ≠ 0
  unloaded : ∀ id, (s.record id).loadCount = 0 → (s.record id).lastLoaded = 0
  count : ∀ id, (s.record id).loadCount ≤ (s.record id).lastLoaded
  place : ∀ id, (s.record id).loadCount ≠ 0 →
    id ∈ loads ∧ (s.record id).lastLoaded + loads.idxOf id = loads.length

/-- What is brought in pushes back what has been before. -/
theorem idxOf_append {brought : Option Str} (hne : brought ≠ some id) (hmem : id ∈ loads) :
    id ∈ brought.toList ++ loads ∧ (brought.toList ++ loads).idxOf id + loads.length =
      loads.idxOf id + (brought.toList ++ loads).length := by
  refine ⟨List.mem_append_right _ hmem, ?_⟩
  cases brought with
  | none => rfl
  | some other =>
    have hother : other ≠ id := fun heq => hne (congrArg some heq)
    rw [Option.toList_some, List.singleton_append, List.idxOf_cons_ne _ hother, List.length_cons]
    omega

/-- A step keeps the places, and gives the next one to what it brings in. -/
theorem Booked.step (h : Booked s loads) (hbooks : Books s a t) :
    Booked t ((s.broughtIn a).toList ++ loads) := by
  -- a record is brought in, erased, or keeps its place
  have hcases (id : Str) :
      s.broughtIn a = some id ∧ (t.record id).lastLoaded = s.nextLoaded + 1 ∧
        (t.record id).loadCount = (s.record id).loadCount + 1 ∨
      (s.broughtIn a ≠ some id ∧ s.erased a = some id) ∧ (t.record id).lastLoaded = 0 ∧
        (t.record id).loadCount = 0 ∨
      s.broughtIn a ≠ some id ∧ (t.record id).lastLoaded = (s.record id).lastLoaded ∧
        (t.record id).loadCount = (s.record id).loadCount := by
    have hid := hbooks.histories id
    rw [loadHistory, loadHistory] at hid
    split_ifs at hid with hbrought herased
    · exact .inl ⟨hbrought, Prod.mk.inj hid⟩
    · exact .inr (.inl ⟨⟨hbrought, herased⟩, Prod.mk.inj hid⟩)
    · exact .inr (.inr ⟨hbrought, Prod.mk.inj hid⟩)
  constructor
  · rw [hbooks.next, h.next, List.length_append, Nat.add_comm]
  · intro id hid
    rcases hcases id with ⟨-, -, hcount⟩ | ⟨⟨hbrought, herased⟩, -⟩ | ⟨hbrought, -, hcount⟩
    · omega
    · rcases hbooks.resident id hid with hkept | hbrought'
      · exact absurd herased hkept.2
      · exact absurd hbrought' hbrought
    · rcases hbooks.resident id hid with hkept | hbrought'
      · exact hcount ▸ h.resident id hkept.1
      · exact absurd hbrought' hbrought
  · intro id hid
    rcases hcases id with ⟨-, -, hcount⟩ | ⟨-, hlast, -⟩ | ⟨-, hlast, hcount⟩
    · omega
    · exact hlast
    · exact hlast.trans (h.unloaded id (hcount ▸ hid))
  · intro id
    have hplace := h.place id
    have hle := h.count id
    rcases hcases id with ⟨-, hlast, hcount⟩ | ⟨-, hlast, hcount⟩ | ⟨-, hlast, hcount⟩
    · -- no record has been loaded more often than there have been loads
      have hnext := h.next
      by_cases hzero : (s.record id).loadCount = 0
      · omega
      · obtain ⟨-, hidx⟩ := hplace hzero
        omega
    · omega
    · omega
  · intro id hid
    rcases hcases id with ⟨hbrought, hlast, -⟩ | ⟨-, -, hcount⟩ | ⟨hbrought, hlast, hcount⟩
    · rw [hbrought, Option.toList_some, List.singleton_append, List.idxOf_cons_self, hlast, h.next]
      exact ⟨List.mem_cons_self, rfl⟩
    · exact absurd hcount hid
    · obtain ⟨hmem, hidx⟩ := h.place id (hcount ▸ hid)
      obtain ⟨hmem', hidx'⟩ := idxOf_append hbrought hmem
      exact ⟨hmem', by omega⟩

theorem booked_of_recorded {r : Recorded} (h : recorded.Reachable r) : Booked r.daemon r.loads := by
  refine h.invariant (P := fun r => Booked r.daemon r.loads) ?_ ?_
  · rintro ⟨s, loads⟩ ⟨⟨capacity, policy, resources, -, rfl⟩, rfl⟩
    exact ⟨rfl, fun _ hid => Bool.noConfusion hid, fun _ _ => rfl, fun _ => le_rfl,
      fun _ hid => absurd rfl hid⟩
  · rintro ⟨s, loads⟩ a ⟨t, loads'⟩ - hbooked ⟨⟨henabled, rfl⟩, rfl⟩
    exact hbooked.step (perform_effect henabled).books

namespace Booked

/-- The places are in the order in which the models have last been brought in. -/
theorem lt_iff (h : Booked s loads) (hid : (s.record id).loadCount ≠ 0)
    (hid' : (s.record id').loadCount ≠ 0) :
    (s.record id).lastLoaded < (s.record id').lastLoaded ↔ loads.idxOf id' < loads.idxOf id := by
  have hplace := (h.place id hid).2
  have hplace' := (h.place id' hid').2
  omega

/-- No two models have the same place. -/
theorem inj (h : Booked s loads) (hid : (s.record id).loadCount ≠ 0)
    (hid' : (s.record id').loadCount ≠ 0)
    (heq : (s.record id).lastLoaded = (s.record id').lastLoaded) : id = id' := by
  obtain ⟨hmem, hplace⟩ := h.place id hid
  have hplace' := (h.place id' hid').2
  exact (List.idxOf_inj hmem).1 (by omega)

/-- A record that has been loaded has one of the places that have been given. -/
theorem mem_Icc (h : Booked s loads) (hid : (s.record id).loadCount ≠ 0) :
    1 ≤ (s.record id).lastLoaded ∧ (s.record id).lastLoaded ≤ s.nextLoaded := by
  have hplace := (h.place id hid).2
  have hcount := h.count id
  have hnext := h.next
  omega

theorem lastLoaded_eq_zero_iff (h : Booked s loads) :
    (s.record id).lastLoaded = 0 ↔ (s.record id).loadCount = 0 := by
  refine ⟨fun hzero => ?_, h.unloaded id⟩
  have hcount := h.count id
  omega

end Booked

/-- A step that brings a model in ends a load that succeeds. -/
theorem response_of_broughtIn (hbrought : s.broughtIn a = some id) :
    ∃ n, (s.perform a).2 = .returned ⟨.none, n⟩ := by
  rw [broughtIn.eq_def] at hbrought
  split at hbrought
  · split at hbrought
    next hrunning => exact ⟨_, by rw [perform, advance, hrunning]; rfl⟩
    next => cases hbrought
  · cases hbrought

/-- The bookkeeping of the loads agrees with their history in every run: `nextLoaded` counts
    the loads that have brought a model in, and the records that have been loaded have
    distinct places, in the order of their last loads. A step that does not bring a model in,
    which ends a load that succeeds and makes the model resident, changes none of it: a record
    keeps its place until the model is brought in again, or its record is erased. -/
theorem reachable_bookkeeping {r : Recorded} (h : recorded.Reachable r) :
    r.daemon.nextLoaded = r.loads.length ∧
      (∀ id record, r.daemon.records.lookup id = some record →
        (record.resident = true → 1 ≤ record.loadCount) ∧
        (record.lastLoaded = 0 ↔ record.loadCount = 0) ∧ record.loadCount ≤ record.lastLoaded ∧
        (1 ≤ record.loadCount →
          (1 ≤ record.lastLoaded ∧ record.lastLoaded ≤ r.daemon.nextLoaded) ∧ id ∈ r.loads ∧
          ∀ id' record', r.daemon.records.lookup id' = some record' → 1 ≤ record'.loadCount →
            id ≠ id' → record.lastLoaded ≠ record'.lastLoaded ∧
              (record.lastLoaded < record'.lastLoaded ↔ r.loads.idxOf id' < r.loads.idxOf id))) ∧
      ∀ a, r.daemon.Enabled a →
        (∀ id, r.daemon.broughtIn a = some id ↔ (r.daemon.record id).resident = false ∧
          ((r.daemon.perform a).1.record id).resident = true) ∧
        (∀ id, r.daemon.broughtIn a = some id →
          ∃ n, (r.daemon.perform a).2 = .returned ⟨.none, n⟩) ∧
        (r.daemon.broughtIn a = none → (r.daemon.perform a).1.nextLoaded = r.daemon.nextLoaded) ∧
        ∀ id, r.daemon.broughtIn a ≠ some id → r.daemon.erased a ≠ some id →
          (r.daemon.perform a).1.loadHistory id = r.daemon.loadHistory id := by
  have hbooked := booked_of_recorded h
  refine ⟨hbooked.next, fun id record hrecord => ?_, fun a henabled => ?_⟩
  · have hid := record_of_lookup hrecord
    refine ⟨fun hresident => ?_, ?_, ?_, fun hcount => ?_⟩
    · exact Nat.one_le_iff_ne_zero.2 (hid ▸ hbooked.resident id (hid ▸ hresident))
    · exact hid ▸ hbooked.lastLoaded_eq_zero_iff
    · exact hid ▸ hbooked.count id
    · have hloaded : (r.daemon.record id).loadCount ≠ 0 := by
        rw [hid]
        exact Nat.one_le_iff_ne_zero.1 hcount
      refine ⟨hid ▸ hbooked.mem_Icc hloaded, (hbooked.place id hloaded).1,
        fun id' record' hrecord' hcount' hne => ?_⟩
      have hid' := record_of_lookup hrecord'
      have hloaded' : (r.daemon.record id').loadCount ≠ 0 := by
        rw [hid']
        exact Nat.one_le_iff_ne_zero.1 hcount'
      rw [← hid, ← hid']
      exact ⟨fun heq => hne (hbooked.inj hloaded hloaded' heq), hbooked.lt_iff hloaded hloaded'⟩
  · have hbooks := (perform_effect henabled).books
    have hinv := reachable_inv (reachable_of_recorded h)
    refine ⟨fun id => ⟨resident_of_broughtIn hinv, fun hbrought => ?_⟩,
      fun id => response_of_broughtIn, fun hnone => ?_, fun id hne hkept => ?_⟩
    · refine (hbooks.resident id hbrought.2).resolve_left fun hwas => ?_
      exact Bool.noConfusion (hbrought.1.symm.trans hwas.1)
    · rw [hbooks.next, hnone, Option.toList_none, List.length_nil, Nat.add_zero]
    · rw [hbooks.histories, if_neg hne, if_neg hkept]

/-- Two models have been brought in, `a` before `b`. -/
theorem shelved_bookkeeping :
    ∃ loads, recorded.Reachable ⟨shelved, loads⟩ ∧ loads.length = 2 ∧
      loads.idxOf (ascii "b") < loads.idxOf (ascii "a") := by
  obtain ⟨loads, hloads⟩ := exists_recorded shelved_reachable
  obtain ⟨hnext, hrecords, -⟩ := reachable_bookkeeping hloads
  obtain ⟨record, hrecord, hlast, hcount⟩ : ∃ record, shelved.records.lookup (ascii "a") =
      some record ∧ record.lastLoaded = 1 ∧ record.loadCount = 1 := by decide
  obtain ⟨record', hrecord', hlast', hcount'⟩ : ∃ record', shelved.records.lookup (ascii "b") =
      some record' ∧ record'.lastLoaded = 2 ∧ record'.loadCount = 1 := by decide
  obtain ⟨-, -, -, hloaded⟩ := hrecords _ _ hrecord
  obtain ⟨-, -, hplaces⟩ := hloaded hcount.ge
  obtain ⟨-, horder⟩ := hplaces _ _ hrecord' hcount'.ge (by decide)
  have htwo : shelved.nextLoaded = 2 := by decide
  exact ⟨loads, hloads, hnext.symm.trans htwo, horder.1 (by omega)⟩

end Daemon

end Gpumemd
