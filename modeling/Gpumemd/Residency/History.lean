import Gpumemd.Library.Machine
import Gpumemd.Residency.Registry

/-!
# What the registry counts

The model registry next to the history of its calls: the reference count of a model is the
number of times it has been retained less the number of times it has been released, since its
latest registration, and the accesses are numbered in the order in which they happen
(`reachable_counts`). Calls that fail count for nothing.
-/

namespace Gpumemd

open Library

namespace ModelRegistry

/-- The calls that change the registry. -/
inductive Action
  | registerModel (id : Str) (footprintBytes : Bytes) (metadata : Str)
  | registerFile (id path metadata : Str) (fileSize : Option Bytes)
  | unregisterModel (id : Str)
  | retain (id : Str)
  | releaseModel (id : Str)
  deriving DecidableEq

/-- The effect of a call, and its result. -/
def perform (s : ModelRegistry) : Action → ModelRegistry × ModelOperationResult
  | .registerModel id footprintBytes metadata => s.registerModel id footprintBytes metadata
  | .registerFile id path metadata fileSize => s.registerFile id path metadata fileSize
  | .unregisterModel id => s.unregisterModel id
  | .retain id => s.retain id
  | .releaseModel id => s.releaseModel id

/-! ## Histories -/

/-- A call that has returned. -/
structure Event where
  action : Action
  result : ModelOperationResult
  deriving DecidableEq

namespace Event

/-- It has registered the model. -/
def registers (id : Str) : Event → Bool
  | ⟨.registerModel id' _ _, result⟩ => id' == id && result.ok
  | ⟨.registerFile id' _ _ _, result⟩ => id' == id && result.ok
  | _ => false

/-- It has retained the model. -/
def retains (id : Str) : Event → Bool
  | ⟨.retain id', result⟩ => id' == id && result.ok
  | _ => false

/-- It has released the model. -/
def releases (id : Str) : Event → Bool
  | ⟨.releaseModel id', result⟩ => id' == id && result.ok
  | _ => false

/-- It has retained or released the model. -/
def accesses (id : Str) (event : Event) : Bool := event.retains id || event.releases id

/-- It has retained or released some model. -/
def isAccess : Event → Bool
  | ⟨.retain _, result⟩ => result.ok
  | ⟨.releaseModel _, result⟩ => result.ok
  | _ => false

variable {id id' : Str} {result : ModelOperationResult}

@[simp] theorem registers_retain : registers id ⟨.retain id', result⟩ = false := rfl

@[simp] theorem registers_releaseModel : registers id ⟨.releaseModel id', result⟩ = false := rfl

@[simp] theorem retains_retain : retains id ⟨.retain id', result⟩ = (id' == id && result.ok) := rfl

@[simp] theorem retains_releaseModel : retains id ⟨.releaseModel id', result⟩ = false := rfl

@[simp] theorem releases_retain : releases id ⟨.retain id', result⟩ = false := rfl

@[simp] theorem releases_releaseModel :
    releases id ⟨.releaseModel id', result⟩ = (id' == id && result.ok) := rfl

@[simp] theorem accesses_retain : accesses id ⟨.retain id', result⟩ = (id' == id && result.ok) :=
  Bool.or_false _

@[simp] theorem accesses_releaseModel :
    accesses id ⟨.releaseModel id', result⟩ = (id' == id && result.ok) := Bool.false_or _

end Event

/-- The calls so far, the latest first. -/
abbrev History := List Event

namespace History

/-- The calls since the latest registration of the model. -/
def since (id : Str) (history : History) : History := history.takeWhile fun event => !event.registers id

/-- How often the model has been retained since its latest registration. -/
def retains (id : Str) (history : History) : ℕ := (since id history).countP (·.retains id)

/-- How often the model has been released since its latest registration. -/
def releases (id : Str) (history : History) : ℕ := (since id history).countP (·.releases id)

/-- How often some model has been retained or released. -/
def accesses (history : History) : ℕ := history.countP (·.isAccess)

/-- How many calls ago the model has last been retained or released. -/
def ago (id : Str) (history : History) : ℕ := history.findIdx (·.accesses id)

/-- How many accesses there have been when the model has last been retained or released. -/
def stamp (id : Str) (history : History) : ℕ :=
  accesses (history.dropWhile fun event => !event.accesses id)

variable {id id' : Str} {event : Event} {history : History}

theorem countP_since_cons (p : Event → Bool) : (since id (event :: history)).countP p =
    if event.registers id = true then 0
    else (since id history).countP p + if p event = true then 1 else 0 := by
  rw [since, List.takeWhile_cons]
  cases event.registers id
  · exact List.countP_cons
  · rfl

theorem accesses_cons :
    accesses (event :: history) = accesses history + if event.isAccess = true then 1 else 0 :=
  List.countP_cons

theorem stamp_cons : stamp id (event :: history) =
    if event.accesses id = true then accesses (event :: history) else stamp id history := by
  rw [stamp, List.dropWhile_cons]
  cases event.accesses id <;> rfl

theorem ago_cons : ago id (event :: history) =
    if event.accesses id = true then 0 else ago id history + 1 := by
  rw [ago, List.findIdx_cons]
  cases event.accesses id <;> rfl

theorem isAccess_of_accesses (h : event.accesses id = true) : event.isAccess = true := by
  obtain ⟨action, result⟩ := event
  cases action <;> simp_all [Event.accesses, Event.retains, Event.releases, Event.isAccess]

/-- An event is about one model. -/
theorem eq_of_accesses (h : event.accesses id = true) (h' : event.accesses id' = true) : id = id' := by
  obtain ⟨action, result⟩ := event
  cases action <;> simp_all [Event.accesses, Event.retains, Event.releases]

theorem stamp_le_accesses : stamp id history ≤ accesses history :=
  (List.dropWhile_sublist _).countP_le

/-- The stamps of two models are in the order in which they have last been accessed. -/
theorem stamp_lt_iff (hne : id ≠ id') (h : stamp id history ≠ 0) (h' : stamp id' history ≠ 0) :
    stamp id history ≠ stamp id' history ∧
      (stamp id history < stamp id' history ↔ ago id' history < ago id history) := by
  induction history with
  | nil => exact absurd rfl h
  | cons event history ih =>
    have hle : stamp id history ≤ accesses history := stamp_le_accesses
    have hle' : stamp id' history ≤ accesses history := stamp_le_accesses
    rw [stamp_cons] at h h' ⊢
    rw [stamp_cons, ago_cons, ago_cons]
    split_ifs at h h' ⊢ with hid hid' hid'
    · exact absurd (eq_of_accesses hid hid') hne
    · -- the event is the last access to the first of them
      rw [accesses_cons, if_pos (isAccess_of_accesses hid)]
      omega
    · rw [accesses_cons, if_pos (isAccess_of_accesses hid')]
      omega
    · obtain ⟨hdistinct, hiff⟩ := ih h h'
      exact ⟨hdistinct, hiff.trans (Nat.add_lt_add_iff_right).symm⟩

end History

/-! ## What a call does -/

/-- What a call does: nothing, or one of four changes. -/
inductive Effect (s : ModelRegistry) : Event → ModelRegistry → Prop
  | refused {event : Event} : event.result.ok = false → Effect s event s
  | registered {event : Event} {model : ModelRecord} : event.registers model.id = true →
      model.refCount = 0 → model.lastAccess = 0 →
      Effect s event { s with models := s.models.insert model.id model }
  | unregistered {id : Str} {result : ModelOperationResult} :
      Effect s ⟨.unregisterModel id, result⟩ { s with models := s.models.erase id }
  | retained {id : Str} {model : ModelRecord} : s.findModel id = some model →
      Effect s ⟨.retain id, ⟨.none, model.refCount + 1⟩⟩ (s.access id model (model.refCount + 1))
  | released {id : Str} {model : ModelRecord} : s.findModel id = some model → model.refCount ≠ 0 →
      Effect s ⟨.releaseModel id, ⟨.none, model.refCount - 1⟩⟩ (s.access id model (model.refCount - 1))

variable {s : ModelRegistry}

/-- A registration ends with an effect. -/
theorem emplaceModel_effect {action : Action} {model : ModelRecord} (hcount : model.refCount = 0)
    (haccess : model.lastAccess = 0)
    (hregisters : ∀ result, result.ok = true → Event.registers model.id ⟨action, result⟩ = true) :
    Effect s ⟨action, (s.emplaceModel model).2⟩ (s.emplaceModel model).1 := by
  rw [emplaceModel]
  split_ifs with hmem
  · exact .refused rfl
  · rw [Table.emplace_of_notMem hmem]
    exact .registered (hregisters _ rfl) hcount haccess

theorem perform_effect (s : ModelRegistry) (action : Action) :
    Effect s ⟨action, (s.perform action).2⟩ (s.perform action).1 := by
  cases action with
  | registerModel id bytes metadata =>
    rw [perform, registerModel]
    split_ifs
    · exact .refused rfl
    · exact .refused rfl
    · exact .refused rfl
    · exact emplaceModel_effect rfl rfl fun result hok => by simp [Event.registers, hok]
  | registerFile id path metadata fileSize =>
    rw [perform, registerFile.eq_def]
    split_ifs
    · exact .refused rfl
    · exact .refused rfl
    · exact .refused rfl
    · split
      next => exact .refused rfl
      next =>
        split_ifs
        · exact .refused rfl
        · exact emplaceModel_effect rfl rfl fun result hok => by simp [Event.registers, hok]
  | unregisterModel id =>
    rcases unregisterModel_cases s id with ⟨hok, heq⟩ | heq
    · rw [perform, heq]
      exact .refused hok
    · rw [perform, heq]
      exact .unregistered
  | retain id =>
    rcases retain_cases s id with ⟨hok, heq⟩ | ⟨model, hmodel, heq⟩
    · rw [perform, heq]
      exact .refused hok
    · rw [perform, heq]
      exact .retained hmodel
  | releaseModel id =>
    rcases releaseModel_cases s id with ⟨hok, heq⟩ | ⟨model, hmodel, hcount, heq⟩
    · rw [perform, heq]
      exact .refused hok
    · rw [perform, heq]
      exact .released hmodel hcount

/-! ## Runs -/

/-- A registry, with the calls so far. -/
structure Recorded where
  registry : ModelRegistry := {}
  history : History := []

/-- Makes a call and records it. -/
def Recorded.call (s : Recorded) (a : Action) : Recorded where
  registry := (s.registry.perform a).1
  history := ⟨a, (s.registry.perform a).2⟩ :: s.history

/-- The runs of a registry, from an empty one. -/
def machine : Machine Recorded Action where
  init s := s = {}
  step s a t := s.call a = t

open History

/-- What is kept of a model agrees with the history. -/
structure Counted (history : History) (id : Str) (model : ModelRecord) : Prop where
  refCount : model.refCount + releases id history = retains id history
  lastAccess : model.lastAccess ≠ 0 → model.lastAccess = stamp id history

/-- The invariant. -/
structure Tallied (s : ModelRegistry) (history : History) : Prop where
  wellFormed : s.WellFormed
  nextAccess : s.nextAccess = accesses history
  models : ∀ id model, s.findModel id = some model → Counted history id model

variable {history : History} {event : Event} {id : Str} {model : ModelRecord}

/-- What is kept of a model stays right while nothing happens to it. -/
theorem Counted.cons (h : Counted history id model) (hregisters : event.registers id = false)
    (haccesses : event.accesses id = false) : Counted (event :: history) id model := by
  obtain ⟨hretains, hreleases⟩ := Bool.or_eq_false_iff.1 haccesses
  constructor
  · rw [releases, retains, countP_since_cons, countP_since_cons, hregisters, hretains, hreleases]
    exact h.refCount
  · rw [stamp_cons, haccesses]
    exact h.lastAccess

/-- An event that counts for nothing. -/
theorem Event.quiet_of_not_ok (id : Str) (h : event.result.ok = false) :
    event.registers id = false ∧ event.accesses id = false ∧ event.isAccess = false := by
  obtain ⟨action, result⟩ := event
  replace h : result.ok = false := h
  cases action <;> simp [registers, accesses, retains, releases, isAccess, h]

theorem Counted.registered (hregisters : event.registers id = true) (hcount : model.refCount = 0)
    (haccess : model.lastAccess = 0) : Counted (event :: history) id model := by
  constructor
  · rw [releases, retains, countP_since_cons, countP_since_cons, if_pos hregisters,
      if_pos hregisters, hcount]
  · exact fun h => absurd haccess h

theorem Tallied.refused (h : Tallied s history) (hok : event.result.ok = false) :
    Tallied s (event :: history) := by
  refine ⟨h.wellFormed, ?_, fun id model hmodel => ?_⟩
  · rw [accesses_cons, (Event.quiet_of_not_ok [] hok).2.2]
    exact h.nextAccess
  · obtain ⟨hregisters, haccesses, -⟩ := Event.quiet_of_not_ok id hok
    exact (h.models id model hmodel).cons hregisters haccesses

/-- An event that registers a model is about no other one. -/
theorem Event.of_registers (h : event.registers id = true) :
    (∀ id', id' ≠ id → event.registers id' = false) ∧
      (∀ id', event.accesses id' = false) ∧ event.isAccess = false := by
  obtain ⟨action, result⟩ := event
  cases action with
  | registerModel id' =>
    obtain ⟨rfl, -⟩ : id' = id ∧ result.ok = true := by simpa [registers] using h
    exact ⟨fun id hne => by simp [registers, hne.symm], fun _ => rfl, rfl⟩
  | registerFile id' =>
    obtain ⟨rfl, -⟩ : id' = id ∧ result.ok = true := by simpa [registers] using h
    exact ⟨fun id hne => by simp [registers, hne.symm], fun _ => rfl, rfl⟩
  | _ => cases h

theorem Tallied.access (h : Tallied s history) (hmodel : s.findModel id = some model) {refCount : ℕ}
    {result : ModelOperationResult} {action : Action}
    (haccess : ∀ id', Event.accesses id' ⟨action, result⟩ = true ↔ id' = id)
    (hregisters : ∀ id', Event.registers id' ⟨action, result⟩ = false)
    (hcount : refCount + releases id (⟨action, result⟩ :: history) =
      retains id (⟨action, result⟩ :: history)) :
    Tallied (s.access id model refCount) (⟨action, result⟩ :: history) := by
  have hthis : Event.accesses id ⟨action, result⟩ = true := (haccess id).2 rfl
  have hnext : s.nextAccess + 1 = accesses (⟨action, result⟩ :: history) := by
    rw [accesses_cons, if_pos (isAccess_of_accesses hthis), h.nextAccess]
  refine ⟨wellFormed_access h.wellFormed hmodel, hnext, fun id' model' hmodel' => ?_⟩
  rw [findModel_access] at hmodel'
  split_ifs at hmodel' with hid
  · obtain rfl := Option.some.inj hmodel'
    rw [hid]
    refine ⟨hcount, fun _ => ?_⟩
    rw [stamp_cons, if_pos hthis]
    exact hnext
  · have hother : Event.accesses id' ⟨action, result⟩ = false := by
      rw [Bool.eq_false_iff, ne_eq, haccess]
      exact hid
    exact (h.models id' model' hmodel').cons (hregisters id') hother

theorem Tallied.effect (h : Tallied s history) {t : ModelRegistry} (hwellFormed : t.WellFormed)
    (heffect : Effect s event t) : Tallied t (event :: history) := by
  cases heffect with
  | refused hok => exact h.refused hok
  | registered hregisters hcount haccess =>
    obtain ⟨hothers, haccesses, hisAccess⟩ := Event.of_registers hregisters
    refine ⟨hwellFormed, ?_, fun id model' hmodel => ?_⟩
    · rw [accesses_cons, hisAccess]
      exact h.nextAccess
    · rw [findModel, Table.lookup_insert] at hmodel
      split_ifs at hmodel with hid
      · obtain rfl := Option.some.inj hmodel
        exact .registered (hid ▸ hregisters) hcount haccess
      · exact (h.models id model' hmodel).cons (hothers id hid) (haccesses id)
  | unregistered =>
    refine ⟨hwellFormed, ?_, fun id model hmodel => ?_⟩
    · rw [accesses_cons]
      exact h.nextAccess
    · rw [findModel, Table.lookup_erase] at hmodel
      split_ifs at hmodel
      exact (h.models id model hmodel).cons rfl rfl
  | @retained id model hmodel =>
    refine h.access hmodel (fun id' => ?_) (fun _ => rfl) ?_
    · simpa [ModelOperationResult.ok] using eq_comm
    · have hcount : model.refCount + (since id history).countP (·.releases id) =
          (since id history).countP (·.retains id) := (h.models id model hmodel).refCount
      rw [releases, retains, countP_since_cons, countP_since_cons]
      simp only [Event.registers_retain, Event.retains_retain, Event.releases_retain,
        ModelOperationResult.ok, beq_self_eq_true, Bool.and_self, Bool.false_eq_true, if_false,
        if_true, Nat.add_zero]
      omega
  | @released id model hmodel hpos =>
    refine h.access hmodel (fun id' => ?_) (fun _ => rfl) ?_
    · simpa [ModelOperationResult.ok] using eq_comm
    · have hcount : model.refCount + (since id history).countP (·.releases id) =
          (since id history).countP (·.retains id) := (h.models id model hmodel).refCount
      rw [releases, retains, countP_since_cons, countP_since_cons]
      simp only [Event.registers_releaseModel, Event.retains_releaseModel,
        Event.releases_releaseModel, ModelOperationResult.ok, beq_self_eq_true, Bool.and_self,
        Bool.false_eq_true, if_false, if_true, Nat.add_zero]
      omega

theorem wellFormed_perform (h : s.WellFormed) (action : Action) : (s.perform action).1.WellFormed := by
  cases action with
  | registerModel => exact registerModel_registers.wellFormed h
  | registerFile => exact registerFile_registers.wellFormed h
  | unregisterModel id =>
    rcases unregisterModel_cases s id with ⟨-, heq⟩ | heq
    · rw [perform, heq]
      exact h
    · rw [perform, heq]
      exact wellFormed_erase h
  | retain id =>
    rcases retain_cases s id with ⟨-, heq⟩ | ⟨model, hmodel, heq⟩
    · rw [perform, heq]
      exact h
    · rw [perform, heq]
      exact wellFormed_access h hmodel
  | releaseModel id =>
    rcases releaseModel_cases s id with ⟨-, heq⟩ | ⟨model, hmodel, -, heq⟩
    · rw [perform, heq]
      exact h
    · rw [perform, heq]
      exact wellFormed_access h hmodel

theorem reachable_tallied {s : Recorded} (h : machine.Reachable s) : Tallied s.registry s.history := by
  refine h.invariant (P := fun s => Tallied s.registry s.history) ?_ ?_
  · rintro s rfl
    exact ⟨fun _ _ hmodel => absurd hmodel (by simp), rfl,
      fun _ _ hmodel => absurd hmodel (by simp [findModel])⟩
  · rintro s a t _ hs rfl
    exact hs.effect (wellFormed_perform hs.wellFormed a) (perform_effect s.registry a)

/-- `release_model` of a registered model fails if nothing is left to release. -/
theorem releaseModel_error_iff (h : s.WellFormed) (hmodel : s.findModel id = some model) :
    (s.releaseModel id).2.error = .refcountUnderflow ↔ model.refCount = 0 := by
  have hlookup : s.models.lookup id = some model := hmodel
  rw [releaseModel, (h id model hmodel).2.1, hlookup]
  simp only [Bool.not_true, Bool.false_eq_true, if_false]
  split_ifs with hcount
  · exact iff_of_true rfl hcount
  · exact iff_of_false (by simp) hcount

/-- `unregister_model` of a registered model succeeds if nothing is left to release. -/
theorem unregisterModel_ok_iff (h : s.WellFormed) (hmodel : s.findModel id = some model) :
    (s.unregisterModel id).2.ok = true ↔ model.refCount = 0 := by
  have hlookup : s.models.lookup id = some model := hmodel
  rw [unregisterModel, (h id model hmodel).2.1, hlookup]
  simp only [Bool.not_true, Bool.false_eq_true, if_false]
  split_ifs with hcount
  · exact iff_of_false (by simp [ModelOperationResult.ok]) hcount
  · exact iff_of_true rfl (not_not.1 hcount)

/-- After any calls: the next access is the number of accesses so far; a registered model
    has as many references as it has been retained more often than released, since its latest
    registration, and this decides whether it may be released or unregistered; and the last
    accesses of different models are in the order in which these have happened. -/
theorem reachable_counts {s : Recorded} (h : machine.Reachable s) :
    s.registry.nextAccess = accesses s.history ∧
      (∀ id model, s.registry.findModel id = some model →
        model.refCount + releases id s.history = retains id s.history ∧
          ((s.registry.releaseModel id).2.error = .refcountUnderflow ↔
            retains id s.history = releases id s.history) ∧
          ((s.registry.unregisterModel id).2.ok = true ↔
            retains id s.history = releases id s.history) ∧
          model.lastAccess ≤ s.registry.nextAccess) ∧
      ∀ id id' model model', s.registry.findModel id = some model →
        s.registry.findModel id' = some model' → id ≠ id' → model.lastAccess ≠ 0 →
        model'.lastAccess ≠ 0 → model.lastAccess ≠ model'.lastAccess ∧
          (model.lastAccess < model'.lastAccess ↔ ago id' s.history < ago id s.history) := by
  obtain ⟨hwellFormed, hnext, hmodels⟩ := reachable_tallied h
  refine ⟨hnext, fun id model hmodel => ?_, fun id id' model model' hmodel hmodel' hne hpos hpos' => ?_⟩
  · obtain ⟨hcount, haccess⟩ := hmodels id model hmodel
    have hzero : model.refCount = 0 ↔ retains id s.history = releases id s.history := by omega
    refine ⟨hcount, (releaseModel_error_iff hwellFormed hmodel).trans hzero,
      (unregisterModel_ok_iff hwellFormed hmodel).trans hzero, ?_⟩
    by_cases hlast : model.lastAccess = 0
    · exact hlast.trans_le (Nat.zero_le _)
    · rw [haccess hlast, hnext]
      exact stamp_le_accesses
  · have hstamp := (hmodels id model hmodel).lastAccess hpos
    have hstamp' := (hmodels id' model' hmodel').lastAccess hpos'
    rw [hstamp] at hpos ⊢
    rw [hstamp'] at hpos' ⊢
    exact stamp_lt_iff hne hpos hpos'

theorem reachable_foldl {s : Recorded} (h : machine.Reachable s) (as : List Action) :
    machine.Reachable (as.foldl Recorded.call s) := by
  induction as generalizing s with
  | nil => exact h
  | cons a as ih => exact ih (h.step rfl)

/-- A model that is registered again after it has been retained and released. -/
def reregistered : Recorded :=
  [.registerModel (ascii "m") 5 (ascii "x"), .retain (ascii "m"), .unregisterModel (ascii "m"),
    .releaseModel (ascii "m"), .unregisterModel (ascii "m"), .registerModel (ascii "m") 5 (ascii "x"),
    .retain (ascii "m")].foldl Recorded.call {}

theorem reregistered_counts :
    reregistered.registry.nextAccess = 3 ∧ retains (ascii "m") reregistered.history = 1 ∧
      accesses reregistered.history = 3 := by
  have hnext : reregistered.registry.nextAccess = 3 := by decide
  exact ⟨hnext, by decide, (reachable_counts (reachable_foldl (.init rfl) _)).1.symm.trans hnext⟩

end ModelRegistry

end Gpumemd
