import Gpumemd.Accelerator.Cuda
import Gpumemd.Accelerator.Metal
import Gpumemd.Library.Simulation
import Gpumemd.Residency.Capacity

/-!
# The daemon over a backend

The daemon with one of the backends: where a step of the residency manager calls the
backend (`Daemon.backendCall`), the call is made, and the step goes on with its answer. The
`Backend` of the daemon stands for the one that is called: they hold the same at every point
of every run, whichever backend it is (`Hosted.reachable_stands`), so all that holds of
the daemon holds with each of the three.

With CUDA, the memory of the device is that of the resident models between operations, and
within the capacity of the broker, as long as the driver frees what it is told to
(`Hosted.cuda_resident`).
-/

namespace Gpumemd

open Library Accelerator

/-- A call of the backend. -/
inductive BackendCall
  | load (id : Str) (bytes : Bytes)
  | loadData (id : Str) (size : Bytes)
  | unload (id : Str)
  | share (id : Str)

namespace Daemon

/-- The call that a step makes on the backend, if it makes one. -/
def backendCall (s : Daemon) : Action → Option BackendCall
  | .share id _ =>
    match s.registry.findModel id, s.residentRecord id with
    | some _, some _ => some (.share id)
    | _, _ => none
  | .advance input =>
    match s.running with
    | some (.fetching model _) =>
      match fetched model input with
      | .error _ => none
      | .ok bytes =>
        if model.sourcePath.isEmpty then some (.load model.id bytes)
        else some (.loadData model.id bytes)
    | some (.rollingBack model _) => some (.unload model.id)
    | some (.evicting _ (id :: _) _) => some (.unload id)
    | some (.unloading id) => some (.unload id)
    | some (.reloading id) => some (.load id (s.recordFootprint id))
    | _ => none
  | _ => none

/-- The step, where the call of the backend fails or not. -/
def Action.told (fault : Bool) : Action → Action
  | .advance input => .advance { input with fault }
  | a => a

variable {s : Daemon} {a : Action} {id : Str} {fault : Bool}

theorem enabled_told (h : s.Enabled a) : s.Enabled (a.told fault) := by
  cases a with
  | advance input =>
    rw [Enabled] at h
    show s.MayAdvance _ s.running
    generalize s.running = running at h ⊢
    cases running with
    | none => exact h
    | some frame => cases frame <;> exact h
  | _ => exact h

/-- What a step leaves of the backend. -/
def backendAfter (s : Daemon) (fault : Bool) : Option BackendCall → Backend
  | some (.load id bytes) => (s.backend.load id bytes fault).1
  | some (.loadData id size) => (s.backend.load id size fault).1
  | some (.unload id) => (s.backend.unload id fault).1
  | some (.share _) => s.backend
  | none => s.backend

/-- Only an operation that goes on changes the backend. -/
theorem backend_start (h : ∀ input, a ≠ .advance input) : (s.perform a).1.backend = s.backend := by
  cases a with
  | client action => rfl
  | registerModel id bytes metadata => rfl
  | registerFile id path metadata fileSize => rfl
  | load id =>
    show (s.load id).1.backend = s.backend
    rw [load]
    split
    · rfl
    · split <;> rfl
  | unload id =>
    show (s.unload id).1.backend = s.backend
    rw [unload]
    split
    · rfl
    · split
      · rfl
      · split_ifs
        · rfl
        · rfl
  | share id shared =>
    show (s.share id shared).1.backend = s.backend
    rw [share]
    split
    · rfl
    · split
      · rfl
      · split_ifs
        · rfl
        · rfl
        · rfl
  | retain id =>
    show (s.retain id).1.backend = s.backend
    rw [retain]
    split
    · rfl
    · rw [account]
      split_ifs
      · rfl
      · rfl
  | releaseModel id =>
    show (s.releaseModel id).1.backend = s.backend
    rw [releaseModel]
    split
    · rfl
    · rw [account]
      split_ifs
      · rfl
      · rfl
  | unregisterModel id =>
    show (s.unregisterModel id).1.backend = s.backend
    rw [unregisterModel]
    split
    · rfl
    · dsimp only
      split_ifs
      · rfl
      · rfl
  | advance input => exact absurd rfl (h input)

/-- A step does to the backend what its call does. -/
theorem backend_advance (input : Input) :
    (s.advance input).1.backend = s.backendAfter input.fault (s.backendCall (.advance input)) := by
  rw [advance, backendCall]
  cases hrunning : s.running with
  | none => rfl
  | some frame =>
    cases frame with
    | planning model =>
      dsimp only
      rw [plan]
      split_ifs
      · rfl
      · split <;> rfl
      · rfl
    | fetching model evictions =>
      dsimp only
      rw [fetch]
      cases fetched model input with
      | error error => rfl
      | ok bytes =>
        dsimp only
        have hload : (if !(s.backend.load model.id bytes input.fault).2.ok then
            { s with backend := (s.backend.load model.id bytes input.fault).1 }.returned
              .backendFailure 0
            else { s with backend := (s.backend.load model.id bytes input.fault).1 }.proceed
              (.swapping model evictions (max input.elapsed 1))).1.backend =
            (s.backend.load model.id bytes input.fault).1 := by
          split_ifs
          · rfl
          · rfl
        rw [hload]
        split_ifs
        · rfl
        · rfl
    | swapping model evictions loadCostMs =>
      dsimp only
      rw [swap]
      dsimp only
      split_ifs
      · rfl
      · rfl
    | rollingBack model evictions => rfl
    | evicting model evictions loadCostMs =>
      cases evictions with
      | nil => rfl
      | cons id evictions =>
        dsimp only
        rw [evict, leave]
        rfl
    | unloading id =>
      dsimp only
      rw [unloadBackend]
      dsimp only
      split_ifs
      · rfl
      · rfl
    | releasing id =>
      dsimp only
      rw [releaseReservation]
      dsimp only
      split_ifs
      · rfl
      · rfl
    | reloading id => rfl
    | erasing id => rfl

/-- Told whether it fails, a step makes the same call. -/
theorem backendCall_told : s.backendCall (a.told fault) = s.backendCall a := by
  cases a with
  | advance input =>
    show s.backendCall (.advance _) = _
    rw [backendCall, backendCall]
    cases s.running with
    | none => rfl
    | some frame => cases frame <;> rfl
  | _ => rfl

theorem backend_told : (s.perform (a.told fault)).1.backend =
    s.backendAfter fault (s.backendCall a) := by
  by_cases hadvance : ∃ input, a = .advance input
  · obtain ⟨input, rfl⟩ := hadvance
    refine (backend_advance _).trans ?_
    have htold : s.backendCall ((Action.advance input).told fault) = s.backendCall (.advance input) :=
      backendCall_told
    rw [← htold]
    rfl
  · have hne : ∀ input, a.told fault ≠ .advance input := by
      intro input heq
      cases a with
      | advance input' => exact hadvance ⟨input', rfl⟩
      | _ => cases heq
    rw [backend_start hne]
    cases a with
    | share id shared =>
      rw [backendCall]
      split <;> rfl
    | advance input => exact absurd ⟨input, rfl⟩ hadvance
    | _ => rfl

/-- A step without a call leaves the backend alone. -/
theorem backend_of_none (h : s.backendCall a = none) : (s.perform a).1.backend = s.backend := by
  cases a with
  | advance input =>
    refine (backend_advance input).trans ?_
    rw [h]
    rfl
  | _ => exact backend_start (by simp)

/-- The backend is asked to share a model by the step that does so. -/
theorem eq_share_of_call (h : s.backendCall a = some (.share id)) : ∃ shared, a = .share id shared := by
  cases a with
  | share id' shared =>
    rw [backendCall] at h
    split at h
    · obtain rfl : id' = id := by simpa using h
      exact ⟨shared, rfl⟩
    · cases h
  | advance input =>
    rw [backendCall] at h
    split at h
    · split at h
      · cases h
      · split_ifs at h <;> cases h
    all_goals cases h
  | _ => cases h

/-- What the running operation is about to unload is what the backend is called to unload. -/
theorem call_of_unloadTarget {input : Input} (h : id ∈ s.unloadTarget) :
    s.backendCall (.advance input) = some (.unload id) := by
  rw [unloadTarget] at h
  rw [backendCall]
  split at h
  next hrunning =>
    obtain rfl := Option.some.inj h
    rw [hrunning]
  next hrunning =>
    obtain rfl := Option.some.inj h
    rw [hrunning]
  next hrunning =>
    obtain rfl := Option.some.inj h
    rw [hrunning]
  next => cases h

/-- The backend is only called for registered models, whose ids are valid. -/
theorem Inv.validId_of_call (h : Inv s)
    (hcall : (∃ bytes, s.backendCall a = some (.load id bytes)) ∨
      (∃ size, s.backendCall a = some (.loadData id size)) ∨
      s.backendCall a = some (.unload id)) : Backend.validId id = true := by
  have hregistered {model : ModelRecord} (hloads : s.Loads model) :
      Backend.validId model.id = true := (h.registry model.id model hloads.1).2.1
  cases a with
  | share id' shared =>
    rw [backendCall] at hcall
    split at hcall <;> simp at hcall
  | advance input =>
    have hframe := h.frame
    rw [FrameInv] at hframe
    rw [backendCall] at hcall
    cases hrunning : s.running with
    | none => simp [hrunning] at hcall
    | some frame =>
      rw [hrunning] at hframe hcall
      cases frame with
      | fetching model evictions =>
        obtain ⟨hloads, -⟩ := hframe
        have hid : model.id = id := by
          dsimp only at hcall
          split at hcall
          · simp at hcall
          · split_ifs at hcall <;> simp_all
        exact hid ▸ hregistered hloads
      | rollingBack model evictions =>
        obtain ⟨hloads, -⟩ := hframe
        obtain rfl : model.id = id := by simpa using hcall
        exact hregistered hloads
      | evicting model evictions loadCostMs =>
        cases evictions with
        | nil => simp at hcall
        | cons id' evictions =>
          obtain ⟨-, -, hcandidates⟩ := hframe
          obtain rfl : id' = id := by simpa using hcall
          exact h.validId_of_candidate (by simp [hrunning]) (hcandidates id' List.mem_cons_self)
      | unloading id' =>
        obtain rfl : id' = id := by simpa using hcall
        exact h.validId_of_candidate (by simp [hrunning]) hframe
      | reloading id' => exact hframe.elim
      | _ => simp at hcall
  | _ => simp [backendCall] at hcall

end Daemon

/-! ## The daemon and its backend -/

/-- The daemon with a backend in a state of `σ`. -/
structure Hosted (σ : Type) where
  daemon : Daemon
  device : σ

namespace Hosted

variable {σ ι : Type} (impl : AcceleratorBackend σ ι)

/-- The effect of a step, and its answer: the daemon goes on with what the backend has
    answered. -/
def perform (s : Hosted σ) (a : Daemon.Action) (answers : ι) : Hosted σ × Response :=
  match s.daemon.backendCall a with
  | none =>
    let (daemon, response) := s.daemon.perform a
    ({ s with daemon }, response)
  | some (.load id bytes) =>
    let (device, result) := impl.load s.device id bytes answers
    let (daemon, response) := s.daemon.perform (a.told !result.ok)
    (⟨daemon, device⟩, response)
  | some (.loadData id size) =>
    let (device, result) := impl.loadData s.device id size answers
    let (daemon, response) := s.daemon.perform (a.told !result.ok)
    (⟨daemon, device⟩, response)
  | some (.unload id) =>
    let (device, result) := impl.unload s.device id answers
    let (daemon, response) := s.daemon.perform (a.told !result.ok)
    (⟨daemon, device⟩, response)
  | some (.share id) =>
    let (device, shared) := impl.share s.device id answers
    let (daemon, response) := s.daemon.perform (.share id shared.narrow)
    (⟨daemon, device⟩, response)

/-- The runs of the daemon, from an empty one and a backend in the state `start`, as long as
    the outside keeps its promises. -/
def machine (Promised : σ → ι → Prop) (start : σ) : Machine (Hosted σ) (Daemon.Action × ι) where
  init s := Daemon.machine.init s.daemon ∧ s.device = start
  step s a t := s.daemon.Enabled a.1 ∧ Promised s.device a.2 ∧ (s.perform impl a.1 a.2).1 = t

variable {impl} {Promised : σ → ι → Prop} {R : σ → Backend → Prop} {start : σ} {s t : Hosted σ}
  {a : Daemon.Action} {answers : ι}

/-- The step that the daemon takes. -/
def taken (impl : AcceleratorBackend σ ι) (s : Hosted σ) (a : Daemon.Action) (answers : ι) :
    Daemon.Action :=
  match s.daemon.backendCall a with
  | none => a
  | some (.load id bytes) => a.told !(impl.load s.device id bytes answers).2.ok
  | some (.loadData id size) => a.told !(impl.loadData s.device id size answers).2.ok
  | some (.unload id) => a.told !(impl.unload s.device id answers).2.ok
  | some (.share id) => .share id (impl.share s.device id answers).2.narrow

theorem daemon_perform :
    (s.perform impl a answers).1.daemon = (s.daemon.perform (taken impl s a answers)).1 := by
  rw [perform, taken]
  split <;> rfl

theorem enabled_taken (h : s.daemon.Enabled a) : s.daemon.Enabled (taken impl s a answers) := by
  rw [taken]
  split
  next => exact h
  next => exact Daemon.enabled_told h
  next => exact Daemon.enabled_told h
  next => exact Daemon.enabled_told h
  next id hcall =>
    obtain ⟨shared, rfl⟩ := Daemon.eq_share_of_call hcall
    exact h

/-- A step leaves the backend as the one that stands for it. -/
theorem stands_perform (himpl : Implements impl Promised R) (hs : Daemon.Inv s.daemon)
    (hR : R s.device s.daemon.backend) (hpromised : Promised s.device answers) :
    R (s.perform impl a answers).1.device (s.perform impl a answers).1.daemon.backend := by
  rw [daemon_perform, perform, taken]
  split
  next hcall =>
    show R s.device (s.daemon.perform a).1.backend
    rw [Daemon.backend_of_none hcall]
    exact hR
  next id bytes hcall =>
    rw [Daemon.backend_told, hcall]
    exact (himpl.load bytes hR hpromised (hs.validId_of_call (.inl ⟨_, hcall⟩))).state
  next id size hcall =>
    rw [Daemon.backend_told, hcall]
    exact (himpl.loadData size hR hpromised (hs.validId_of_call (.inr (.inl ⟨_, hcall⟩)))).state
  next id hcall =>
    rw [Daemon.backend_told, hcall]
    exact (himpl.unload hR hpromised (hs.validId_of_call (.inr (.inr hcall)))).state
  next id hcall =>
    rw [Daemon.backend_start (by simp)]
    exact (himpl.share answers id hR).1

theorem reachable_inv (himpl : Implements impl Promised R) (hstart : R start {})
    (h : (machine impl Promised start).Reachable s) :
    Daemon.machine.Reachable s.daemon ∧ R s.device s.daemon.backend := by
  refine h.invariant (P := fun s => Daemon.machine.Reachable s.daemon ∧ R s.device s.daemon.backend)
    ?_ ?_
  · rintro ⟨daemon, device⟩ ⟨hinit, rfl⟩
    refine ⟨.init hinit, ?_⟩
    obtain ⟨_, _, _, _, rfl⟩ := hinit
    exact hstart
  · rintro s ⟨a, answers⟩ t - ⟨hdaemon, hR⟩ ⟨henabled, hpromised, rfl⟩
    exact ⟨hdaemon.step ⟨enabled_taken henabled, daemon_perform.symm⟩,
      stands_perform himpl (Daemon.reachable_inv hdaemon) hR hpromised⟩

/-! ## Backends that unload what they hold -/

/-- The call does not fail to unload what the daemon takes to be held. -/
def Unloads (impl : AcceleratorBackend σ ι) (s : Hosted σ) (a : Daemon.Action × ι) : Prop :=
  ∀ id, s.daemon.backendCall a.1 = some (.unload id) → id ∈ s.daemon.backend.allocations →
    (impl.unload s.device id a.2).2.ok = true

theorem unloadsHeld_taken {t : Daemon} (h : Unloads impl s (a, answers)) :
    s.daemon.UnloadsHeld (taken impl s a answers) t := by
  cases htaken : taken impl s a answers with
  | advance input =>
    intro id hid hmem
    have hcall : s.daemon.backendCall (taken impl s a answers) = some (.unload id) := by
      rw [htaken]
      exact Daemon.call_of_unloadTarget hid
    -- the step that is taken makes the same call
    rw [taken] at hcall htaken
    split at hcall
    next hnone =>
      rw [hnone] at hcall
      cases hcall
    next hload =>
      rw [Daemon.backendCall_told, hload] at hcall
      cases hcall
    next hload =>
      rw [Daemon.backendCall_told, hload] at hcall
      cases hcall
    next id' hunload =>
      rw [hunload] at htaken
      rw [Daemon.backendCall_told, hunload] at hcall
      obtain rfl : id' = id := by simpa using hcall
      have hok : (impl.unload s.device id' answers).2.ok = true := h id' hunload hmem
      dsimp only at htaken
      rw [hok] at htaken
      cases a with
      | advance input' =>
        obtain rfl := Daemon.Action.advance.inj htaken
        rfl
      | _ => cases htaken
    next hshare =>
      rw [hshare] at htaken
      cases htaken
  | _ => trivial

/-- If the backend does not fail to unload what it holds, the runs are those of a daemon whose
    backend does not. -/
theorem refines_unloadsHeld {C : Hosted σ → Daemon.Action × ι → Hosted σ → Prop}
    (hC : ∀ s a t, ((machine impl Promised start).restrict C).Reachable s → Promised s.device a.2 →
      C s a t → Unloads impl s a) :
    ((machine impl Promised start).restrict C).Refines
      (Daemon.machine.restrict Daemon.UnloadsHeld) Hosted.daemon where
  init _ hinit := hinit.1
  step := by
    rintro s ⟨a, answers⟩ t hs ⟨⟨henabled, hpromised, rfl⟩, hadmitted⟩
    exact .inl ⟨_, ⟨enabled_taken henabled, daemon_perform.symm⟩,
      unloadsHeld_taken (hC _ _ _ hs hpromised hadmitted)⟩

/-! ## The three backends -/

/-- A call succeeds as the one of `Backend` does that is told to fail exactly if this one fails,
    with the same amount. -/
def Alike (result : Accelerator.BackendOperationResult)
    (call : Bool → Backend × Gpumemd.BackendOperationResult) : Prop :=
  (call !result.ok).2.ok = result.ok ∧ (call !result.ok).2.amount = result.amount

theorem alike_of_matches {call : σ × Accelerator.BackendOperationResult}
    {call' : Bool → Backend × Gpumemd.BackendOperationResult}
    (h : Matches R call (call' !call.2.ok)) : Alike call.2 call' := ⟨h.ok, h.amount⟩

/-- A call on the backend is answered as `Backend` answers it. -/
def AnsweredAs (impl : AcceleratorBackend σ ι) (device : σ) (b : Backend) (answers : ι) :
    BackendCall → Prop
  | .load id bytes => Alike (impl.load device id bytes answers).2 (b.load id bytes)
  | .loadData id size => Alike (impl.loadData device id size answers).2 (b.load id size)
  | .unload id => Alike (impl.unload device id answers).2 (b.unload id)
  | .share id => ∃ sharing, b.share id sharing = (impl.share device id answers).2.narrow

/-- The daemon is as it may be over any backend, and its `Backend` stands for the one that it
    has: it holds the same, and each call that the daemon makes on the one is answered as on the
    other. -/
structure Stands (impl : AcceleratorBackend σ ι) (Promised : σ → ι → Prop) (s : Hosted σ) : Prop where
  daemon : Daemon.machine.Reachable s.daemon
  snapshot : impl.snapshot s.device = s.daemon.backend.snapshot
  isLoaded : ∀ id, impl.isLoaded s.device id = s.daemon.backend.isLoaded id
  answered : ∀ a answers call, s.daemon.backendCall a = some call → Promised s.device answers →
    AnsweredAs impl s.device s.daemon.backend answers call

theorem reachable_stands (himpl : Implements impl Promised R) (hstart : R start {})
    (h : (machine impl Promised start).Reachable s) : Stands impl Promised s := by
  obtain ⟨hdaemon, hR⟩ := reachable_inv himpl hstart h
  have hinv := Daemon.reachable_inv hdaemon
  refine ⟨hdaemon, himpl.snapshot hR, fun id => himpl.isLoaded id hR,
    fun a answers call hcall hpromised => ?_⟩
  cases call with
  | load id bytes =>
    exact alike_of_matches
      (himpl.load bytes hR hpromised (hinv.validId_of_call (.inl ⟨_, hcall⟩)))
  | loadData id size =>
    exact alike_of_matches
      (himpl.loadData size hR hpromised (hinv.validId_of_call (.inr (.inl ⟨_, hcall⟩))))
  | unload id =>
    exact alike_of_matches (himpl.unload hR hpromised (hinv.validId_of_call (.inr (.inr hcall))))
  | share id => exact (himpl.share answers id hR).2

/-- Whichever of the three backends the daemon has, the `Backend` of the daemon stands for it
    at every point of every run. -/
theorem backends_stand :
    (∀ s, (machine mockBackend (fun _ _ => True) {}).Reachable s →
        Stands mockBackend (fun _ _ => True) s) ∧
      (∀ s, (machine cudaBackend CudaBackend.Promised {}).Reachable s →
        Stands cudaBackend CudaBackend.Promised s) ∧
      ∀ device s, (machine metalBackend (fun _ _ => True) { device }).Reachable s →
        Stands metalBackend (fun _ _ => True) s := by
  refine ⟨fun s => reachable_stands implements_mockBackend rfl,
    fun s => reachable_stands implements_cudaBackend ?_,
    fun device s => reachable_stands implements_metalBackend rfl⟩
  exact ⟨⟨0, .empty, Multiset.nodup_zero, fun _ _ hlookup => by cases hlookup⟩, fun _ => rfl⟩

section Cuda

open CudaBackend

/-- The driver does not fail to free memory. -/
def Frees (_ : Hosted CudaBackend) (a : Daemon.Action × CudaAnswers) (_ : Hosted CudaBackend) : Prop :=
  a.2.freed = true

/-- The runs with a new CUDA backend in which the driver does not fail to free memory. -/
def cudaMachine : Machine (Hosted CudaBackend) (Daemon.Action × CudaAnswers) :=
  (machine cudaBackend CudaBackend.Promised {}).restrict Frees

variable {s : Hosted CudaBackend} {a : Daemon.Action} {answers : CudaAnswers}

theorem abstracts_start : Abstracts {} {} :=
  ⟨⟨0, .empty, Multiset.nodup_zero, fun _ _ hlookup => by cases hlookup⟩, fun _ => rfl⟩

theorem reachable_abstracts (h : cudaMachine.Reachable s) :
    Daemon.machine.Reachable s.daemon ∧ Abstracts s.device s.daemon.backend :=
  reachable_inv implements_cudaBackend abstracts_start h.of_restrict

theorem owned_perform (h : Owned s.device 0) (hpromised : s.device.Promised answers)
    (hfreed : answers.freed = true) :
    Owned (s.perform cudaBackend a answers).1.device 0 := by
  rw [perform]
  split
  next => exact h
  next id bytes _ => exact h.load hpromised
  next id size _ =>
    have hload : ∃ lost, Owned (s.device.loadData id size answers).1 lost ∧
        (answers.freed = true → lost = 0) := h.loadData hpromised
    obtain ⟨lost, howned, hlost⟩ := hload
    exact hlost hfreed ▸ howned
  next id _ => exact h.unload
  next id _ => exact h.share

/-- As long as the driver frees what it is told to, nothing is lost. -/
theorem reachable_owned (h : cudaMachine.Reachable s) : Owned s.device 0 := by
  refine h.invariant (P := fun s => Owned s.device 0) ?_ ?_
  · rintro ⟨daemon, device⟩ ⟨-, rfl⟩
    exact ⟨.empty, Multiset.nodup_zero, fun _ _ hlookup => by cases hlookup⟩
  · rintro s ⟨a, answers⟩ t - hs ⟨⟨-, hpromised, rfl⟩, hfreed⟩
    exact owned_perform hs hpromised hfreed

/-- A backend whose driver frees what it is told to unloads what it holds. -/
theorem refines_cuda :
    cudaMachine.Refines (Daemon.machine.restrict Daemon.UnloadsHeld) Hosted.daemon := by
  refine refines_unloadsHeld fun s a t hs _ hfreed id hcall hmem => ?_
  obtain ⟨hdaemon, habstracts⟩ := reachable_abstracts hs
  have hid := (Daemon.reachable_inv hdaemon).validId_of_call (.inr (.inr hcall))
  obtain ⟨allocation, hlookup⟩ := Finmap.mem_iff.1 (habstracts.mem_iff.1 hmem)
  have hfreed' : a.2.freed = true := hfreed
  show (s.device.unload id a.2).2.ok = true
  rw [unload, hid, hlookup, hfreed']
  rfl

/-- The sizes of what is allocated add up to what the backend holds. -/
theorem sum_size (howned : Owned s.device 0) (habstracts : Abstracts s.device s.daemon.backend) :
    (s.device.device.memory.live.map fun pointer => (s.device.device.size pointer).toNat).sum =
      Table.weight UInt64.toNat s.daemon.backend.allocations := by
  have hlive : s.device.device.memory.live = s.device.held := by
    rw [howned.accounts.live, add_zero]
  have hentries := congrArg (fun entries => (entries.map fun entry : Str × Bytes => entry.2.toNat).sum)
    (snapshot_eq habstracts)
  rw [Backend.snapshot, Table.sum_sortedEntries, snapshot, List.map_map] at hentries
  rw [← hentries, hlive, held, ← Table.coe_map_sortedEntries, Multiset.map_coe, Multiset.sum_coe,
    List.map_map]
  congr 1
  refine List.map_congr_left fun entry hentry => ?_
  obtain ⟨-, hsize⟩ := howned.sized entry.1 entry.2 (Table.mem_sortedEntries.1 hentry)
  show (s.device.device.size entry.2.pointer).toNat = entry.2.bytes.toNat
  rw [hsize]

/-- If the driver does not fail to free memory, the memory of the device is that of the
    resident models between operations: one allocation for each, of its footprint. They fit
    in the capacity of the broker. -/
theorem cuda_resident (h : cudaMachine.Reachable s) (hidle : s.daemon.running = none) :
    s.device.device.memory.stale = false ∧
      s.device.device.memory.live = s.device.held ∧ s.device.device.memory.live.Nodup ∧
      (∀ id bytes, (∃ pointer, s.device.allocations.lookup id = some ⟨pointer, bytes⟩) ↔
        ∃ record, s.daemon.records.lookup id = some record ∧ record.resident = true ∧
          record.footprintBytes = bytes) ∧
      (s.device.device.memory.live.map fun pointer => (s.device.device.size pointer).toNat).sum ≤
        s.daemon.resources.capacity.toNat := by
  obtain ⟨hdaemon, habstracts⟩ := reachable_abstracts h
  have howned := reachable_owned h
  have hinv := Daemon.reachable_inv hdaemon
  have hbacked := Daemon.reachable_backed
    ((refines_cuda.reachable h).mono fun _ _ _ => Daemon.UnloadsHeld.forLoad)
  have hlevel : s.daemon.running.bind Frame.ahead = none := by rw [hidle]; rfl
  refine ⟨howned.accounts.fresh, ?_, howned.distinct, fun id bytes => ?_, ?_⟩
  · rw [howned.accounts.live, add_zero]
  · rw [← Daemon.heldBytes_eq_some_iff, ← Daemon.expectedBacking_level hlevel, ← hbacked,
      habstracts.2, Option.map_eq_some_iff]
    constructor
    · rintro ⟨pointer, hlookup⟩
      exact ⟨_, hlookup, rfl⟩
    · rintro ⟨⟨pointer, _⟩, hlookup, rfl⟩
      exact ⟨pointer, hlookup⟩
  · -- the backend holds what is reserved
    have hreserved := Daemon.allocations_eq hinv hbacked (by simp [hidle]) hlevel
    obtain ⟨haccounted, -⟩ := ResourceManager.reachable_inv hinv.resources
    have hused := haccounted.balanced.used_eq
    have hle := haccounted.balanced.used_le
    rw [sum_size howned habstracts, hreserved]
    omega

/-- A step that the daemon may take, where the driver keeps its promises and frees what it is
    told to. -/
def admitted (s : Hosted CudaBackend) (a : Daemon.Action × CudaAnswers) :
    Option (Hosted CudaBackend) :=
  if s.daemon.Enabled a.1 ∧ s.device.Promised a.2 ∧ a.2.freed = true then
    some (s.perform cudaBackend a.1 a.2).1
  else none

theorem step_of_admitted {a : Daemon.Action × CudaAnswers} {t : Hosted CudaBackend}
    (h : s.admitted a = some t) : cudaMachine.step s a t := by
  rw [admitted] at h
  split_ifs at h with hadmitted
  obtain ⟨henabled, hpromised, hfreed⟩ := hadmitted
  exact ⟨⟨henabled, hpromised, Option.some.inj h⟩, hfreed⟩

/-- A daemon of a hundred bytes with a new CUDA backend. -/
def idleCuda : Hosted CudaBackend :=
  ⟨{ resources := { capacity := 100, schedulingPolicy := .costAware } }, {}⟩

/-- The model `m` of 60 bytes is registered and loaded at the pointer `1`. -/
def stockedCuda : Hosted CudaBackend :=
  (List.foldlM admitted idleCuda
    [(.registerModel (ascii "m") 60 (ascii "-"), {}), (.load (ascii "m"), {}), (.advance {}, {}),
      (.advance {}, { freeBytes := some 1000, pointer := some 1 }), (.advance {}, {}),
      (.advance {}, {})]).getD idleCuda

theorem stockedCuda_reachable : cudaMachine.Reachable stockedCuda := by
  have hidle : cudaMachine.Reachable idleCuda := .init ⟨⟨100, .costAware, _, rfl, rfl⟩, rfl⟩
  exact hidle.getD_foldlM (fun _ _ _ => step_of_admitted) _

theorem stockedCuda_resident :
    stockedCuda.device.device.memory.live = stockedCuda.device.held ∧
      ∃ pointer, stockedCuda.device.allocations.lookup (ascii "m") = some ⟨pointer, 60⟩ := by
  obtain ⟨-, hlive, -, hresident, -⟩ := cuda_resident stockedCuda_reachable (by decide)
  exact ⟨hlive, (hresident _ _).2 ⟨⟨ascii "m", 60, 0, true, 1, 1, 1⟩, by decide, rfl, rfl⟩⟩

end Cuda

end Hosted

end Gpumemd
