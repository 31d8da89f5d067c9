import Gpumemd.Accelerator.Cuda
import Gpumemd.Client.Request
import Gpumemd.Client.Share

/-!
# Allocations of another process

`CudaClient::open_model` and `CudaIpcAllocation` (`src/backend/cuda_client.cu`): a process opens
the handles of models that the daemon shares, each in an allocation, which it moves around and
destroys. The driver keeps a ledger of the mappings of the process; what it answers is an argument
of the calls, and what it promises is that no mapping is at the null pointer.

Allocations cannot be copied, and what has been moved from is empty. So in any order of opening,
moving and destroying, each mapping has one allocation that closes it, with the size that the
daemon has told, and a mapping is left open only where the driver refuses to close it
(`CudaProcess.reachable_mapped`).
-/

namespace Gpumemd

open Library Accelerator Protocol

/-- `CudaIpcAllocation`. -/
structure CudaIpcAllocation where
  pointer : Pointer := 0
  bytes : Bytes := 0
  deriving DecidableEq

/-- `CudaOpenResult`. -/
structure CudaOpenResult where
  response : ClientResponse
  backend : BackendOperationResult
  allocation : Option CudaIpcAllocation
  deriving DecidableEq

/-- `CudaOpenResult::ok`. -/
def CudaOpenResult.ok (result : CudaOpenResult) : Bool :=
  result.response.error == .none && result.backend.ok && result.allocation.isSome

/-- A process that opens allocations. -/
structure CudaProcess where
  /-- The mappings that the driver has opened. -/
  mappings : Ledger Pointer := {}
  /-- The allocations that have not been destroyed. -/
  allocations : List CudaIpcAllocation := []
  /-- The handles that have been opened, with where that was and how large the daemon said that
      it was. -/
  opened : List (Str × CudaIpcAllocation) := []
  /-- The mappings that the driver has refused to close. -/
  refused : Multiset Pointer := 0

/-- `CudaIpcClient::open`, where a handle has `size` bytes, and `mapped` is what
    `cudaIpcOpenMemHandle` returns, if it succeeds: the handle and the mapping. -/
def CudaIpcClient.openToken (size : ℕ) (token : Str) (mapped : Option Pointer) :
    Except BackendError (Str × Pointer) :=
  match openHandle size token with
  | .error error => .error error
  | .ok handle =>
    match mapped with
    | none => .error .runtimeFailure
    | some pointer => .ok (handle, pointer)

namespace CudaProcess

variable (s : CudaProcess)

/-- `CudaIpcAllocation::reset`, and what is left of the allocation. -/
def reset (allocation : CudaIpcAllocation) (closed : Bool) : CudaProcess × CudaIpcAllocation :=
  if allocation.pointer ≠ 0 then
    ({ s with
      mappings := s.mappings.giveBack allocation.pointer closed
      refused := if closed then s.refused else allocation.pointer ::ₘ s.refused }, {})
  else (s, allocation)

/-- `CudaClient::open_model`, where the daemon answers `response`. -/
def openModel (size : ℕ) (response : ClientResponse) (mapped : Option Pointer) :
    CudaProcess × CudaOpenResult :=
  if response.error ≠ .none then (s, ⟨response, ⟨.none, 0⟩, none⟩)
  else
    match Client.parseShareResponse response.payload with
    | none => (s, ⟨⟨.readFailed, response.payload⟩, ⟨.runtimeFailure, 0⟩, none⟩)
    | some descriptor =>
      match CudaIpcClient.openToken size descriptor.token mapped with
      | .error error => (s, ⟨response, ⟨error, 0⟩, none⟩)
      | .ok (handle, pointer) =>
        let allocation := ⟨pointer, descriptor.bytes⟩
        ({ s with
          mappings := s.mappings.grant pointer
          allocations := s.allocations ++ [allocation]
          opened := s.opened ++ [(handle, allocation)] }, ⟨response, ⟨.none, 0⟩, some allocation⟩)

/-- `CudaIpcAllocation(CudaIpcAllocation&&)`. -/
def moveConstruct (source : ℕ) : Option CudaProcess := do
  let other ← s.allocations[source]?
  return { s with allocations := s.allocations.set source {} ++ [other] }

/-- `CudaIpcAllocation::operator=(CudaIpcAllocation&&)`. -/
def moveAssign (target source : ℕ) (closed : Bool) : Option CudaProcess := do
  let this ← s.allocations[target]?
  let other ← s.allocations[source]?
  if target = source then return s
  let s := (s.reset this closed).1
  return { s with allocations := (s.allocations.set target other).set source {} }

/-- `CudaIpcAllocation::~CudaIpcAllocation`. -/
def destroy (index : ℕ) (closed : Bool) : Option CudaProcess := do
  let this ← s.allocations[index]?
  let s := (s.reset this closed).1
  return { s with allocations := s.allocations.eraseIdx index }

/-- What the process does. -/
inductive Action
  | openModel (response : ClientResponse) (mapped : Option Pointer)
  | moveConstruct (source : ℕ)
  | moveAssign (target source : ℕ) (closed : Bool)
  | destroy (index : ℕ) (closed : Bool)

/-- The state after it, if the allocations are there. -/
def perform (size : ℕ) : Action → Option CudaProcess
  | .openModel response mapped => some (s.openModel size response mapped).1
  | .moveConstruct source => s.moveConstruct source
  | .moveAssign target source closed => s.moveAssign target source closed
  | .destroy index closed => s.destroy index closed

/-- The driver opens nothing at the null pointer. -/
def Action.Promised : Action → Prop
  | .openModel _ mapped => mapped ≠ some 0
  | _ => True

instance : (a : Action) → Decidable a.Promised
  | .openModel _ mapped => inferInstanceAs (Decidable (mapped ≠ some 0))
  | .moveConstruct _ | .moveAssign .. | .destroy .. => .isTrue trivial

/-- The runs of a process. -/
def machine (size : ℕ) : Machine CudaProcess Action where
  init s := s = {}
  step s a t := a.Promised ∧ s.perform size a = some t

/-- The mapping of the allocation, unless it is empty. -/
def mapping (allocation : CudaIpcAllocation) : Multiset Pointer :=
  if allocation.pointer ≠ 0 then {allocation.pointer} else 0

/-- The mappings of the allocations. -/
def held (allocations : List CudaIpcAllocation) : Multiset Pointer :=
  (allocations.map mapping).sum

/-- The mappings that are open have an allocation each, with the size that it was opened with, or
    were refused to be closed, and no other has been named. -/
structure Owned (s : CudaProcess) : Prop where
  accounts : s.mappings.Accounts (held s.allocations) s.refused
  sized : ∀ allocation ∈ s.allocations, allocation.pointer ≠ 0 →
    ∃ handle, (handle, allocation) ∈ s.opened

variable {s} {t : CudaProcess} {a : Action} {size index source target : ℕ} {closed : Bool}
  {allocation other : CudaIpcAllocation} {allocations : List CudaIpcAllocation}
  {others : Multiset Pointer}

/-! ## Where the mappings are -/

theorem held_append (left right : List CudaIpcAllocation) :
    held (left ++ right) = held left + held right := by
  rw [held, List.map_append, List.sum_append]
  rfl

theorem held_singleton (allocation : CudaIpcAllocation) : held [allocation] = mapping allocation :=
  add_zero _

theorem held_erase (h : allocations[index]? = some allocation) :
    held allocations = mapping allocation + held (allocations.eraseIdx index) := by
  obtain ⟨hlt, rfl⟩ := List.getElem?_eq_some_iff.1 h
  exact (((List.getElem_cons_eraseIdx_perm hlt).map mapping).sum_eq).symm

/-- Where one allocation takes the place of another. -/
theorem held_set (h : allocations[index]? = some allocation) (other : CudaIpcAllocation) :
    held (allocations.set index other) + mapping allocation = held allocations + mapping other := by
  obtain ⟨hlt, rfl⟩ := List.getElem?_eq_some_iff.1 h
  obtain ⟨before, after, hallocations, -, hset⟩ :
      ∃ before after, allocations = before ++ allocations[index] :: after ∧ before.length = index ∧
        allocations.set index other = before ++ other :: after := List.exists_of_set hlt
  rw [hset]
  conv_rhs => rw [hallocations]
  simp only [held, List.map_append, List.map_cons, List.sum_append, List.sum_cons]
  ac_rfl

/-! ## Operations -/

/-- An allocation that is reset closes its mapping, unless the driver refuses to. -/
theorem accounts_reset (h : s.mappings.Accounts (mapping allocation + others) s.refused)
    (closed : Bool) :
    (s.reset allocation closed).1.mappings.Accounts others (s.reset allocation closed).1.refused := by
  rw [mapping] at h
  by_cases hpointer : allocation.pointer ≠ 0
  · rw [if_pos hpointer, Multiset.singleton_add] at h
    rw [reset, if_pos hpointer]
    exact h.drop closed
  · rw [if_neg hpointer, zero_add] at h
    rwa [reset, if_neg hpointer]

theorem reset_frame (s : CudaProcess) (allocation : CudaIpcAllocation) (closed : Bool) :
    (s.reset allocation closed).1.allocations = s.allocations ∧
      (s.reset allocation closed).1.opened = s.opened := by
  rw [reset]
  split_ifs <;> exact ⟨rfl, rfl⟩

/-- Where the allocations are some of those there were, with the same mappings. -/
theorem Owned.moves (h : Owned s) (hheld : held allocations = held s.allocations)
    (hfrom : ∀ allocation ∈ allocations, allocation.pointer ≠ 0 → allocation ∈ s.allocations) :
    Owned { s with allocations } where
  accounts := hheld ▸ h.accounts
  sized allocation hmem hpointer := h.sized allocation (hfrom allocation hmem hpointer) hpointer

theorem Owned.moveConstruct (h : Owned s) (ht : s.moveConstruct source = some t) : Owned t := by
  obtain ⟨other, hother, heq⟩ := Option.bind_eq_some_iff.1 ht
  obtain rfl := Option.some.inj heq
  refine h.moves ?_ fun allocation hmem hpointer => ?_
  · rw [held_append, held_singleton, held_set hother]
    exact add_zero _
  · rcases List.mem_append.1 hmem with hmem | hmem
    · rcases List.mem_or_eq_of_mem_set hmem with hmem | rfl
      · exact hmem
      · exact absurd rfl hpointer
    · obtain rfl := List.mem_singleton.1 hmem
      exact List.mem_of_getElem? hother

/-- An allocation that is reset, and whose place is taken. -/
theorem Owned.reset (h : Owned s) (hheld : mapping allocation + held allocations = held s.allocations)
    (hfrom : ∀ allocation ∈ allocations, allocation.pointer ≠ 0 → allocation ∈ s.allocations)
    (closed : Bool) : Owned { (s.reset allocation closed).1 with allocations } where
  accounts := accounts_reset (hheld ▸ h.accounts) closed
  sized allocation' hmem hpointer := by
    show ∃ handle, (handle, allocation') ∈ (s.reset allocation closed).1.opened
    rw [(reset_frame s allocation closed).2]
    exact h.sized allocation' (hfrom allocation' hmem hpointer) hpointer

theorem Owned.moveAssign (h : Owned s) (ht : s.moveAssign target source closed = some t) :
    Owned t := by
  obtain ⟨this, hthis, ht⟩ := Option.bind_eq_some_iff.1 ht
  obtain ⟨other, hother, ht⟩ := Option.bind_eq_some_iff.1 ht
  split_ifs at ht with hself
  · -- an allocation that is assigned to itself
    obtain rfl := Option.some.inj ht
    exact h
  · obtain rfl := Option.some.inj ht
    rw [(reset_frame s this closed).1]
    have hsource : (s.allocations.set target other)[source]? = some other := by
      rw [List.getElem?_set_ne hself, hother]
    refine h.reset ?_ (fun allocation hmem hpointer => ?_) closed
    · have hmoved := held_set hsource {}
      have htaken := held_set hthis other
      refine add_right_cancel (b := mapping other) ?_
      rw [add_assoc, hmoved, ← htaken, add_comm]
      exact congrArg (· + _) (add_zero _)
    · rcases List.mem_or_eq_of_mem_set hmem with hmem | rfl
      · rcases List.mem_or_eq_of_mem_set hmem with hmem | rfl
        · exact hmem
        · exact List.mem_of_getElem? hother
      · exact absurd rfl hpointer

theorem Owned.destroy (h : Owned s) (ht : s.destroy index closed = some t) : Owned t := by
  obtain ⟨this, hthis, ht⟩ := Option.bind_eq_some_iff.1 ht
  obtain rfl := Option.some.inj ht
  rw [(reset_frame s this closed).1]
  exact h.reset (held_erase hthis).symm (fun _ hmem _ => List.mem_of_mem_eraseIdx hmem) closed

/-! ## Opening -/

/-- `open_model` opens nothing, or one mapping, in an allocation of its own. -/
theorem openModel_cases (s : CudaProcess) (size : ℕ) (response : ClientResponse)
    (mapped : Option Pointer) :
    (s.openModel size response mapped).1 = s ∧ (s.openModel size response mapped).2.ok = false ∨
      ∃ descriptor handle pointer, response.error = .none ∧
        Client.parseShareResponse response.payload = some descriptor ∧
        CudaIpcClient.openHandle size descriptor.token = .ok handle ∧ mapped = some pointer ∧
        s.openModel size response mapped =
          ({ s with
            mappings := s.mappings.grant pointer
            allocations := s.allocations ++ [⟨pointer, descriptor.bytes⟩]
            opened := s.opened ++ [(handle, ⟨pointer, descriptor.bytes⟩)] },
          ⟨response, ⟨.none, 0⟩, some ⟨pointer, descriptor.bytes⟩⟩) := by
  rw [openModel]
  by_cases herror : response.error ≠ .none
  · rw [if_pos herror]
    exact .inl ⟨rfl, by simp [CudaOpenResult.ok]⟩
  rw [if_neg herror]
  cases hparsed : Client.parseShareResponse response.payload with
  | none => exact .inl ⟨rfl, by simp [CudaOpenResult.ok]⟩
  | some descriptor =>
    dsimp only
    rw [CudaIpcClient.openToken]
    cases hhandle : CudaIpcClient.openHandle size descriptor.token with
    | error error => exact .inl ⟨rfl, by simp [CudaOpenResult.ok]⟩
    | ok handle =>
      dsimp only
      cases mapped with
      | none => exact .inl ⟨rfl, by simp [CudaOpenResult.ok]⟩
      | some pointer =>
        exact .inr ⟨descriptor, handle, pointer, not_not.1 herror, rfl, hhandle, rfl, rfl⟩

theorem Owned.openModel (h : Owned s) {response : ClientResponse} {mapped : Option Pointer}
    (hpromised : mapped ≠ some 0) : Owned (s.openModel size response mapped).1 := by
  rcases s.openModel_cases size response mapped with ⟨hsame, -⟩ |
    ⟨descriptor, handle, pointer, -, -, -, rfl, hopened⟩
  · rwa [hsame]
  · have hnull : pointer ≠ 0 := fun heq => hpromised (congrArg some heq)
    rw [hopened]
    refine ⟨?_, fun allocation hmem hmapped => ?_⟩
    · show (s.mappings.grant pointer).Accounts (held (s.allocations ++ [_])) s.refused
      rw [held_append, held_singleton, mapping, if_pos hnull, add_comm, Multiset.singleton_add]
      exact h.accounts.grant pointer
    · rcases List.mem_append.1 hmem with hmem | hmem
      · obtain ⟨handle, hopened⟩ := h.sized allocation hmem hmapped
        exact ⟨handle, List.mem_append_left _ hopened⟩
      · obtain rfl := List.mem_singleton.1 hmem
        exact ⟨handle, List.mem_append_right _ (List.mem_singleton.2 rfl)⟩

/-! ## Runs -/

/-- However allocations are opened, moved and destroyed, no mapping is named that is not open, and
    what is open has one allocation that closes it, or was refused to be closed. -/
theorem reachable_mapped (h : (machine size).Reachable s) : Owned s := by
  refine h.invariant (P := Owned) ?_ ?_
  · rintro s rfl
    exact ⟨.empty, List.forall_mem_nil _⟩
  · rintro s a t - hs ⟨hpromised, hstep⟩
    cases a with
    | openModel response mapped =>
      obtain rfl := Option.some.inj hstep
      exact hs.openModel hpromised
    | moveConstruct source => exact hs.moveConstruct hstep
    | moveAssign target source closed => exact hs.moveAssign hstep
    | destroy index closed => exact hs.destroy hstep

/-! ## Runs that are given by their steps -/

/-- The state after a step that the driver's promise admits. -/
def promised (size : ℕ) (s : CudaProcess) (a : Action) : Option CudaProcess :=
  if a.Promised then s.perform size a else none

/-- The state after the steps, where a handle has three bytes. -/
def after (actions : List Action) : CudaProcess := (actions.foldlM (promised 3) {}).getD {}

theorem reachable_after (actions : List Action) : (machine 3).Reachable (after actions) := by
  have hempty : (machine 3).Reachable {} := .init rfl
  refine hempty.getD_foldlM (fun s a t hstep => ?_) actions
  rw [promised] at hstep
  split_ifs at hstep with hpromised
  exact ⟨hpromised, hstep⟩

/-- What the daemon answers to `share`. -/
def sharing : ClientResponse :=
  ⟨.none, formatShareResult (ascii "llm") ⟨.none, 4096, hexToken [0x00, 0x9f, 0xa0]⟩⟩

/-- A mapping is opened twice, and its allocations are moved around and destroyed, where the
    driver refuses to close it the first time. -/
def passing : List Action :=
  [.openModel sharing (some 7), .moveConstruct 0, .moveAssign 0 1 true, .moveAssign 0 0 true,
    .openModel sharing (some 7), .destroy 0 false, .destroy 1 true, .destroy 0 true]

theorem passing_owned :
    (after passing).opened.length = 2 ∧ (after passing).allocations = [] ∧
      (after passing).refused = {7} ∧ Owned (after passing) :=
  ⟨by decide, by decide, by decide, reachable_mapped (reachable_after passing)⟩

end CudaProcess

end Gpumemd
