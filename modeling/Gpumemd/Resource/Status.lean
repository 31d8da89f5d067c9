import Gpumemd.Library.Sorted
import Gpumemd.Resource.Requests

/-!
# The status

`ResourceManager::status` (`src/core/resource_manager.cpp`): the reservations of clients
and of models, under labels that tell the ones from the others, in the order of the labels.

Only valid names are reserved or queued (`reachable_named`), and these have no colon. So each
reservation is listed once, in the strict order of the labels, and they sum to what is used
(`status_exact`).
-/

namespace Gpumemd

open Library

/-- `Reservation`. -/
structure Reservation where
  name : Str
  bytes : Bytes
  deriving DecidableEq

/-- `StatusSnapshot`. -/
structure StatusSnapshot where
  capacity : Bytes
  used : Bytes
  free : Bytes
  reservations : List Reservation
  deriving DecidableEq

namespace ResourceManager

/-- `ResourceManager::status`. -/
def status (s : ResourceManager) : StatusSnapshot :=
  let clients : List Reservation :=
    (Table.sortedEntries s.reservations).map fun (name, bytes) => ⟨name, bytes⟩
  let models : List Reservation :=
    (Table.sortedEntries s.modelReservations).map fun (id, bytes) => ⟨ascii "model:" ++ id, bytes⟩
  { capacity := s.capacity
    used := s.used
    free := s.capacity - s.used
    reservations := (clients ++ models).insertionSort fun left right => left.name ≤ right.name }

variable {s t : ResourceManager}

theorem mem_status_reservations {reservation : Reservation} :
    reservation ∈ s.status.reservations ↔
      s.reservations.lookup reservation.name = some reservation.bytes ∨
        ∃ id, s.modelReservations.lookup id = some reservation.bytes ∧
          reservation.name = ascii "model:" ++ id := by
  obtain ⟨name, bytes⟩ := reservation
  simp only [status, List.mem_insertionSort, List.mem_append, List.mem_map, Prod.exists,
    Table.mem_sortedEntries, Reservation.mk.injEq]
  refine or_congr ⟨?_, fun h => ⟨_, _, h, rfl, rfl⟩⟩ ⟨?_, ?_⟩
  · rintro ⟨_, _, h, rfl, rfl⟩
    exact h
  · rintro ⟨id, _, h, rfl, rfl⟩
    exact ⟨id, h, rfl⟩
  · rintro ⟨id, h, hname⟩
    exact ⟨_, _, h, hname.symm, rfl⟩

/-! ## Names -/

/-- What is reserved or queued has a valid name. -/
structure Named (s : ResourceManager) : Prop where
  clients : ∀ name ∈ s.reservations, validName name = true
  models : ∀ id ∈ s.modelReservations, validName id = true
  queued : ∀ r ∈ s.pending, validName r.name = true

namespace Named

/-- An operation that reserves and queues nothing. -/
theorem mono (h : Named s) (hclients : ∀ name ∈ t.reservations, name ∈ s.reservations)
    (hmodels : ∀ id ∈ t.modelReservations, id ∈ s.modelReservations)
    (hpending : t.pending ⊆ s.pending) : Named t where
  clients name hname := h.clients name (hclients name hname)
  models id hid := h.models id (hmodels id hid)
  queued r hr := h.queued r (hpending hr)

theorem grant (h : Named s) {now : TimePoint} {index : ℕ} {request : PendingRequest}
    (hselect : s.selectPending = some (index, request)) : Named (s.grant now index request) where
  clients name hname := by
    rcases Table.mem_emplace.1 hname with rfl | hname
    · exact h.queued request (mem_of_selectPending hselect)
    · exact h.clients name hname
  models := h.models
  queued r hr := h.queued r (pending_grant_sublist.subset hr)

theorem grantWaitersLocked (h : Named s) (now : TimePoint) : Named (s.grantWaitersLocked now) :=
  grantWaitersLocked_induct (P := Named) (Q := Named)
    (h.mono (fun _ => id) (fun _ => id) List.filter_sublist.subset) (fun _ h => ⟨h.1, h.2, h.3⟩)
    (fun _ _ _ h hselect => h.grant hselect) (fun _ h => ⟨h.1, h.2, h.3⟩)

theorem move (h : Named s) (hm : Move s t) : Named t := by
  cases hm with
  | pass => exact h.grantWaitersLocked _
  | grantAtOnce hname _ _ _ _ =>
    refine ⟨fun name hmem => ?_, h.models, h.queued⟩
    rcases Table.mem_emplace.1 hmem with rfl | hmem
    · exact hname
    · exact h.clients name hmem
  | enqueue hname _ _ _ =>
    refine ⟨h.clients, h.models, fun r hr => ?_⟩
    rcases List.mem_append.1 hr with hr | hr
    · exact h.queued r hr
    · exact (List.mem_singleton.1 hr) ▸ hname
  | wait => exact ⟨h.clients, h.models, h.queued⟩
  | resume => exact ⟨h.clients, h.models, h.queued⟩
  | expireRequest => exact h.mono (fun _ => id) (fun _ => id) List.filter_sublist.subset
  | dropClient => exact h.mono (fun _ hmem => (Finmap.mem_erase.1 hmem).2) (fun _ => id) fun _ => id
  | cancelWaiters => exact h.mono (fun _ => id) (fun _ => id) (List.nil_subset _)
  | reserveModel hid _ _ _ =>
    refine ⟨h.clients, fun id' hmem => ?_, h.queued⟩
    rcases Table.mem_emplace.1 hmem with rfl | hmem
    · exact hid
    · exact h.models id' hmem
  | dropModel => exact h.mono (fun _ => id) (fun _ hmem => (Finmap.mem_erase.1 hmem).2) fun _ => id

theorem moves (h : Named s) (hm : Moves s t) : Named t := by
  induction hm with
  | refl => exact h
  | tail _ hm ih => exact ih.move hm

end Named

theorem reachable_named (hs : machine.Reachable s) : Named s := by
  refine hs.invariant ?_ ?_
  · rintro s ⟨capacity, policy, h⟩
    obtain rfl := eq_of_create h
    refine ⟨fun name hmem => ?_, fun id hmem => ?_, List.forall_mem_nil _⟩
    · exact absurd hmem Finmap.notMem_empty
    · exact absurd hmem Finmap.notMem_empty
  · rintro s a t hs h ⟨ha, rfl⟩
    exact h.moves (reachable_moves hs ha)

/-! ## Labels -/

/-- A valid name has no colon, so it is not the label of a model. -/
theorem ne_label {name : Str} (hname : validName name = true) (id : Str) :
    name ≠ ascii "model:" ++ id := by
  rintro rfl
  obtain ⟨-, -, hbytes⟩ := nameShape_iff.1 hname
  have hcolon : ':'.toUInt8 ∈ ascii "model:" ++ id := by
    rw [ascii_ofList]
    exact List.mem_append_left _ (by decide)
  exact absurd (hbytes _ hcolon) (by decide)

theorem label_lt {name name' : Str} (hle : name ≤ name') (hne : name ≠ name') : name < name' := by
  by_contra hlt
  exact hne (Std.Antisymm.antisymm _ _ hle (List.not_lt.1 hlt))

/-- The reservations of the clients, under their names. -/
def clientReservations (s : ResourceManager) : List Reservation :=
  (Table.sortedEntries s.reservations).map fun (name, bytes) => ⟨name, bytes⟩

/-- The reservations of the models, under their labels. -/
def labelledReservations (s : ResourceManager) : List Reservation :=
  (Table.sortedEntries s.modelReservations).map fun (id, bytes) => ⟨ascii "model:" ++ id, bytes⟩

theorem status_perm (s : ResourceManager) :
    s.status.reservations.Perm (s.clientReservations ++ s.labelledReservations) :=
  List.perm_insertionSort _ _

theorem map_name_clientReservations :
    s.clientReservations.map (·.name) = Table.sortedKeys s.reservations := by
  rw [clientReservations, List.map_map]
  exact Table.map_fst_sortedEntries

theorem map_name_labelledReservations :
    s.labelledReservations.map (·.name) =
      (Table.sortedKeys s.modelReservations).map (ascii "model:" ++ ·) := by
  rw [← Table.map_fst_sortedEntries, labelledReservations, List.map_map, List.map_map]
  rfl

/-- No label is listed twice: neither of two clients, nor of two models, nor of both. -/
theorem nodup_labels (h : Named s) :
    ((s.clientReservations ++ s.labelledReservations).map (·.name)).Nodup := by
  rw [List.map_append, map_name_clientReservations, map_name_labelledReservations,
    List.nodup_append]
  refine ⟨Table.nodup_sortedKeys _,
    (Table.nodup_sortedKeys _).map (List.append_right_injective _), ?_⟩
  rintro name hname _ hlabel rfl
  obtain ⟨id, -, hid⟩ := List.mem_map.1 hlabel
  exact ne_label (h.clients name (Table.mem_sortedKeys.1 hname)) id hid.symm

/-- So they are in strict order. -/
theorem pairwise_labels (h : Named s) :
    (s.status.reservations.map (·.name)).Pairwise (· < ·) := by
  have hsorted : s.status.reservations.Pairwise fun left right => left.name ≤ right.name :=
    List.pairwise_insertionSort (fun left right : Reservation => left.name ≤ right.name) _
  have hnodup : (s.status.reservations.map (·.name)).Nodup :=
    ((status_perm s).map _).nodup_iff.2 (nodup_labels h)
  exact ((List.pairwise_map.2 hsorted).and hnodup).imp fun h => label_lt h.1 h.2

/-- What is listed adds up to what the two tables hold. -/
theorem sum_status : (s.status.reservations.map (·.bytes.toNat)).sum =
    Table.weight UInt64.toNat s.reservations + Table.weight UInt64.toNat s.modelReservations := by
  rw [((status_perm s).map _).sum_eq, List.map_append, List.sum_append, clientReservations,
    labelledReservations, List.map_map, List.map_map, ← Table.sum_sortedEntries,
    ← Table.sum_sortedEntries]
  rfl

/-- A list without duplicates counts what it has once. -/
theorem count_status (h : Named s) {reservation : Reservation}
    (hmem : reservation ∈ s.status.reservations) : s.status.reservations.count reservation = 1 := by
  have hnodup : s.status.reservations.Nodup :=
    ((status_perm s).nodup_iff).2 (List.Nodup.of_map _ (nodup_labels h))
  exact List.count_eq_one_of_mem hnodup hmem

/-- In every state of a run the status is exact: what is free does not wrap around, and is
    followed by each reservation once, that of a client under its name and that of a model under
    its label, in the strict order of these, with bytes that sum to what is used. No name that
    is valid is a label of a model, and only valid names are reserved or queued. -/
theorem status_exact (hs : machine.Reachable s) :
    (s.status.used ≤ s.status.capacity ∧
      s.status.free.toNat = s.status.capacity.toNat - s.status.used.toNat) ∧
    (s.status.reservations.map (·.name)).Pairwise (· < ·) ∧
    (∀ name bytes, s.reservations.lookup name = some bytes →
      s.status.reservations.count ⟨name, bytes⟩ = 1) ∧
    (∀ id bytes, s.modelReservations.lookup id = some bytes →
      s.status.reservations.count ⟨ascii "model:" ++ id, bytes⟩ = 1) ∧
    (∀ reservation ∈ s.status.reservations,
      s.reservations.lookup reservation.name = some reservation.bytes ∨
        ∃ id, s.modelReservations.lookup id = some reservation.bytes ∧
          reservation.name = ascii "model:" ++ id) ∧
    (s.status.reservations.map (·.bytes.toNat)).sum = s.status.used.toNat ∧
    (∀ name id, validName name = true → name ≠ ascii "model:" ++ id) ∧
    ((∀ name ∈ s.reservations, validName name = true) ∧
      (∀ id ∈ s.modelReservations, validName id = true) ∧
      ∀ request ∈ s.pending, validName request.name = true) := by
  have hnamed := reachable_named hs
  have haccounted := (reachable_inv hs).accounted
  refine ⟨⟨haccounted.used_le_capacity, haccounted.free_toNat⟩, pairwise_labels hnamed,
    fun name bytes hlookup => count_status hnamed (mem_status_reservations.2 (.inl hlookup)),
    fun id bytes hlookup => count_status hnamed (mem_status_reservations.2 (.inr ⟨id, hlookup, rfl⟩)),
    fun _ => mem_status_reservations.1, ?_, fun name id hname => ne_label hname id,
    hnamed.clients, hnamed.models, hnamed.queued⟩
  exact sum_status.trans haccounted.balanced.used_eq.symm

/-- A client and a model of the same name. -/
def namesakes : ResourceManager :=
  let s : ResourceManager := { capacity := 100, schedulingPolicy := .priorityFifo }
  let s := (s.perform (.tryAcquire (ascii "bert") 25 0)).1
  (s.perform (.acquireModel (ascii "bert") 50)).1

theorem namesakes_reachable : machine.Reachable namesakes := by
  have hidle : machine.Reachable { capacity := 100, schedulingPolicy := .priorityFifo } :=
    .init ⟨100, .priorityFifo, rfl⟩
  have hclient := reachable_perform hidle (a := .tryAcquire (ascii "bert") 25 0) trivial
  exact reachable_perform hclient (a := .acquireModel (ascii "bert") 50) trivial

theorem namesakes_exact :
    namesakes.status.reservations.count ⟨ascii "bert", 25⟩ = 1 ∧
      namesakes.status.reservations.count ⟨ascii "model:bert", 50⟩ = 1 ∧
      (namesakes.status.reservations.map (·.bytes.toNat)).sum = 75 := by
  obtain ⟨-, -, hclients, hmodels, -, hsum, -⟩ := status_exact namesakes_reachable
  exact ⟨hclients _ _ (by decide), hmodels (ascii "bert") 50 (by decide), hsum⟩

end ResourceManager

end Gpumemd
