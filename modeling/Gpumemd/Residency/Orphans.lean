import Gpumemd.Residency.Capacity

/-!
# Orphans

A load discards what the backend answers when it rolls back and when it evicts. If the
backend fails to unload there, it goes on holding a model that is neither resident nor
charged, and that no `unload` will take away (`leaking_stranding_orphans`). Every
other failure of the backend is seen: as long as it does not fail to unload what it holds
for a load, whatever it holds between operations is resident and charged
(`reachable_charged`).
-/

namespace Gpumemd

open Library

namespace Daemon

variable {s : Daemon} {id : Str} {bytes : Bytes}

/-- What the backend holds of `id` is resident, charged, and there to be unloaded. -/
structure Charged (s : Daemon) (id : Str) (bytes : Bytes) : Prop where
  resident : ∃ record, s.records.lookup id = some record ∧ record.resident = true ∧
    record.footprintBytes = bytes
  reserved : s.resources.modelReservations.lookup id = some bytes
  unloadable : (s.unload id).2 = .running ∨ (s.unload id).2 = .returned ⟨.modelInUse, 0⟩

/-- What is resident can be unloaded, unless it is in use. -/
theorem unload_of_resident (h : Inv s) (hidle : s.running = none) {record : ResidencyRecord}
    (hrecord : s.residentRecord id = some record) :
    (s.unload id).2 = .running ∨ (s.unload id).2 = .returned ⟨.modelInUse, 0⟩ := by
  obtain ⟨hlookup, _⟩ := residentRecord_eq_some_iff.1 hrecord
  obtain ⟨_, model, hmodel, _⟩ := h.agrees (by simp [hidle]) hlookup
  simp only [unload, hmodel, hrecord]
  split_ifs
  · exact .inr rfl
  · exact .inl rfl

/-- If the backend does not fail to unload what it holds for a load, there are no orphans:
    whatever else fails, between operations it holds nothing that is not charged. -/
theorem reachable_charged (h : (machine.restrict UnloadsForLoad).Reachable s)
    (hidle : s.running = none) (hheld : s.backend.allocations.lookup id = some bytes) :
    s.Charged id bytes := by
  have hinv := reachable_inv h.of_restrict
  have hresident : s.heldBytes id = some bytes := by
    rw [← hheld, reachable_backed h, expectedBacking_level (by rw [hidle]; rfl)]
  obtain ⟨record, hrecord, _⟩ := Option.map_eq_some_iff.1 hresident
  refine ⟨heldBytes_eq_some_iff.1 hresident, ?_, unload_of_resident hinv hidle hrecord⟩
  rw [hinv.reserved, (steady_of_idle hidle).expected_eq, hresident]

/-- `m` is resident, although the backend has failed to unload it once. -/
def persisting : Daemon :=
  stocked.performAll [.unload (ascii "m"), .advance { fault := true }]

theorem persisting_charged : persisting.Charged (ascii "m") 60 := by
  have h : (machine.restrict UnloadsForLoad).Reachable persisting :=
    (stocked_reachable.mono fun _ _ _ => UnloadsHeld.forLoad).run
      (run_performAll (by
        refine ⟨by decide, trivial, by decide, fun id hid => ?_, trivial⟩
        -- an unload that was asked for is not one for a load
        cases hid))
  exact reachable_charged h (by decide) (by decide)

/-- The load of `n` is refused, since a client has taken what it needs, and the backend
    has failed to unload it again. -/
def stranding : Daemon :=
  stocked.performAll [.registerModel (ascii "n") 30 (ascii "-"), .load (ascii "n"),
    .advance { ranking := [ascii "m"] }, .advance {}, .client (.tryAcquire (ascii "c") 20 0),
    .advance {}, .advance { fault := true }]

/-- A load that evicts may leave the model that it evicts as an orphan, and a load that is
    refused its own. -/
theorem leaking_stranding_orphans :
    (machine.Reachable leaking ∧ leaking.running = none ∧
        leaking.backend.allocations.lookup (ascii "m") = some 60 ∧
        leaking.residentRecord (ascii "m") = none ∧
        leaking.resources.modelReservations.lookup (ascii "m") = none) ∧
      (machine.Reachable stranding ∧ stranding.running = none ∧
        stranding.backend.allocations.lookup (ascii "n") = some 30 ∧
        stranding.residentRecord (ascii "n") = none ∧
        stranding.resources.modelReservations.lookup (ascii "n") = none) ∧
      ¬ ∀ s, machine.Reachable s → s.running = none → ∀ id bytes,
        s.backend.allocations.lookup id = some bytes →
          ∃ record, s.records.lookup id = some record ∧ record.resident = true := by
  have hleaking : machine.Reachable leaking :=
    replacing_reachable.of_restrict.run
      (run_performAll (C := fun _ _ _ => True) (by decide)).of_restrict
  have hstranding : machine.Reachable stranding :=
    stocked_reachable.of_restrict.run
      (run_performAll (C := fun _ _ _ => True) (by decide)).of_restrict
  refine ⟨⟨hleaking, by decide, by decide, by decide, by decide⟩,
    ⟨hstranding, by decide, by decide, by decide, by decide⟩, fun h => ?_⟩
  obtain ⟨record, hrecord, hresident⟩ := h leaking hleaking (by decide) (ascii "m") 60 (by decide)
  have hnone : leaking.residentRecord (ascii "m") = none := by decide
  rw [residentRecord_eq_some_iff.2 ⟨hrecord, hresident⟩] at hnone
  cases hnone

end Daemon

end Gpumemd
