import Mathlib.Algebra.BigOperators.Fin
import Gpumemd.Device.Choice
import Gpumemd.Library.Scheduling

/-!
# How good the placements are

`place` looks at the devices as they are, and never moves a model. What it loses by that is
bounded, for `n` devices:

* as long as models come and none leaves, devices of the same capacity are loaded evenly, up to
  one model, and to less than twice of what the best arrangement of the models needs
  (`places_balanced`);
* in any run, whatever the capacities are, a model that is refused for lack of memory cannot be
  placed by an arrangement that stays within `1 / (2 * n - 1)` of all memory on each device
  (`refused_of_full`).
-/

namespace Gpumemd

open Library

namespace DevicePlacement

/-- Models come, and none leaves. -/
def Action.IsPlacement : Action → Prop
  | .place .. => True
  | .release _ => False

/-- What the models would take of a device, if they were arranged otherwise. -/
def arrangedLoad (arrangement : Str → ℕ) (placements : List DevicePlacementRecord) (index : ℕ) : ℕ :=
  ((placements.filter fun item => arrangement item.modelId == index).map (·.bytes.toNat)).sum

/-- The capacities of the devices. -/
def capacities (s : DevicePlacement) : List Bytes := s.devices.map (·.capacity)

/-- The devices have the same capacity. -/
def Uniform (s : DevicePlacement) : Prop :=
  ∀ capacity ∈ s.capacities, ∀ other ∈ s.capacities, capacity = other

-- Over the list, and not over all values of `Bytes`.
instance (s : DevicePlacement) : Decidable s.Uniform :=
  @List.decidableBAll _ _ (fun _ => List.decidableBAll _ _) _

/-- Each placement was on one of the least loaded devices. -/
abbrev PlacedInTurn (s : DevicePlacement) : Prop :=
  ScheduledInTurn (fun item => item.bytes.toNat) (fun item : DevicePlacementRecord => item.device.toNat)
    (.range s.devices.length) s.placements

variable {s : DevicePlacement} {modelId : Str} {bytes : Bytes} {index : ℕ} {device other : Device}
  {arrangement : Str → ℕ}

/-! ## Placements -/

theorem not_hasRoom_of_place (h : (s.place modelId bytes).2.error = .insufficientMemory) :
    ∀ device ∈ s.devices, ¬ HasRoom device bytes := by
  rw [place] at h
  split_ifs at h
  split at h
  next hselect => exact selectDevice_eq_none_iff.1 hselect
  next => cases h

theorem chosen_of_place (h : Charged s) (modelId : Str) (bytes : Bytes) :
    (s.place modelId bytes).1 = s ∨ ∃ index device, s.Chosen bytes index device ∧
      (s.place modelId bytes).1.placements =
        s.placements ++ [⟨modelId, UInt32.ofNat index, bytes⟩] := by
  rw [place]
  split_ifs
  · exact .inl rfl
  · exact .inl rfl
  · exact .inl rfl
  · split
    next => exact .inl h.noteFree
    next index device hselect => exact .inr ⟨index, device, chosen_of_selectDevice hselect, rfl⟩

/-- Where one device has room, so has any of the same capacity that is used less. -/
theorem Chosen.used_le (h : Charged s) (huniform : s.Uniform)
    (hchosen : s.Chosen bytes index device) (hother : other ∈ s.devices) :
    device.used ≤ other.used := by
  have hdevice : device ∈ s.devices := List.mem_of_getElem? hchosen.there
  rcases UInt64.le_total device.used other.used with hle | hle
  · exact hle
  · refine hchosen.least other hother ?_
    have hroom := hchosen.room
    have hsub {device : Device} (hdevice : device ∈ s.devices) :
        (device.capacity - device.used).toNat = device.capacity.toNat - device.used.toNat :=
      UInt64.toNat_sub_of_le _ _ (h.fits device hdevice)
    rw [HasRoom, UInt64.le_iff_toNat_le, hsub hdevice, huniform _ (List.mem_map_of_mem hdevice) _
      (List.mem_map_of_mem hother)] at hroom
    rw [HasRoom, UInt64.le_iff_toNat_le, hsub hother]
    exact hroom.trans (Nat.sub_le_sub_left (UInt64.le_iff_toNat_le.1 hle) _)

theorem PlacedInTurn.place (hs : s.PlacedInTurn) (h : Charged s) (huniform : s.Uniform)
    (hlength : s.devices.length < 2 ^ 32) (modelId : Str) (bytes : Bytes) :
    (s.place modelId bytes).1.PlacedInTurn := by
  have hdevices : (s.place modelId bytes).1.devices.length = s.devices.length :=
    length_perform s (.place modelId bytes)
  rcases chosen_of_place h modelId bytes with hsame | ⟨index, device, hchosen, hplacements⟩
  · rwa [hsame]
  · rw [PlacedInTurn, hdevices, hplacements]
    refine hs.snoc fun other hother => ?_
    have hindex : (UInt32.ofNat index).toNat = index :=
      UInt32.toNat_ofNat_of_lt ((List.getElem?_eq_some_iff.1 hchosen.there).1.trans hlength)
    have hthere := List.getElem?_eq_getElem (Finset.mem_range.1 hother)
    show load s.placements (UInt32.ofNat index).toNat ≤ load s.placements other
    rw [hindex, ← h.used index device hchosen.there, ← h.used other _ hthere]
    exact UInt64.le_iff_toNat_le.1 (hchosen.used_le h huniform (List.mem_of_getElem? hthere))

/-! ## Runs -/

/-- A sum, by the indices of the list. -/
theorem sum_eq_sum_range (l : List ℕ) : l.sum = ∑ index ∈ .range l.length, l[index]?.getD 0 := by
  rw [Finset.sum_range, ← Fin.sum_univ_getElem]
  exact Fintype.sum_congr _ _ fun index => by simp

theorem capacities_charge : (s.charge index bytes).capacities = s.capacities := by
  refine List.ext_getElem? fun index' => ?_
  rw [capacities, capacities, List.getElem?_map, List.getElem?_map, getElem?_charge, Option.map_map]
  cases s.devices[index']? with
  | none => rfl
  | some device =>
    simp only [Option.map_some, Function.comp_apply]
    split_ifs <;> rfl

theorem capacities_refund : (s.refund index bytes).capacities = s.capacities := by
  refine List.ext_getElem? fun index' => ?_
  rw [capacities, capacities, List.getElem?_map, List.getElem?_map, getElem?_refund, Option.map_map]
  cases s.devices[index']? with
  | none => rfl
  | some device =>
    simp only [Option.map_some, Function.comp_apply]
    split_ifs <;> rfl

theorem capacities_perform (s : DevicePlacement) (a : Action) :
    (s.perform a).1.capacities = s.capacities := by
  cases a with
  | place modelId bytes =>
    rw [perform, place]
    split_ifs
    · rfl
    · rfl
    · rfl
    · split
      · rfl
      · exact capacities_charge (s := s.noteFree)
  | release modelId =>
    rw [perform, release]
    split
    · rfl
    · exact capacities_refund

theorem placedInTurn_of_places (h : (machine.restrict fun _ a _ => a.IsPlacement).Reachable s)
    (hlength : s.devices.length < 2 ^ 32) (huniform : s.Uniform) : s.PlacedInTurn := by
  refine h.invariant
    (P := fun s => s.devices.length < 2 ^ 32 → s.Uniform → s.PlacedInTurn) ?_ ?_ hlength huniform
  · rintro s ⟨capacities, hcreate⟩ - -
    rw [create] at hcreate
    split_ifs at hcreate
    obtain rfl := Except.ok.inj hcreate
    exact .nil
  · rintro s a _ hreachable hs ⟨rfl, ha⟩ hlength huniform
    rw [length_perform] at hlength
    rw [Uniform, capacities_perform] at huniform
    cases a with
    | place modelId bytes =>
      have hcharged := charged_of_reachable hreachable.of_restrict hlength
      exact (hs hlength huniform).place hcharged huniform hlength modelId bytes
    | release modelId => exact absurd ha id

/-! ## What the placements come to -/

/-- In a run in which no model leaves, on devices of the same capacity: a device is used by at most
    one of its models more than any other one, and by at most `2 - 1 / n` times of what some device
    is used in any other arrangement of the models. -/
theorem places_balanced (h : (machine.restrict fun _ a _ => a.IsPlacement).Reachable s)
    (hlength : s.devices.length < 2 ^ 32) (huniform : s.Uniform)
    (hdevice : s.devices[index]? = some device) :
    (device.used ≠ 0 → ∃ item ∈ s.placements, item.device.toNat = index ∧
      ∀ other ∈ s.devices, device.used.toNat ≤ other.used.toNat + item.bytes.toNat) ∧
    ∀ arrangement : Str → ℕ,
      (∀ item ∈ s.placements, arrangement item.modelId < s.devices.length) →
      ∃ index' < s.devices.length, s.devices.length * device.used.toNat ≤
        (2 * s.devices.length - 1) * arrangedLoad arrangement s.placements index' := by
  have hplaced := placedInTurn_of_places h hlength huniform
  have hcharged := charged_of_reachable h.of_restrict hlength
  have hused : device.used.toNat = load s.placements index := hcharged.used index device hdevice
  refine ⟨fun hnonzero => ?_, fun arrangement harrangement => ?_⟩
  · have hload : load s.placements index ≠ 0 := by
      rw [← hused]
      exact fun hzero => hnonzero (UInt64.toNat_inj.1 hzero)
    obtain ⟨item, hitem, hindex, hle⟩ := hplaced.workload_le_add hload
    refine ⟨item, hitem, hindex, fun other hother => ?_⟩
    obtain ⟨index', hthere⟩ := List.mem_iff_getElem?.1 hother
    rw [hused, hcharged.used index' other hthere]
    exact hle index' (Finset.mem_range.2 (List.getElem?_eq_some_iff.1 hthere).1)
  · have hindex : index < s.devices.length := (List.getElem?_eq_some_iff.1 hdevice).1
    obtain ⟨index', hindex', hle⟩ := hplaced.workload_le_mul
      (fun item hitem => Finset.mem_range.2 (hcharged.named item hitem))
      (fun item hitem => Finset.mem_range.2 (harrangement item hitem)) (Finset.mem_range.2 hindex)
    rw [Finset.card_range] at hle
    exact ⟨index', Finset.mem_range.1 hindex', hused ▸ hle⟩

/-- Two devices of the same capacity, with three models. -/
def even : DevicePlacement :=
  let s : DevicePlacement := { devices := [⟨100, 0⟩, ⟨100, 0⟩] }
  let s := (s.place (ascii "first") 60).1
  let s := (s.place (ascii "second") 40).1
  (s.place (ascii "third") 50).1

theorem even_reachable : (machine.restrict fun _ a _ => a.IsPlacement).Reachable even := by
  have hinit : (machine.restrict fun _ a _ => a.IsPlacement).Reachable
      { devices := [⟨100, 0⟩, ⟨100, 0⟩] } := .init ⟨[100, 100], rfl⟩
  have hrun : (machine.restrict fun _ a _ => a.IsPlacement).Run
      { devices := [⟨100, 0⟩, ⟨100, 0⟩] }
      [.place (ascii "first") 60, .place (ascii "second") 40, .place (ascii "third") 50] even :=
    .cons ⟨rfl, trivial⟩ (.cons ⟨rfl, trivial⟩ (.cons ⟨rfl, trivial⟩ (.nil _)))
  exact hinit.run hrun

theorem even_balanced :
    (∃ item ∈ even.placements, item.device.toNat = 1 ∧
      ∀ other ∈ even.devices, 90 ≤ other.used.toNat + item.bytes.toNat) ∧
    ∃ index < 2, 2 * 90 ≤ 3 * arrangedLoad (fun id => if id = ascii "third" then 1 else 0)
      even.placements index := by
  have hdevice : even.devices[1]? = some ⟨100, 90⟩ := by decide
  obtain ⟨hitem, harranged⟩ := places_balanced even_reachable (by decide) (by decide) hdevice
  exact ⟨hitem (by decide), harranged _ (by decide)⟩

/-- In any run: a model that is refused for lack of memory does not fit with the placed ones in any
    arrangement that takes at most `1 / (2 * n - 1)` of all memory of each device. -/
theorem refused_of_full (h : machine.Reachable s) (hlt : s.devices.length < 2 ^ 32)
    (hrefused : (s.place modelId bytes).2.error = .insufficientMemory)
    (harrangement : ∀ item ∈ s.placements, arrangement item.modelId < s.devices.length)
    (hnew : arrangement modelId < s.devices.length) :
    ∃ index < s.devices.length, (s.capacities.map (·.toNat)).sum < (2 * s.devices.length - 1) *
      arrangedLoad arrangement (s.placements ++ [⟨modelId, 0, bytes⟩]) index := by
  have hcharged := charged_of_reachable h hlt
  have hroom := not_hasRoom_of_place hrefused
  have hlength : (s.capacities.map (·.toNat)).length = s.devices.length := by
    rw [List.length_map, capacities, List.length_map]
  have hfull : ∀ index ∈ Finset.range s.devices.length,
      (s.capacities.map (·.toNat))[index]?.getD 0 < load s.placements index + bytes.toNat := by
    intro index hindex
    have hthere := List.getElem?_eq_getElem (Finset.mem_range.1 hindex)
    have hdevice := List.mem_of_getElem? hthere
    have hnot := hroom _ hdevice
    rw [hasRoom_iff h hlt hdevice, not_le, hcharged.used index _ hthere] at hnot
    simpa [capacities, hthere] using hnot
  rw [sum_eq_sum_range, hlength]
  have hother : ∀ item ∈ s.placements ++ [⟨modelId, 0, bytes⟩],
      arrangement item.modelId ∈ Finset.range s.devices.length := by
    intro item hitem
    rw [Finset.mem_range]
    rcases List.mem_append.1 hitem with hitem | hitem
    · exact harrangement item hitem
    · obtain rfl := List.mem_singleton.1 hitem
      exact hnew
  obtain ⟨index, hindex, hle⟩ := exists_lt_mul_workload ⟨_, Finset.mem_range.2 hnew⟩
    (fun item hitem => Finset.mem_range.2 (hcharged.named item hitem)) hother hfull
  rw [Finset.card_range] at hle
  exact ⟨index, Finset.mem_range.1 hindex, hle⟩

theorem even_refused :
    ∃ index < 2, 200 < 3 * arrangedLoad (fun id => if id = ascii "third" then 1 else 0)
      (even.placements ++ [⟨ascii "fourth", 0, 50⟩]) index :=
  refused_of_full even_reachable.of_restrict (by decide) (by decide) (by decide) (by decide)

end DevicePlacement

end Gpumemd
