import Gpumemd.Device.Charges

/-!
# Which device is chosen

`place` fails for lack of memory only where no device has room, and otherwise charges the
first of the least used devices that have room, and no other (`place_least`). How much has
room is what the device reports as free; this is exact as long as an index of a device fits
into a placement.
-/

namespace Gpumemd

open Library

namespace DevicePlacement

variable {s : DevicePlacement} {modelId : Str} {bytes : Bytes} {index : ℕ} {device : Device}

/-- The device has room. -/
def HasRoom (device : Device) (bytes : Bytes) : Prop := bytes ≤ device.capacity - device.used

instance : Decidable (HasRoom device bytes) := inferInstanceAs (Decidable (_ ≤ _))

/-- The device is the first of the least used ones that have room. -/
structure Chosen (s : DevicePlacement) (bytes : Bytes) (index : ℕ) (device : Device) : Prop where
  there : s.devices[index]? = some device
  room : HasRoom device bytes
  least : ∀ other ∈ s.devices, HasRoom other bytes → device.used ≤ other.used
  first : ∀ index' other, s.devices[index']? = some other → HasRoom other bytes →
    other.used = device.used → index ≤ index'

/-- The scan finds no device exactly if none has room. -/
theorem selectDevice_eq_none_iff :
    s.selectDevice bytes = none ↔ ∀ device ∈ s.devices, ¬ HasRoom device bytes := by
  rw [selectDevice, select_eq_none_iff]
  simp only [decide_eq_false_iff_not, HasRoom]

/-- The scan finds the first of the least used devices that have room. -/
theorem chosen_of_selectDevice (h : s.selectDevice bytes = some (index, device)) :
    s.Chosen bytes index device := by
  have htrans (a b c : Device) (hab : decide (a.used < b.used) = true)
      (hbc : decide (b.used < c.used) = true) : decide (a.used < c.used) = true := by
    rw [decide_eq_true_eq] at hab hbc ⊢
    exact UInt64.lt_trans hab hbc
  have hroom : bytes ≤ device.capacity - device.used := by simpa using ok_of_select h
  refine ⟨getElem?_of_select h, hroom, fun other hother hroom => ?_,
    fun index' other hother hroom hused => ?_⟩
  · have hbetter := not_better_of_select (fun a => by simp) htrans h hother (decide_eq_true hroom)
    exact UInt64.not_lt.1 (of_decide_eq_false hbetter)
  · -- what comes before it and has room is used more
    by_contra hlt
    have hbetter := better_of_select_of_lt htrans (fun a b c hab hbc => ?_) h hother
      (Nat.not_le.1 hlt) (decide_eq_true hroom)
    · rw [hused] at hbetter
      exact UInt64.lt_irrefl _ (of_decide_eq_true hbetter)
    · rw [decide_eq_false_iff_not, UInt64.not_lt] at hab hbc ⊢
      exact UInt64.le_trans hbc hab

/-- A placement of a new model, as the scan decides. -/
theorem place_of_unused (hid : modelId ≠ []) (hlength : modelId.length ≤ 64)
    (hunused : ∀ item ∈ s.placements, item.modelId ≠ modelId) (hbytes : bytes ≠ 0) :
    s.place modelId bytes =
      match s.selectDevice bytes with
      | none => (s.noteFree, ⟨.insufficientMemory, 0⟩)
      | some (selected, _) =>
        ({ s.noteFree.charge selected bytes with
            placements := s.placements ++ [⟨modelId, UInt32.ofNat selected, bytes⟩] },
          ⟨.none, UInt32.ofNat selected⟩) := by
  have hany : (s.placements.any fun item => item.modelId == modelId) = false := by
    rw [List.any_eq_false]
    intro item hitem
    simpa using hunused item hitem
  have hshape : ¬ (modelId.isEmpty || decide (modelId.length > 64)) = true := by
    simp [hid, hlength]
  rw [place, if_neg hshape, if_neg hbytes, hany, if_neg Bool.false_ne_true]
  rfl

/-- What a device has room for fits beside what is used of it, as long as an index of a device
    fits into a placement. -/
theorem hasRoom_iff (hs : machine.Reachable s) (hlength : s.devices.length < 2 ^ 32)
    (hdevice : device ∈ s.devices) :
    HasRoom device bytes ↔ device.used.toNat + bytes.toNat ≤ device.capacity.toNat := by
  have hfits := (charged_of_reachable hs hlength).fits device hdevice
  refine ⟨add_le_capacity hfits, fun hle => ?_⟩
  rw [HasRoom, UInt64.le_iff_toNat_le, UInt64.toNat_sub_of_le _ _ hfits]
  omega

/-- The placement of a new model fails for lack of memory exactly if no device has room for
    it. Otherwise it goes to the first of the least used devices that have room, and no other
    device changes. With fewer than `2 ^ 32` devices, the result names the device, and having
    room is exact. -/
theorem place_least (hs : machine.Reachable s) (hid : 0 < modelId.length ∧ modelId.length ≤ 64)
    (hunused : ∀ item ∈ s.placements, item.modelId ≠ modelId) (hbytes : 0 < bytes) :
    ((s.place modelId bytes).2.error = .insufficientMemory ↔
      ∀ device ∈ s.devices, ¬ HasRoom device bytes) ∧
    ((∀ device ∈ s.devices, ¬ HasRoom device bytes) →
      (s.place modelId bytes).1.devices = s.devices ∧
        (s.place modelId bytes).1.placements = s.placements) ∧
    ((∃ device ∈ s.devices, HasRoom device bytes) →
      ∃ index device, s.Chosen bytes index device ∧
        (s.place modelId bytes).2 = ⟨.none, UInt32.ofNat index⟩ ∧
        (s.place modelId bytes).1.placements =
          s.placements ++ [⟨modelId, UInt32.ofNat index, bytes⟩] ∧
        ∀ index', (s.place modelId bytes).1.devices[index']? =
          if index' = index then some { device with used := device.used + bytes }
          else s.devices[index']?) ∧
    (s.devices.length < 2 ^ 32 →
      (∀ index < s.devices.length, (UInt32.ofNat index).toNat = index) ∧
        ∀ device ∈ s.devices, HasRoom device bytes ↔
          device.used.toNat + bytes.toNat ≤ device.capacity.toNat) := by
  have hplace := place_of_unused (List.length_pos_iff.1 hid.1) hid.2 hunused
    (UInt64.pos_iff_ne_zero.1 hbytes)
  have hexact : s.devices.length < 2 ^ 32 →
      (∀ index < s.devices.length, (UInt32.ofNat index).toNat = index) ∧
        ∀ device ∈ s.devices, HasRoom device bytes ↔
          device.used.toNat + bytes.toNat ≤ device.capacity.toNat := fun hlength =>
    ⟨fun index hindex => UInt32.toNat_ofNat_of_lt (hindex.trans hlength),
      fun device hdevice => hasRoom_iff hs hlength hdevice⟩
  cases hselect : s.selectDevice bytes with
  | none =>
    have hnone := selectDevice_eq_none_iff.1 hselect
    rw [hplace, hselect]
    refine ⟨iff_of_true rfl hnone, fun _ => ⟨rfl, rfl⟩, ?_, hexact⟩
    rintro ⟨device, hdevice, hroom⟩
    exact absurd hroom (hnone device hdevice)
  | some selected =>
    obtain ⟨index, device⟩ := selected
    have hchosen := chosen_of_selectDevice hselect
    have hsome : ¬ ∀ device ∈ s.devices, ¬ HasRoom device bytes := fun hnone =>
      hnone device (List.mem_of_getElem? hchosen.there) hchosen.room
    rw [hplace, hselect]
    refine ⟨iff_of_false (fun herror => PlacementError.noConfusion herror) hsome,
      fun hnone => absurd hnone hsome, fun _ => ⟨index, device, hchosen, rfl, rfl, fun index' => ?_⟩,
      hexact⟩
    refine (getElem?_charge (s := s.noteFree)).trans ?_
    show (s.devices[index']?.map fun device =>
      if index = index' then { device with used := device.used + bytes } else device) = _
    by_cases heq : index' = index
    · rw [if_pos heq, heq, hchosen.there, Option.map_some, if_pos rfl]
    · simp [heq, Ne.symm heq]

/-- The second device is the less used one. -/
theorem placed_least :
    (∃ index device, placed.Chosen 10 index device ∧
      (placed.place (ascii "next") 10).2 = ⟨.none, UInt32.ofNat index⟩) ∧
      (placed.place (ascii "next") 10).2.device = 1 := by
  obtain ⟨-, -, hchosen, -⟩ := place_least placed_reachable
    (show 0 < (ascii "next").length ∧ (ascii "next").length ≤ 64 by decide) (by decide)
    (show (0 : Bytes) < 10 by decide)
  obtain ⟨index, device, h, hresult, -⟩ := hchosen ⟨⟨200, 0⟩, by decide, by decide⟩
  exact ⟨⟨index, device, h, hresult⟩, by decide⟩

end DevicePlacement

end Gpumemd
