import Gpumemd.Device.Placement
import Gpumemd.Library.Keyed

/-!
# What is used of the devices

What a device keeps as used is the sum of the placements on it, and at most its capacity
(`charged_of_reachable`), as long as an index of a device fits into a placement.
-/

namespace Gpumemd

open Library

namespace DevicePlacement

/-- What the placements on a device take of it. -/
def load (placements : List DevicePlacementRecord) (index : ℕ) : ℕ :=
  ((placements.filter fun item => item.device.toNat == index).map (·.bytes.toNat)).sum

variable {s : DevicePlacement} {modelId : Str} {bytes : Bytes} {index : ℕ} {device : Device}
  {item : DevicePlacementRecord} {placements placements' : List DevicePlacementRecord}

theorem load_cons : load (item :: placements) index =
    (if item.device.toNat = index then item.bytes.toNat else 0) + load placements index := by
  rw [load, List.filter_cons]
  split_ifs with h h' h'
  · rfl
  · exact absurd (beq_iff_eq.1 h) h'
  · exact absurd (beq_iff_eq.2 h') h
  · exact (Nat.zero_add _).symm

theorem load_perm (h : placements.Perm placements') : load placements index = load placements' index :=
  ((h.filter _).map _).sum_eq

/-- The invariant. -/
structure Charged (s : DevicePlacement) : Prop where
  used : ∀ index device, s.devices[index]? = some device →
    device.used.toNat = load s.placements index
  fits : ∀ device ∈ s.devices, device.used ≤ device.capacity
  named : ∀ item ∈ s.placements, item.device.toNat < s.devices.length
  ids : (s.placements.map (·.modelId)).Nodup
  unwrapped : s.wrapped = false

/-- What has room on a device fits beside what is used of it. -/
theorem add_le_capacity (hused : device.used ≤ device.capacity)
    (hbytes : bytes ≤ device.capacity - device.used) :
    device.used.toNat + bytes.toNat ≤ device.capacity.toNat := by
  rw [UInt64.le_iff_toNat_le] at hused hbytes
  rw [UInt64.toNat_sub_of_le _ _ (UInt64.le_iff_toNat_le.2 hused)] at hbytes
  omega

theorem getElem?_charge {index' : ℕ} :
    (s.charge index bytes).devices[index']? = s.devices[index']?.map fun device =>
      if index = index' then { device with used := device.used + bytes } else device :=
  List.getElem?_modify _ _ _ _

theorem getElem?_refund {index' : ℕ} :
    (s.refund index bytes).devices[index']? = s.devices[index']?.map fun device =>
      if index = index' then { device with used := device.used - bytes } else device :=
  List.getElem?_modify _ _ _ _

theorem length_charge : (s.charge index bytes).devices.length = s.devices.length :=
  List.length_modify _ _ _

theorem length_refund : (s.refund index bytes).devices.length = s.devices.length :=
  List.length_modify _ _ _

/-- What a charge is undone by. -/
theorem devices_refund_charge :
    ((s.charge index bytes).refund index bytes).devices = s.devices := by
  refine List.ext_getElem? fun index' => ?_
  rw [getElem?_refund, getElem?_charge, Option.map_map]
  cases s.devices[index']? with
  | none => rfl
  | some device =>
    simp only [Option.map_some, Function.comp_apply]
    split_ifs
    · rw [UInt64.add_sub_cancel]
    · rfl

namespace Charged

theorem create {capacities : List Bytes} (h : create capacities = .ok s) : Charged s := by
  rw [DevicePlacement.create] at h
  split_ifs at h
  obtain rfl := Except.ok.inj h
  refine ⟨fun index device hdevice => ?_, fun device hdevice => ?_, List.forall_mem_nil _, .nil, rfl⟩
  · obtain ⟨capacity, -, rfl⟩ := List.mem_map.1 (List.mem_of_getElem? hdevice)
    rfl
  · obtain ⟨capacity, -, rfl⟩ := List.mem_map.1 hdevice
    exact UInt64.zero_le

theorem noteFree (h : Charged s) : s.noteFree = s := by
  have hany : (s.devices.any fun device => device.capacity < device.used) = false := by
    rw [List.any_eq_false]
    intro device hdevice
    simpa using UInt64.not_lt.2 (h.fits device hdevice)
  rw [DevicePlacement.noteFree, hany, Bool.or_false]

end Charged

/-- What a placement does: nothing, or it charges a device that has room for the model. -/
theorem place_cases (h : Charged s) (modelId : Str) (bytes : Bytes) :
    (s.place modelId bytes).1 = s ∧ (s.place modelId bytes).2.ok = false ∨
      ∃ index device, s.devices[index]? = some device ∧ bytes ≤ device.capacity - device.used ∧
        modelId ∉ s.placements.map (·.modelId) ∧
        s.place modelId bytes =
          ({ s.charge index bytes with
              placements := s.placements ++ [⟨modelId, UInt32.ofNat index, bytes⟩] },
            ⟨.none, UInt32.ofNat index⟩) := by
  rw [place]
  split_ifs with hid hbytes hany
  · exact .inl ⟨rfl, rfl⟩
  · exact .inl ⟨rfl, rfl⟩
  · exact .inl ⟨rfl, rfl⟩
  · split
    next => exact .inl ⟨h.noteFree, rfl⟩
    next index device hselect =>
      have hroom : bytes ≤ device.capacity - device.used := by simpa using ok_of_select hselect
      refine .inr ⟨index, device, getElem?_of_select hselect, hroom, by simpa using hany, ?_⟩
      simp only [h.noteFree]
      rfl

namespace Charged

theorem place (h : Charged s) (hlength : s.devices.length < 2 ^ 32) (modelId : Str) (bytes : Bytes) :
    Charged (s.place modelId bytes).1 := by
  rcases place_cases h modelId bytes with ⟨heq, -⟩ | ⟨index, device, hdevice, hroom, hnew, heq⟩
  · rw [heq]
    exact h
  · obtain ⟨hlt, hget⟩ := List.getElem?_eq_some_iff.1 hdevice
    have hmem : device ∈ s.devices := List.mem_of_getElem? hdevice
    have hle := add_le_capacity (h.fits device hmem) hroom
    have hindex : (UInt32.ofNat index).toNat = index :=
      UInt32.toNat_ofNat_of_lt (hlt.trans hlength)
    -- the sum does not wrap
    have hadd : (device.used + bytes).toNat = device.used.toNat + bytes.toNat := by
      rw [UInt64.toNat_add, Nat.mod_eq_of_lt (hle.trans_lt device.capacity.toNat_lt)]
    rw [heq]
    refine ⟨fun index' device' hdevice' => ?_, fun device' hdevice' => ?_, ?_, ?_, ?_⟩
    · show device'.used.toNat = load (s.placements ++ [⟨modelId, UInt32.ofNat index, bytes⟩]) index'
      rw [load_perm (List.perm_append_singleton _ _), load_cons, hindex]
      obtain ⟨old, hold, rfl⟩ := Option.map_eq_some_iff.1 (getElem?_charge.symm.trans hdevice')
      split_ifs with heq
      · obtain rfl := heq
        obtain rfl := Option.some.inj (hdevice.symm.trans hold)
        rw [hadd, h.used index device hdevice, Nat.add_comm]
      · rw [Nat.zero_add]
        exact h.used index' old hold
    · obtain ⟨index', hindex'⟩ := List.mem_iff_getElem?.1 hdevice'
      obtain ⟨old, hold, rfl⟩ := Option.map_eq_some_iff.1 (getElem?_charge.symm.trans hindex')
      split_ifs with heq
      · obtain rfl := heq
        obtain rfl := Option.some.inj (hdevice.symm.trans hold)
        exact UInt64.le_iff_toNat_le.2 (hadd.trans_le hle)
      · exact h.fits old (List.mem_of_getElem? hold)
    · intro item hitem
      rw [length_charge]
      rcases List.mem_append.1 hitem with hitem | hitem
      · exact h.named item hitem
      · obtain rfl := List.mem_singleton.1 hitem
        exact hindex.trans_lt hlt
    · rw [List.map_append]
      exact List.nodup_append.2 ⟨h.ids, List.nodup_singleton _, by simpa using hnew⟩
    · have hfits : ¬ UInt64.size ≤ device.used.toNat + bytes.toNat :=
        not_le.2 (hle.trans_lt device.capacity.toNat_lt)
      simp [charge, h.unwrapped, hdevice, hfits]

theorem release (h : Charged s) (modelId : Str) : Charged (s.release modelId).1 := by
  rw [DevicePlacement.release]
  split
  next => exact h
  next item hfind =>
    have hperm := perm_of_find? hfind
    set rest := s.placements.eraseP fun item => item.modelId == modelId
    have hitem : item ∈ s.placements := List.mem_of_find?_eq_some hfind
    -- the placement is part of what is used of its device
    have hload (index : ℕ) : load s.placements index =
        (if item.device.toNat = index then item.bytes.toNat else 0) + load rest index :=
      (load_perm hperm).trans load_cons
    have hle (device : Device) (hdevice : s.devices[item.device.toNat]? = some device) :
        item.bytes ≤ device.used := by
      rw [UInt64.le_iff_toNat_le, h.used _ device hdevice, hload, if_pos rfl]
      exact Nat.le_add_right _ _
    refine ⟨fun index device hdevice => ?_, fun device hdevice => ?_, fun item' hitem' => ?_, ?_, ?_⟩
    · show device.used.toNat = load rest index
      obtain ⟨old, hold, rfl⟩ := Option.map_eq_some_iff.1 (getElem?_refund.symm.trans hdevice)
      have hused := h.used index old hold
      rw [hload] at hused
      split_ifs at hused ⊢ with heq
      · obtain rfl := heq
        rw [UInt64.toNat_sub_of_le _ _ (hle old hold), hused, Nat.add_sub_cancel_left]
      · rw [hused, Nat.zero_add]
    · obtain ⟨index, hindex⟩ := List.mem_iff_getElem?.1 hdevice
      obtain ⟨old, hold, rfl⟩ := Option.map_eq_some_iff.1 (getElem?_refund.symm.trans hindex)
      have hfits := h.fits old (List.mem_of_getElem? hold)
      split_ifs with heq
      · obtain rfl := heq
        rw [UInt64.le_iff_toNat_le] at hfits ⊢
        rw [UInt64.toNat_sub_of_le _ _ (hle old hold)]
        exact (Nat.sub_le _ _).trans hfits
      · exact hfits
    · rw [length_refund]
      exact h.named item' (List.mem_of_mem_eraseP hitem')
    · exact h.ids.sublist (List.eraseP_sublist.map _)
    · obtain ⟨device, hdevice⟩ : ∃ device, s.devices[item.device.toNat]? = some device :=
        ⟨_, List.getElem?_eq_getElem (h.named item hitem)⟩
      have hlt : ¬ device.used < item.bytes := UInt64.not_lt.2 (hle device hdevice)
      simp [refund, h.unwrapped, hdevice, hlt]

end Charged

/-! ## Runs -/

theorem length_perform (s : DevicePlacement) (a : Action) :
    (s.perform a).1.devices.length = s.devices.length := by
  cases a with
  | place modelId bytes =>
    rw [perform, place]
    split_ifs
    · rfl
    · rfl
    · rfl
    · split
      · rfl
      · exact length_charge
  | release modelId =>
    rw [perform, release]
    split
    · rfl
    · exact length_refund

theorem release_of_find? (h : s.placements.find? (fun item => item.modelId == modelId) = some item) :
    s.release modelId = ({ s.refund item.device.toNat item.bytes with
      placements := s.placements.eraseP fun item => item.modelId == modelId },
      ⟨.none, item.device⟩) := by
  rw [release, h]
  rfl

/-- A release right after the placement of a model takes it back. -/
theorem release_place (h : Charged s) (hlength : s.devices.length < 2 ^ 32)
    (hok : (s.place modelId bytes).2.ok = true) :
    ((s.place modelId bytes).1.release modelId).1.devices = s.devices ∧
      ((s.place modelId bytes).1.release modelId).1.placements = s.placements := by
  rcases place_cases h modelId bytes with ⟨-, hfail⟩ | ⟨index, device, hdevice, -, hnew, heq⟩
  · rw [hok] at hfail
    cases hfail
  · have hlt : index < s.devices.length := (List.getElem?_eq_some_iff.1 hdevice).1
    have hindex : (UInt32.ofNat index).toNat = index := UInt32.toNat_ofNat_of_lt (hlt.trans hlength)
    have hnone : ∀ item ∈ s.placements, ¬ (item.modelId == modelId) = true := by
      intro item hitem heq
      exact hnew (List.mem_map.2 ⟨item, hitem, beq_iff_eq.1 heq⟩)
    have hfind : List.find? (fun item => item.modelId == modelId)
        (s.placements ++ [⟨modelId, UInt32.ofNat index, bytes⟩]) =
          some ⟨modelId, UInt32.ofNat index, bytes⟩ := by
      rw [List.find?_append, List.find?_eq_none.2 hnone]
      simp
    rw [heq, release_of_find? hfind, hindex]
    refine ⟨devices_refund_charge, ?_⟩
    show List.eraseP _ (s.placements ++ [⟨modelId, UInt32.ofNat index, bytes⟩]) = s.placements
    rw [List.eraseP_append_right _ hnone]
    simp

theorem charged_of_reachable (h : machine.Reachable s) (hlength : s.devices.length < 2 ^ 32) :
    Charged s := by
  refine h.invariant (P := fun s => s.devices.length < 2 ^ 32 → Charged s) ?_ ?_ hlength
  · rintro s ⟨capacities, hcreate⟩ -
    exact .create hcreate
  · rintro s a _ _ hs rfl hlength
    rw [length_perform] at hlength
    cases a with
    | place modelId bytes => exact (hs hlength).place hlength modelId bytes
    | release modelId => exact (hs hlength).release modelId

/-- In every state that is reached: what is used of a device is the sum of the placements on
    it, and at most its capacity; the placements are on devices there are, under distinct
    ids; no arithmetic has wrapped; and a release right after a placement undoes it. -/
theorem reachable_placements (h : machine.Reachable s) (hlength : s.devices.length < 2 ^ 32) :
    (∀ index device, s.devices[index]? = some device →
      device.used.toNat = ((s.placements.filter fun item => item.device.toNat == index).map
        (·.bytes.toNat)).sum ∧ device.used ≤ device.capacity) ∧
      (∀ item ∈ s.placements, item.device.toNat < s.devices.length) ∧
      (s.placements.map (·.modelId)).Nodup ∧ s.wrapped = false ∧
      ∀ modelId bytes, (s.place modelId bytes).2.ok = true →
        ((s.place modelId bytes).1.release modelId).1.devices = s.devices ∧
          ((s.place modelId bytes).1.release modelId).1.placements = s.placements := by
  have hs := charged_of_reachable h hlength
  refine ⟨fun index device hdevice => ⟨hs.used index device hdevice, ?_⟩, hs.named, hs.ids,
    hs.unwrapped, fun modelId bytes => release_place hs hlength⟩
  exact hs.fits device (List.mem_of_getElem? hdevice)

/-- Two devices, with a model on the first of them after one has left the second. -/
def placed : DevicePlacement :=
  let s : DevicePlacement := { devices := [⟨100, 0⟩, ⟨200, 0⟩] }
  let s := (s.place (ascii "large") 150).1
  let s := (s.place (ascii "small") 80).1
  (s.release (ascii "large")).1

theorem placed_reachable : machine.Reachable placed := by
  have hinit : machine.Reachable { devices := [⟨100, 0⟩, ⟨200, 0⟩] } := .init ⟨[100, 200], rfl⟩
  have hlarge := hinit.step (a := .place (ascii "large") 150) rfl
  have hsmall := hlarge.step (a := .place (ascii "small") 80) rfl
  exact hsmall.step (a := .release (ascii "large")) rfl

theorem placed_placements :
    placed.devices = [⟨100, 80⟩, ⟨200, 0⟩] ∧ placed.placements = [⟨ascii "small", 0, 80⟩] ∧
      ((placed.place (ascii "next") 150).1.release (ascii "next")).1.devices = placed.devices :=
  ⟨by decide, by decide,
    ((reachable_placements placed_reachable (by decide)).2.2.2.2 _ _ (by decide)).1⟩

end DevicePlacement

end Gpumemd
