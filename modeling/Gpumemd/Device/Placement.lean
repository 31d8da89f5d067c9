import Mathlib.Algebra.BigOperators.Group.List.Basic
import Mathlib.Algebra.Ring.Nat
import Mathlib.Data.List.Sort
import Gpumemd.Basic
import Gpumemd.Library.Machine
import Gpumemd.Library.Selection

/-!
# The placement of models on devices

`DevicePlacement` (`src/core/device_placement.cpp`): models are placed on the least used
device that has room for them. What is used of a device is kept beside the list of the
placements, which it is the sum over (`reachable_placements`), so no arithmetic on it wraps,
and a release undoes a placement (`release_place`).

The field `wrapped` records whether an arithmetic operation on sizes has wrapped, and is
never read by the code.
-/

namespace Gpumemd

open Library

/-- `PlacementError`. -/
inductive PlacementError
  | none
  | invalidDevice
  | invalidModel
  | invalidSize
  | duplicateModel
  | unknownModel
  | insufficientMemory
  deriving DecidableEq

/-- `PlacementResult`. -/
structure PlacementResult where
  error : PlacementError
  device : UInt32
  deriving DecidableEq

/-- `PlacementResult::ok`. -/
def PlacementResult.ok (result : PlacementResult) : Bool := result.error == .none

/-- `DevicePlacementRecord`. -/
structure DevicePlacementRecord where
  modelId : Str
  device : UInt32
  bytes : Bytes
  deriving DecidableEq

/-- `Device`. -/
structure Device where
  capacity : Bytes
  used : Bytes
  deriving DecidableEq

/-- `DeviceSnapshot`. -/
structure DeviceSnapshot where
  id : UInt32
  capacity : Bytes
  used : Bytes
  free : Bytes
  deriving DecidableEq

/-- `PlacementSnapshot`. -/
structure PlacementSnapshot where
  devices : List DeviceSnapshot
  placements : List DevicePlacementRecord
  deriving DecidableEq

/-- The state of a `DevicePlacement`. -/
structure DevicePlacement where
  devices : List Device
  placements : List DevicePlacementRecord := []
  /-- An operation on sizes has wrapped. -/
  wrapped : Bool := false
  deriving DecidableEq

namespace DevicePlacement

/-- The constructor: `std::invalid_argument` for no devices, or for one without capacity. -/
def create (capacities : List Bytes) : Except String DevicePlacement :=
  if capacities.isEmpty || capacities.any (· == 0) then
    .error "device placement requires positive capacities"
  else .ok { devices := capacities.map fun capacity => ⟨capacity, 0⟩ }

variable (s : DevicePlacement)

/-- The device that a model of this size is placed on, and its index: of those that have
    room for it, the first of the least used. -/
def selectDevice (bytes : Bytes) : Option (ℕ × Device) :=
  select (fun device => bytes ≤ device.capacity - device.used)
    (fun device selected => device.used < selected.used) s.devices

/-- Records the evaluations of `capacity - used` in the search for a device. -/
def noteFree : DevicePlacement :=
  { s with wrapped := s.wrapped || s.devices.any fun device => device.capacity < device.used }

/-- `devices_[index].used += bytes`. -/
def charge (index : ℕ) (bytes : Bytes) : DevicePlacement :=
  { s with
    devices := s.devices.modify index fun device => { device with used := device.used + bytes }
    wrapped := s.wrapped ||
      s.devices[index]?.any fun device => UInt64.size ≤ device.used.toNat + bytes.toNat }

/-- `devices_[index].used -= bytes`. -/
def refund (index : ℕ) (bytes : Bytes) : DevicePlacement :=
  { s with
    devices := s.devices.modify index fun device => { device with used := device.used - bytes }
    wrapped := s.wrapped || s.devices[index]?.any fun device => device.used < bytes }

/-- `DevicePlacement::place`. -/
def place (modelId : Str) (bytes : Bytes) : DevicePlacement × PlacementResult :=
  if modelId.isEmpty || modelId.length > 64 then (s, ⟨.invalidModel, 0⟩)
  else if bytes = 0 then (s, ⟨.invalidSize, 0⟩)
  else if s.placements.any fun item => item.modelId == modelId then (s, ⟨.duplicateModel, 0⟩)
  else
    match s.selectDevice bytes with
    | none => (s.noteFree, ⟨.insufficientMemory, 0⟩)
    | some (selected, _) =>
      let t := s.noteFree.charge selected bytes
      ({ t with placements := t.placements ++ [⟨modelId, UInt32.ofNat selected, bytes⟩] },
        ⟨.none, UInt32.ofNat selected⟩)

/-- `DevicePlacement::release`. -/
def release (modelId : Str) : DevicePlacement × PlacementResult :=
  match s.placements.find? fun item => item.modelId == modelId with
  | none => (s, ⟨.unknownModel, 0⟩)
  | some item =>
    let t := s.refund item.device.toNat item.bytes
    ({ t with placements := t.placements.eraseP fun item => item.modelId == modelId },
      ⟨.none, item.device⟩)

/-- `DevicePlacement::snapshot`. -/
def snapshot : PlacementSnapshot where
  devices := s.devices.mapIdx fun index device =>
    ⟨UInt32.ofNat index, device.capacity, device.used, device.capacity - device.used⟩
  placements := s.placements.insertionSort fun left right => left.modelId ≤ right.modelId

/-! ## Runs -/

/-- The steps. -/
inductive Action
  | place (modelId : Str) (bytes : Bytes)
  | release (modelId : Str)

/-- The effect of a step, and its result. -/
def perform : Action → DevicePlacement × PlacementResult
  | .place modelId bytes => s.place modelId bytes
  | .release modelId => s.release modelId

/-- The runs of a device placement. -/
def machine : Machine DevicePlacement Action where
  init s := ∃ capacities, create capacities = .ok s
  step s a s' := (s.perform a).1 = s'

end DevicePlacement

end Gpumemd
