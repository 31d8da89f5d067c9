import Gpumemd.Basic

/-!
# The metrics

`Metrics` (`src/core/metrics.cpp`): counters of what the sessions have done, under a mutex
of their own. They wrap like `std::uint64_t`.
-/

namespace Gpumemd

/-- `MetricsSnapshot`, the state of the `Metrics`. -/
structure Metrics where
  requests : UInt64 := 0
  successes : UInt64 := 0
  failures : UInt64 := 0
  acquires : UInt64 := 0
  releases : UInt64 := 0
  modelLoads : UInt64 := 0
  modelUnloads : UInt64 := 0
  acquiredBytes : Bytes := 0
  releasedBytes : Bytes := 0
  deriving DecidableEq

namespace Metrics

variable (s : Metrics)

/-- `Metrics::record_request`. -/
def recordRequest (success : Bool) : Metrics :=
  if success then { s with requests := s.requests + 1, successes := s.successes + 1 }
  else { s with requests := s.requests + 1, failures := s.failures + 1 }

/-- `Metrics::record_acquire`. -/
def recordAcquire (success : Bool) (bytes : Bytes) : Metrics :=
  if success then
    { s with acquires := s.acquires + 1, acquiredBytes := s.acquiredBytes + bytes }
  else { s with acquires := s.acquires + 1 }

/-- `Metrics::record_release`. -/
def recordRelease (success : Bool) (bytes : Bytes) : Metrics :=
  if success then
    { s with releases := s.releases + 1, releasedBytes := s.releasedBytes + bytes }
  else { s with releases := s.releases + 1 }

/-- `Metrics::record_model_load`. -/
def recordModelLoad (success : Bool) : Metrics :=
  if success then { s with modelLoads := s.modelLoads + 1 } else s

/-- `Metrics::record_model_unload`. -/
def recordModelUnload (success : Bool) : Metrics :=
  if success then { s with modelUnloads := s.modelUnloads + 1 } else s

end Metrics

end Gpumemd
