import Gpumemd.Metrics
import Gpumemd.Node.Registry
import Gpumemd.Protocol.Parse
import Gpumemd.Residency.Manager
import Gpumemd.Resource.Status

/-!
# The responses

The `format_*` functions (`src/protocol/protocol.cpp`): a response is a line that starts
with `ERR`, a line that starts with `OK`, or a listing, whose last line is `END`.
-/

namespace Gpumemd

open Library

namespace Protocol

/-- `format_parse_error`. -/
def formatParseError : ParseError → Str
  | .invalidRequest => ascii "ERR invalid_request invalid command syntax\n"
  | .invalidSize => ascii "ERR invalid_size invalid memory size\n"
  | .invalidName => ascii "ERR invalid_name invalid client name\n"
  | .invalidModelId => ascii "ERR invalid_model_id invalid model ID\n"
  | .invalidMetadata => ascii "ERR invalid_metadata invalid model metadata\n"
  | .invalidPath => ascii "ERR invalid_path invalid model file path\n"

/-- The line of an operation that has succeeded. -/
def formatSuccess (action name : Str) (amount : ℕ) : Str :=
  ascii "OK " ++ action ++ ascii " " ++ name ++ ascii " " ++ numeral amount ++ ascii "\n"

/-- `format_operation_result`. -/
def formatOperationResult (action name : Str) (result : OperationResult) : Str :=
  if result.ok then formatSuccess action name result.amount.toNat
  else
    match result.error with
    | .invalidName => ascii "ERR invalid_name invalid client name\n"
    | .invalidSize => ascii "ERR invalid_size invalid memory size\n"
    | .duplicateClient => ascii "ERR duplicate_client client already has a reservation\n"
    | .unknownClient => ascii "ERR unknown_client client not found\n"
    | .insufficientMemory =>
      ascii "ERR insufficient_memory requested bytes exceed available capacity\n"
    | .timeout => ascii "ERR timeout acquire request timed out\n"
    | .invalidTimeout => ascii "ERR invalid_timeout timeout must be nonnegative milliseconds\n"
    | .none => ascii "ERR internal_error internal resource manager error\n"

/-- `format_status`. -/
def formatStatus (snapshot : StatusSnapshot) : Str :=
  ascii "OK status " ++ numeral snapshot.capacity.toNat ++ ascii " " ++
    numeral snapshot.used.toNat ++ ascii " " ++ numeral snapshot.free.toNat ++ ascii " " ++
    numeral snapshot.reservations.length ++ ascii "\n" ++
    (snapshot.reservations.flatMap fun reservation =>
      ascii "CLIENT " ++ reservation.name ++ ascii " " ++ numeral reservation.bytes.toNat ++
        ascii "\n") ++
    ascii "END\n"

/-- `format_model_operation_result`. -/
def formatModelOperationResult (action name : Str) (result : ModelOperationResult) : Str :=
  if result.ok then formatSuccess action name result.amount
  else
    match result.error with
    | .invalidId => ascii "ERR invalid_model_id invalid model ID\n"
    | .invalidMetadata => ascii "ERR invalid_metadata invalid model metadata\n"
    | .invalidSize => ascii "ERR invalid_size invalid memory size\n"
    | .duplicateModel => ascii "ERR duplicate_model model already exists\n"
    | .unknownModel => ascii "ERR unknown_model model not found\n"
    | .modelInUse => ascii "ERR model_in_use model is in use\n"
    | .refcountUnderflow =>
      ascii "ERR refcount_underflow model reference count is already zero\n"
    | .unknownResidency => ascii "ERR unknown_residency model is not resident\n"
    | .insufficientMemory => ascii "ERR insufficient_memory insufficient memory for model\n"
    | .invalidPath => ascii "ERR invalid_path invalid model file path\n"
    | .fileUnavailable => ascii "ERR file_unavailable model file is unavailable\n"
    | .sourceChanged => ascii "ERR source_changed model file size changed\n"
    | .readFailure => ascii "ERR read_failure could not read model file\n"
    | .backendFailure => ascii "ERR backend_failure accelerator backend operation failed\n"
    | .backendUnsupported => ascii "ERR unsupported backend does not support process sharing\n"
    | .none => ascii "ERR internal_error internal model registry error\n"

/-- `format_metrics`. -/
def formatMetrics (snapshot : Metrics) : Str :=
  ascii "OK metrics\n" ++
    ascii "requests " ++ numeral snapshot.requests.toNat ++ ascii "\n" ++
    ascii "successes " ++ numeral snapshot.successes.toNat ++ ascii "\n" ++
    ascii "failures " ++ numeral snapshot.failures.toNat ++ ascii "\n" ++
    ascii "acquires " ++ numeral snapshot.acquires.toNat ++ ascii "\n" ++
    ascii "releases " ++ numeral snapshot.releases.toNat ++ ascii "\n" ++
    ascii "model_loads " ++ numeral snapshot.modelLoads.toNat ++ ascii "\n" ++
    ascii "model_unloads " ++ numeral snapshot.modelUnloads.toNat ++ ascii "\n" ++
    ascii "acquired_bytes " ++ numeral snapshot.acquiredBytes.toNat ++ ascii "\n" ++
    ascii "released_bytes " ++ numeral snapshot.releasedBytes.toNat ++ ascii "\n" ++
    ascii "END\n"

/-- `format_node_operation_result`. -/
def formatNodeOperationResult (action name : Str) (result : NodeOperationResult) : Str :=
  if result.ok then
    ascii "OK " ++ action ++ ascii " " ++ name ++
      (if result.amount ≠ 0 then ascii " " ++ numeral result.amount.toNat else []) ++ ascii "\n"
  else
    match result.error with
    | .duplicateNode => ascii "ERR duplicate_node node already registered\n"
    | .unknownNode => ascii "ERR unknown_node node not found\n"
    | .invalidCapacity => ascii "ERR invalid_size invalid node capacity\n"
    | .invalidEndpoint => ascii "ERR invalid_endpoint invalid node endpoint\n"
    | .invalidId => ascii "ERR invalid_name invalid node ID\n"
    | .none => ascii "ERR internal_error internal node registry error\n"

/-- `format_nodes`. -/
def formatNodes (snapshot : List NodeRecord) : Str :=
  ascii "OK nodes " ++ numeral snapshot.length ++ ascii "\n" ++
    (snapshot.flatMap fun node =>
      ascii "NODE " ++ node.id ++ ascii " " ++ node.endpoint ++ ascii " " ++
        numeral node.capacity.toNat ++ ascii " " ++ numeral node.used.toNat ++ ascii " " ++
        (if node.healthy then ascii "healthy" else ascii "unhealthy") ++ ascii "\n") ++
    ascii "END\n"

/-- `format_models`. -/
def formatModels (snapshot : List ModelRecord) : Str :=
  ascii "OK models " ++ numeral snapshot.length ++ ascii "\n" ++
    (snapshot.flatMap fun model =>
      ascii "MODEL " ++ model.id ++ ascii " " ++ model.metadata ++ ascii " " ++
        numeral model.footprintBytes.toNat ++ ascii " " ++ numeral model.refCount ++ ascii " " ++
        numeral model.lastAccess ++
        (if !model.sourcePath.isEmpty then ascii " " ++ model.sourcePath else []) ++ ascii "\n") ++
    ascii "END\n"

/-- `format_residency_operation_result`. -/
def formatResidencyOperationResult (action name : Str) (result : ModelOperationResult) : Str :=
  formatModelOperationResult action name result

/-- `format_share_result`. -/
def formatShareResult (name : Str) (result : ModelShareResult) : Str :=
  if result.error = .none then
    ascii "OK shared " ++ name ++ ascii " " ++ numeral result.amount.toNat ++ ascii " " ++
      result.token ++ ascii "\n"
  else
    match result.error with
    | .unknownModel => ascii "ERR unknown_model model not found\n"
    | .unknownResidency => ascii "ERR unknown_residency model is not resident\n"
    | .backendUnsupported => ascii "ERR unsupported backend does not support process sharing\n"
    | .backendFailure => ascii "ERR backend_failure accelerator backend operation failed\n"
    | _ => ascii "ERR internal_error internal model sharing error\n"

/-- `format_residency`. -/
def formatResidency (snapshot : List ResidencyRecord) : Str :=
  ascii "OK residency " ++ numeral (snapshot.countP (·.resident)) ++ ascii "\n" ++
    (snapshot.flatMap fun record =>
      if !record.resident then []
      else
        ascii "RESIDENT " ++ record.id ++ ascii " " ++ numeral record.footprintBytes.toNat ++
          ascii " " ++ numeral record.refCount ++ ascii " " ++ numeral record.lastLoaded ++
          ascii "\n") ++
    ascii "END\n"

end Protocol

end Gpumemd
