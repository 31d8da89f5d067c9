import Gpumemd.Ipc.Responses
import Gpumemd.Protocol.Numbers
import Gpumemd.Resource.Refusals

/-!
# The errors of accepted commands

The parser and the components check names, sizes, metadata and times, each for itself. What the
parser lets through passes the checks of the components (`Command.Accepted.checked`), so no call
fails on them (`Daemon.perform_expected`). The other errors of a call are known to the function
that formats its result, so no response to an accepted command has a code of `argumentCodes`, nor
is it an internal error (`Server.expected_of_responds`).
-/

namespace Gpumemd

open Library Protocol

/-! ## Checks -/

/-- What the parser has let through passes the checks of every component that it is given to,
    but for those on paths and endpoints. -/
structure Command.Checked (command : Command) : Prop where
  name : command.type.isListing = false →
    ResourceManager.validName command.name = true ∧ ModelRegistry.validId command.name = true ∧
      Backend.validId command.name = true ∧ NodeRegistry.validId command.name = true
  bytes : command.type ∈ [.acquire, .registerModel, .registerNode] → command.bytes ≠ 0
  metadata : command.type ∈ [.registerModel, .registerFile] →
    ModelRegistry.validMetadata command.metadata = true
  timeout : 0 ≤ command.options.timeout
  estimatedCost : 0 ≤ command.options.estimatedCost

variable {command : Command}

theorem ne_zero_of_parseSize {text : Str} {bytes : Bytes} (h : parseSize text = some bytes) :
    bytes ≠ 0 := by
  obtain ⟨_, _, _, _, _, hone, _, hvalue⟩ := parseSize_iff.1 h
  rintro rfl
  rw [UInt64.toNat_zero] at hvalue
  omega

theorem nonneg_of_parseTimeout {text : Str} {duration : Millis}
    (h : parseTimeout text = some duration) : 0 ≤ duration := by
  obtain ⟨_, _, hvalue⟩ := parseTimeout_iff.1 h
  rw [Int64.le_iff_toInt_le, hvalue]
  exact Int.natCast_nonneg _

/-- The registry checks metadata byte by byte, too, with other words. -/
theorem validMetadata_of_protocol {metadata : Str} (h : validMetadata metadata = true) :
    ModelRegistry.validMetadata metadata = true := by
  have hbytes : ∀ n : Fin 256, let c := UInt8.ofFin n
      (32 ≤ c && c < 127 && c != ' '.toUInt8 && c != '\t'.toUInt8) = true →
        (c < 128 && 32 ≤ c && c != 127 && c != ' '.toUInt8 && c != '\t'.toUInt8 &&
          c != '\n'.toUInt8 && c != '\r'.toUInt8 && c != 12 && c != 11) = true := by
    decide +kernel
  rw [validMetadata] at h
  rw [ModelRegistry.validMetadata]
  split_ifs at h ⊢
  rw [List.all_eq_true] at h ⊢
  exact fun c hc => hbytes c.toFin (h c hc)

theorem zero_le_max : (0 : Millis) ≤ Millis.max := by decide

/-- The options of an `acquire` have no negative times. -/
theorem nonneg_of_parseOptions {optional : List Str} {options : AcquireOptions}
    (h : parseOptions optional = some options) : 0 ≤ options.timeout ∧ 0 ≤ options.estimatedCost := by
  have hzero : (0 : Millis) ≤ 0 := by decide
  rcases eq_of_parseOptions h with ⟨_, rfl⟩ | ⟨_, _, _, _, rfl⟩ |
    ⟨_, _, _, _, _, _, htimeout, rfl⟩ | ⟨_, _, _, _, _, _, _, hcost, rfl⟩
  · exact ⟨zero_le_max, hzero⟩
  · exact ⟨zero_le_max, hzero⟩
  · exact ⟨nonneg_of_parseTimeout htimeout, hzero⟩
  · exact ⟨zero_le_max, nonneg_of_parseTimeout hcost⟩

theorem Command.Accepted.checked (h : command.Accepted) : command.Checked := by
  obtain ⟨line, hline⟩ := h
  obtain ⟨verb, args, -, hparses⟩ := parses_of_parseTokens hline
  have hzero : (0 : Millis) ≤ 0 := by decide
  -- the four checks of a name are one
  have hnames {name : Str} (hname : validName name = true) :
      ResourceManager.validName name = true ∧ ModelRegistry.validId name = true ∧
        Backend.validId name = true ∧ NodeRegistry.validId name = true :=
    ⟨hname, hname, hname, hname⟩
  cases hparses with
  | listing hverb =>
    have hlisting : ∀ p ∈ listingCommands, p.2.isListing = true ∧
        p.2 ∉ [.acquire, .registerModel, .registerNode] ∧ p.2 ∉ [.registerModel, .registerFile] := by
      decide
    obtain ⟨hlists, hbytes, hmetadata⟩ := hlisting _ hverb
    exact ⟨fun h => absurd (hlists.symm.trans h) (by decide), fun h => absurd h hbytes,
      fun h => absurd h hmetadata, zero_le_max, hzero⟩
  | named hverb hname =>
    have hnamed : ∀ p ∈ namedCommands,
        p.2 ∉ [.acquire, .registerModel, .registerNode] ∧ p.2 ∉ [.registerModel, .registerFile] := by
      decide
    obtain ⟨hbytes, hmetadata⟩ := hnamed _ hverb
    exact ⟨fun _ => hnames hname, fun h => absurd h hbytes, fun h => absurd h hmetadata, zero_le_max,
      hzero⟩
  | nodeRegister hname hbytes _ =>
    exact ⟨fun _ => hnames hname, fun _ => ne_zero_of_parseSize hbytes, fun h => by simp at h,
      zero_le_max, hzero⟩
  | register hname hbytes hmetadata =>
    exact ⟨fun _ => hnames hname, fun _ => ne_zero_of_parseSize hbytes,
      fun _ => validMetadata_of_protocol hmetadata, zero_le_max, hzero⟩
  | registerFile hname _ hmetadata =>
    exact ⟨fun _ => hnames hname, fun h => by simp at h,
      fun _ => validMetadata_of_protocol hmetadata, zero_le_max, hzero⟩
  | tryAcquire hname hbytes =>
    exact ⟨fun _ => hnames hname, fun _ => ne_zero_of_parseSize hbytes, fun h => by simp at h,
      hzero, hzero⟩
  | acquire hname hbytes hoptions =>
    obtain ⟨htimeout, hcost⟩ := nonneg_of_parseOptions hoptions
    exact ⟨fun _ => hnames hname, fun _ => ne_zero_of_parseSize hbytes, fun h => by simp at h,
      htimeout, hcost⟩

/-! ## Client operations -/

/-- The error is about an argument that the parser has checked. -/
def ErrorCode.ofArgument : ErrorCode → Bool
  | .invalidName | .invalidSize | .invalidTimeout => true
  | _ => false

namespace ResourceManager

variable {s : ResourceManager} {name : Str} {bytes : Bytes} {now later : TimePoint}
  {result : OperationResult}

/-- The arguments of a client operation are as they should be. -/
def Action.Checked : Action → Prop
  | .tryAcquire name bytes _ => validName name = true ∧ bytes ≠ 0
  | .acquire name bytes options _ _ => validName name = true ∧ bytes ≠ 0 ∧ 0 ≤ options.timeout ∧
      0 ≤ options.estimatedCost
  | .release name _ => validName name = true
  | .wake .. | .expireWait .. | .cancelWaiters => True
  | .acquireModel .. | .releaseModel .. | .replaceModelReservations .. => False

theorem tryAcquire_error (hname : validName name = true) (hbytes : bytes ≠ 0) :
    (s.tryAcquire name bytes now).2.error.ofArgument = false := by
  rw [tryAcquire, hname, if_neg (by decide), if_neg hbytes]
  split_ifs <;> rfl

theorem release_error (hname : validName name = true) :
    (s.release name now).2.error.ofArgument = false := by
  rw [release, hname, if_neg (by decide)]
  split <;> rfl

/-- What becomes of a request is no complaint about it. -/
theorem Tracked.outcome_error {n : ℕ} (h : Tracked s) (hout : s.outcome n = some result) :
    result.error.ofArgument = false := by
  rcases h.outcome_cases hout with hnone | rfl
  · rw [hnone]
    rfl
  · rfl

theorem acquire_error {options : AcquireOptions} (hname : validName name = true)
    (hbytes : bytes ≠ 0) (htimeout : 0 ≤ options.timeout) (hcost : 0 ≤ options.estimatedCost)
    (htracked : Tracked (s.acquire name bytes options now later).1)
    (hresult : (s.acquire name bytes options now later).2 = some result) :
    result.error.ofArgument = false := by
  rw [acquire, hname, if_neg (by decide), if_neg hbytes, if_neg (Int64.not_lt.2 htimeout)]
    at hresult htracked
  split_ifs at hresult htracked with hcapacity hzero hheld hfree hempty hnegative hnegative
  · obtain rfl := Option.some.inj hresult
    rfl
  · obtain rfl := Option.some.inj hresult
    exact tryAcquire_error hname hbytes
  · obtain rfl := Option.some.inj hresult
    rfl
  · obtain rfl := Option.some.inj hresult
    rfl
  · exact absurd hnegative (Int64.not_lt.2 hcost)
  · rw [(result_of_waitLoop _ _ _).1] at hresult
    exact htracked.outcome_error hresult
  · exact absurd hnegative (Int64.not_lt.2 hcost)
  · rw [(result_of_waitLoop _ _ _).1] at hresult
    exact htracked.outcome_error hresult

/-- A client operation that is called as it should be does not complain about its arguments. -/
theorem perform_error (hs : machine.Reachable s) {action : Action} (henabled : s.Enabled action)
    (hchecked : action.Checked) (hresult : (s.perform action).2 = some result) :
    result.error.ofArgument = false := by
  have htracked : Tracked (s.perform action).1 := (reachable_inv (reachable_perform hs henabled)).tracked
  have hcaller (n : ℕ) (hn : action.caller s (s.perform action).1 = some n) :
      result.error.ofArgument = false := by
    rw [(result_of_perform (reachable_inv hs) henabled hn).1] at hresult
    exact htracked.outcome_error hresult
  cases action with
  | tryAcquire name bytes now =>
    obtain rfl := Option.some.inj hresult
    exact tryAcquire_error hchecked.1 hchecked.2
  | acquire name bytes options now later =>
    obtain ⟨hname, hbytes, htimeout, hcost⟩ := hchecked
    exact acquire_error hname hbytes htimeout hcost htracked hresult
  | wake n now => exact hcaller n rfl
  | expireWait n now => exact hcaller n rfl
  | release name now =>
    obtain rfl := Option.some.inj hresult
    exact release_error hchecked
  | cancelWaiters => cases hresult
  | acquireModel => exact hchecked.elim
  | releaseModel => exact hchecked.elim
  | replaceModelReservations => exact hchecked.elim

end ResourceManager

/-! ## Model operations -/

/-- The error is about an argument that the parser has checked. -/
def ModelError.ofArgument : ModelError → Bool
  | .invalidId | .invalidMetadata | .invalidSize => true
  | _ => false

namespace ModelRegistry

variable {s : ModelRegistry} {id path metadata : Str} {bytes : Bytes}

theorem emplaceModel_error {model : ModelRecord} :
    (s.emplaceModel model).2.error.ofArgument = false := by
  rw [emplaceModel]
  split_ifs <;> rfl

theorem registerModel_error (hid : validId id = true) (hbytes : bytes ≠ 0)
    (hmetadata : validMetadata metadata = true) :
    (s.registerModel id bytes metadata).2.error.ofArgument = false := by
  rw [registerModel, hid, hmetadata, if_neg (by decide), if_neg hbytes, if_neg (by decide)]
  exact emplaceModel_error

/-- The path may be refused. -/
theorem registerFile_error {fileSize : Option Bytes} (hid : validId id = true)
    (hmetadata : validMetadata metadata = true) :
    (s.registerFile id path metadata fileSize).2.error.ofArgument = false := by
  rw [registerFile.eq_def, hid, hmetadata, if_neg (by decide)]
  split_ifs with hpath hfalse
  · rfl
  · exact absurd hfalse (by decide)
  · split
    next => rfl
    next =>
      split_ifs
      · rfl
      · exact emplaceModel_error

theorem unregisterModel_error (hid : validId id = true) :
    (s.unregisterModel id).2.error.ofArgument = false := by
  rw [unregisterModel, hid, if_neg (by decide)]
  split
  next => rfl
  next => split_ifs <;> rfl

theorem retain_error (hid : validId id = true) : (s.retain id).2.error.ofArgument = false := by
  rw [retain, hid, if_neg (by decide)]
  split <;> rfl

theorem releaseModel_error (hid : validId id = true) :
    (s.releaseModel id).2.error.ofArgument = false := by
  rw [releaseModel, hid, if_neg (by decide)]
  split
  next => rfl
  next => split_ifs <;> rfl

end ModelRegistry

/-- The response complains about no argument, and its function knows all of its errors. -/
def Response.Expected : Response → Prop
  | .client result => ∀ r ∈ result, r.error.ofArgument = false
  | .registered result => result.error.ofArgument = false
  | .returned result => result.error.ofArgument = false
  | .shared result => result.error ∈
      [.none, .unknownModel, .unknownResidency, .backendUnsupported, .backendFailure]
  | .running => True

namespace Daemon

variable {s : Daemon} {id : Str} {model : ModelRecord} {evictions : List Str} {input : Input}

/-- The arguments of a step are as they should be. -/
def Action.Checked : Action → Prop
  | .client action => action.Checked
  | .registerModel id bytes metadata => ModelRegistry.validId id = true ∧ bytes ≠ 0 ∧
      ModelRegistry.validMetadata metadata = true
  | .registerFile id _ metadata _ => ModelRegistry.validId id = true ∧
      ModelRegistry.validMetadata metadata = true
  | .retain id | .releaseModel id | .unregisterModel id => ModelRegistry.validId id = true
  | .load _ | .unload _ | .share .. | .advance _ => True

theorem load_expected : (s.load id).2.Expected := by
  rw [load]
  split
  next => rfl
  next => split <;> first | rfl | trivial

theorem unload_expected : (s.unload id).2.Expected := by
  rw [unload]
  split
  next => rfl
  next =>
    split
    next => rfl
    next =>
      split_ifs
      · rfl
      · trivial

theorem share_expected {shared : BackendShareResult} : (s.share id shared).2.Expected := by
  rw [share]
  split
  next => simp [Response.Expected]
  next =>
    split
    next => simp [Response.Expected]
    next => split_ifs <;> simp [Response.Expected]

theorem account_expected {accessed : ModelRegistry × ModelOperationResult}
    (h : accessed.2.error.ofArgument = false) : (s.account model accessed).2.Expected := by
  rw [account]
  split_ifs <;> exact h

theorem retain_expected (hid : ModelRegistry.validId id = true) : (s.retain id).2.Expected := by
  rw [retain]
  split
  next => rfl
  next => exact account_expected (ModelRegistry.retain_error hid)

theorem releaseModel_expected (hid : ModelRegistry.validId id = true) :
    (s.releaseModel id).2.Expected := by
  rw [releaseModel]
  split
  next => rfl
  next => exact account_expected (ModelRegistry.releaseModel_error hid)

theorem unregisterModel_expected (hid : ModelRegistry.validId id = true) :
    (s.unregisterModel id).2.Expected := by
  rw [unregisterModel]
  split
  next => rfl
  next =>
    dsimp only
    split_ifs
    · trivial
    · exact ModelRegistry.unregisterModel_error hid

theorem plan_expected {ranking : List Str} : (s.plan model ranking).2.Expected := by
  rw [plan]
  split_ifs
  · rfl
  · split <;> first | rfl | trivial
  · trivial

theorem fetch_expected : (s.fetch model evictions input).2.Expected := by
  rw [fetch]
  split
  next error _ => cases error <;> rfl
  next =>
    dsimp only
    split_ifs
    · rfl
    · trivial

theorem advance_expected : (s.advance input).2.Expected := by
  rw [advance]
  split
  next => trivial
  next => exact plan_expected
  next => exact fetch_expected
  next =>
    rw [swap]
    dsimp only
    split_ifs <;> trivial
  next => rfl
  next => trivial
  next => rfl
  next =>
    rw [unloadBackend]
    dsimp only
    split_ifs
    · rfl
    · trivial
  next =>
    rw [releaseReservation]
    dsimp only
    split_ifs
    · trivial
    · rfl
  next => rfl
  next => rfl

/-- A call whose arguments are as they should be does not complain about them. -/
theorem perform_expected (hs : machine.Reachable s) {action : Action} (henabled : s.Enabled action)
    (hchecked : action.Checked) : (s.perform action).2.Expected := by
  have hresources : ResourceManager.machine.Reachable s.resources := (reachable_inv hs).resources
  cases action with
  | client action => exact fun _ hr => ResourceManager.perform_error hresources henabled.2 hchecked hr
  | registerModel id bytes metadata =>
    exact ModelRegistry.registerModel_error hchecked.1 hchecked.2.1 hchecked.2.2
  | registerFile id path metadata fileSize =>
    exact ModelRegistry.registerFile_error hchecked.1 hchecked.2
  | load id => exact load_expected
  | unload id => exact unload_expected
  | share id shared => exact share_expected
  | retain id => exact retain_expected hchecked
  | releaseModel id => exact releaseModel_expected hchecked
  | unregisterModel id => exact unregisterModel_expected hchecked
  | advance input => exact advance_expected

end Daemon

/-! ## Responses -/

/-- The codes of the errors about arguments that the parser has checked, and of errors that have
    no text of their own. -/
def unexpectedCodes : List Str :=
  [ascii "internal_error", ascii "invalid_name", ascii "invalid_size", ascii "invalid_model_id",
    ascii "invalid_metadata", ascii "invalid_timeout"]

/-- The response is no error with one of these codes. -/
def Expected (response : Str) : Prop :=
  ∀ code ∈ unexpectedCodes, ¬ ascii "ERR " ++ code <+: response

instance : DecidablePred Expected := fun response =>
  inferInstanceAs (Decidable (∀ code ∈ unexpectedCodes, ¬ ascii "ERR " ++ code <+: response))

/-- A success is no error. -/
theorem expected_of_head {response : Str} (h : response.head? = some 'O'.toUInt8) :
    Expected response := by
  rintro code - ⟨rest, rfl⟩
  exact absurd (Option.some.inj h) (by decide)

variable {action name : Str}

theorem expected_formatOperationResult {result : OperationResult}
    (h : result.error.ofArgument = false) :
    Expected (formatOperationResult action name result) := by
  rw [formatOperationResult]
  split_ifs with hok
  · exact expected_of_head rfl
  · split
    any_goals
      rw [ascii_ofList]
      decide
    next herror =>
      rw [herror] at h
      cases h
    next herror =>
      rw [herror] at h
      cases h
    next herror =>
      rw [herror] at h
      cases h
    -- without an error it has succeeded
    next herror => exact absurd (by rw [OperationResult.ok, herror]; rfl) hok

theorem expected_formatModelOperationResult {result : ModelOperationResult}
    (h : result.error.ofArgument = false) :
    Expected (formatModelOperationResult action name result) := by
  rw [formatModelOperationResult]
  split_ifs with hok
  · exact expected_of_head rfl
  · split
    any_goals
      rw [ascii_ofList]
      decide
    next herror =>
      rw [herror] at h
      cases h
    next herror =>
      rw [herror] at h
      cases h
    next herror =>
      rw [herror] at h
      cases h
    next herror => exact absurd (by rw [ModelOperationResult.ok, herror]; rfl) hok

theorem expected_formatShareResult {result : ModelShareResult}
    (h : (Response.shared result).Expected) : Expected (formatShareResult name result) := by
  rw [formatShareResult]
  split_ifs with hnone
  · exact expected_of_head rfl
  · split
    any_goals
      rw [ascii_ofList]
      decide
    -- these are all the errors of the call
    next hmodel hresidency hunsupported hfailure =>
      simp only [Response.Expected, List.mem_cons, List.not_mem_nil, or_false] at h
      rcases h with h | h | h | h | h
      · exact absurd h hnone
      · exact absurd h hmodel
      · exact absurd h hresidency
      · exact absurd h hunsupported
      · exact absurd h hfailure

/-- The endpoint may be refused. -/
theorem expected_registerNode {s : NodeRegistry} {endpoint : Str} {capacity : Bytes}
    (hname : NodeRegistry.validId name = true) (hcapacity : capacity ≠ 0) :
    Expected (formatNodeOperationResult action name (s.registerNode name endpoint capacity).2) := by
  rw [NodeRegistry.registerNode, hname, if_neg (by decide), if_neg hcapacity]
  split_ifs
  · exact (by decide : Expected (ascii "ERR invalid_endpoint invalid node endpoint\n"))
  · exact (by decide : Expected (ascii "ERR duplicate_node node already registered\n"))
  · exact expected_of_head rfl

theorem expected_unregisterNode {s : NodeRegistry} :
    Expected (formatNodeOperationResult action name (s.unregisterNode name).2) := by
  rw [NodeRegistry.unregisterNode]
  split_ifs
  · exact expected_of_head rfl
  · exact (by decide : Expected (ascii "ERR unknown_node node not found\n"))

theorem expected_formatMetrics (snapshot : Metrics) : Expected (formatMetrics snapshot) := by
  unfold formatMetrics
  simp only [List.append_assoc]
  exact expected_of_head rfl

theorem expected_outcome {response : Response} (h : response.Expected) {outcome' : Outcome}
    (houtcome : outcome command response = some outcome') : Expected outcome'.response := by
  rw [outcome.eq_def] at houtcome
  split at houtcome
  any_goals obtain rfl := Option.some.inj houtcome
  next => exact expected_formatOperationResult (h _ rfl)
  next => exact expected_formatOperationResult (h _ rfl)
  next => exact expected_formatModelOperationResult h
  next => exact expected_formatModelOperationResult h
  next => exact expected_formatModelOperationResult h
  next => exact expected_formatModelOperationResult h
  next => exact expected_formatModelOperationResult h
  next => exact expected_formatModelOperationResult h
  next => exact expected_formatModelOperationResult h
  next => exact expected_formatShareResult h
  next => cases houtcome

namespace Broker

variable {s t : Broker} {worker worker' : Worker} {activity resume : Activity}
  {action : Daemon.Action} {work : Work}

/-- The call of `dispatch` has the arguments of the command. -/
theorem checked_of_operation (h : command.Checked) {s : Daemon} {outside : Outside}
    (hoperation : operation s command outside = some action) : action.Checked := by
  rw [operation] at hoperation
  split at hoperation
  next htype =>
    have hname := (h.name (by rw [htype]; rfl)).1
    have hbytes := h.bytes (by simp [htype])
    split at hoperation
    next =>
      obtain rfl := Option.some.inj hoperation
      exact ⟨hname, hbytes⟩
    next =>
      obtain rfl := Option.some.inj hoperation
      exact ⟨hname, hbytes, h.timeout, h.estimatedCost⟩
  next htype =>
    obtain rfl := Option.some.inj hoperation
    exact (h.name (by rw [htype]; rfl)).1
  next htype =>
    obtain rfl := Option.some.inj hoperation
    exact ⟨(h.name (by rw [htype]; rfl)).2.1, h.bytes (by simp [htype]), h.metadata (by simp [htype])⟩
  next htype =>
    obtain rfl := Option.some.inj hoperation
    exact ⟨(h.name (by rw [htype]; rfl)).2.1, h.metadata (by simp [htype])⟩
  next htype =>
    obtain rfl := Option.some.inj hoperation
    exact (h.name (by rw [htype]; rfl)).2.1
  next htype =>
    obtain rfl := Option.some.inj hoperation
    exact (h.name (by rw [htype]; rfl)).2.1
  next htype =>
    obtain rfl := Option.some.inj hoperation
    exact (h.name (by rw [htype]; rfl)).2.1
  next =>
    obtain rfl := Option.some.inj hoperation
    trivial
  next =>
    obtain rfl := Option.some.inj hoperation
    trivial
  next =>
    obtain rfl := Option.some.inj hoperation
    trivial
  all_goals cases hoperation

theorem expected_of_calls (hs : Daemon.machine.Reachable s.daemon)
    (hcalls : s.Calls command work activity resume action) (henabled : s.daemon.Enabled action)
    (h : command.Checked) : (s.daemon.perform action).2.Expected := by
  cases hcalls with
  | start hoperation => exact Daemon.perform_expected hs henabled (checked_of_operation h hoperation)
  | wake => exact Daemon.perform_expected hs henabled trivial
  | expire => exact Daemon.perform_expected hs henabled trivial
  | advance => exact Daemon.perform_expected hs henabled trivial

theorem expected_of_answers (h : command.Checked) {response : Str}
    (hanswers : Answers s command t response) : Expected response := by
  cases hanswers with
  | status => exact expected_of_head rfl
  | models => exact expected_of_head rfl
  | residency => exact expected_of_head rfl
  | noMetrics => exact (by decide : Expected (ascii "ERR metrics_unavailable metrics are disabled\n"))
  | metrics => exact expected_formatMetrics _
  | noNodes => exact (by decide : Expected (ascii "ERR nodes_unavailable node registry is disabled\n"))
  | registerNode htype _ =>
    exact expected_registerNode (h.name (by rw [htype]; rfl)).2.2.2 (h.bytes (by simp [htype]))
  | unregisterNode => exact expected_unregisterNode
  | nodes => exact expected_of_head rfl

end Broker

/-! ## Runs -/

/-- The command that the worker is at is one that a line has asked for, and its response is
    expected. -/
def Activity.Sound : Activity → Prop
  | .dispatching command => command.Accepted
  | .waiting command _ => command.Accepted
  | .operating command => command.Accepted
  | .answered command outcome => command.Accepted ∧ Expected outcome.response
  | .responding (some command) response => command.Accepted ∧ Expected response
  | .sending (some command) response => command.Accepted ∧ Expected response
  | _ => True

theorem Activity.Quiet.sound {activity : Activity} (h : activity.Quiet) : activity.Sound := by
  cases activity <;> trivial

namespace Broker

variable {s t : Broker} {worker worker' : Worker} {activity resume : Activity}
  {action : Daemon.Action} {work : Work}

theorem Calls.sound (hcalls : s.Calls command work activity resume action) (h : activity.Sound) :
    command.Accepted ∧ resume.Sound := by
  cases hcalls with
  | start => exact ⟨h, by split_ifs <;> exact h⟩
  | wake => exact ⟨h, h⟩
  | expire => exact ⟨h, h⟩
  | advance => exact ⟨h, h⟩

theorem Effect.sound (heffect : Effect s worker work t worker') (hs : Inv s)
    (h : worker.activity.Sound) : worker'.activity.Sound := by
  cases heffect with
  | moves hquiet => exact hquiet.sound
  | accepts _ _ hcommand => exact ⟨_, hcommand⟩
  | rejects => trivial
  | goesOn hcalls _ _ => exact (hcalls.sound h).2
  | returns hcalls henabled houtcome =>
    have haccepted := (hcalls.sound h).1
    exact ⟨haccepted, expected_outcome
      (expected_of_calls hs.daemon hcalls henabled haccepted.checked) houtcome⟩
  | answers hactivity hanswer =>
    rw [hactivity] at h
    exact ⟨h, expected_of_answers (Command.Accepted.checked h) (answer_answers hanswer)⟩
  | records hactivity =>
    rw [hactivity] at h
    exact h
  | @counts command _ hactivity =>
    rw [hactivity] at h
    cases command with
    | none => trivial
    | some command => exact h

end Broker

namespace Server

variable {s : Server} {text : Str}

theorem kept_sound : Kept Activity.Sound := ⟨trivial, fun hs heffect h => heffect.sound hs h⟩

/-- The components accept what the parser has accepted, but for paths and endpoints, and no
    response to it says otherwise, or does not know what has failed. -/
theorem expected_of_responds (h : machine.Reachable s) (haccepted : command.Accepted)
    (hresponds : s.Responds command text) :
    command.Checked ∧ ∀ code ∈ unexpectedCodes, ¬ ascii "ERR " ++ code <+: text :=
  ⟨haccepted.checked, (of_responds kept_sound h haccepted hresponds).2⟩

/-- An endpoint with a control character passes the parser, but not the node registry. -/
theorem expected_endpoint :
    Command.Checked { type := .registerNode, name := ascii "n", path := [1], bytes := 5 } ∧
      ∀ code ∈ unexpectedCodes,
        ¬ ascii "ERR " ++ code <+: ascii "ERR invalid_endpoint invalid node endpoint\n" := by
  have haccepted : Command.Accepted
      { type := .registerNode, name := ascii "n", path := [1], bytes := 5 } := by
    refine ⟨ascii "node_register n \x01 5", ?_⟩
    rw [ascii_ofList]
    decide +kernel
  have hanswer : idle.broker.answer
      { type := .registerNode, name := ascii "n", path := [1], bytes := 5 } =
        some (idle.broker, ascii "ERR invalid_endpoint invalid node endpoint\n") := rfl
  exact expected_of_responds (.init init_idle) haccepted (responds_of_answer rfl hanswer)

end Server

end Gpumemd
