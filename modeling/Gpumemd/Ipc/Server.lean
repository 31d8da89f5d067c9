import Gpumemd.Ipc.Session
import Gpumemd.Residency.Listings

/-!
# The server

`UnixSocketServer` (`src/ipc/unix_socket_server.cpp`): the thread of `run`, which accepts
clients until it stops, then wakes whoever waits for memory and joins the workers, and one
worker for each client, which runs `client_session`.

A worker is cut where others may run: between its reads, its lines, the calls that
`dispatch` makes and the recording of what they did. So is a call that waits for memory or
for a file. What the workers share is the `Broker`; each of its parts has a mutex of its
own. The steps are a partial function of the state: a step that may not be taken has no
result.
-/

namespace Gpumemd

open Library Protocol

/-! ## The commands -/

/-- What a call reads from outside. -/
structure Outside where
  now : TimePoint := 0
  later : TimePoint := 0
  /-- The size of the file to register, if it is a regular file. -/
  fileSize : Option Bytes := none
  sharing : Sharing := .mock

/-- What `dispatch` records of a call in the metrics. -/
inductive Recording
  | nothing
  | acquire (success : Bool) (bytes : Bytes)
  | release (success : Bool) (bytes : Bytes)
  | modelLoad (success : Bool)
  | modelUnload (success : Bool)
  deriving DecidableEq

/-- Records what has been done. -/
def Metrics.record (s : Metrics) : Recording → Metrics
  | .nothing => s
  | .acquire success bytes => s.recordAcquire success bytes
  | .release success bytes => s.recordRelease success bytes
  | .modelLoad success => s.recordModelLoad success
  | .modelUnload success => s.recordModelUnload success

/-- What comes of a call: what is recorded, and the response. -/
structure Outcome where
  recording : Recording
  response : Str
  deriving DecidableEq

/-- The call of `dispatch` on the managers, for the commands that have one. -/
def operation (s : Daemon) (command : Command) (outside : Outside) : Option Daemon.Action :=
  match command.type with
  | .acquire =>
    match command.acquireMode with
    | .try => some (.client (.tryAcquire command.name command.bytes outside.now))
    | .wait => some (.client
        (.acquire command.name command.bytes command.options outside.now outside.later))
  | .release => some (.client (.release command.name outside.now))
  | .registerModel => some (.registerModel command.name command.bytes command.metadata)
  | .registerFile =>
    some (.registerFile command.name command.path command.metadata outside.fileSize)
  | .unregisterModel => some (.unregisterModel command.name)
  | .retainModel => some (.retain command.name)
  | .releaseModel => some (.releaseModel command.name)
  | .loadModel => some (.load command.name)
  | .unloadModel => some (.unload command.name)
  | .share => some (.share command.name (s.backend.share command.name outside.sharing))
  | .status | .models | .residency | .metrics | .registerNode | .unregisterNode | .nodes => none

/-- What `dispatch` makes of the answer of its call, if the call has returned. -/
def outcome (command : Command) (response : Response) : Option Outcome :=
  match command.type, response with
  | .acquire, .client (some result) => some
      ⟨.acquire result.ok result.amount, formatOperationResult (ascii "acquired") command.name result⟩
  | .release, .client (some result) => some
      ⟨.release result.ok result.amount, formatOperationResult (ascii "released") command.name result⟩
  | .registerModel, .registered result => some
      ⟨.nothing, formatModelOperationResult (ascii "registered") command.name result⟩
  | .registerFile, .registered result => some
      ⟨.nothing, formatModelOperationResult (ascii "registered") command.name result⟩
  | .unregisterModel, .returned result => some
      ⟨.nothing, formatModelOperationResult (ascii "unregistered") command.name result⟩
  | .retainModel, .returned result => some
      ⟨.nothing, formatModelOperationResult (ascii "retained") command.name result⟩
  | .releaseModel, .returned result => some
      ⟨.nothing, formatModelOperationResult (ascii "released_model") command.name result⟩
  | .loadModel, .returned result => some
      ⟨.modelLoad result.ok, formatResidencyOperationResult (ascii "loaded") command.name result⟩
  | .unloadModel, .returned result => some
      ⟨.modelUnload result.ok, formatResidencyOperationResult (ascii "unloaded") command.name result⟩
  | .share, .shared result => some ⟨.nothing, formatShareResult command.name result⟩
  | _, _ => none

/-! ## Workers -/

/-- Where a worker stands. -/
inductive Activity
  /-- Before it looks whether to stop. -/
  | checking
  | reading
  /-- At the start of a turn of the loop of `process_input`. -/
  | processing
  /-- Before `dispatch` makes its call. -/
  | dispatching (command : Command)
  /-- In `acquire`, waiting for memory. -/
  | waiting (command : Command) (sequence : ℕ)
  /-- In a call of the residency manager. -/
  | operating (command : Command)
  /-- After the call of `dispatch`, before it is recorded. -/
  | answered (command : Command) (outcome : Outcome)
  /-- Before the request is counted, with the command if there is one. -/
  | responding (command : Option Command) (response : Str)
  | sending (command : Option Command) (response : Str)
  /-- Before it sends its last response. -/
  | closing (response : Str)
  | closed
  deriving DecidableEq

/-- A worker: its client's `input`, and where it stands. -/
structure Worker where
  input : Str := []
  activity : Activity := .checking
  deriving DecidableEq

/-- What the workers share. The metrics and the node registry may be absent. -/
structure Broker where
  daemon : Daemon
  metrics : Option Metrics := some {}
  nodes : Option NodeRegistry := some {}

/-- The steps of a worker. -/
inductive Work
  | check
  | receive (chunk : Str)
  /-- The read is interrupted, or times out. -/
  | retry
  | hangUp
  /-- The read fails. -/
  | fail
  | cut
  | execute (outside : Outside)
  | wake (now : TimePoint)
  | expire (now : TimePoint)
  | advance (input : Input)
  | record
  | count
  /-- The write returns. As long as the client does not read, that may never happen. -/
  | send (sent : Bool)

/-- What `process_input` does with a line. -/
def Activity.ofLine (line : Str) : Activity :=
  match parseCommand line with
  | .ok command => .dispatching command
  | .error error => .responding none (formatParseError error)

namespace Broker

variable (s : Broker)

/-- A step of a call, after which its worker goes on as `resume` says, unless the call
    returns. -/
def call (command : Command) (resume : Activity) (action : Daemon.Action) :
    Option (Broker × Activity) :=
  if s.daemon.Enabled action then
    let performed := s.daemon.perform action
    some ({ s with daemon := performed.1 },
      match outcome command performed.2 with
      | some outcome => .answered command outcome
      | none => resume)
  else none

/-- The start of a call: if it does not return, it waits for memory, or goes on. -/
def start (command : Command) (action : Daemon.Action) : Option (Broker × Activity) :=
  s.call command
    (if command.type = .acquire then .waiting command s.daemon.resources.nextSequence
      else .operating command) action

/-- The commands that `dispatch` answers without a call on the managers that changes
    them. -/
def answer (command : Command) : Option (Broker × Str) :=
  match command.type with
  | .status => some (s, formatStatus s.daemon.resources.status)
  | .models => some (s, formatModels s.daemon.registry.modelSnapshot)
  | .residency =>
    if s.daemon.running = none then some (s, formatResidency s.daemon.residency) else none
  | .metrics =>
    match s.metrics with
    | none => some (s, ascii "ERR metrics_unavailable metrics are disabled\n")
    | some metrics => some (s, formatMetrics metrics)
  | .registerNode =>
    match s.nodes with
    | none => some (s, ascii "ERR nodes_unavailable node registry is disabled\n")
    | some nodes =>
      let (nodes, result) := nodes.registerNode command.name command.path command.bytes
      some ({ s with nodes := some nodes },
        formatNodeOperationResult (ascii "node_registered") command.name result)
  | .unregisterNode =>
    match s.nodes with
    | none => some (s, ascii "ERR nodes_unavailable node registry is disabled\n")
    | some nodes =>
      let (nodes, result) := nodes.unregisterNode command.name
      some ({ s with nodes := some nodes },
        formatNodeOperationResult (ascii "node_removed") command.name result)
  | .nodes =>
    match s.nodes with
    | none => some (s, ascii "ERR nodes_unavailable node registry is disabled\n")
    | some nodes => some (s, formatNodes nodes.nodes)
  | _ => none

/-- `dispatch`, up to the return of its call or to where others may run. -/
def dispatch (command : Command) (outside : Outside) : Option (Broker × Activity) :=
  match operation s.daemon command outside with
  | some action => s.start command action
  | none => (s.answer command).map fun (s, response) => (s, .responding (some command) response)

/-- A step of a worker, where `stop` is the flag that it looks at. -/
def work (stop : Bool) (worker : Worker) : Work → Option (Broker × Worker)
  | .check =>
    match worker.activity with
    | .checking => some (s, { worker with activity := if stop then .closed else .reading })
    | _ => none
  | .receive chunk =>
    match worker.activity with
    | .reading =>
      if chunk.isEmpty || chunk.length > 4096 then none
      else some (s, { input := worker.input ++ chunk, activity := .processing })
    | _ => none
  | .retry =>
    match worker.activity with
    | .reading => some (s, { worker with activity := .checking })
    | _ => none
  | .hangUp =>
    match worker.activity with
    | .reading => some (s, { worker with
        activity := if worker.input.isEmpty then .closed else .closing Reply.unterminated.response })
    | _ => none
  | .fail =>
    match worker.activity with
    | .reading => some (s, { worker with activity := .closed })
    | _ => none
  | .cut =>
    match worker.activity with
    | .processing =>
      match cutLine worker.input with
      | .incomplete => some (s, { worker with activity := .checking })
      | .tooLarge => some (s, { worker with activity := .closing Reply.tooLarge.response })
      | .line line rest => some (s, { input := rest, activity := .ofLine line })
    | _ => none
  | .execute outside =>
    match worker.activity with
    | .dispatching command => (s.dispatch command outside).map fun (s, activity) =>
        (s, { worker with activity })
    | _ => none
  | .wake now =>
    match worker.activity with
    | .waiting command sequence =>
      (s.call command (.waiting command sequence) (.client (.wake sequence now))).map
        fun (s, activity) => (s, { worker with activity })
    | _ => none
  | .expire now =>
    match worker.activity with
    | .waiting command sequence =>
      (s.call command (.waiting command sequence) (.client (.expireWait sequence now))).map
        fun (s, activity) => (s, { worker with activity })
    | _ => none
  | .advance input =>
    match worker.activity with
    | .operating command =>
      (s.call command (.operating command) (.advance input)).map
        fun (s, activity) => (s, { worker with activity })
    | _ => none
  | .record =>
    match worker.activity with
    | .answered command outcome =>
      some ({ s with metrics := s.metrics.map (·.record outcome.recording) },
        { worker with activity := .responding (some command) outcome.response })
    | _ => none
  | .count =>
    match worker.activity with
    | .responding command response =>
      some ({ s with metrics := s.metrics.map (·.recordRequest ((ascii "OK").isPrefixOf response)) },
        { worker with activity := .sending command response })
    | _ => none
  | .send sent =>
    match worker.activity with
    | .sending _ _ => some (s, { worker with activity := if sent then .processing else .closed })
    | .closing _ => some (s, { worker with activity := .closed })
    | _ => none

end Broker

/-! ## The server -/

/-- Where the thread of `run` stands. -/
inductive Phase
  /-- In its loop. -/
  | serving
  /-- After its loop, before `cancel_waiters`. -/
  | leaving
  /-- Waiting for the workers to return. -/
  | joining
  | stopped
  deriving DecidableEq

/-- The state of the server. -/
structure Server where
  broker : Broker
  workers : List Worker := []
  stopRequested : Bool := false
  phase : Phase := .serving

namespace Server

/-- The steps. -/
inductive Action
  /-- `request_shutdown`, from anywhere. -/
  | requestShutdown
  | accept
  /-- The loop of `run` ends: it is to stop, or `poll` fails. -/
  | leave
  /-- `cancel_waiters`, in `run`. -/
  | cancel
  | join
  | work (index : ℕ) (work : Work)

variable (s : Server)

/-- The state after a step, if it may be taken. -/
def perform : Action → Option Server
  | .requestShutdown => some { s with stopRequested := true }
  | .accept =>
    if s.phase = .serving then some { s with workers := s.workers ++ [{}] } else none
  | .leave => if s.phase = .serving then some { s with phase := .leaving } else none
  | .cancel =>
    if s.phase = .leaving then
      some { s with
        broker := { s.broker with daemon := (s.broker.daemon.perform (.client .cancelWaiters)).1 }
        phase := .joining }
    else none
  | .join =>
    if s.phase = .joining && s.workers.all (·.activity = .closed) then
      some { s with phase := .stopped }
    else none
  | .work index work => do
    let worker ← s.workers[index]?
    let (broker, worker) ← s.broker.work s.stopRequested worker work
    return { s with broker, workers := s.workers.set index worker }

/-- The runs of the server, from an empty daemon. -/
def machine : Machine Server Action where
  init s := ∃ daemon metrics nodes, Daemon.machine.init daemon ∧ metrics ∈ [none, some {}] ∧
    nodes ∈ [none, some {}] ∧ s = { broker := { daemon, metrics, nodes } }
  step s a t := s.perform a = some t

/-! ## Runs that are given by their steps -/

/-- An idle server of a hundred bytes. -/
def idle : Server :=
  { broker := { daemon := { resources := { capacity := 100, schedulingPolicy := .priorityFifo } } } }

theorem init_idle : machine.init idle :=
  ⟨_, some {}, some {}, ⟨100, .priorityFifo, _, rfl, rfl⟩, by simp, by simp, rfl⟩

/-- The state after steps from an idle server is reachable. -/
theorem reachable_getD (as : List Action) :
    machine.Reachable ((as.foldlM perform idle).getD idle) :=
  (Machine.Reachable.init init_idle).getD_foldlM (fun _ _ _ hstep => hstep) as

end Server

end Gpumemd
