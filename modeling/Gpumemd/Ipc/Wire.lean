import Gpumemd.Ipc.Workers
import Gpumemd.Library.Simulation

/-!
# Connections

The server with the streams of its connections. A client writes and reads what it likes,
in pieces of any size. A worker reads what has been written, at most 4096 bytes at a time,
and `send_all` (`src/ipc/unix_socket_server.cpp`) writes its responses in pieces, until one
fails. Clients are connected before they are accepted, in this order.

However the workers, the clients and the pieces interleave, a connection is served in order
(`Wired.reachable_served`): the lines of what has been read are taken one after the other,
each is answered once, as it asks for, and what has been written is the front of the
responses, one after the other.
-/

namespace Gpumemd

open Library Protocol

/-- A connection, with its history. -/
structure Wire where
  /-- On its way to the worker. -/
  inbound : Str := []
  /-- On its way to the client. -/
  outbound : Str := []
  /-- The client writes no more. -/
  hungUp : Bool := false
  /-- How much of the response at hand the worker has written. -/
  offset : ℕ := 0
  /-- All that the client has written. -/
  wrote : Str := []
  /-- All that the client has read. -/
  took : Str := []
  /-- All that the worker has read. -/
  received : Str := []
  /-- The lines that the worker has taken. -/
  lines : List Str := []
  /-- The commands that it has started to execute. -/
  executed : List Command := []
  /-- The replies that it has started to send. -/
  replies : List Reply := []
  /-- All that the worker has written. -/
  sent : Str := []
  deriving DecidableEq

/-- What a worker is writing. -/
def Activity.text : Activity → Option Str
  | .sending _ response => some response
  | .closing response => some response
  | _ => none

namespace Wire

variable (wire : Wire)

/-- The client writes. -/
def put (bytes : Str) : Wire :=
  { wire with inbound := wire.inbound ++ bytes, wrote := wire.wrote ++ bytes }

/-- The client reads. -/
def take (count : ℕ) : Wire :=
  { wire with outbound := wire.outbound.drop count, took := wire.took ++ wire.outbound.take count }

/-- The worker reads. -/
def receive (count : ℕ) : Wire :=
  { wire with
    inbound := wire.inbound.drop count
    received := wire.received ++ wire.inbound.take count }

/-- The worker writes, in `send_all`. -/
def write (response : Str) (count : ℕ) : Wire :=
  { wire with
    offset := wire.offset + count
    outbound := wire.outbound ++ (response.drop wire.offset).take count
    sent := wire.sent ++ (response.drop wire.offset).take count }

/-- The streams let the worker take the step. -/
def permits (worker : Worker) : Work → Bool
  | .receive _ => false
  | .hangUp => wire.hungUp && wire.inbound.isEmpty
  | .send sent => !sent || worker.activity.text.all fun response => wire.offset = response.length
  | _ => true

/-- What a step of the worker adds to the history. -/
def observe (worker : Worker) : Work → Wire
  | .cut =>
    match cutLine worker.input with
    | .line _ _ => { wire with lines := wire.lines ++ [worker.input.takeWhile (· != '\n'.toUInt8)] }
    | _ => { wire with offset := 0 }
  | .hangUp => { wire with offset := 0 }
  | .execute _ =>
    match worker.activity with
    | .dispatching command => { wire with executed := wire.executed ++ [command] }
    | _ => wire
  | .count =>
    match worker.activity with
    | .responding command response =>
      { wire with replies := wire.replies ++ [⟨command, response⟩], offset := 0 }
    | _ => wire
  | _ => wire

end Wire

/-- The server with its connections. Those that have not been accepted are the last. -/
structure Wired where
  server : Server
  wires : List Wire := []

namespace Wired

/-- The steps. -/
inductive Action
  | connect
  /-- A client writes. -/
  | put (index : ℕ) (bytes : Str)
  /-- A client reads. -/
  | take (index count : ℕ)
  /-- A client closes its end. -/
  | hangUp (index : ℕ)
  /-- A worker reads. -/
  | receive (index count : ℕ)
  /-- A worker writes, in `send_all`. -/
  | write (index count : ℕ)
  /-- Another step of a worker. -/
  | work (index : ℕ) (work : Work)
  /-- A step of `run`. -/
  | run (action : Server.Action)

variable (s : Wired)

/-- The worker of the connection, which is a new one until it is accepted. -/
def worker (index : ℕ) : Worker := s.server.workers[index]?.getD {}

/-- The state after a step, if it may be taken. -/
def perform : Action → Option Wired
  | .connect => some { s with wires := s.wires ++ [{}] }
  | .put index bytes => s.wires[index]?.bind fun wire =>
    if wire.hungUp then none else some { s with wires := s.wires.set index (wire.put bytes) }
  | .take index count => s.wires[index]?.map fun wire =>
    { s with wires := s.wires.set index (wire.take count) }
  | .hangUp index => s.wires[index]?.map fun wire =>
    { s with wires := s.wires.set index { wire with hungUp := true } }
  | .receive index count => s.wires[index]?.bind fun wire =>
    (s.server.perform (.work index (.receive (wire.inbound.take count)))).map fun server =>
      { server, wires := s.wires.set index (wire.receive count) }
  | .write index count => s.wires[index]?.bind fun wire =>
    (s.worker index).activity.text.bind fun response =>
      if 0 < count ∧ wire.offset + count ≤ response.length then
        some { s with wires := s.wires.set index (wire.write response count) }
      else none
  | .work index work => s.wires[index]?.bind fun wire =>
    if wire.permits (s.worker index) work then
      (s.server.perform (.work index work)).map fun server =>
        { server, wires := s.wires.set index (wire.observe (s.worker index) work) }
    else none
  | .run (.work ..) => none
  | .run .accept =>
    if s.server.workers.length < s.wires.length then
      (s.server.perform .accept).map fun server => { s with server }
    else none
  | .run action => (s.server.perform action).map fun server => { s with server }

/-- The runs, from a server without connections. -/
def machine : Machine Wired Action where
  init s := Server.machine.init s.server ∧ s.wires = []
  step s a t := s.perform a = some t

/-! ## Steps -/

/-- What a step does. -/
inductive Effect (s : Wired) : Action → Wired → Prop
  | connect : Effect s .connect { s with wires := s.wires ++ [{}] }
  | put {index : ℕ} {bytes : Str} {wire : Wire} : s.wires[index]? = some wire →
      wire.hungUp = false →
      Effect s (.put index bytes) { s with wires := s.wires.set index (wire.put bytes) }
  | take {index count : ℕ} {wire : Wire} : s.wires[index]? = some wire →
      Effect s (.take index count) { s with wires := s.wires.set index (wire.take count) }
  | hangUp {index : ℕ} {wire : Wire} : s.wires[index]? = some wire →
      Effect s (.hangUp index) { s with wires := s.wires.set index { wire with hungUp := true } }
  | receive {index count : ℕ} {wire : Wire} {server : Server} : s.wires[index]? = some wire →
      s.server.perform (.work index (.receive (wire.inbound.take count))) = some server →
      Effect s (.receive index count) { server, wires := s.wires.set index (wire.receive count) }
  | write {index count : ℕ} {wire : Wire} {response : Str} : s.wires[index]? = some wire →
      (s.worker index).activity.text = some response → wire.offset + count ≤ response.length →
      Effect s (.write index count) { s with wires := s.wires.set index (wire.write response count) }
  | work {index : ℕ} {work : Work} {wire : Wire} {server : Server} : s.wires[index]? = some wire →
      wire.permits (s.worker index) work = true → s.server.perform (.work index work) = some server →
      Effect s (.work index work)
        { server, wires := s.wires.set index (wire.observe (s.worker index) work) }
  /-- A step of `run` leaves the workers alone, but may accept a connection. -/
  | run {action : Server.Action} {server : Server} : s.server.perform action = some server →
      (server.workers = s.server.workers ∨ s.server.workers.length < s.wires.length ∧
        server.workers = s.server.workers ++ [({} : Worker)]) →
      Effect s (.run action) { s with server }

variable {s} {t : Wired} {a : Action}

theorem perform_effect (h : s.perform a = some t) : Effect s a t := by
  cases a with
  | connect =>
    obtain rfl := Option.some.inj h
    exact .connect
  | put index bytes =>
    obtain ⟨wire, hwire, h⟩ := Option.bind_eq_some_iff.1 h
    split_ifs at h with hopen
    obtain rfl := Option.some.inj h
    exact .put hwire (by simpa using hopen)
  | take index count =>
    obtain ⟨wire, hwire, rfl⟩ := Option.map_eq_some_iff.1 h
    exact .take hwire
  | hangUp index =>
    obtain ⟨wire, hwire, rfl⟩ := Option.map_eq_some_iff.1 h
    exact .hangUp hwire
  | receive index count =>
    obtain ⟨wire, hwire, h⟩ := Option.bind_eq_some_iff.1 h
    obtain ⟨server, hserver, rfl⟩ := Option.map_eq_some_iff.1 h
    exact .receive hwire hserver
  | write index count =>
    obtain ⟨wire, hwire, h⟩ := Option.bind_eq_some_iff.1 h
    obtain ⟨response, hresponse, h⟩ := Option.bind_eq_some_iff.1 h
    split_ifs at h with hcount
    obtain rfl := Option.some.inj h
    exact .write hwire hresponse hcount.2
  | work index work =>
    obtain ⟨wire, hwire, h⟩ := Option.bind_eq_some_iff.1 h
    split_ifs at h with hpermits
    obtain ⟨server, hserver, rfl⟩ := Option.map_eq_some_iff.1 h
    exact .work hwire hpermits hserver
  | run action =>
    cases action with
    | work index work => cases h
    | accept =>
      rw [perform] at h
      split_ifs at h with hwaiting
      obtain ⟨server, hserver, rfl⟩ := Option.map_eq_some_iff.1 h
      refine .run hserver (.inr ⟨hwaiting, ?_⟩)
      cases Server.perform_effect hserver
      rfl
    | requestShutdown =>
      simp only [perform] at h
      obtain ⟨server, hserver, rfl⟩ := Option.map_eq_some_iff.1 h
      refine .run hserver (.inl ?_)
      cases Server.perform_effect hserver
      rfl
    | leave =>
      simp only [perform] at h
      obtain ⟨server, hserver, rfl⟩ := Option.map_eq_some_iff.1 h
      refine .run hserver (.inl ?_)
      cases Server.perform_effect hserver
      rfl
    | cancel =>
      simp only [perform] at h
      obtain ⟨server, hserver, rfl⟩ := Option.map_eq_some_iff.1 h
      refine .run hserver (.inl ?_)
      cases Server.perform_effect hserver
      rfl
    | join =>
      simp only [perform] at h
      obtain ⟨server, hserver, rfl⟩ := Option.map_eq_some_iff.1 h
      refine .run hserver (.inl ?_)
      cases Server.perform_effect hserver
      rfl

/-- Whatever the connections do, the server does what it may do. -/
theorem refines_server : machine.Refines Server.machine Wired.server where
  init _ hinit := hinit.1
  step s a t _ hstep := by
    cases perform_effect hstep with
    | connect => exact .inr rfl
    | put => exact .inr rfl
    | take => exact .inr rfl
    | hangUp => exact .inr rfl
    | receive _ hserver => exact .inl ⟨_, hserver⟩
    | write => exact .inr rfl
    | work _ _ hserver => exact .inl ⟨_, hserver⟩
    | run hserver _ => exact .inl ⟨_, hserver⟩

end Wired

end Gpumemd
