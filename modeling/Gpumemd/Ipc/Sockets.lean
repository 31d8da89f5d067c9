import Gpumemd.Ipc.Server
import Gpumemd.Library.Ledger

/-!
# The sockets of the server

`UnixSocketServer::run` (`src/ipc/unix_socket_server.cpp`), from its first system call to its
return, with the descriptors that it and the workers use and the file that it makes at the path of
its socket. Each of its system calls may fail, where it looks at the result and where it does not
(`unlink`); `close` leaves no descriptor in use even then. What the kernel promises is that a
descriptor it gives out is not in use, and that `bind` makes no file where there is one; other
processes may make and remove files at the path between any two calls.

The thread of a worker is taken to start: where `std::thread` cannot start one, `run` ends by an
exception, which is not modelled. In its loop and after it, the thread of `run` does what `Server` says, and so do the workers.
-/

namespace Gpumemd

open Library

/-- A descriptor, as the system calls return it. -/
abbrev Descriptor := ℤ

/-- What is at the path of the socket. -/
inductive SocketFile
  /-- What `bind` has made. -/
  | own
  /-- The file of another process. -/
  | foreign
  deriving DecidableEq

/-- Where `run` stands, by the call that comes next. -/
inductive RunPoint
  /-- `run` has not been called. -/
  | created
  | opening
  | binding
  | permitting
  | listening
  | unblocking
  /-- A call has failed after `bind`, and the listener is closed. -/
  | unlinking
  /-- In the loop, or right after it. -/
  | serving
  /-- After the loop, with the listener closed. -/
  | closed
  | returned (result : ℤ)
  /-- After the destructor. -/
  | destroyed
  deriving DecidableEq

namespace RunPoint

/-- There is a listener. -/
def listens : RunPoint → Bool
  | .binding | .permitting | .listening | .unblocking | .serving => true
  | _ => false

/-- `bind` has succeeded, and `unlink` comes later. -/
def bound : RunPoint → Bool
  | .permitting | .listening | .unblocking | .unlinking | .serving | .closed => true
  | _ => false

/-- The loop has not been reached. -/
def early : RunPoint → Bool
  | .serving | .closed | .destroyed => false
  | .returned result => result == -1
  | _ => true

/-- `run` is not running. -/
def ended : RunPoint → Bool
  | .returned _ | .destroyed => true
  | _ => false

theorem rests_of_ended {point : RunPoint} (h : point.ended = true) :
    point.listens = false ∧ point.bound = false := by
  cases point with
  | returned _ => exact ⟨rfl, rfl⟩
  | destroyed => exact ⟨rfl, rfl⟩
  | _ => cases h

end RunPoint

/-- A `UnixSocketServer` with its threads. -/
structure UnixSocketServer where
  server : Server
  socketPath : Str
  listenFd : Descriptor := -1
  /-- The descriptors of the clients, for each worker. -/
  clientFds : List Descriptor := []
  point : RunPoint := .created
  /-- The descriptors in use. -/
  descriptors : Ledger Descriptor := {}
  /-- What is at the path of the socket. -/
  file : Option SocketFile := none
  /-- What `unlink` has removed. -/
  removed : List SocketFile := []

/-- The steps of a worker that name its descriptor. -/
def Work.onSocket : Work → Bool
  | .receive _ | .retry | .hangUp | .fail | .send _ => true
  | _ => false

namespace UnixSocketServer

/-- The steps. -/
inductive Action
  | requestShutdown
  /-- The call of `run`, up to `lstat`, which may fail where there is no file. -/
  | run (failed : Bool)
  | socket (fd : Descriptor)
  | bind (ok : Bool)
  | chmod (ok : Bool)
  | listen (ok : Bool)
  | fcntl (ok : Bool)
  /-- `poll`, or an `accept` that accepts nobody. -/
  | poll
  | accept (fd : Descriptor)
  | leave
  | closeListener
  | cancel
  | join
  /-- `run` does not look whether it has failed. -/
  | unlink (ok : Bool)
  | work (index : ℕ) (work : Work)
  /-- The destructor. -/
  | destroy
  /-- Another process makes a file at the path. -/
  | create
  /-- Another process removes the file at the path. -/
  | remove

variable (s : UnixSocketServer)

/-- A call names the listener. -/
def useListener : UnixSocketServer := { s with descriptors := s.descriptors.use s.listenFd }

/-- `close(listen_fd_); listen_fd_ = -1;` -/
def closeListener : UnixSocketServer :=
  { s with descriptors := s.descriptors.giveBack s.listenFd true, listenFd := -1 }

/-- `unlink(socket_path_.c_str())`. -/
def unlink (ok : Bool) : UnixSocketServer :=
  if ok then { s with file := none, removed := s.removed ++ s.file.toList } else s

/-- A step of the threads. -/
def thread (a : Server.Action) : Option UnixSocketServer :=
  (s.server.perform a).map fun server => { s with server }

/-- A call of the set-up that names the listener, and comes after `bind`. -/
def setUp (ok : Bool) (next : RunPoint) : UnixSocketServer :=
  if ok then { s with point := next } else { s.closeListener with point := .unlinking }

/-- A step of a worker, which closes its descriptor when it returns. -/
def work (index : ℕ) (work : Work) : Option UnixSocketServer := do
  let fd ← s.clientFds[index]?
  let server ← s.server.perform (.work index work)
  let descriptors := if work.onSocket then s.descriptors.use fd else s.descriptors
  if server.workers[index]?.any (·.activity = .closed) then
    return { s with server, descriptors := descriptors.giveBack fd true }
  else return { s with server, descriptors }

/-- The state after a step, if it may be taken, where `pathSize` is the size of
    `sockaddr_un::sun_path`. -/
def perform (pathSize : ℕ) : Action → Option UnixSocketServer
  | .requestShutdown => if s.point = .destroyed then none else s.thread .requestShutdown
  | .run failed =>
    if s.point = .created then
      let s := { s with server := { s.server with stopRequested := false } }
      if s.socketPath.isEmpty || pathSize ≤ s.socketPath.length then
        some { s with point := .returned (-1) }
      else if s.file.isSome || failed then some { s with point := .returned (-1) }
      else some { s with point := .opening }
    else none
  | .socket fd =>
    if s.point = .opening then
      if fd < 0 then some { s with listenFd := fd, point := .returned (-1) }
      else some { s with
        listenFd := fd
        descriptors := s.descriptors.grant fd
        point := .binding }
    else none
  | .bind ok =>
    if s.point = .binding then
      let s := s.useListener
      if ok then some { s with file := some .own, point := .permitting }
      else some { s.closeListener with point := .returned (-1) }
    else none
  | .chmod ok => if s.point = .permitting then some (s.setUp ok .listening) else none
  | .listen ok => if s.point = .listening then some (s.useListener.setUp ok .unblocking) else none
  | .fcntl ok => if s.point = .unblocking then some (s.useListener.setUp ok .serving) else none
  | .poll => if s.point = .serving ∧ s.server.phase = .serving then some s.useListener else none
  | .accept fd =>
    if s.point = .serving then
      (s.useListener.thread .accept).map fun s =>
        -- the worker starts with `setsockopt`
        { s with
          clientFds := s.clientFds ++ [fd]
          descriptors := (s.descriptors.grant fd).use fd }
    else none
  | .leave => if s.point = .serving then s.thread .leave else none
  | .closeListener =>
    if s.point = .serving ∧ s.server.phase = .leaving then
      some { s.closeListener with point := .closed }
    else none
  | .cancel => if s.point = .closed then s.thread .cancel else none
  | .join => if s.point = .closed then s.thread .join else none
  | .unlink ok =>
    if s.point = .unlinking then some { s.unlink ok with point := .returned (-1) }
    else if s.point = .closed ∧ s.server.phase = .stopped then
      some { s.unlink ok with point := .returned 0 }
    else none
  | .work index work => s.work index work
  | .destroy =>
    if s.point = .created ∨ s.point.ended ∧ s.point ≠ .destroyed then
      (s.thread .requestShutdown).map fun s =>
        { if 0 ≤ s.listenFd then s.closeListener else s with point := .destroyed }
    else none
  | .create => if s.file = none then some { s with file := some .foreign } else none
  | .remove => some { s with file := none }

/-- What the kernel promises. -/
def Promised : Action → Prop
  | .socket fd => 0 ≤ fd → fd ∉ s.descriptors.live
  | .bind ok => ok = true → s.file = none
  | .accept fd => 0 ≤ fd ∧ fd ∉ s.descriptors.live
  | _ => True

/-- `unlink` does not fail to remove what `bind` has made. -/
def Unlinks : Action → Prop
  | .unlink ok => s.file = some .own → ok = true
  | _ => True

/-- The runs of a server that is constructed where there may be a file of another process. -/
def machine (pathSize : ℕ) : Machine UnixSocketServer Action where
  init s := ∃ server socketPath file, Server.machine.init server ∧ file ≠ some .own ∧
    s = { server, socketPath, file }
  step s a t := s.Promised a ∧ s.perform pathSize a = some t

variable {s t : UnixSocketServer} {a : Action} {pathSize : ℕ}

/-! ## What a step does -/

/-- The calls of the set-up that come after `bind`, by where `run` stands before and after them. -/
inductive SetUp : RunPoint → RunPoint → Prop
  | chmod : SetUp .permitting .listening
  | listen : SetUp .listening .unblocking
  | fcntl : SetUp .unblocking .serving

theorem SetUp.before {point next : RunPoint} (h : SetUp point next) :
    point.early = true ∧ point.listens = true ∧ point.bound = true := by
  cases h <;> exact ⟨rfl, rfl, rfl⟩

theorem SetUp.ne_created {point next : RunPoint} (h : SetUp point next) :
    point ≠ .created ∧ next ≠ .created := by cases h <;> exact ⟨nofun, nofun⟩

theorem SetUp.after {point next : RunPoint} (h : SetUp point next) :
    next.listens = true ∧ next.bound = true ∧ next.ended = false := by
  cases h <;> exact ⟨rfl, rfl, rfl⟩

theorem file_unlink {ok : Bool} (h : s.Unlinks (.unlink ok)) :
    (s.unlink ok).file ≠ some .own := by
  rw [unlink]
  split_ifs with hok
  · exact (Option.some_ne_none _).symm
  · exact mt h hok

/-- Where the destructor runs, there is no listener, and `bind` or `unlink` is not to come. -/
theorem rests_of_destroyed (h : s.point = .created ∨ s.point.ended = true) :
    s.point.listens = false ∧ s.point.bound = false := by
  rcases h with hpoint | hended
  · rw [hpoint]
    exact ⟨rfl, rfl⟩
  · exact RunPoint.rests_of_ended hended

/-- What a step does, unless another process removes the file. -/
inductive Effect (s : UnixSocketServer) (a : Action) : UnixSocketServer → Prop
  | requestShutdown {server : Server} : s.server.perform .requestShutdown = some server →
      Effect s a { s with server }
  /-- The thread of `run` goes on as it does in `Server`. -/
  | thread {b : Server.Action} {server : Server} :
      s.point = .serving ∧ b = .leave ∨ s.point = .closed ∧ (b = .cancel ∨ b = .join) →
      s.server.perform b = some server → Effect s a { s with server }
  | runs {point : RunPoint} : s.point = .created → point = .returned (-1) ∨ point = .opening →
      Effect s a { s with server := { s.server with stopRequested := false }, point }
  | unopened {fd : Descriptor} : s.point = .opening → fd < 0 →
      Effect s a { s with listenFd := fd, point := .returned (-1) }
  | opens {fd : Descriptor} : s.point = .opening → 0 ≤ fd → fd ∉ s.descriptors.live →
      Effect s a { s with
        listenFd := fd
        descriptors := s.descriptors.grant fd
        point := .binding }
  | binds : s.point = .binding → s.file = none →
      Effect s a { s.useListener with file := some .own, point := .permitting }
  | unbound : s.point = .binding →
      Effect s a { s.useListener.closeListener with point := .returned (-1) }
  | setsUp {u : UnixSocketServer} {point : RunPoint} : SetUp s.point point →
      u = s ∨ u = s.useListener → Effect s a { u with point }
  | fails {u : UnixSocketServer} {point : RunPoint} : SetUp s.point point →
      u = s ∨ u = s.useListener → Effect s a { u.closeListener with point := .unlinking }
  | polls : s.point = .serving → Effect s a s.useListener
  | accepts {fd : Descriptor} {server : Server} : s.point = .serving →
      s.server.perform .accept = some server → fd ∉ s.descriptors.live →
      Effect s a { s.useListener with
        server
        clientFds := s.clientFds ++ [fd]
        descriptors := (s.useListener.descriptors.grant fd).use fd }
  | closes : s.point = .serving → Effect s a { s.closeListener with point := .closed }
  | unlinks {ok : Bool} {result : ℤ} : a = .unlink ok → s.point = .unlinking ∧ result = -1 ∨
      s.point = .closed ∧ s.server.phase = .stopped ∧ result = 0 →
      Effect s a { s.unlink ok with point := .returned result }
  | works {u : UnixSocketServer} {index : ℕ} {work : Work} : s.work index work = some u → Effect s a u
  | destroys {server : Server} : s.point = .created ∨ s.point.ended = true →
      s.server.perform .requestShutdown = some server →
      Effect s a { if 0 ≤ s.listenFd then { s with server }.closeListener else { s with server } with
        point := .destroyed }
  | creates : s.file = none → Effect s a { s with file := some .foreign }

theorem setUp_effect {ok : Bool} {point : RunPoint} {u : UnixSocketServer}
    (hpoint : SetUp s.point point) (hu : u = s ∨ u = s.useListener) : Effect s a (u.setUp ok point) := by
  cases ok with
  | true => exact .setsUp hpoint hu
  | false => exact .fails hpoint hu

theorem thread_effect {b : Server.Action} {u : UnixSocketServer} (h : u.thread b = some t) :
    ∃ server, u.server.perform b = some server ∧ t = { u with server } := by
  obtain ⟨server, hserver, rfl⟩ := Option.map_eq_some_iff.1 h
  exact ⟨server, hserver, rfl⟩

theorem perform_effect (hpromised : s.Promised a) (ha : a ≠ .remove)
    (h : s.perform pathSize a = some t) : Effect s a t := by
  cases a with
  | requestShutdown =>
    rw [perform] at h
    split_ifs at h
    obtain ⟨server, hserver, rfl⟩ := thread_effect h
    exact .requestShutdown hserver
  | run failed =>
    rw [perform] at h
    split_ifs at h with hpoint
    dsimp only at h
    split_ifs at h
    · obtain rfl := Option.some.inj h
      exact .runs hpoint (.inl rfl)
    · obtain rfl := Option.some.inj h
      exact .runs hpoint (.inl rfl)
    · obtain rfl := Option.some.inj h
      exact .runs hpoint (.inr rfl)
  | socket fd =>
    rw [perform] at h
    split_ifs at h with hpoint hfd
    · obtain rfl := Option.some.inj h
      exact .unopened hpoint hfd
    · obtain rfl := Option.some.inj h
      exact .opens hpoint (not_lt.1 hfd) (hpromised (not_lt.1 hfd))
  | bind ok =>
    rw [perform] at h
    split_ifs at h with hpoint hok
    · obtain rfl := Option.some.inj h
      exact .binds hpoint (hpromised hok)
    · obtain rfl := Option.some.inj h
      exact .unbound hpoint
  | chmod ok =>
    rw [perform] at h
    split_ifs at h with hpoint
    obtain rfl := Option.some.inj h
    exact setUp_effect (hpoint ▸ .chmod) (.inl rfl)
  | listen ok =>
    rw [perform] at h
    split_ifs at h with hpoint
    obtain rfl := Option.some.inj h
    exact setUp_effect (hpoint ▸ .listen) (.inr rfl)
  | fcntl ok =>
    rw [perform] at h
    split_ifs at h with hpoint
    obtain rfl := Option.some.inj h
    exact setUp_effect (hpoint ▸ .fcntl) (.inr rfl)
  | poll =>
    rw [perform] at h
    split_ifs at h with hpoint
    obtain rfl := Option.some.inj h
    exact .polls hpoint.1
  | accept fd =>
    rw [perform] at h
    split_ifs at h with hpoint
    obtain ⟨u, hu, rfl⟩ := Option.map_eq_some_iff.1 h
    obtain ⟨server, hserver, rfl⟩ := thread_effect hu
    exact .accepts hpoint hserver hpromised.2
  | leave =>
    rw [perform] at h
    split_ifs at h with hpoint
    obtain ⟨server, hserver, rfl⟩ := thread_effect h
    exact .thread (.inl ⟨hpoint, rfl⟩) hserver
  | closeListener =>
    rw [perform] at h
    split_ifs at h with hpoint
    obtain rfl := Option.some.inj h
    exact .closes hpoint.1
  | cancel =>
    rw [perform] at h
    split_ifs at h with hpoint
    obtain ⟨server, hserver, rfl⟩ := thread_effect h
    exact .thread (.inr ⟨hpoint, .inl rfl⟩) hserver
  | join =>
    rw [perform] at h
    split_ifs at h with hpoint
    obtain ⟨server, hserver, rfl⟩ := thread_effect h
    exact .thread (.inr ⟨hpoint, .inr rfl⟩) hserver
  | unlink ok =>
    rw [perform] at h
    split_ifs at h with hpoint hclosed
    · obtain rfl := Option.some.inj h
      exact .unlinks rfl (.inl ⟨hpoint, rfl⟩)
    · obtain rfl := Option.some.inj h
      exact .unlinks rfl (.inr ⟨hclosed.1, hclosed.2, rfl⟩)
  | work index work => exact .works h
  | destroy =>
    rw [perform] at h
    split_ifs at h with hpoint
    obtain ⟨u, hu, rfl⟩ := Option.map_eq_some_iff.1 h
    obtain ⟨server, hserver, rfl⟩ := thread_effect hu
    exact .destroys (hpoint.imp_right And.left) hserver
  | create =>
    rw [perform] at h
    split_ifs at h with hfile
    obtain rfl := Option.some.inj h
    exact .creates hfile
  | remove => exact absurd rfl ha

theorem eq_of_work {index : ℕ} {work : Work} (h : s.work index work = some t) :
    ∃ fd server, s.clientFds[index]? = some fd ∧ s.server.perform (.work index work) = some server ∧
      t = { s with
        server
        descriptors :=
          let descriptors := if work.onSocket then s.descriptors.use fd else s.descriptors
          if server.workers[index]?.any (·.activity = .closed) then descriptors.giveBack fd true
          else descriptors } := by
  obtain ⟨fd, hfd, h⟩ := Option.bind_eq_some_iff.1 h
  obtain ⟨server, hserver, h⟩ := Option.bind_eq_some_iff.1 h
  refine ⟨fd, server, hfd, hserver, ?_⟩
  dsimp only at h ⊢
  split_ifs at h ⊢
  · exact (Option.some.inj h).symm
  · exact (Option.some.inj h).symm
  · exact (Option.some.inj h).symm
  · exact (Option.some.inj h).symm

end UnixSocketServer

end Gpumemd
