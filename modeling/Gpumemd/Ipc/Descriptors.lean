import Gpumemd.Ipc.Progress
import Gpumemd.Ipc.Sockets
import Gpumemd.Library.Simulation

/-!
# Which descriptors are in use

Whatever the system calls of the server return, and however its threads interleave:

* the threads do what `Server` says (`refines_server`);
* no descriptor is used or closed after it has been closed, those in use are distinct, and when
  `run` has returned, all of them are closed, and its file is gone if `unlink` has not failed to
  remove it (`reachable_sockets`);
* the file of another process is never removed, and that of `run` is there until it removes it,
  as long as nobody else does (`reachable_removed`).
-/

namespace Gpumemd

open Library

namespace UnixSocketServer

variable {s t : UnixSocketServer} {a : Action} {pathSize : ℕ}

/-! ## The invariant -/

/-- The descriptor of a worker, until it closes it. -/
def client (worker : Worker) (fd : Descriptor) : Multiset Descriptor :=
  if worker.activity = .closed then 0 else {fd}

/-- The descriptors of the workers. -/
def clients (workers : List Worker) (fds : List Descriptor) : Multiset Descriptor :=
  (workers.zipWith client fds).sum

/-- The descriptor of the listener. -/
def listener (s : UnixSocketServer) : Multiset Descriptor :=
  if s.point.listens then {s.listenFd} else 0

/-- The descriptors in use are those of the listener and the workers, and the workers and the
    phase are as they may be where `run` stands. -/
structure Sockets (s : UnixSocketServer) : Prop where
  accounts : s.descriptors.Accounts (listener s + clients s.server.workers s.clientFds) 0
  nodup : s.descriptors.live.Nodup
  length : s.clientFds.length = s.server.workers.length
  listens : 0 ≤ s.listenFd ↔ s.point.listens = true
  early : s.point.early = true → s.server.workers = []
  ended : s.point.ended = true → ∀ worker ∈ s.server.workers, worker.activity = .closed
  stopped : s.server.phase = .stopped → ∀ worker ∈ s.server.workers, worker.activity = .closed
  returned : s.point = .returned 0 → s.server.phase = .stopped

theorem clients_append {workers : List Worker} {fds : List Descriptor}
    (hlength : fds.length = workers.length) (worker : Worker) (fd : Descriptor) :
    clients (workers ++ [worker]) (fds ++ [fd]) = clients workers fds + client worker fd := by
  rw [clients, List.zipWith_append hlength.symm, List.sum_append]
  exact congrArg (_ + ·) (add_zero _)

/-- Where a worker takes the place of another. -/
theorem clients_set {workers : List Worker} {fds : List Descriptor} {index : ℕ} {worker : Worker}
    {fd : Descriptor} (hworker : workers[index]? = some worker) (hfd : fds[index]? = some fd)
    (worker' : Worker) :
    clients (workers.set index worker') fds + client worker fd =
      clients workers fds + client worker' fd := by
  induction workers generalizing fds index with
  | nil => cases hworker
  | cons first workers ih =>
    cases fds with
    | nil => cases hfd
    | cons firstFd fds =>
      cases index with
      | zero =>
        obtain rfl := Option.some.inj hworker
        obtain rfl := Option.some.inj hfd
        simp only [clients, List.set_cons_zero, List.zipWith_cons_cons, List.sum_cons]
        ac_rfl
      | succ index =>
        have hrest : clients (workers.set index worker') fds + client worker fd =
            clients workers fds + client worker' fd := ih hworker hfd
        simp only [clients, List.set_cons_succ, List.zipWith_cons_cons, List.sum_cons] at hrest ⊢
        rw [add_assoc, hrest, add_assoc]

theorem clients_eq_zero {workers : List Worker}
    (h : ∀ worker ∈ workers, worker.activity = .closed) (fds : List Descriptor) :
    clients workers fds = 0 := by
  induction workers generalizing fds with
  | nil => rfl
  | cons worker workers ih =>
    cases fds with
    | nil => rfl
    | cons fd fds =>
      obtain ⟨hworker, hworkers⟩ := List.forall_mem_cons.1 h
      rw [clients, List.zipWith_cons_cons, List.sum_cons, client, if_pos hworker, zero_add]
      exact ih hworkers fds

namespace Sockets

/-- The listener is in use where `run` names it. -/
theorem useListener (h : Sockets s) (hlistens : s.point.listens = true) : s.useListener = s := by
  have hmem : s.listenFd ∈ listener s + clients s.server.workers s.clientFds := by
    rw [listener, if_pos hlistens]
    exact Multiset.mem_add.2 (.inl (Multiset.mem_singleton_self _))
  rw [UnixSocketServer.useListener, h.accounts.use hmem]

/-- The workers have returned, if there are any. -/
theorem all_closed (h : Sockets s)
    (hrests : s.point.early = true ∨ s.point.ended = true ∨ s.server.phase = .stopped) :
    ∀ worker ∈ s.server.workers, worker.activity = .closed := by
  rcases hrests with hearly | hended | hstopped
  · rw [h.early hearly]
    exact List.forall_mem_nil _
  · exact h.ended hended
  · exact h.stopped hstopped

/-- `run` goes on, and the listener stays. -/
theorem move (h : Sockets s) {point : RunPoint} (hlistens : point.listens = s.point.listens)
    (hearly : point.early = true → s.point.early = true) (hended : point.ended = true →
      s.point.early = true ∨ s.point.ended = true ∨ s.server.phase = .stopped)
    (hreturned : point = .returned 0 → s.server.phase = .stopped) :
    Sockets { s with point } where
  accounts := by
    have haccounts := h.accounts
    rw [listener, ← hlistens] at haccounts
    exact haccounts
  nodup := h.nodup
  length := h.length
  listens := hlistens ▸ h.listens
  early hpoint := h.early (hearly hpoint)
  ended hpoint := h.all_closed (hended hpoint)
  stopped := h.stopped
  returned := hreturned

/-- `run` closes the listener. -/
theorem close (h : Sockets s) (hlistens : s.point.listens = true) {point : RunPoint}
    (hpoint : point.listens = false) (hearly : point.early = true → s.point.early = true)
    (hended : point.ended = true → s.point.early = true) (hreturned : point ≠ .returned 0) :
    Sockets { s.closeListener with point } where
  accounts := by
    have haccounts := h.accounts
    rw [listener, if_pos hlistens, Multiset.singleton_add] at haccounts
    rw [listener, hpoint, if_neg Bool.false_ne_true, zero_add]
    exact haccounts.giveBack
  nodup := h.nodup.erase _
  length := h.length
  listens := by
    rw [hpoint]
    exact iff_of_false (show ¬ (0 : ℤ) ≤ -1 by decide) Bool.false_ne_true
  early hpoint := h.early (hearly hpoint)
  ended hpoint := h.all_closed (.inl (hended hpoint))
  stopped := h.stopped
  returned heq := absurd heq hreturned

/-- The threads go on, and their workers stay. -/
theorem thread (h : Sockets s) {server : Server} (hworkers : server.workers = s.server.workers)
    (hstopped : server.phase = .stopped → ∀ worker ∈ s.server.workers, worker.activity = .closed)
    (hreturned : s.point = .returned 0 → server.phase = .stopped) : Sockets { s with server } where
  accounts := by
    show s.descriptors.Accounts (listener s + clients server.workers s.clientFds) 0
    rw [hworkers]
    exact h.accounts
  nodup := h.nodup
  length := hworkers ▸ h.length
  listens := h.listens
  early hpoint := hworkers.trans (h.early hpoint)
  ended hpoint := hworkers ▸ h.ended hpoint
  stopped hphase := hworkers ▸ hstopped hphase
  returned := hreturned

theorem requestShutdown (h : Sockets s) {server : Server}
    (hserver : s.server.perform .requestShutdown = some server) : Sockets { s with server } := by
  obtain rfl := Option.some.inj hserver
  exact h.thread rfl h.stopped h.returned

theorem opens (h : Sockets s) {fd : Descriptor} (hpoint : s.point = .opening) (hfd : 0 ≤ fd)
    (hfresh : fd ∉ s.descriptors.live) :
    Sockets { s with listenFd := fd, descriptors := s.descriptors.grant fd, point := .binding } where
  accounts := by
    have haccounts := h.accounts
    rw [listener, hpoint, if_neg (by decide), zero_add] at haccounts
    exact haccounts.grant fd
  nodup := Multiset.nodup_cons.2 ⟨hfresh, h.nodup⟩
  length := h.length
  listens := iff_of_true hfd rfl
  early _ := h.early (hpoint ▸ rfl)
  ended hended := nomatch hended
  stopped := h.stopped
  returned hreturned := nomatch hreturned

theorem accepts (h : Sockets s) {fd : Descriptor} {server : Server} (hpoint : s.point = .serving)
    (hserver : s.server.perform .accept = some server) (hfresh : fd ∉ s.descriptors.live) :
    Sockets { s with
      server
      clientFds := s.clientFds ++ [fd]
      descriptors := (s.descriptors.grant fd).use fd } := by
  have hheld : fd ::ₘ (listener s + clients s.server.workers s.clientFds) =
      listener s + clients (s.server.workers ++ [({} : Worker)]) (s.clientFds ++ [fd]) := by
    rw [clients_append h.length, ← add_assoc, add_comm _ (client _ _)]
    rfl
  rw [h.accounts.grant fd |>.use (Multiset.mem_cons_self fd _)]
  cases Server.perform_effect hserver with
  | accept hphase =>
    refine ⟨hheld ▸ h.accounts.grant fd, Multiset.nodup_cons.2 ⟨hfresh, h.nodup⟩, ?_, h.listens,
      fun hearly => ?_, fun hended => ?_, fun hstopped => ?_, fun hreturned => ?_⟩
    · simp [h.length]
    · rw [hpoint] at hearly
      cases hearly
    · rw [hpoint] at hended
      cases hended
    · rw [hphase] at hstopped
      cases hstopped
    · rw [hpoint] at hreturned
      cases hreturned

/-- A worker closes its descriptor when it returns, and names no other. -/
theorem works (h : Sockets s) {index : ℕ} {work : Work} (hwork : s.work index work = some t) :
    Sockets t := by
  obtain ⟨fd, server, hfd, hserver, rfl⟩ := eq_of_work hwork
  cases Server.perform_effect hserver with
  | @work index work worker worker' broker hworker hbroker _ =>
    have hopen : worker.activity ≠ .closed := fun hclosed => by
      rw [Broker.not_work_of_closed hclosed] at hbroker
      cases hbroker
    have hclient : client worker fd = {fd} := if_neg hopen
    have hset (worker' : Worker) := clients_set hworker hfd worker'
    -- the descriptor is in use before the step
    have hheld : listener s + clients s.server.workers s.clientFds =
        fd ::ₘ (listener s + clients (s.server.workers.set index ⟨[], .closed⟩) s.clientFds) := by
      have hclosed := hset ⟨[], .closed⟩
      rw [hclient, show client ⟨[], .closed⟩ fd = 0 from rfl, add_zero] at hclosed
      rw [← hclosed, ← Multiset.singleton_add]
      ac_rfl
    have huse : (if work.onSocket = true then s.descriptors.use fd else s.descriptors) =
        s.descriptors := by
      rw [h.accounts.use (hheld ▸ Multiset.mem_cons_self fd _), ite_self]
    have hmem : worker ∈ s.server.workers := List.mem_of_getElem? hworker
    have hget : (s.server.workers.set index worker')[index]? = some worker' := by
      rw [List.getElem?_set_self (List.getElem?_eq_some_iff.1 hworker).1]
    have hafter {descriptors : Ledger Descriptor}
        (haccounts : descriptors.Accounts
          (listener s + clients (s.server.workers.set index worker') s.clientFds) 0)
        (hnodup : descriptors.live.Nodup) :
        Sockets { s with
          server := { s.server with broker, workers := s.server.workers.set index worker' }
          descriptors } := by
      refine ⟨haccounts, hnodup, ?_, h.listens, fun hearly => ?_,
        fun hended => absurd (h.ended hended worker hmem) hopen,
        fun hstopped => absurd (h.stopped hstopped worker hmem) hopen, h.returned⟩
      · rw [List.length_set]
        exact h.length
      · rw [h.early hearly] at hmem
        cases hmem
    dsimp only
    rw [huse, hget, Option.any_some]
    by_cases hclosed : worker'.activity = .closed
    · have hsame : clients (s.server.workers.set index worker') s.clientFds =
          clients (s.server.workers.set index ⟨[], .closed⟩) s.clientFds := by
        refine add_right_cancel (b := client worker fd) ?_
        rw [hset, hset, client, if_pos hclosed]
        rfl
      rw [if_pos (decide_eq_true hclosed)]
      refine hafter ?_ (h.nodup.erase fd)
      rw [hsame]
      exact (hheld ▸ h.accounts).giveBack
    · have hsame : clients (s.server.workers.set index worker') s.clientFds =
          clients s.server.workers s.clientFds := by
        refine add_right_cancel (b := client worker fd) ?_
        rw [hset, hclient, client, if_neg hclosed]
      rw [if_neg (by simpa using hclosed)]
      exact hafter (hsame ▸ h.accounts) h.nodup

/-- Where the file at the path changes. -/
theorem file (h : Sockets s) (file : Option SocketFile) (removed : List SocketFile) :
    Sockets { s with file, removed } :=
  ⟨h.accounts, h.nodup, h.length, h.listens, h.early, h.ended, h.stopped, h.returned⟩

theorem unlink (h : Sockets s) (ok : Bool) : Sockets (s.unlink ok) := by
  rw [UnixSocketServer.unlink]
  split_ifs
  · exact h.file _ _
  · exact h

theorem thread_step (h : Sockets s) {b : Server.Action} {server : Server}
    (hpoint : s.point = .serving ∧ b = .leave ∨ s.point = .closed ∧ (b = .cancel ∨ b = .join))
    (hserver : s.server.perform b = some server) : Sockets { s with server } := by
  have hreturned : s.point ≠ .returned 0 := by
    rcases hpoint with ⟨hpoint, -⟩ | ⟨hpoint, -⟩ <;> rw [hpoint] <;> decide
  cases Server.perform_effect hserver with
  | leave => exact h.thread rfl nofun fun heq => absurd heq hreturned
  | cancel => exact h.thread rfl nofun fun heq => absurd heq hreturned
  | join _ hclosed => exact h.thread rfl (fun _ => hclosed) fun heq => absurd heq hreturned
  | requestShutdown => simp at hpoint
  | accept => simp at hpoint
  | work => simp at hpoint

theorem runs (h : Sockets s) (hpoint : s.point = .created) {point : RunPoint}
    (hnext : point = .returned (-1) ∨ point = .opening) :
    Sockets { s with server := { s.server with stopRequested := false }, point } := by
  have hearly : s.point.early = true := hpoint ▸ rfl
  have hserver : Sockets { s with server := { s.server with stopRequested := false } } :=
    h.thread rfl h.stopped h.returned
  rcases hnext with rfl | rfl
  · exact hserver.move (hpoint ▸ rfl) (fun _ => hearly) (fun _ => .inl hearly)
      fun heq => absurd heq (by decide)
  · exact hserver.move (hpoint ▸ rfl) (fun _ => hearly) nofun nofun

theorem unopened (h : Sockets s) (hpoint : s.point = .opening) {fd : Descriptor} (hfd : fd < 0) :
    Sockets { s with listenFd := fd, point := .returned (-1) } := by
  have hearly : s.server.workers = [] := h.early (hpoint ▸ rfl)
  have haccounts := h.accounts
  rw [listener, hpoint] at haccounts
  refine ⟨haccounts, h.nodup, h.length, iff_of_false (not_le.2 hfd) nofun, fun _ => hearly,
    fun _ => h.all_closed (.inl (hpoint ▸ rfl)), h.stopped, fun heq => ?_⟩
  exact absurd (RunPoint.returned.inj heq) (by decide)

theorem destroys (h : Sockets s) (hpoint : s.point = .created ∨ s.point.ended = true)
    {server : Server} (hserver : s.server.perform .requestShutdown = some server) :
    Sockets { if 0 ≤ s.listenFd then { s with server }.closeListener else { s with server } with
      point := .destroyed } := by
  have hrests := rests_of_destroyed hpoint
  have hclosed : ¬ 0 ≤ s.listenFd := by
    rw [h.listens, hrests.1]
    exact Bool.false_ne_true
  rw [if_neg hclosed]
  refine (h.requestShutdown hserver).move hrests.1.symm nofun (fun _ => ?_) nofun
  rcases hpoint with hpoint | hended
  · exact .inl (hpoint ▸ rfl)
  · exact .inr (.inl hended)

theorem step (h : Sockets s) (heffect : Effect s a t) : Sockets t := by
  cases heffect with
  | requestShutdown hserver => exact h.requestShutdown hserver
  | thread hpoint hserver => exact h.thread_step hpoint hserver
  | runs hpoint hnext => exact h.runs hpoint hnext
  | unopened hpoint hfd => exact h.unopened hpoint hfd
  | opens hpoint hfd hfresh => exact h.opens hpoint hfd hfresh
  | binds hpoint =>
    rw [h.useListener (hpoint ▸ rfl)]
    have hmoved : Sockets { s with point := .permitting } :=
      h.move (hpoint ▸ rfl) (fun _ => hpoint ▸ rfl) nofun nofun
    exact hmoved.file _ _
  | unbound hpoint =>
    rw [h.useListener (hpoint ▸ rfl)]
    exact h.close (hpoint ▸ rfl) rfl (fun _ => hpoint ▸ rfl) (fun _ => hpoint ▸ rfl) (by decide)
  | setsUp hpoint hu =>
    obtain ⟨hearly, hlistens, -⟩ := hpoint.before
    obtain ⟨hafter, -, hended⟩ := hpoint.after
    obtain rfl := hu.elim id fun heq => heq.trans (h.useListener hlistens)
    refine h.move (hafter.trans hlistens.symm) (fun _ => hearly) (fun _ => .inl hearly)
      fun heq => ?_
    rw [heq] at hended
    cases hended
  | fails hpoint hu =>
    obtain ⟨hearly, hlistens, -⟩ := hpoint.before
    obtain rfl := hu.elim id fun heq => heq.trans (h.useListener hlistens)
    exact h.close hlistens rfl (fun _ => hearly) nofun nofun
  | polls hpoint =>
    rw [h.useListener (hpoint ▸ rfl)]
    exact h
  | accepts hpoint hserver hfresh =>
    rw [h.useListener (hpoint ▸ rfl)]
    exact h.accepts hpoint hserver hfresh
  | closes hpoint => exact h.close (hpoint ▸ rfl) rfl nofun nofun nofun
  | @unlinks ok _ _ hpoint =>
    -- whether it fails or not, only the file changes
    have hsame : (s.unlink ok).point = s.point ∧ (s.unlink ok).server = s.server := by
      rw [UnixSocketServer.unlink]
      split_ifs <;> exact ⟨rfl, rfl⟩
    rcases hpoint with ⟨hpoint, rfl⟩ | ⟨hpoint, hstopped, rfl⟩
    · rw [← hsame.1] at hpoint
      exact (h.unlink ok).move (hpoint ▸ rfl) (fun _ => hpoint ▸ rfl)
        (fun _ => .inl (hpoint ▸ rfl)) fun heq => absurd (RunPoint.returned.inj heq) (by decide)
    · rw [← hsame.1] at hpoint
      rw [← hsame.2] at hstopped
      exact (h.unlink ok).move (hpoint ▸ rfl) Bool.noConfusion (fun _ => .inr (.inr hstopped))
        fun _ => hstopped
  | works hwork => exact h.works hwork
  | destroys hpoint hserver => exact h.destroys hpoint hserver
  | creates => exact h.file _ _

end Sockets

/-! ## Runs -/

theorem sockets_of_reachable (h : (machine pathSize).Reachable s) : Sockets s := by
  refine h.invariant (P := Sockets) ?_ ?_
  · rintro s ⟨server, socketPath, file, ⟨_, _, _, -, -, -, rfl⟩, -, rfl⟩
    have hlistens : ¬ (0 : ℤ) ≤ -1 := by decide
    exact ⟨.empty, Multiset.nodup_zero, rfl, iff_of_false hlistens nofun, fun _ => rfl, nofun,
      nofun, nofun⟩
  · rintro s a t - hs ⟨hpromised, hperform⟩
    by_cases ha : a = .remove
    · obtain rfl := ha
      obtain rfl := Option.some.inj hperform
      exact hs.file _ _
    · exact hs.step (perform_effect hpromised ha hperform)

/-- The server, as `run` starts it. -/
def threads (s : UnixSocketServer) : Server :=
  if s.point = .created then { s.server with stopRequested := false } else s.server

theorem threads_of_ne (h : s.point ≠ .created) : s.threads = s.server := if_neg h

theorem threads_congr (hs : s.point ≠ .created) (ht : t.point ≠ .created)
    (hserver : t.server = s.server) : t.threads = s.threads := by
  rw [threads_of_ne hs, threads_of_ne ht, hserver]

theorem step_threads (hs : s.point ≠ .created) (ht : t.point ≠ .created) {b : Server.Action}
    (hserver : s.server.perform b = some t.server) :
    ∃ b, Server.machine.step s.threads b t.threads := by
  rw [threads_of_ne hs, threads_of_ne ht]
  exact ⟨b, hserver⟩

/-- Whatever the system calls return, the threads do what they may do. -/
theorem refines_server : (machine pathSize).Refines Server.machine threads where
  init s hinit := by
    obtain ⟨server, socketPath, file, hserver, -, rfl⟩ := hinit
    obtain ⟨daemon, metrics, nodes, hdaemon, hmetrics, hnodes, rfl⟩ := hserver
    exact ⟨daemon, metrics, nodes, hdaemon, hmetrics, hnodes, rfl⟩
  step s a t hs hstep := by
    obtain ⟨hpromised, hperform⟩ := hstep
    by_cases ha : a = .remove
    · obtain rfl := ha
      obtain rfl := Option.some.inj hperform
      exact .inr rfl
    cases perform_effect hpromised ha hperform with
    | requestShutdown hserver =>
      obtain rfl := Option.some.inj hserver
      by_cases hpoint : s.point = .created
      · exact .inr ((if_pos hpoint).trans (if_pos hpoint).symm)
      · exact .inl (step_threads hpoint hpoint hserver)
    | thread hpoint hserver =>
      have hne : s.point ≠ .created := by
        rcases hpoint with ⟨hpoint, -⟩ | ⟨hpoint, -⟩ <;> rw [hpoint] <;> nofun
      exact .inl (step_threads hne hne hserver)
    | runs hpoint hnext =>
      refine .inr ((threads_of_ne ?_).trans (if_pos hpoint).symm)
      rcases hnext with rfl | rfl <;> nofun
    | unopened hpoint => exact .inr (threads_congr (hpoint ▸ nofun) nofun rfl)
    | opens hpoint => exact .inr (threads_congr (hpoint ▸ nofun) nofun rfl)
    | binds hpoint => exact .inr (threads_congr (hpoint ▸ nofun) nofun rfl)
    | unbound hpoint => exact .inr (threads_congr (hpoint ▸ nofun) nofun rfl)
    | setsUp hpoint hu =>
      refine .inr (threads_congr hpoint.ne_created.1 hpoint.ne_created.2 ?_)
      rcases hu with rfl | rfl <;> rfl
    | fails hpoint hu =>
      refine .inr (threads_congr hpoint.ne_created.1 nofun ?_)
      rcases hu with rfl | rfl <;> rfl
    | polls hpoint => exact .inr rfl
    | accepts hpoint hserver =>
      have hne : s.point ≠ .created := hpoint ▸ nofun
      exact .inl (step_threads hne hne hserver)
    | closes hpoint => exact .inr (threads_congr (hpoint ▸ nofun) nofun rfl)
    | unlinks _ hpoint =>
      refine .inr (threads_congr ?_ nofun ?_)
      · rcases hpoint with ⟨hpoint, -⟩ | ⟨hpoint, -⟩ <;> rw [hpoint] <;> nofun
      · rw [unlink]
        split_ifs <;> rfl
    | works hwork =>
      obtain ⟨fd, server, hfd, hserver, rfl⟩ := eq_of_work hwork
      have hne : s.point ≠ .created := fun hpoint => by
        -- there are no workers yet
        have hworkers := (sockets_of_reachable hs).early (hpoint ▸ rfl)
        simp [Server.perform, hworkers] at hserver
      exact .inl (step_threads hne hne hserver)
    | destroys hpoint hserver =>
      obtain rfl := Option.some.inj hserver
      have hthreads (u : UnixSocketServer) : { u with point := .destroyed }.threads = u.server :=
        threads_of_ne RunPoint.noConfusion
      refine .inl ⟨.requestShutdown, ?_⟩
      rw [hthreads, threads]
      split_ifs <;> rfl
    | creates => exact .inr rfl

/-- As long as `unlink` does not fail to remove it, what `bind` has made is only there before that. -/
theorem bound_of_own (h : ((machine pathSize).restrict fun s a _ => s.Unlinks a).Reachable s)
    (hfile : s.file = some .own) : s.point.bound = true := by
  refine h.invariant (P := fun s => s.file = some .own → s.point.bound = true) ?_ ?_ hfile
  · rintro s ⟨server, socketPath, file, -, hforeign, rfl⟩ heq
    exact absurd heq hforeign
  · rintro s a t - hs ⟨⟨hpromised, hperform⟩, hunlinks⟩
    -- before `bind`, and after the return, it is not there
    have hno (hrests : s.point.bound = false) : s.file ≠ some .own := fun hfile =>
      Bool.false_ne_true (hrests.symm.trans (hs hfile))
    by_cases ha : a = .remove
    · obtain rfl := ha
      obtain rfl := Option.some.inj hperform
      exact nofun
    cases perform_effect hpromised ha hperform with
    | requestShutdown => exact hs
    | thread => exact hs
    | runs hpoint => exact fun hfile => absurd hfile (hno (hpoint ▸ rfl))
    | unopened hpoint => exact fun hfile => absurd hfile (hno (hpoint ▸ rfl))
    | opens hpoint => exact fun hfile => absurd hfile (hno (hpoint ▸ rfl))
    | binds => exact fun _ => rfl
    | unbound hpoint => exact fun hfile => absurd hfile (hno (hpoint ▸ rfl))
    | setsUp hpoint => exact fun _ => hpoint.after.2.1
    | fails => exact fun _ => rfl
    | polls => exact hs
    | accepts => exact hs
    | closes => exact fun _ => rfl
    | unlinks ha =>
      obtain rfl := ha
      exact fun hfile => absurd hfile (file_unlink hunlinks)
    | works hwork =>
      obtain ⟨_, _, _, _, rfl⟩ := eq_of_work hwork
      exact hs
    | destroys hpoint =>
      split_ifs <;> exact fun hfile => absurd hfile (hno (rests_of_destroyed hpoint).2)
    | creates => exact nofun

/-- Whatever the system calls return and however the threads interleave, no descriptor is named
    after it has been closed, and those in use are the listener's and those of the workers that have
    not returned. When `run` has returned, there are none, and no worker runs; its file is gone, if
    `unlink` has not failed to remove it. If `run` fails, it has accepted nobody. -/
theorem reachable_sockets (h : (machine pathSize).Reachable s) :
    s.descriptors.stale = false ∧ s.descriptors.live.Nodup ∧
      s.descriptors.live = listener s + clients s.server.workers s.clientFds ∧
      (s.point.ended = true → s.descriptors.live = 0 ∧
        (((machine pathSize).restrict fun s a _ => s.Unlinks a).Reachable s → s.file ≠ some .own) ∧
        ∀ worker ∈ s.server.workers, worker.activity = .closed) ∧
      (s.point = .returned 0 → s.server.phase = .stopped) ∧
      (s.point = .returned (-1) → s.server.workers = []) := by
  have hs := sockets_of_reachable h
  have hlive : s.descriptors.live = listener s + clients s.server.workers s.clientFds :=
    hs.accounts.live.trans (add_zero _)
  refine ⟨hs.accounts.fresh, hs.nodup, hlive, fun hended => ?_, hs.returned,
    fun hreturned => hs.early (hreturned ▸ rfl)⟩
  obtain ⟨hlistens, hbound⟩ := RunPoint.rests_of_ended hended
  refine ⟨?_, fun hunlinks hfile => ?_, hs.ended hended⟩
  · rw [hlive, listener, hlistens, clients_eq_zero (hs.ended hended)]
    rfl
  · exact Bool.false_ne_true (hbound.symm.trans (bound_of_own hunlinks hfile))

/-- Another process does not remove the file that `bind` has made. -/
def Heeds (s : UnixSocketServer) : Action → Prop
  | .remove => s.file ≠ some .own
  | _ => True

/-- The file is there until `unlink` removes it, and `unlink` removes no other, as long as no
    other process removes it. -/
theorem reachable_removed (h : ((machine pathSize).restrict fun s a _ => s.Heeds a).Reachable s) :
    (s.point.bound = true → s.file = some .own) ∧ .foreign ∉ s.removed := by
  refine h.invariant
    (P := fun s => (s.point.bound = true → s.file = some .own) ∧ .foreign ∉ s.removed) ?_ ?_
  · rintro s ⟨server, socketPath, file, -, -, rfl⟩
    exact ⟨nofun, List.not_mem_nil⟩
  · rintro s a t - hs ⟨⟨hpromised, hperform⟩, hheeds⟩
    by_cases ha : a = .remove
    · obtain rfl := ha
      obtain rfl := Option.some.inj hperform
      exact ⟨fun hbound => absurd (hs.1 hbound) hheeds, hs.2⟩
    cases perform_effect hpromised ha hperform with
    | requestShutdown => exact hs
    | thread => exact hs
    | runs _ hnext => exact ⟨by rcases hnext with rfl | rfl <;> nofun, hs.2⟩
    | unopened => exact ⟨nofun, hs.2⟩
    | opens => exact ⟨nofun, hs.2⟩
    | binds => exact ⟨fun _ => rfl, hs.2⟩
    | unbound => exact ⟨nofun, hs.2⟩
    | setsUp hpoint hu => rcases hu with rfl | rfl <;> exact ⟨fun _ => hs.1 hpoint.before.2.2, hs.2⟩
    | fails hpoint hu => rcases hu with rfl | rfl <;> exact ⟨fun _ => hs.1 hpoint.before.2.2, hs.2⟩
    | polls => exact hs
    | accepts => exact hs
    | closes hpoint => exact ⟨fun _ => hs.1 (hpoint ▸ rfl), hs.2⟩
    | unlinks _ hpoint =>
      have hfile : s.file = some .own :=
        hs.1 (by rcases hpoint with ⟨hpoint, -⟩ | ⟨hpoint, -⟩ <;> rw [hpoint] <;> rfl)
      refine ⟨Bool.noConfusion, ?_⟩
      rw [unlink, hfile]
      split_ifs
      · simpa using hs.2
      · exact hs.2
    | works hwork =>
      obtain ⟨_, _, _, _, rfl⟩ := eq_of_work hwork
      exact hs
    | destroys => split_ifs <;> exact ⟨Bool.noConfusion, hs.2⟩
    | creates hnone =>
      refine ⟨fun hbound => ?_, hs.2⟩
      rw [hs.1 hbound] at hnone
      cases hnone

/-! ## Runs that are given by their steps -/

instance (s : UnixSocketServer) : (a : Action) → Decidable (s.Promised a)
  | .socket fd => inferInstanceAs (Decidable (0 ≤ fd → fd ∉ s.descriptors.live))
  | .bind ok => inferInstanceAs (Decidable (ok = true → s.file = none))
  | .accept fd => inferInstanceAs (Decidable (0 ≤ fd ∧ fd ∉ s.descriptors.live))
  | .requestShutdown | .run _ | .chmod _ | .listen _ | .fcntl _ | .poll | .leave | .closeListener
  | .cancel | .join | .unlink _ | .work .. | .destroy | .create | .remove => .isTrue trivial

instance (s : UnixSocketServer) : (a : Action) → Decidable (s.Unlinks a)
  | .unlink ok => inferInstanceAs (Decidable (s.file = some .own → ok = true))
  | .requestShutdown | .run _ | .socket _ | .bind _ | .chmod _ | .listen _ | .fcntl _ | .poll
  | .accept _ | .leave | .closeListener | .cancel | .join | .work .. | .destroy | .create
  | .remove => .isTrue trivial

instance (s : UnixSocketServer) : (a : Action) → Decidable (s.Heeds a)
  | .remove => inferInstanceAs (Decidable (s.file ≠ some .own))
  | .requestShutdown | .run _ | .socket _ | .bind _ | .chmod _ | .listen _ | .fcntl _ | .poll
  | .accept _ | .leave | .closeListener | .cancel | .join | .unlink _ | .work .. | .destroy
  | .create => .isTrue trivial

/-- The state after a step that the kernel's promises and the other processes admit, where
    `unlink` does not fail. -/
def admitted (pathSize : ℕ) (s : UnixSocketServer) (a : Action) : Option UnixSocketServer :=
  if s.Promised a ∧ s.Heeds a ∧ s.Unlinks a then s.perform pathSize a else none

/-- A server that has not been run. -/
def constructed : UnixSocketServer := { server := .idle, socketPath := ascii "/tmp/gpumemd.sock" }

/-- The state after the steps, where a path has 108 bytes. -/
def after (actions : List Action) : UnixSocketServer :=
  (actions.foldlM (admitted 108) constructed).getD constructed

theorem step_of_admitted {a : Action} (h : s.admitted pathSize a = some t) :
    ((machine pathSize).restrict fun s a _ => s.Heeds a ∧ s.Unlinks a).step s a t := by
  rw [admitted] at h
  split_ifs at h with hadmitted
  exact ⟨⟨hadmitted.1, h⟩, hadmitted.2⟩

theorem reachable_after (actions : List Action) :
    ((machine 108).restrict fun s a _ => s.Heeds a ∧ s.Unlinks a).Reachable (after actions) := by
  have hconstructed :
      ((machine 108).restrict fun s a _ => s.Heeds a ∧ s.Unlinks a).Reachable constructed :=
    .init ⟨_, _, none, Server.init_idle, nofun, rfl⟩
  exact hconstructed.getD_foldlM (fun _ _ _ => step_of_admitted) actions

/-- A client hangs up, its descriptor is given to the next one, and the server is shut down while
    that one is idle. Another process takes the path over. -/
def handing : List Action :=
  [.run false, .socket 3, .bind true, .chmod true, .listen true, .fcntl true, .accept 4,
    .work 0 .check, .work 0 .hangUp, .poll, .accept 4, .requestShutdown, .leave, .closeListener,
    .cancel, .work 1 .check, .join, .unlink true, .create, .destroy]

/-- `listen` fails. -/
def failing : List Action :=
  [.run false, .socket 3, .bind true, .chmod true, .listen false, .unlink true]

/-- `unlink` fails, too. -/
def littering : List Action :=
  [.run false, .socket 3, .bind true, .chmod true, .listen false, .unlink false]

theorem handing_sockets :
    ((after handing).point = .destroyed ∧ (after handing).descriptors.live = 0 ∧
      (after handing).descriptors.stale = false) ∧
    ((after failing).point = .returned (-1) ∧ (after failing).descriptors.live = 0 ∧
      (after failing).file ≠ some .own) := by
  obtain ⟨hfresh, -, -, hended, -, -⟩ := reachable_sockets (reachable_after handing).of_restrict
  obtain ⟨-, -, -, hfailed, -, -⟩ := reachable_sockets (reachable_after failing).of_restrict
  have hdestroyed : (after handing).point = .destroyed := by decide
  have hreturned : (after failing).point = .returned (-1) := by decide
  refine ⟨⟨hdestroyed, (hended (hdestroyed ▸ rfl)).1, hfresh⟩, hreturned, ?_⟩
  obtain ⟨hlive, hfile, -⟩ := hfailed (hreturned ▸ rfl)
  exact ⟨hlive, hfile ((reachable_after failing).mono fun _ _ _ => And.right)⟩

/-- Where `unlink` fails, the file stays. -/
example : (littering.foldlM (fun s a => perform s 108 a) constructed).map (·.file) =
    some (some .own) := by decide

theorem handing_removed :
    (after handing).file = some .foreign ∧ .foreign ∉ (after handing).removed :=
  ⟨by decide, (reachable_removed ((reachable_after handing).mono fun _ _ _ => And.left)).2⟩

end UnixSocketServer

end Gpumemd
