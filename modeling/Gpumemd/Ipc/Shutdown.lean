import Gpumemd.Ipc.Steps
import Gpumemd.Resource.Deadlines

/-!
# Shutdown

When it is to stop, `run` cancels the requests that are queued (`cancel_waiters`) and joins
the workers. A worker looks at the stop flag only before it reads, and executes what it has
read before: it may still call `acquire`, for a request that nobody will cancel. If no
worker calls it after that, for more than what is free and without a deadline, no request
is queued without a deadline (`Server.reachable_timed`). Else one may be
(`Server.stuck_waits`), and `run` does not return unless somebody releases memory.
-/

namespace Gpumemd

open Library Protocol

/-- The command that the worker is about to call for. -/
def Activity.dispatched : Activity → Option Command
  | .dispatching command => some command
  | _ => none

namespace Broker

variable {s t : Broker} {worker worker' : Worker} {work : Work} {command : Command}
  {activity resume : Activity} {action : Daemon.Action} {outside : Outside} {name : Str}
  {bytes : Bytes} {options : AcquireOptions} {now later : TimePoint}

/-- The worker calls `acquire`, for more than what is free and without a deadline. -/
def QueuesForever (s : Broker) (worker : Worker) : Work → Prop
  | .execute outside => ∃ command ∈ worker.activity.dispatched, command.type = .acquire ∧
      command.acquireMode = .wait ∧
      s.daemon.resources.QueuesForever command.name command.bytes command.options outside.now
  | _ => False

/-- `dispatch` calls `acquire` for a command that waits. -/
theorem of_operation (h : operation s.daemon command outside =
      some (.client (.acquire name bytes options now later))) :
    command.type = .acquire ∧ command.acquireMode = .wait ∧ name = command.name ∧
      bytes = command.bytes ∧ options = command.options ∧ now = outside.now := by
  rw [operation] at h
  split at h
  any_goals cases h
  next htype =>
    split at h
    next => cases h
    next hmode =>
      cases h
      exact ⟨htype, hmode, rfl, rfl, rfl, rfl⟩

/-- A call queues a request without a deadline only where the worker does. -/
theorem Calls.not_queuesForever (hcalls : s.Calls command work worker.activity resume action)
    (hnot : ¬ s.QueuesForever worker work)
    (haction : action = .client (.acquire name bytes options now later)) :
    ¬ s.daemon.resources.QueuesForever name bytes options now := by
  subst haction
  generalize hactivity : worker.activity = activity at hcalls
  cases hcalls with
  | start hoperation =>
    obtain ⟨htype, hmode, rfl, rfl, rfl, rfl⟩ := of_operation hoperation
    intro hqueues
    refine hnot ⟨command, ?_, htype, hmode, hqueues⟩
    rw [hactivity]
    rfl

/-- What a worker does leaves no request without a deadline. -/
theorem Effect.timed (heffect : Effect s worker work t worker') (hs : Inv s)
    (hnot : ¬ s.QueuesForever worker work) (h : s.daemon.resources.Timed) :
    t.daemon.resources.Timed := by
  have hsettled := ResourceManager.reachable_settled (Daemon.reachable_inv hs.daemon).resources
  have hcall {resume : Activity} {action : Daemon.Action} {command : Command}
      (hcalls : s.Calls command work worker.activity resume action)
      (henabled : s.daemon.Enabled action) : (s.daemon.perform action).1.resources.Timed := by
    rcases Daemon.resources_effect (Daemon.perform_effect henabled) with heq | ⟨client, heq, hclient⟩
    · exact heq ▸ h
    · rw [heq]
      refine h.perform hsettled fun name bytes options now later hacquire => ?_
      subst hacquire
      exact hcalls.not_queuesForever hnot (hclient trivial)
  cases heffect with
  | goesOn hcalls henabled => exact hcall hcalls henabled
  | returns hcalls henabled => exact hcall hcalls henabled
  | answers _ hanswer => cases answer_answers hanswer <;> exact h
  | _ => exact h

end Broker

namespace Server

variable {s t : Server} {action : Action}

/-- `run` has cancelled the requests that were queued. -/
def Cancelled (s : Server) : Prop := s.phase = .joining ∨ s.phase = .stopped

/-- A worker calls `acquire`, for more than what is free and without a deadline. -/
def QueuesForever (s : Server) : Action → Prop
  | .work index work => ∃ worker ∈ s.workers[index]?, s.broker.QueuesForever worker work
  | _ => False

/-- No worker does so once the requests are cancelled. -/
def Heeds (s : Server) (action : Action) : Prop := s.Cancelled → ¬ s.QueuesForever action

theorem timed_step (hs : s.broker.Inv) (h : s.Cancelled → s.broker.daemon.resources.Timed)
    (hstep : s.perform action = some t) (hheeds : s.Heeds action) (ht : t.Cancelled) :
    t.broker.daemon.resources.Timed := by
  cases perform_effect hstep with
  | requestShutdown => exact h ht
  | accept => exact h ht
  | leave => rcases ht with ht | ht <;> cases ht
  | cancel => exact fun r hr => absurd hr List.not_mem_nil
  | join hphase => exact h (.inl hphase)
  | work hindex hwork heffect =>
    exact heffect.timed hs (fun hqueues => hheeds ht ⟨_, hindex, hqueues⟩) (h ht)

/-- If no worker queues a request without a deadline once the requests are cancelled, none
    is queued from then on. -/
theorem reachable_timed (h : (machine.restrict fun s action _ => s.Heeds action).Reachable s)
    (hcancelled : s.Cancelled) :
    ∀ r ∈ s.broker.daemon.resources.pending, r.deadline ≠ TimePoint.max := by
  refine h.invariant (P := fun s => s.Cancelled → s.broker.daemon.resources.Timed) ?_ ?_ hcancelled
  · rintro s ⟨_, _, _, _, _, _, rfl⟩ hcancelled
    rcases hcancelled with hphase | hphase <;> cases hphase
  · intro s action t hreachable hs hstep
    exact timed_step (reachable_inv hreachable.of_restrict) hs hstep.1 hstep.2

/-! ## Shutdowns that are given by their steps -/

instance (s : Broker) (worker : Worker) : (work : Work) → Decidable (s.QueuesForever worker work)
  | .execute _ => inferInstanceAs (Decidable (∃ command ∈ worker.activity.dispatched, _))
  | .check | .receive _ | .retry | .hangUp | .fail | .cut | .wake _ | .expire _ | .advance _
  | .record | .count | .send _ => .isFalse id

instance : Decidable s.Cancelled := inferInstanceAs (Decidable (_ ∨ _))

instance : (action : Action) → Decidable (s.QueuesForever action)
  | .work index work =>
    inferInstanceAs (Decidable (∃ worker ∈ s.workers[index]?, s.broker.QueuesForever worker work))
  | .requestShutdown | .accept | .leave | .cancel | .join => .isFalse id

instance : Decidable (s.Heeds action) := inferInstanceAs (Decidable (_ → ¬ _))

/-- A step that heeds the shutdown. -/
def heeding (s : Server) (action : Action) : Option Server :=
  if s.Heeds action then s.perform action else none

theorem step_of_heeding (h : s.heeding action = some t) :
    (machine.restrict fun s action _ => s.Heeds action).step s action t := by
  rw [heeding] at h
  split_ifs at h with hheeds
  exact ⟨h, hheeds⟩

/-- The steps of the worker from the start of a turn of its loop to the start of a call. -/
def executing (index : ℕ) : List Action := [.work index .cut, .work index (.execute {})]

/-- One worker acquires all the memory. Another has read two requests, the first of which
    waits when the server shuts down, and the second is this. -/
def shuttingDown (second : Str) : List Action :=
  [.accept, .work 0 .check, .work 0 (.receive (ascii "try_acquire holder 100\n"))] ++ executing 0 ++
    [.accept, .work 1 .check, .work 1 (.receive (ascii "acquire a 5\n" ++ second))] ++ executing 1 ++
    [.requestShutdown, .leave, .cancel, .work 1 (.wake 0), .work 1 .record, .work 1 .count,
      .work 1 (.send true)] ++ executing 1

/-- A server that has been shut down while a worker had two requests without a deadline. -/
def stuck : Server :=
  ((shuttingDown (ascii "acquire b 5\n")).foldlM perform idle).getD idle

/-- A server that has been shut down while a worker had a request without a deadline, and one
    with a deadline after it. -/
def drained : Server :=
  ((shuttingDown (ascii "acquire b 5 0 1000\n")).foldlM heeding idle).getD idle

theorem drained_reachable : (machine.restrict fun s action _ => s.Heeds action).Reachable drained := by
  have hidle : (machine.restrict fun s action _ => s.Heeds action).Reachable idle := .init init_idle
  exact hidle.getD_foldlM (fun _ _ _ => step_of_heeding) _

/-- The second request is queued with its deadline. -/
theorem drained_timed :
    drained.broker.daemon.resources.pending.length = 1 ∧
      ∀ r ∈ drained.broker.daemon.resources.pending, r.deadline ≠ TimePoint.max :=
  ⟨by decide, reachable_timed drained_reachable (by decide)⟩

/-- The second request is queued without a deadline, and its worker waits. -/
theorem stuck_waits :
    machine.Reachable stuck ∧ stuck.Cancelled ∧
      stuck.workers[1]?.map (·.activity) = some (.waiting
        { type := .acquire, name := ascii "b", bytes := 5, acquireMode := .wait } 1) ∧
      ¬ ∀ s, machine.Reachable s → s.Cancelled → ∀ r ∈ s.broker.daemon.resources.pending,
        r.deadline ≠ TimePoint.max := by
  have hreachable : machine.Reachable stuck := reachable_getD _
  have hcancelled : stuck.Cancelled := by decide
  refine ⟨hreachable, hcancelled, by decide, fun h => ?_⟩
  exact absurd (h stuck hreachable hcancelled) (by decide)

end Server

end Gpumemd
