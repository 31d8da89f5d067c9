import Gpumemd.Ipc.Server

/-!
# What the steps of the server do

Each step of a worker moves it on, or is a piece of a call, or answers a command
(`Broker.Effect`), and this is the only place that goes through the code of the workers
(`Broker.work_effect`). Whatever a step does to the daemon is a step of the daemon's
machine, so all that holds of its reachable states holds under the server
(`Server.reachable_daemon`).
-/

namespace Gpumemd

open Library Protocol

/-- The worker is in the middle of no command. -/
def Activity.Quiet : Activity → Prop
  | .checking | .reading | .processing | .closing _ | .closed => True
  | _ => False

namespace Broker

variable {s t t' : Broker} {worker worker' : Worker} {command : Command} {activity resume : Activity}
  {action : Daemon.Action} {outside : Outside} {stop : Bool} {work : Work}

/-- The pieces of a call: the step of the worker, where it stands before the piece, where it
    stands after it unless the call returns, and the step of the daemon. -/
inductive Calls (s : Broker) (command : Command) :
    Work → Activity → Activity → Daemon.Action → Prop
  | start {outside : Outside} {action : Daemon.Action} :
      operation s.daemon command outside = some action →
      Calls s command (.execute outside) (.dispatching command)
        (if command.type = .acquire then .waiting command s.daemon.resources.nextSequence
          else .operating command) action
  | wake (sequence : ℕ) (now : TimePoint) : Calls s command (.wake now)
      (.waiting command sequence) (.waiting command sequence) (.client (.wake sequence now))
  | expire (sequence : ℕ) (now : TimePoint) : Calls s command (.expire now)
      (.waiting command sequence) (.waiting command sequence) (.client (.expireWait sequence now))
  | advance (input : Input) : Calls s command (.advance input) (.operating command)
      (.operating command) (.advance input)

/-- What a step of a worker does. -/
inductive Effect (s : Broker) (worker : Worker) (work : Work) : Broker → Worker → Prop
  /-- It moves on. -/
  | moves {input : Str} {activity : Activity} : activity.Quiet → Effect s worker work s ⟨input, activity⟩
  | accepts {line rest : Str} {command : Command} : worker.activity = .processing →
      cutLine worker.input = .line line rest → parseCommand line = .ok command →
      Effect s worker work s ⟨rest, .dispatching command⟩
  | rejects {line rest : Str} {error : ParseError} : worker.activity = .processing →
      cutLine worker.input = .line line rest → parseCommand line = .error error →
      Effect s worker work s ⟨rest, .responding none (formatParseError error)⟩
  /-- A call goes on. -/
  | goesOn {command : Command} {resume : Activity} {action : Daemon.Action} :
      Calls s command work worker.activity resume action → s.daemon.Enabled action →
      outcome command (s.daemon.perform action).2 = none →
      Effect s worker work { s with daemon := (s.daemon.perform action).1 }
        { worker with activity := resume }
  | returns {command : Command} {resume : Activity} {action : Daemon.Action} {outcome' : Outcome} :
      Calls s command work worker.activity resume action → s.daemon.Enabled action →
      outcome command (s.daemon.perform action).2 = some outcome' →
      Effect s worker work { s with daemon := (s.daemon.perform action).1 }
        { worker with activity := .answered command outcome' }
  | answers {command : Command} {t : Broker} {response : Str} :
      worker.activity = .dispatching command → s.answer command = some (t, response) →
      Effect s worker work t { worker with activity := .responding (some command) response }
  | records {command : Command} {outcome : Outcome} : worker.activity = .answered command outcome →
      Effect s worker work { s with metrics := s.metrics.map (·.record outcome.recording) }
        { worker with activity := .responding (some command) outcome.response }
  | counts {command : Option Command} {response : Str} :
      worker.activity = .responding command response →
      Effect s worker work
        { s with metrics := s.metrics.map (·.recordRequest ((ascii "OK").isPrefixOf response)) }
        { worker with activity := .sending command response }

theorem call_effect (hcalls : s.Calls command work worker.activity resume action)
    (h : s.call command resume action = some (t, activity)) :
    Effect s worker work t { worker with activity } := by
  rw [call] at h
  split_ifs at h with henabled
  dsimp only at h
  cases houtcome : outcome command (s.daemon.perform action).2 with
  | none =>
    rw [houtcome] at h
    obtain ⟨rfl, rfl⟩ := Prod.mk.inj (Option.some.inj h)
    exact .goesOn hcalls henabled houtcome
  | some outcome =>
    rw [houtcome] at h
    obtain ⟨rfl, rfl⟩ := Prod.mk.inj (Option.some.inj h)
    exact .returns hcalls henabled houtcome

theorem dispatch_effect (hactivity : worker.activity = .dispatching command)
    (h : s.dispatch command outside = some (t, activity)) :
    Effect s worker (.execute outside) t { worker with activity } := by
  rw [dispatch] at h
  split at h
  next action haction =>
    refine call_effect ?_ h
    rw [hactivity]
    exact .start haction
  next =>
    obtain ⟨⟨t', response⟩, hanswer, heq⟩ := Option.map_eq_some_iff.1 h
    obtain ⟨rfl, rfl⟩ := Prod.mk.inj heq
    exact .answers hactivity hanswer

theorem cut_effect (hactivity : worker.activity = .processing)
    (h : s.work stop worker .cut = some (t, worker')) : Effect s worker .cut t worker' := by
  rw [work] at h
  simp only [hactivity] at h
  split at h
  next =>
    obtain ⟨rfl, rfl⟩ := Prod.mk.inj (Option.some.inj h)
    exact .moves trivial
  next =>
    obtain ⟨rfl, rfl⟩ := Prod.mk.inj (Option.some.inj h)
    exact .moves trivial
  next line rest hcut =>
    obtain ⟨rfl, rfl⟩ := Prod.mk.inj (Option.some.inj h)
    rw [Activity.ofLine]
    split
    next command hcommand => exact .accepts hactivity hcut hcommand
    next error herror => exact .rejects hactivity hcut herror

/-- A worker that makes a step of a call keeps its input. -/
theorem eq_of_map {o : Option (Broker × Activity)}
    (h : (o.map fun (s, activity) => (s, { worker with activity })) = some (t, worker')) :
    ∃ activity, o = some (t, activity) ∧ worker' = { worker with activity } := by
  obtain ⟨⟨t', activity⟩, ho, heq⟩ := Option.map_eq_some_iff.1 h
  obtain ⟨rfl, rfl⟩ := Prod.mk.inj heq
  exact ⟨activity, ho, rfl⟩

/-- A step of a call, with the worker that makes it. -/
theorem map_effect {o : Option (Broker × Activity)}
    (heffect : ∀ t activity, o = some (t, activity) → Effect s worker work t { worker with activity })
    (h : (o.map fun (s, activity) => (s, { worker with activity })) = some (t, worker')) :
    Effect s worker work t worker' := by
  obtain ⟨activity, ho, rfl⟩ := eq_of_map h
  exact heffect _ _ ho

theorem moves_of_eq {input : Str} (hquiet : activity.Quiet)
    (h : some (s, (⟨input, activity⟩ : Worker)) = some (t, worker')) :
    Effect s worker work t worker' := by
  obtain ⟨rfl, rfl⟩ := Prod.mk.inj (Option.some.inj h)
  exact .moves hquiet

theorem work_effect (h : s.work stop worker work = some (t, worker')) :
    Effect s worker work t worker' := by
  cases work with
  | cut =>
    cases hactivity : worker.activity with
    | processing => exact cut_effect hactivity h
    | _ =>
      rw [Broker.work, hactivity] at h
      cases h
  | check =>
    rw [Broker.work] at h
    split at h
    · exact moves_of_eq (by cases stop <;> trivial) h
    · cases h
  | receive chunk =>
    rw [Broker.work] at h
    split at h
    · split_ifs at h
      exact moves_of_eq (by trivial) h
    · cases h
  | retry =>
    rw [Broker.work] at h
    split at h
    · exact moves_of_eq (by trivial) h
    · cases h
  | hangUp =>
    rw [Broker.work] at h
    split at h
    · exact moves_of_eq (by split_ifs <;> trivial) h
    · cases h
  | fail =>
    rw [Broker.work] at h
    split at h
    · exact moves_of_eq (by trivial) h
    · cases h
  | execute outside =>
    rw [Broker.work] at h
    split at h
    next hactivity => exact map_effect (fun _ _ => dispatch_effect hactivity) h
    next => cases h
  | wake now =>
    rw [Broker.work] at h
    split at h
    next hactivity => exact map_effect (fun _ _ => call_effect (by rw [hactivity]; exact .wake _ _)) h
    next => cases h
  | expire now =>
    rw [Broker.work] at h
    split at h
    next hactivity => exact map_effect (fun _ _ => call_effect (by rw [hactivity]; exact .expire _ _)) h
    next => cases h
  | advance input =>
    rw [Broker.work] at h
    split at h
    next hactivity => exact map_effect (fun _ _ => call_effect (by rw [hactivity]; exact .advance _)) h
    next => cases h
  | record =>
    rw [Broker.work] at h
    split at h
    next hactivity =>
      obtain ⟨rfl, rfl⟩ := Prod.mk.inj (Option.some.inj h)
      exact .records hactivity
    next => cases h
  | count =>
    rw [Broker.work] at h
    split at h
    next hactivity =>
      obtain ⟨rfl, rfl⟩ := Prod.mk.inj (Option.some.inj h)
      exact .counts hactivity
    next => cases h
  | send sent =>
    rw [Broker.work] at h
    split at h
    · exact moves_of_eq (by cases sent <;> trivial) h
    · exact moves_of_eq (by trivial) h
    · cases h

/-! ## The shared state -/

/-- The commands that are answered without a call are the listings and those on nodes. -/
inductive Answers (s : Broker) (command : Command) : Broker → Str → Prop
  | status : command.type = .status →
      Answers s command s (formatStatus s.daemon.resources.status)
  | models : command.type = .models →
      Answers s command s (formatModels s.daemon.registry.modelSnapshot)
  | residency : command.type = .residency → s.daemon.running = none →
      Answers s command s (formatResidency s.daemon.residency)
  | noMetrics : command.type = .metrics → s.metrics = none →
      Answers s command s (ascii "ERR metrics_unavailable metrics are disabled\n")
  | metrics {metrics : Metrics} : command.type = .metrics → s.metrics = some metrics →
      Answers s command s (formatMetrics metrics)
  | noNodes : s.nodes = none →
      Answers s command s (ascii "ERR nodes_unavailable node registry is disabled\n")
  | registerNode {nodes : NodeRegistry} : command.type = .registerNode → s.nodes = some nodes →
      Answers s command
        { s with nodes := some (nodes.registerNode command.name command.path command.bytes).1 }
        (formatNodeOperationResult (ascii "node_registered") command.name
          (nodes.registerNode command.name command.path command.bytes).2)
  | unregisterNode {nodes : NodeRegistry} : command.type = .unregisterNode → s.nodes = some nodes →
      Answers s command { s with nodes := some (nodes.unregisterNode command.name).1 }
        (formatNodeOperationResult (ascii "node_removed") command.name
          (nodes.unregisterNode command.name).2)
  | nodes {nodes : NodeRegistry} : command.type = .nodes → s.nodes = some nodes →
      Answers s command s (formatNodes nodes.nodes)

theorem answers_of_eq {response response' : Str} (hanswers : Answers s command t response)
    (h : some (t, response) = some (t', response')) : Answers s command t' response' := by
  obtain ⟨rfl, rfl⟩ := Prod.mk.inj (Option.some.inj h)
  exact hanswers

theorem answer_answers {response : Str} (h : s.answer command = some (t, response)) :
    Answers s command t response := by
  rw [answer] at h
  split at h
  next htype => exact answers_of_eq (.status htype) h
  next htype => exact answers_of_eq (.models htype) h
  next htype =>
    split_ifs at h with hidle
    exact answers_of_eq (.residency htype hidle) h
  next htype =>
    split at h
    next hnone => exact answers_of_eq (.noMetrics htype hnone) h
    next metrics hsome => exact answers_of_eq (.metrics htype hsome) h
  next htype =>
    split at h
    next hnone => exact answers_of_eq (.noNodes hnone) h
    next nodes hsome => exact answers_of_eq (.registerNode htype hsome) h
  next htype =>
    split at h
    next hnone => exact answers_of_eq (.noNodes hnone) h
    next nodes hsome => exact answers_of_eq (.unregisterNode htype hsome) h
  next htype =>
    split at h
    next hnone => exact answers_of_eq (.noNodes hnone) h
    next nodes hsome => exact answers_of_eq (.nodes htype hsome) h
  next => cases h

/-! ## The shared state -/

/-- The parts of the shared state are as they may be on their own. -/
structure Inv (s : Broker) : Prop where
  daemon : Daemon.machine.Reachable s.daemon
  nodes : ∀ nodes, s.nodes = some nodes → nodes.WellFormed

theorem Inv.answer (h : Inv s) {response : Str} (hanswers : Answers s command t response) : Inv t := by
  cases hanswers with
  | registerNode _ hnodes =>
    refine ⟨h.daemon, fun nodes heq => ?_⟩
    obtain rfl := Option.some.inj heq
    exact NodeRegistry.wellFormed_registerNode (h.nodes _ hnodes) _ _ _
  | unregisterNode _ hnodes =>
    refine ⟨h.daemon, fun nodes heq => ?_⟩
    obtain rfl := Option.some.inj heq
    exact NodeRegistry.wellFormed_unregisterNode (h.nodes _ hnodes) _
  | _ => exact h

theorem Inv.effect (h : Inv s) (heffect : Effect s worker work t worker') : Inv t := by
  cases heffect with
  | moves => exact h
  | accepts => exact h
  | rejects => exact h
  | goesOn _ henabled _ => exact ⟨h.daemon.step ⟨henabled, rfl⟩, h.nodes⟩
  | returns _ henabled _ => exact ⟨h.daemon.step ⟨henabled, rfl⟩, h.nodes⟩
  | answers _ hanswer => exact h.answer (answer_answers hanswer)
  | records => exact ⟨h.daemon, h.nodes⟩
  | counts => exact ⟨h.daemon, h.nodes⟩

end Broker

/-! ## The server -/

namespace Server

variable {s t : Server} {action : Action} {index : ℕ} {work : Work}

/-- What a step of the server does. -/
inductive Effect (s : Server) : Action → Server → Prop
  | requestShutdown : Effect s .requestShutdown { s with stopRequested := true }
  | accept : s.phase = .serving → Effect s .accept { s with workers := s.workers ++ [{}] }
  | leave : s.phase = .serving → Effect s .leave { s with phase := .leaving }
  | cancel : s.phase = .leaving → Effect s .cancel
      { s with
        broker := { s.broker with daemon := (s.broker.daemon.perform (.client .cancelWaiters)).1 }
        phase := .joining }
  | join : s.phase = .joining → (∀ worker ∈ s.workers, worker.activity = .closed) →
      Effect s .join { s with phase := .stopped }
  | work {index : ℕ} {work : Work} {worker worker' : Worker} {broker : Broker} :
      s.workers[index]? = some worker →
      s.broker.work s.stopRequested worker work = some (broker, worker') →
      s.broker.Effect worker work broker worker' →
      Effect s (.work index work) { s with broker, workers := s.workers.set index worker' }

theorem perform_effect (h : s.perform action = some t) : Effect s action t := by
  cases action with
  | requestShutdown =>
    obtain rfl := Option.some.inj h
    exact .requestShutdown
  | accept =>
    rw [perform] at h
    split_ifs at h with hphase
    obtain rfl := Option.some.inj h
    exact .accept hphase
  | leave =>
    rw [perform] at h
    split_ifs at h with hphase
    obtain rfl := Option.some.inj h
    exact .leave hphase
  | cancel =>
    rw [perform] at h
    split_ifs at h with hphase
    obtain rfl := Option.some.inj h
    exact .cancel hphase
  | join =>
    rw [perform] at h
    split_ifs at h with hjoin
    obtain rfl := Option.some.inj h
    obtain ⟨hphase, hclosed⟩ : s.phase = .joining ∧ ∀ worker ∈ s.workers, worker.activity = .closed := by
      simpa using hjoin
    exact .join hphase hclosed
  | work index work =>
    rw [perform] at h
    cases hworker : s.workers[index]? with
    | none =>
      rw [hworker] at h
      cases h
    | some worker =>
      rw [hworker] at h
      cases hwork : s.broker.work s.stopRequested worker work with
      | none =>
        simp [hwork] at h
      | some stepped =>
        obtain ⟨broker, worker'⟩ := stepped
        simp only [hwork, Option.bind_eq_bind, Option.bind_some, Option.pure_def,
          Option.some.injEq] at h
        obtain rfl := h
        exact .work hworker hwork (Broker.work_effect hwork)

/-- The steps keep the parts of the shared state as they may be. -/
theorem inv_step (hs : s.broker.Inv) (hstep : s.perform action = some t) : t.broker.Inv := by
  cases perform_effect hstep with
  | requestShutdown => exact hs
  | accept => exact hs
  | leave => exact hs
  | cancel => exact ⟨hs.daemon.step (a := .client .cancelWaiters) ⟨⟨trivial, trivial⟩, rfl⟩, hs.nodes⟩
  | join => exact hs
  | work _ _ heffect => exact hs.effect heffect

theorem reachable_inv (h : machine.Reachable s) : s.broker.Inv := by
  refine h.invariant (P := fun s => s.broker.Inv) (fun s hinit => ?_)
    fun s a t _ hs hstep => inv_step hs hstep
  obtain ⟨daemon, metrics, nodes, hdaemon, -, hnodes, rfl⟩ := hinit
  refine ⟨.init hdaemon, fun nodes' heq => ?_⟩
  -- the node registry starts empty
  obtain rfl : nodes = some nodes' := heq
  obtain rfl : nodes' = {} := by simpa using hnodes
  exact fun _ _ hnode => absurd hnode (by simp)

theorem reachable_daemon (h : machine.Reachable s) : Daemon.machine.Reachable s.broker.daemon :=
  (reachable_inv h).daemon

/-- Every worker stands where `P` says, and the shared state is as it may be. -/
structure All (P : Activity → Prop) (s : Server) : Prop where
  broker : s.broker.Inv
  workers : ∀ worker ∈ s.workers, P worker.activity

variable {P : Activity → Prop}

theorem All.accept (h : All P s) {worker : Worker} (hworker : P worker.activity) :
    All P { s with workers := s.workers ++ [worker] } := by
  refine ⟨h.broker, fun worker' hmem => ?_⟩
  rcases List.mem_append.1 hmem with hmem | hmem
  · exact h.workers worker' hmem
  · obtain rfl := List.mem_singleton.1 hmem
    exact hworker

/-- The steps of a worker keep that it stands where `P` says. -/
structure Kept (P : Activity → Prop) : Prop where
  checking : P .checking
  effect {s t : Broker} {worker worker' : Worker} {work : Work} : s.Inv →
    s.Effect worker work t worker' → P worker.activity → P worker'.activity

/-- What each worker keeps, all of them keep. -/
theorem All.step (h : All P s) (hkept : Kept P) (hstep : s.perform action = some t) : All P t := by
  have hbroker := inv_step h.broker hstep
  cases perform_effect hstep with
  | requestShutdown => exact ⟨hbroker, h.workers⟩
  | accept => exact h.accept hkept.checking
  | leave => exact ⟨hbroker, h.workers⟩
  | cancel => exact ⟨hbroker, h.workers⟩
  | join => exact ⟨hbroker, h.workers⟩
  | work hindex _ heffect =>
    refine ⟨hbroker, fun worker hworker => ?_⟩
    rcases List.mem_or_eq_of_mem_set hworker with hworker | rfl
    · exact h.workers worker hworker
    · exact hkept.effect h.broker heffect (h.workers _ (List.mem_of_getElem? hindex))

theorem reachable_all (hkept : Kept P) (h : machine.Reachable s) : All P s := by
  refine h.invariant (P := All P) (fun s hinit => ⟨reachable_inv (.init hinit), ?_⟩)
    fun _ _ _ _ hs hstep => hs.step hkept hstep
  obtain ⟨_, _, _, _, _, _, rfl⟩ := hinit
  exact List.forall_mem_nil _

end Server

end Gpumemd
