import Gpumemd.Ipc.Steps
import Gpumemd.Protocol.Decode

/-!
# What the server responds

Whatever the workers have done before, and do meanwhile, the response to a command has the shape
that its type asks for (`Server.framed_of_responds`). The names, paths and endpoints in it have
been checked by the components that have stored them, so a listing says all that it prints
(`Server.listings_unambiguous`).
-/

namespace Gpumemd

open Library Protocol

variable {command : Command} {response : Response}

/-- Some line is the command. -/
def Command.Accepted (command : Command) : Prop := ∃ line, parseCommand line = .ok command

theorem Command.Accepted.plain (h : command.Accepted) : Plain command.name := by
  obtain ⟨line, hline⟩ := h
  exact plain_name_of_parseTokens hline

/-! ## Calls -/

/-- What comes of a call is framed, if the token that it shares is plain. -/
theorem framed_outcome (hname : Plain command.name)
    (htoken : ∀ result, response = .shared result → Plain result.token) {outcome' : Outcome}
    (h : outcome command response = some outcome') : Framed command.type outcome'.response := by
  have hactions : ∀ action ∈ [ascii "acquired", ascii "released", ascii "registered",
      ascii "unregistered", ascii "retained", ascii "released_model", ascii "loaded",
      ascii "unloaded"], Plain action := by decide
  simp only [List.forall_mem_cons] at hactions
  obtain ⟨hacquired, hreleased, hregistered, hunregistered, hretained, hreleasedModel, hloaded,
    hunloaded, -⟩ := hactions
  rw [outcome.eq_def] at h
  split at h
  any_goals obtain rfl := Option.some.inj h
  next htype => exact framed_formatOperationResult (by rw [htype]; rfl) hacquired hname _
  next htype => exact framed_formatOperationResult (by rw [htype]; rfl) hreleased hname _
  next htype => exact framed_formatModelOperationResult (by rw [htype]; rfl) hregistered hname _
  next htype => exact framed_formatModelOperationResult (by rw [htype]; rfl) hregistered hname _
  next htype => exact framed_formatModelOperationResult (by rw [htype]; rfl) hunregistered hname _
  next htype => exact framed_formatModelOperationResult (by rw [htype]; rfl) hretained hname _
  next htype => exact framed_formatModelOperationResult (by rw [htype]; rfl) hreleasedModel hname _
  next htype => exact framed_formatModelOperationResult (by rw [htype]; rfl) hloaded hname _
  next htype => exact framed_formatModelOperationResult (by rw [htype]; rfl) hunloaded hname _
  next htype => exact framed_formatShareResult (by rw [htype]; rfl) hname (htoken _ rfl)
  next => cases h

namespace Broker

variable {s t : Broker} {worker worker' : Worker} {activity resume : Activity}
  {action : Daemon.Action} {work : Work}

/-- The token of a backend is plain. -/
theorem plain_token_share (s : Backend) (id : Str) (sharing : Sharing) :
    Plain (s.share id sharing).token := by
  have hnil : Plain [] := fun _ hc => absurd hc List.not_mem_nil
  cases sharing with
  | mock => exact hnil
  | cuda handle =>
    rw [Backend.share]
    split
    · exact hnil
    · split
      · exact hnil
      · exact plain_hexToken _

/-- Only `share` answers with a token, that of the backend. -/
theorem token_of_perform {s : Daemon} (henabled : s.Enabled action) {result : ModelShareResult}
    (h : (s.perform action).2 = .shared result) :
    ∃ id shared, action = .share id shared ∧ (result.token = [] ∨ result.token = shared.token) := by
  have heffect := Daemon.perform_effect henabled
  rw [h] at heffect
  generalize (s.perform action).1 = t at heffect
  generalize hresponse : Response.shared result = response at heffect
  cases heffect with
  | @share id shared =>
    refine ⟨id, shared, rfl, ?_⟩
    change (s.share id shared).2 = .shared result at h
    rw [Daemon.share] at h
    split at h
    · obtain rfl := Response.shared.inj h
      exact .inl rfl
    · split at h
      · obtain rfl := Response.shared.inj h
        exact .inl rfl
      · split_ifs at h
        · obtain rfl := Response.shared.inj h
          exact .inr rfl
        · obtain rfl := Response.shared.inj h
          exact .inl rfl
        · obtain rfl := Response.shared.inj h
          exact .inl rfl
  | _ => cases hresponse

/-- A call that shares a model passes the token of the backend on. -/
theorem plain_token_of_calls (hcalls : s.Calls command work activity resume action)
    (henabled : s.daemon.Enabled action) {result : ModelShareResult}
    (h : (s.daemon.perform action).2 = .shared result) : Plain result.token := by
  obtain ⟨id, shared, rfl, hnil | htoken⟩ := token_of_perform henabled h
  · rw [hnil]
    exact fun _ hc => absurd hc List.not_mem_nil
  · cases hcalls with
    | start hoperation =>
      rw [operation] at hoperation
      split at hoperation
      any_goals cases hoperation
      · split at hoperation <;> cases hoperation
      · rw [htoken]
        exact plain_token_share _ _ _

/-! ## Answers -/

theorem plain_validMetadata {metadata : Str} (h : ModelRegistry.validMetadata metadata = true) :
    Plain metadata := by
  rw [ModelRegistry.validMetadata] at h
  split_ifs at h
  intro c hc
  have hbyte := List.all_eq_true.1 h c hc
  simp only [Bool.and_eq_true, decide_eq_true_eq, bne_iff_ne, ne_eq] at hbyte
  obtain ⟨⟨⟨⟨⟨⟨⟨⟨-, hlow⟩, -⟩, hblank⟩, -⟩, -⟩, -⟩, -⟩, -⟩ := hbyte
  exact UInt8.lt_of_le_of_ne hlow (Ne.symm hblank)

theorem notMem_validPath {path : Str} (h : ModelRegistry.validPath path = true) :
    '\n'.toUInt8 ∉ path := by
  rw [ModelRegistry.validPath] at h
  split_ifs at h
  intro hmem
  exact absurd (List.all_eq_true.1 h _ hmem) (by decide)

theorem plain_validEndpoint {endpoint : Str} (h : NodeRegistry.validEndpoint endpoint = true) :
    Plain endpoint := by
  rw [NodeRegistry.validEndpoint] at h
  split_ifs at h
  intro c hc
  have hbyte := List.all_eq_true.1 h c hc
  rw [Bool.and_eq_true, decide_eq_true_eq] at hbyte
  exact hbyte.1

/-- Of what the registered models show, only the path may have blanks. -/
theorem plain_of_mem_modelSnapshot {s : Daemon} (h : Daemon.machine.Reachable s)
    {model : ModelRecord} (hmodel : model ∈ s.registry.modelSnapshot) :
    Plain model.id ∧ Plain model.metadata ∧ '\n'.toUInt8 ∉ model.sourcePath := by
  obtain ⟨-, hid, hmetadata, hpath⟩ := Daemon.of_mem_modelSnapshot h hmodel
  refine ⟨plain_of_validName hid, plain_validMetadata hmetadata, ?_⟩
  rcases hpath with hnil | hpath
  · rw [hnil]
    exact List.not_mem_nil
  · exact notMem_validPath hpath

/-- What the registered models show has no newlines. -/
theorem notMem_of_mem_modelSnapshot {s : Daemon} (h : Daemon.machine.Reachable s)
    {model : ModelRecord} (hmodel : model ∈ s.registry.modelSnapshot) :
    '\n'.toUInt8 ∉ model.id ∧ '\n'.toUInt8 ∉ model.metadata ∧ '\n'.toUInt8 ∉ model.sourcePath := by
  obtain ⟨hid, hmetadata, hpath⟩ := plain_of_mem_modelSnapshot h hmodel
  exact ⟨hid.newline, hmetadata.newline, hpath⟩

/-- The labels of the reservations are plain. -/
theorem plain_of_mem_status {s : ResourceManager} (h : ResourceManager.machine.Reachable s)
    {reservation : Reservation} (hreservation : reservation ∈ s.status.reservations) :
    Plain reservation.name := by
  have hnamed := ResourceManager.reachable_named h
  rcases ResourceManager.mem_status_reservations.1 hreservation with hclient | ⟨id, hmodel, hname⟩
  · exact plain_of_validName (hnamed.clients _ (Finmap.mem_iff.2 ⟨_, hclient⟩))
  · have hid := plain_of_validName (hnamed.models _ (Finmap.mem_iff.2 ⟨_, hmodel⟩))
    have hlabel : Plain (ascii "model:") := by decide
    rw [hname]
    exact List.forall_mem_append.2 ⟨hlabel, hid⟩

/-- The ids and endpoints of the nodes are plain. -/
theorem plain_of_mem_nodes {s : NodeRegistry} (h : s.WellFormed) {node : NodeRecord}
    (hnode : node ∈ s.nodes) : Plain node.id ∧ Plain node.endpoint := by
  obtain ⟨hid, hendpoint⟩ := h.of_mem_nodes hnode
  exact ⟨plain_of_validName hid, plain_validEndpoint hendpoint⟩

theorem framed_of_answers (h : Inv s) (hname : Plain command.name) {response : Str}
    (hanswers : Answers s command t response) : Framed command.type response := by
  have hregistered : Plain (ascii "node_registered") := by decide
  have hremoved : Plain (ascii "node_removed") := by decide
  cases hanswers with
  | status htype =>
    rw [htype]
    exact framed_formatStatus fun _ hreservation =>
      (plain_of_mem_status (Daemon.reachable_inv h.daemon).resources hreservation).newline
  | models htype =>
    rw [htype]
    exact framed_formatModels fun _ => notMem_of_mem_modelSnapshot h.daemon
  | residency htype hidle =>
    rw [htype]
    exact framed_formatResidency fun record hrecord =>
      (plain_of_validName (Daemon.of_mem_residency h.daemon hidle hrecord).2).newline
  | noMetrics => exact .error (by decide) (by decide)
  | metrics htype _ =>
    rw [htype]
    exact framed_formatMetrics _
  | noNodes => exact .error (by decide) (by decide)
  | registerNode htype _ =>
    exact framed_formatNodeOperationResult (by rw [htype]; rfl) hregistered hname _
  | unregisterNode htype _ =>
    exact framed_formatNodeOperationResult (by rw [htype]; rfl) hremoved hname _
  | nodes htype hnodes =>
    rw [htype]
    refine framed_formatNodes fun node hnode => ?_
    obtain ⟨hid, hendpoint⟩ := plain_of_mem_nodes (h.nodes _ hnodes) hnode
    exact ⟨hid.newline, hendpoint.newline⟩

end Broker

/-! ## Runs -/

/-- The command that the worker is at is one that a line has asked for, and its response has
    the shape of one to it. -/
def Activity.Faithful : Activity → Prop
  | .dispatching command => command.Accepted
  | .waiting command _ => command.Accepted
  | .operating command => command.Accepted
  | .answered command outcome => command.Accepted ∧ Framed command.type outcome.response
  | .responding (some command) response => command.Accepted ∧ Framed command.type response
  | .sending (some command) response => command.Accepted ∧ Framed command.type response
  | _ => True

theorem Activity.Quiet.faithful {activity : Activity} (h : activity.Quiet) : activity.Faithful := by
  cases activity <;> trivial

namespace Broker

variable {s t : Broker} {worker worker' : Worker} {activity resume : Activity}
  {action : Daemon.Action} {work : Work}

theorem Calls.accepted (hcalls : s.Calls command work activity resume action) (h : activity.Faithful) :
    command.Accepted := by
  cases hcalls <;> exact h

theorem Calls.faithful_resume (hcalls : s.Calls command work activity resume action)
    (h : activity.Faithful) : resume.Faithful := by
  cases hcalls with
  | start => split_ifs <;> exact h
  | wake => exact h
  | expire => exact h
  | advance => exact h

theorem Effect.faithful (heffect : Effect s worker work t worker') (hs : Inv s)
    (h : worker.activity.Faithful) : worker'.activity.Faithful := by
  cases heffect with
  | moves hquiet => exact hquiet.faithful
  | accepts _ _ hcommand => exact ⟨_, hcommand⟩
  | rejects => trivial
  | goesOn hcalls _ _ => exact hcalls.faithful_resume h
  | returns hcalls henabled houtcome =>
    have haccepted := hcalls.accepted h
    exact ⟨haccepted, framed_outcome haccepted.plain
      (fun _ => plain_token_of_calls hcalls henabled) houtcome⟩
  | answers hactivity hanswer =>
    rw [hactivity] at h
    exact ⟨h, framed_of_answers hs h.plain (answer_answers hanswer)⟩
  | records hactivity =>
    rw [hactivity] at h
    exact h
  | @counts command _ hactivity =>
    rw [hactivity] at h
    cases command with
    | none => trivial
    | some command => exact h

end Broker

namespace Server

variable {s : Server} {text : Str}

theorem kept_faithful : Kept Activity.Faithful :=
  ⟨trivial, fun hs heffect h => heffect.faithful hs h⟩

/-- A response to the command: in a run from the state on, in which one more worker is at
    the command, a worker is about to respond to it. -/
def Responds (s : Server) (command : Command) (response : Str) : Prop :=
  ∃ actions t,
    machine.Run { s with workers := s.workers ++ [⟨[], .dispatching command⟩] } actions t ∧
      ∃ worker ∈ t.workers, worker.activity = .responding (some command) response

/-- A command that needs no call is answered at once. -/
theorem responds_of_answer {broker : Broker} (hcall : operation s.broker.daemon command {} = none)
    (hanswer : s.broker.answer command = some (broker, text)) : s.Responds command text := by
  have hstep : perform { s with workers := s.workers ++ [⟨[], .dispatching command⟩] }
      (.work s.workers.length (.execute {})) =
        some { s with broker, workers := s.workers ++ [⟨[], .responding (some command) text⟩] } := by
    simp [perform, Broker.work, Broker.dispatch, hcall, hanswer]
  exact ⟨_, _, .cons hstep (.nil _), _, List.mem_append_right _ (List.mem_singleton_self _), rfl⟩

/-- What every worker keeps, from a command on, holds of its response. -/
theorem of_responds {P : Activity → Prop} (hkept : Kept P) (h : machine.Reachable s)
    (hcommand : P (.dispatching command)) (hresponds : s.Responds command text) :
    P (.responding (some command) text) := by
  obtain ⟨actions, t, hrun, worker, hworker, hactivity⟩ := hresponds
  have hstart : All P { s with workers := s.workers ++ [⟨[], .dispatching command⟩] } :=
    (reachable_all hkept h).accept hcommand
  have hend := hrun.preserved (P := All P) (fun _ _ _ hs hstep => hs.step hkept hstep) hstart
  exact hactivity ▸ hend.workers worker hworker

/-- The response to a command has the shape that its type asks for. -/
theorem framed_of_responds (h : machine.Reachable s) (haccepted : command.Accepted)
    (hresponds : s.Responds command text) : Framed command.type text :=
  (of_responds kept_faithful h haccepted hresponds).2

/-! ## Reading the listings back -/

section Listings

variable {s' : Server}

theorem decode_status (h : machine.Reachable s) :
    decodeStatus (formatStatus s.broker.daemon.resources.status) =
      some s.broker.daemon.resources.status :=
  decode_formatStatus fun _ hreservation =>
    Broker.plain_of_mem_status (Daemon.reachable_inv (reachable_daemon h)).resources hreservation

theorem decode_models (h : machine.Reachable s) :
    decodeModels (formatModels s.broker.daemon.registry.modelSnapshot) =
      some s.broker.daemon.registry.modelSnapshot :=
  decode_formatModels fun _ hmodel => Broker.plain_of_mem_modelSnapshot (reachable_daemon h) hmodel

theorem decode_nodes (h : machine.Reachable s) {nodes : NodeRegistry}
    (hnodes : s.broker.nodes = some nodes) :
    decodeNodes (formatNodes nodes.nodes) = some nodes.nodes :=
  decode_formatNodes fun _ hnode => Broker.plain_of_mem_nodes ((reachable_inv h).nodes _ hnodes) hnode

theorem decode_residency (h : machine.Reachable s) (hidle : s.broker.daemon.running = none) :
    decodeResidency (formatResidency s.broker.daemon.residency) =
      some (residents s.broker.daemon.residency) :=
  decode_formatResidency fun _ hrecord =>
    plain_of_validName (Daemon.of_mem_residency (reachable_daemon h) hidle hrecord).2

/-- Listings with the same text show the same. The residency is only listed between the calls of
    its manager. -/
theorem listings_unambiguous (h : machine.Reachable s) (h' : machine.Reachable s') :
    (formatStatus s.broker.daemon.resources.status = formatStatus s'.broker.daemon.resources.status →
      s.broker.daemon.resources.status = s'.broker.daemon.resources.status) ∧
    (formatModels s.broker.daemon.registry.modelSnapshot =
        formatModels s'.broker.daemon.registry.modelSnapshot →
      s.broker.daemon.registry.modelSnapshot = s'.broker.daemon.registry.modelSnapshot) ∧
    (∀ nodes ∈ s.broker.nodes, ∀ nodes' ∈ s'.broker.nodes,
      formatNodes nodes.nodes = formatNodes nodes'.nodes → nodes.nodes = nodes'.nodes) ∧
    (s.broker.daemon.running = none → s'.broker.daemon.running = none →
      formatResidency s.broker.daemon.residency = formatResidency s'.broker.daemon.residency →
      residents s.broker.daemon.residency = residents s'.broker.daemon.residency) := by
  refine ⟨fun heq => ?_, fun heq => ?_, fun nodes hnodes nodes' hnodes' heq => ?_,
    fun hidle hidle' heq => ?_⟩
  · have hdecode := congrArg decodeStatus heq
    rw [decode_status h, decode_status h'] at hdecode
    exact Option.some.inj hdecode
  · have hdecode := congrArg decodeModels heq
    rw [decode_models h, decode_models h'] at hdecode
    exact Option.some.inj hdecode
  · have hdecode := congrArg decodeNodes heq
    rw [decode_nodes h hnodes, decode_nodes h' hnodes'] at hdecode
    exact Option.some.inj hdecode
  · have hdecode := congrArg decodeResidency heq
    rw [decode_residency h hidle, decode_residency h' hidle'] at hdecode
    exact Option.some.inj hdecode

end Listings

/-- A client that makes a request, and then another. -/
def requesting (first second : Str) : List Action :=
  [.accept, .work 0 .check, .work 0 (.receive (first ++ second)), .work 0 .cut,
    .work 0 (.execute { fileSize := some 5 }), .work 0 .record, .work 0 .count, .work 0 (.send true),
    .work 0 .cut, .work 0 (.execute { fileSize := some 5 })]

/-- The server after that. -/
def requested (first second : Str) : Server :=
  ((requesting first second).foldlM perform idle).getD idle

/-- It is the same which of two models is registered first. -/
theorem requested_unambiguous :
    (requested (ascii "register a 5 x\n")
        (ascii "register_file b /path y\n")).broker.daemon.registry.modelSnapshot =
      (requested (ascii "register_file b /path y\n")
        (ascii "register a 5 x\n")).broker.daemon.registry.modelSnapshot :=
  (listings_unambiguous (reachable_getD _) (reachable_getD _)).2.1 (by decide)

end Server

end Gpumemd
