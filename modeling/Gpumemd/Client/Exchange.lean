import Gpumemd.Client.Framing
import Gpumemd.Ipc.Serving

/-!
# Requests over a connection

Clients that call `Client::request` (`src/client/client.cpp`), each over a connection of
its own, while the server runs. A call writes its line in pieces, until a write fails,
and then reads pieces of the response until it takes it to be complete, or a read fails or
finds the end of the stream. It closes its connection before it returns.

However the calls and the workers interleave:

* a call returns what `Client.request` says of a connection that takes its line if the
  call's connection has, and delivers the pieces that the call has read from it
  (`Exchange.returned_request`);
* its command is executed once at most, and never if its line could not be written, not even
  after the call has returned (`Exchange.executed_front`);
* if it returns a response of the broker, the command has been executed exactly once, and
  the response is the whole answer to it (`Exchange.returned_answer`).
-/

namespace Gpumemd

open Library Protocol

/-- Where a call of `Client::request` stands. -/
inductive Call.Phase
  /-- In `write_all`, with what is left to write. -/
  | writing (left : Str)
  /-- In the loop, with what has been read. -/
  | reading (response : Str)
  /-- Before it closes its connection. -/
  | closing (response : ClientResponse)
  | returned (response : ClientResponse)
  deriving DecidableEq

/-- A call of `Client::request`, with the pieces that it has read. -/
structure Call where
  command : Str
  phase : Call.Phase
  chunks : List Str := []
  deriving DecidableEq

/-- What `Client::request` writes. -/
def Client.line (command : Str) : Str := command ++ ['\n'.toUInt8]

/-- The test of its loop. -/
def Client.complete (command : Str) : Str → Bool :=
  Client.responseComplete (Client.isMultiline command)

/-- What it returns for a response that is complete. -/
def Client.classify (response : Str) : ClientResponse :=
  if (ascii "ERR ").isPrefixOf response then ⟨.brokerRejected, response⟩
  else if !(ascii "OK ").isPrefixOf response then ⟨.readFailed, response⟩
  else ⟨.none, response⟩

namespace Call

variable (call : Call)

/-- The call after a piece has been written. -/
def write (left : Str) (count : ℕ) : Call :=
  { call with phase := if (left.drop count).isEmpty then .reading [] else .writing (left.drop count) }

/-- The call after a piece has been read. -/
def read (response chunk : Str) : Call :=
  { call with
    phase :=
      if Client.complete call.command (response ++ chunk) then
        .closing (Client.classify (response ++ chunk))
      else .reading (response ++ chunk)
    chunks := call.chunks ++ [chunk] }

end Call

/-- The server with its connections, and the calls that have made them. -/
structure Exchange where
  wired : Wired
  calls : List Call := []

namespace Exchange

/-- The steps. -/
inductive Action
  /-- A call connects. -/
  | request (command : Str)
  | write (index count : ℕ)
  | writeFails (index : ℕ)
  | read (index count : ℕ)
  /-- A read fails, or finds the end of the stream. -/
  | readFails (index : ℕ)
  | close (index : ℕ)
  /-- A step of the server. -/
  | broker (action : Wired.Action)

/-- The steps of a connection that the server makes. -/
def isBroker : Wired.Action → Bool
  | .receive .. | .write .. | .work .. | .run _ => true
  | _ => false

variable (s : Exchange)

/-- The state after a step, if it may be taken. -/
def perform : Action → Option Exchange
  | .request command =>
    if command.isEmpty || command.contains '\n'.toUInt8 then none
    else (s.wired.perform .connect).map fun wired =>
      { wired, calls := s.calls ++ [⟨command, .writing (Client.line command), []⟩] }
  | .write index count => s.calls[index]?.bind fun call =>
    match call.phase with
    | .writing left =>
      if 0 < count ∧ count ≤ left.length then
        (s.wired.perform (.put index (left.take count))).map fun wired =>
          { wired, calls := s.calls.set index (call.write left count) }
      else none
    | _ => none
  | .writeFails index => s.calls[index]?.bind fun call =>
    match call.phase with
    | .writing _ =>
      some { s with calls := s.calls.set index { call with phase := .closing ⟨.writeFailed, []⟩ } }
    | _ => none
  | .read index count => s.calls[index]?.bind fun call => s.wired.wires[index]?.bind fun wire =>
    match call.phase with
    | .reading response =>
      if 0 < count ∧ count ≤ min 4096 wire.outbound.length then
        (s.wired.perform (.take index count)).map fun wired =>
          { wired, calls := s.calls.set index (call.read response (wire.outbound.take count)) }
      else none
    | _ => none
  | .readFails index => s.calls[index]?.bind fun call =>
    match call.phase with
    | .reading response =>
      some { s with
        calls := s.calls.set index { call with phase := .closing ⟨.readFailed, response⟩ } }
    | _ => none
  | .close index => s.calls[index]?.bind fun call =>
    match call.phase with
    | .closing response => (s.wired.perform (.hangUp index)).map fun wired =>
      { wired, calls := s.calls.set index { call with phase := .returned response } }
    | _ => none
  | .broker action =>
    if isBroker action then (s.wired.perform action).map fun wired => { s with wired } else none

/-- The runs, from a server without connections. -/
def machine : Machine Exchange Action where
  init s := Wired.machine.init s.wired ∧ s.calls = []
  step s a t := s.perform a = some t

/-! ## Steps -/

/-- What a step does. -/
inductive Effect (s : Exchange) : Action → Exchange → Prop
  | request {command : Str} {wired : Wired} : command ≠ [] → '\n'.toUInt8 ∉ command →
      s.wired.perform .connect = some wired →
      Effect s (.request command)
        { wired, calls := s.calls ++ [⟨command, .writing (Client.line command), []⟩] }
  | write {index count : ℕ} {call : Call} {left : Str} {wired : Wired} :
      s.calls[index]? = some call → call.phase = .writing left →
      s.wired.perform (.put index (left.take count)) = some wired →
      Effect s (.write index count) { wired, calls := s.calls.set index (call.write left count) }
  | writeFails {index : ℕ} {call : Call} {left : Str} : s.calls[index]? = some call →
      call.phase = .writing left → Effect s (.writeFails index)
        { s with calls := s.calls.set index { call with phase := .closing ⟨.writeFailed, []⟩ } }
  | read {index count : ℕ} {call : Call} {wire : Wire} {response : Str} {wired : Wired} :
      s.calls[index]? = some call → s.wired.wires[index]? = some wire →
      call.phase = .reading response → s.wired.perform (.take index count) = some wired →
      Effect s (.read index count)
        { wired, calls := s.calls.set index (call.read response (wire.outbound.take count)) }
  | readFails {index : ℕ} {call : Call} {response : Str} : s.calls[index]? = some call →
      call.phase = .reading response → Effect s (.readFails index)
        { s with calls := s.calls.set index { call with phase := .closing ⟨.readFailed, response⟩ } }
  | close {index : ℕ} {call : Call} {response : ClientResponse} {wired : Wired} :
      s.calls[index]? = some call → call.phase = .closing response →
      s.wired.perform (.hangUp index) = some wired → Effect s (.close index)
        { wired, calls := s.calls.set index { call with phase := .returned response } }
  | broker {action : Wired.Action} {wired : Wired} : isBroker action = true →
      s.wired.perform action = some wired → Effect s (.broker action) { s with wired }

variable {s} {t : Exchange} {a : Action}

theorem perform_effect (h : s.perform a = some t) : Effect s a t := by
  cases a with
  | request command =>
    rw [perform] at h
    split_ifs at h with hcommand
    obtain ⟨wired, hwired, rfl⟩ := Option.map_eq_some_iff.1 h
    obtain ⟨hne, hnewline⟩ : command ≠ [] ∧ '\n'.toUInt8 ∉ command := by simpa using hcommand
    exact .request hne hnewline hwired
  | write index count =>
    obtain ⟨call, hcall, h⟩ := Option.bind_eq_some_iff.1 h
    split at h
    next hphase =>
      split_ifs at h
      obtain ⟨wired, hwired, rfl⟩ := Option.map_eq_some_iff.1 h
      exact .write hcall hphase hwired
    next => cases h
  | writeFails index =>
    obtain ⟨call, hcall, h⟩ := Option.bind_eq_some_iff.1 h
    split at h
    next hphase =>
      obtain rfl := Option.some.inj h
      exact .writeFails hcall hphase
    next => cases h
  | read index count =>
    obtain ⟨call, hcall, h⟩ := Option.bind_eq_some_iff.1 h
    obtain ⟨wire, hwire, h⟩ := Option.bind_eq_some_iff.1 h
    split at h
    next hphase =>
      split_ifs at h
      obtain ⟨wired, hwired, rfl⟩ := Option.map_eq_some_iff.1 h
      exact .read hcall hwire hphase hwired
    next => cases h
  | readFails index =>
    obtain ⟨call, hcall, h⟩ := Option.bind_eq_some_iff.1 h
    split at h
    next hphase =>
      obtain rfl := Option.some.inj h
      exact .readFails hcall hphase
    next => cases h
  | close index =>
    obtain ⟨call, hcall, h⟩ := Option.bind_eq_some_iff.1 h
    split at h
    next hphase =>
      obtain ⟨wired, hwired, rfl⟩ := Option.map_eq_some_iff.1 h
      exact .close hcall hphase hwired
    next => cases h
  | broker action =>
    rw [perform] at h
    split_ifs at h with hbroker
    obtain ⟨wired, hwired, rfl⟩ := Option.map_eq_some_iff.1 h
    exact .broker hbroker hwired

/-- The calls do to the connections what clients may do. -/
theorem refines_wired : machine.Refines Wired.machine Exchange.wired where
  init _ hinit := hinit.1
  step s a t _ hstep := by
    cases perform_effect hstep with
    | request _ _ hwired => exact .inl ⟨_, hwired⟩
    | write _ _ hwired => exact .inl ⟨_, hwired⟩
    | writeFails => exact .inr rfl
    | read _ _ _ hwired => exact .inl ⟨_, hwired⟩
    | readFails => exact .inr rfl
    | close _ _ hwired => exact .inl ⟨_, hwired⟩
    | broker _ hwired => exact .inl ⟨_, hwired⟩

end Exchange

/-! ## Where a call stands -/

namespace Call

variable {call : Call} {wrote took left response chunk : Str} {result : ClientResponse} {count : ℕ}

/-- What a call of the command returns, with what it has written and read. -/
inductive Ending (command : Str) (chunks : List Str) (wrote took : Str) : ClientResponse → Prop
  | unwritten {left : Str} : left ≠ [] → wrote ++ left = Client.line command → chunks = [] →
      took = [] → Ending command chunks wrote took ⟨.writeFailed, []⟩
  | unread : wrote = Client.line command →
      readUntil (Client.complete command) [] chunks = (took, [], false) →
      Ending command chunks wrote took ⟨.readFailed, took⟩
  | complete : wrote = Client.line command →
      readUntil (Client.complete command) [] chunks = (took, [], true) →
      Ending command chunks wrote took (Client.classify took)

/-- Where a call stands, with what it has written and read. -/
def Stands (call : Call) (wrote took : Str) : Prop :=
  match call.phase with
  | .writing left => left ≠ [] ∧ wrote ++ left = Client.line call.command ∧ call.chunks = [] ∧ took = []
  | .reading response =>
    wrote = Client.line call.command ∧ took = response ∧
      readUntil (Client.complete call.command) [] call.chunks = (response, [], false)
  | .closing result => Ending call.command call.chunks wrote took result
  | .returned result => Ending call.command call.chunks wrote took result

theorem Stands.write (h : call.Stands wrote took) (hphase : call.phase = .writing left) (count : ℕ) :
    (call.write left count).Stands (wrote ++ left.take count) took := by
  rw [Stands, hphase] at h
  obtain ⟨-, hline, hchunks, rfl⟩ := h
  have hsplit : wrote ++ left.take count ++ left.drop count = Client.line call.command := by
    rw [List.append_assoc, List.take_append_drop, hline]
  by_cases hleft : left.drop count = []
  · have hwrite : call.write left count = { call with phase := .reading [] } := by
      rw [Call.write, hleft]
      rfl
    rw [hleft, List.append_nil] at hsplit
    rw [hwrite]
    refine ⟨hsplit, rfl, ?_⟩
    rw [hchunks]
    rfl
  · have hwrite : call.write left count = { call with phase := .writing (left.drop count) } := by
      rw [Call.write, if_neg (mt List.isEmpty_iff.1 hleft)]
    rw [hwrite]
    exact ⟨hleft, hsplit, hchunks, rfl⟩

theorem Stands.writeFails (h : call.Stands wrote took) (hphase : call.phase = .writing left) :
    Stands { call with phase := .closing ⟨.writeFailed, []⟩ } wrote took := by
  rw [Stands, hphase] at h
  obtain ⟨hne, hline, hchunks, htook⟩ := h
  exact .unwritten hne hline hchunks htook

theorem Stands.read (h : call.Stands wrote took) (hphase : call.phase = .reading response)
    (chunk : Str) : (call.read response chunk).Stands wrote (took ++ chunk) := by
  rw [Stands, hphase] at h
  obtain ⟨hline, rfl, hread⟩ := h
  have hnext := readUntil_concat hread chunk
  cases hcomplete : Client.complete call.command (took ++ chunk) with
  | true =>
    have hcall : call.read took chunk =
        { call with
          phase := .closing (Client.classify (took ++ chunk)), chunks := call.chunks ++ [chunk] } := by
      rw [Call.read, if_pos hcomplete]
    rw [hcall]
    exact .complete hline (hcomplete ▸ hnext)
  | false =>
    have hcall : call.read took chunk =
        { call with phase := .reading (took ++ chunk), chunks := call.chunks ++ [chunk] } := by
      rw [Call.read, if_neg (by simp [hcomplete])]
    rw [hcall]
    exact ⟨hline, rfl, hcomplete ▸ hnext⟩

theorem Stands.readFails (h : call.Stands wrote took) (hphase : call.phase = .reading response) :
    Stands { call with phase := .closing ⟨.readFailed, response⟩ } wrote took := by
  rw [Stands, hphase] at h
  obtain ⟨hline, rfl, hread⟩ := h
  exact .unread hline hread

theorem Stands.close (h : call.Stands wrote took) (hphase : call.phase = .closing result) :
    Stands { call with phase := .returned result } wrote took := by
  rw [Stands, hphase] at h
  exact h

/-- Whatever it stands at, a call has written a front of its line. -/
theorem Stands.wrote_prefix (h : call.Stands wrote took) : wrote <+: Client.line call.command := by
  have hending (result : ClientResponse) (hresult : Ending call.command call.chunks wrote took result) :
      wrote <+: Client.line call.command := by
    cases hresult with
    | unwritten _ hline => exact ⟨_, hline⟩
    | unread hline => exact hline ▸ List.prefix_refl _
    | complete hline => exact hline ▸ List.prefix_refl _
  rw [Stands] at h
  split at h
  · exact ⟨_, h.2.1⟩
  · exact h.1 ▸ List.prefix_refl _
  · exact hending _ h
  · exact hending _ h

end Call

namespace Exchange

variable {s t : Exchange} {a : Action} {index : ℕ} {call : Call} {wire : Wire}

/-- Every call stands where its connection shows. -/
structure Linked (s : Exchange) : Prop where
  length : s.calls.length = s.wired.wires.length
  commands : ∀ call ∈ s.calls, call.command ≠ [] ∧ '\n'.toUInt8 ∉ call.command
  stands : ∀ (index : ℕ) (call : Call) (wire : Wire), s.calls[index]? = some call →
    s.wired.wires[index]? = some wire → call.Stands wire.wrote wire.took

/-- A step of a call, with what it does to its connection. -/
theorem Linked.set (h : s.Linked) (hcall : s.calls[index]? = some call)
    (hwire : s.wired.wires[index]? = some wire) {call' : Call} {wire' : Wire}
    (hwires : t.wired.wires = s.wired.wires.set index wire')
    (hcalls : t.calls = s.calls.set index call') (hcommand : call'.command = call.command)
    (hstands : call'.Stands wire'.wrote wire'.took) :
    t.Linked := by
  refine ⟨?_, fun other hother => ?_, fun other othercall otherwire hothercall hotherwire => ?_⟩
  · rw [hcalls, hwires, List.length_set, List.length_set]
    exact h.length
  · rw [hcalls] at hother
    rcases List.mem_or_eq_of_mem_set hother with hother | rfl
    · exact h.commands other hother
    · rw [hcommand]
      exact h.commands call (List.mem_of_getElem? hcall)
  · rw [hcalls] at hothercall
    rw [hwires] at hotherwire
    by_cases heq : index = other
    · subst heq
      rw [List.getElem?_set_self (List.getElem?_eq_some_iff.1 hcall).1] at hothercall
      rw [List.getElem?_set_self (List.getElem?_eq_some_iff.1 hwire).1] at hotherwire
      obtain rfl := Option.some.inj hothercall
      obtain rfl := Option.some.inj hotherwire
      exact hstands
    · rw [List.getElem?_set_ne heq] at hothercall hotherwire
      exact h.stands other _ _ hothercall hotherwire

theorem Linked.exists_wire (h : s.Linked) (hcall : s.calls[index]? = some call) :
    ∃ wire, s.wired.wires[index]? = some wire := by
  obtain ⟨hlt, -⟩ := List.getElem?_eq_some_iff.1 hcall
  exact ⟨_, List.getElem?_eq_getElem (h.length ▸ hlt)⟩

theorem set_self {wires : List Wire} (hwire : wires[index]? = some wire) :
    wires.set index wire = wires := by
  obtain ⟨hlt, rfl⟩ := List.getElem?_eq_some_iff.1 hwire
  exact List.set_getElem_self hlt

/-- What the client of a connection has written and read. -/
def seen (wire : Wire) : Str × Str := (wire.wrote, wire.took)

theorem map_seen_set {wires : List Wire} {wire' : Wire} (hwire : wires[index]? = some wire)
    (hseen : seen wire' = seen wire) : (wires.set index wire').map seen = wires.map seen := by
  obtain ⟨hlt, rfl⟩ := List.getElem?_eq_some_iff.1 hwire
  rw [List.map_set, hseen]
  refine List.ext_getElem (by simp) fun other _ _ => ?_
  rw [List.getElem_set]
  split_ifs with heq
  · obtain rfl := heq
    rw [List.getElem_map]
  · rfl

theorem seen_observe (worker : Worker) (work : Work) : seen (wire.observe worker work) = seen wire := by
  cases work with
  | cut =>
    rw [Wire.observe]
    split <;> rfl
  | execute outside =>
    rw [Wire.observe]
    split <;> rfl
  | count =>
    rw [Wire.observe]
    split <;> rfl
  | _ => rfl

/-- The server writes and reads nothing for a client. -/
theorem map_seen_of_broker {wired : Wired} {action : Wired.Action} (hbroker : isBroker action = true)
    (h : wired.perform action = some t.wired) : t.wired.wires.map seen = wired.wires.map seen := by
  generalize t.wired = wired' at h ⊢
  cases Wired.perform_effect h with
  | connect => cases hbroker
  | put => cases hbroker
  | take => cases hbroker
  | hangUp => cases hbroker
  | receive hwire _ => exact map_seen_set hwire rfl
  | write hwire _ _ => exact map_seen_set hwire rfl
  | work hwire _ _ => exact map_seen_set hwire (seen_observe _ _)
  | run => rfl

theorem Linked.broker (h : s.Linked) {wired : Wired}
    (hseen : wired.wires.map seen = s.wired.wires.map seen) : Linked { s with wired } := by
  refine ⟨?_, h.commands, fun index call wire hcall hwire => ?_⟩
  · rw [h.length, ← List.length_map seen, ← hseen, List.length_map]
  · have hmap := congrArg (·[index]?) hseen
    simp only [List.getElem?_map, hwire, Option.map_some] at hmap
    obtain ⟨wire', hwire', heq⟩ := Option.map_eq_some_iff.1 hmap.symm
    obtain ⟨hwrote, htook⟩ := Prod.mk.inj heq
    rw [← hwrote, ← htook]
    exact h.stands index call wire' hcall hwire'

theorem Linked.step (h : s.Linked) (hstep : s.perform a = some t) : t.Linked := by
  cases perform_effect hstep with
  | @request command wired hne hnewline hwired =>
    obtain rfl := Option.some.inj hwired
    refine ⟨by simp [h.length], fun call hcall => ?_, fun index call wire hcall hwire => ?_⟩
    · rcases List.mem_append.1 hcall with hcall | hcall
      · exact h.commands call hcall
      · obtain rfl := List.mem_singleton.1 hcall
        exact ⟨hne, hnewline⟩
    · rcases lt_or_ge index s.calls.length with hlt | hge
      · rw [List.getElem?_append_left hlt] at hcall
        rw [List.getElem?_append_left (h.length ▸ hlt)] at hwire
        exact h.stands index call wire hcall hwire
      · rw [List.getElem?_append_right hge] at hcall
        rw [List.getElem?_append_right (h.length ▸ hge)] at hwire
        obtain rfl := List.mem_singleton.1 (List.mem_of_getElem? hcall)
        obtain rfl := List.mem_singleton.1 (List.mem_of_getElem? hwire)
        exact ⟨List.append_ne_nil_of_right_ne_nil _ (List.cons_ne_nil _ _), rfl, rfl, rfl⟩
  | @write index count call left wired hcall hphase hwired =>
    cases Wired.perform_effect hwired with
    | put hwire _ =>
      exact h.set hcall hwire rfl rfl rfl ((h.stands _ _ _ hcall hwire).write hphase count)
  | writeFails hcall hphase =>
    obtain ⟨wire, hwire⟩ := h.exists_wire hcall
    exact h.set hcall hwire (set_self hwire).symm rfl rfl
      ((h.stands _ _ _ hcall hwire).writeFails hphase)
  | @read index count call wire response wired hcall hwire hphase hwired =>
    cases Wired.perform_effect hwired with
    | take hwire' =>
      obtain rfl := Option.some.inj (hwire.symm.trans hwire')
      exact h.set hcall hwire rfl rfl rfl ((h.stands _ _ _ hcall hwire).read hphase _)
  | readFails hcall hphase =>
    obtain ⟨wire, hwire⟩ := h.exists_wire hcall
    exact h.set hcall hwire (set_self hwire).symm rfl rfl
      ((h.stands _ _ _ hcall hwire).readFails hphase)
  | close hcall hphase hwired =>
    cases Wired.perform_effect hwired with
    | hangUp hwire =>
      exact h.set hcall hwire rfl rfl rfl ((h.stands _ _ _ hcall hwire).close hphase)
  | broker hbroker hwired => exact h.broker (map_seen_of_broker (t := ⟨_, []⟩) hbroker hwired)

theorem reachable_linked (h : machine.Reachable s) : s.Linked := by
  refine h.invariant (P := Linked) (fun s hinit => ?_) fun s a t _ hlinked hstep => hlinked.step hstep
  obtain ⟨⟨-, hwires⟩, hcalls⟩ := hinit
  refine ⟨by rw [hcalls, hwires]; rfl, fun call hcall => ?_, fun index call wire hcall _ => ?_⟩
  · rw [hcalls] at hcall
    cases hcall
  · rw [hcalls] at hcall
    cases hcall

end Exchange

/-! ## What the worker makes of one line -/

section Line

variable {command : Str} {wire : Wire} {worker : Worker} {input rest took : Str}

theorem line_eq_iff {line : Str} (hnewline : '\n'.toUInt8 ∉ command) :
    Client.line command = line ++ '\n'.toUInt8 :: rest ↔ command = line ∧ rest = [] := by
  rw [Client.line, List.append_cons_inj_of_notMem hnewline List.not_mem_nil]
  simp [eq_comm]

/-- The worker has taken the line, and nothing is left, or it has taken no line. -/
theorem Wire.Served.lines_of_line (h : wire.Served worker) (hnewline : '\n'.toUInt8 ∉ command)
    (hwrote : wire.wrote <+: Client.line command) :
    wire.lines = [] ∨ wire.lines = [command] ∧ worker.input = [] ∧ wire.wrote = Client.line command := by
  cases hlines : wire.lines with
  | nil => exact .inl rfl
  | cons line lines =>
    obtain ⟨tail, htail⟩ := hwrote
    have hsplit := htail
    rw [h.wrote, h.received, hlines, unlines_cons] at hsplit
    simp only [List.append_assoc, List.cons_append, List.nil_append] at hsplit
    obtain ⟨rfl, hrest⟩ := (line_eq_iff hnewline).1 hsplit.symm
    simp only [List.append_eq_nil_iff] at hrest
    obtain ⟨hnil, hinput, -, rfl⟩ := hrest
    have hno : lines = [] := by
      cases lines with
      | nil => rfl
      | cons line lines => simp [unlines] at hnil
    exact .inr ⟨by rw [hno], hinput, by rw [← htail, List.append_nil]⟩

theorem length_of_tooLarge (hnewline : '\n'.toUInt8 ∉ command) (hinput : input <+: Client.line command)
    (hcut : cutLine input = .tooLarge) : maxLineBytes ≤ command.length := by
  by_cases hmem : '\n'.toUInt8 ∈ input
  · obtain ⟨text, rest, rfl, htext⟩ := List.eq_append_cons_of_mem hmem
    obtain ⟨tail, htail⟩ := hinput
    rw [List.append_assoc, List.cons_append] at htail
    obtain ⟨rfl, -⟩ := (line_eq_iff hnewline).1 htail.symm
    rw [Session.cutLine_append_cons htext] at hcut
    split_ifs at hcut with hlong
    omega
  · rw [Session.cutLine_of_notMem hmem] at hcut
    split_ifs at hcut with hlong
    rcases List.prefix_concat_iff.1 hinput with rfl | hfront
    · exact absurd (List.mem_append_right _ (List.mem_singleton_self _)) hmem
    · exact hlong.trans hfront.length_le

theorem cutLine_line_ne (hnewline : '\n'.toUInt8 ∉ command) :
    cutLine (Client.line command) ≠ .incomplete := by
  rw [Client.line, Session.cutLine_append_cons hnewline]
  split_ifs <;> exact Cut.noConfusion

/-- The reply to a line, read by a client that tells its kind, ends where the test passes. -/
theorem ends_of_answered {reply : Reply} (h : Answered command reply)
    (hread : ∀ parsed, commandOf command = some parsed →
      Client.isMultiline command = parsed.type.isListing ∧ parsed.type ≠ .models) :
    Client.Ends (Client.isMultiline command) reply.response := by
  rw [Answered] at h
  split at h
  next parsed hparse =>
    obtain ⟨hkind, hmodels⟩ := hread parsed (by rw [commandOf, hparse]; rfl)
    rw [hkind]
    exact Client.ends_of_framed h.2 hmodels
  next error _ =>
    rw [h]
    cases error <;> exact Client.ends_of_isLine (by decide) (.inl (by decide))

/-- What passes the test, and is the front of a line, is the line. -/
theorem eq_of_complete {multiline : Bool} {text : Str} (hline : IsLine text)
    (hcomplete : Client.responseComplete multiline took = true) (hfront : took <+: text) :
    took = text := by
  by_contra hne
  rw [Client.responseComplete_of_notMem (Client.notMem_of_isLine hline hfront hne)] at hcomplete
  cases hcomplete

theorem Client.Ends.eq {multiline : Bool} {text : Str} (h : Client.Ends multiline text)
    (hcomplete : Client.responseComplete multiline took = true) (hfront : took <+: text) :
    took = text := by
  by_contra hne
  have hnil : took ≠ [] := by
    rintro rfl
    exact absurd hcomplete (by cases multiline <;> decide)
  rw [h.before took hfront hnil hne] at hcomplete
  cases hcomplete

theorem complete_nil (command : Str) : Client.complete command [] = false :=
  Client.responseComplete_of_notMem List.not_mem_nil

theorem filterMap_commandOf_singleton (line : Str) :
    [line].filterMap commandOf = (commandOf line).toList :=
  filterMap_commandOf_append [] line

/-- What the client has read is the front of what the worker says. -/
theorem Wire.Served.took_prefix (h : wire.Served worker) {text : Str} (hsent : wire.sent <+: text) :
    wire.took <+: text := by
  rw [h.sent] at hsent
  exact (List.prefix_append _ _).trans hsent

/-- A response without a line says that the line is too long. -/
theorem Wire.Served.tooLarge (h : wire.Served worker) (hnewline : '\n'.toUInt8 ∉ command)
    (hwrote : wire.wrote = Client.line command) (hlines : wire.lines = [])
    (hcomplete : Client.complete command wire.took = true) :
    maxLineBytes ≤ command.length ∧ wire.took = Reply.tooLarge.response ∧ wire.executed = [] := by
  obtain ⟨answered, rest, final, hsplit, -, hanswered, hfinal, hsent⟩ := h.position.inOrder
  have htook := h.took_prefix hsent
  rw [hlines] at hsplit
  obtain ⟨rfl, rfl⟩ := List.append_eq_nil_iff.1 hsplit.symm
  rw [List.forall₂_nil_left_iff.1 hanswered] at htook
  have hinput : Client.line command = worker.input ++ wire.inbound := by
    rw [← hwrote, h.wrote, h.received, hlines]
    rfl
  have hexecuted := h.commands.2
  rw [hlines, List.filterMap_nil, List.prefix_nil] at hexecuted
  rcases hfinal with rfl | ⟨-, hlast⟩
  · -- nothing has been read
    rw [List.prefix_nil.1 htook, complete_nil] at hcomplete
    cases hcomplete
  · cases hlast with
    | tooLarge hcut =>
      have hlength := length_of_tooLarge hnewline (hinput ▸ List.prefix_append _ _) hcut
      exact ⟨hlength, eq_of_complete (by decide) hcomplete htook, hexecuted⟩
    | unterminated hcut _ hended =>
      rw [hended.2, List.append_nil] at hinput
      exact absurd (hinput ▸ hcut) (cutLine_line_ne hnewline)

/-- A response to a line is the whole reply to it. -/
theorem Wire.Served.answer (h : wire.Served worker) (hlines : wire.lines = [command])
    (hinput : worker.input = []) (hcomplete : Client.complete command wire.took = true)
    (hread : ∀ parsed, commandOf command = some parsed →
      Client.isMultiline command = parsed.type.isListing ∧ parsed.type ≠ .models) :
    ∃ reply, Answered command reply ∧ wire.took = reply.response ∧ wire.replies = [reply] ∧
      wire.executed = (commandOf command).toList := by
  obtain ⟨answered, rest, final, hsplit, -, hanswered, hfinal, hsent⟩ := h.position.inOrder
  have htook := h.took_prefix hsent
  obtain rfl : final = [] := by
    rcases hfinal with hfinal | ⟨-, hlast⟩
    · exact hfinal
    · -- there is nothing left to complain about
      rw [hinput] at hlast
      cases hlast with
      | tooLarge hcut => cases hcut
      | unterminated _ hne => exact absurd rfl hne
  rw [hlines] at hsplit
  rw [List.append_nil] at htook
  rcases List.singleton_eq_append_iff.1 hsplit with ⟨rfl, rfl⟩ | ⟨rfl, rfl⟩
  · rw [List.forall₂_nil_left_iff.1 hanswered] at htook
    rw [List.prefix_nil.1 htook, complete_nil] at hcomplete
    cases hcomplete
  · obtain ⟨reply, replies, hreply, hnil, hreplies⟩ := List.forall₂_cons_left_iff.1 hanswered
    obtain rfl := List.forall₂_nil_left_iff.1 hnil
    have hresponse : wire.took <+: reply.response := by
      rw [hreplies] at htook
      simpa [responses] using htook
    refine ⟨reply, hreply, (ends_of_answered hreply hread).eq hcomplete hresponse, hreplies, ?_⟩
    obtain ⟨hreplied, hexecuted⟩ := h.commands
    rw [filterMap_of_answered hanswered, filterMap_commandOf_singleton] at hreplied
    rw [hlines, filterMap_commandOf_singleton] at hexecuted
    exact (hreplied.eq_of_length_le hexecuted.length_le).symm

end Line

/-! ## What a call returns -/

namespace Call

variable {command : Str} {chunks : List Str} {wrote took : Str} {result : ClientResponse}

/-- What a call returns is what `Client.request` says of a connection that takes the line if this
    one has, and delivers the same pieces. -/
theorem Ending.request (h : Ending command chunks wrote took result) (hne : command ≠ [])
    (hnewline : '\n'.toUInt8 ∉ command) :
    ∃ connection, connection.chunks = chunks ∧
      (connection.writes = true ↔ wrote = Client.line command) ∧
      Client.request command connection = (result, []) := by
  cases h with
  | @unwritten left hleft hline hchunks _ =>
    refine ⟨{ writes := false, chunks := [] }, hchunks.symm, ?_, ?_⟩
    · refine iff_of_false Bool.noConfusion fun hwrote => hleft ?_
      simpa [hwrote] using hline
    · rw [Client.request, if_neg (by simp [hne, hnewline]), if_neg (by simp), if_pos (by simp)]
  | unread hwrote hread =>
    refine ⟨{ chunks }, rfl, iff_of_true rfl hwrote, ?_⟩
    rw [Client.request_of_chunks hne hnewline]
    rw [Client.complete] at hread
    rw [hread]
    rfl
  | complete hwrote hread =>
    refine ⟨{ chunks }, rfl, iff_of_true rfl hwrote, ?_⟩
    rw [Client.request_of_chunks hne hnewline]
    rw [Client.complete] at hread
    rw [hread, Client.classify]
    simp only [Bool.not_true, Bool.false_eq_true, if_false]
    split_ifs <;> rfl

/-- The pieces that a call has read are what it has taken from its connection. -/
theorem Ending.flatten (h : Ending command chunks wrote took result) : chunks.flatten = took := by
  cases h with
  | unwritten _ _ hchunks htook => rw [hchunks, htook, List.flatten_nil]
  | unread _ hread => exact flatten_of_readUntil hread
  | complete _ hread => exact flatten_of_readUntil hread

/-- A call that returns a response of the broker has found it complete. -/
theorem Ending.complete_of_error (h : Ending command chunks wrote took result)
    (herror : result.error = .none ∨ result.error = .brokerRejected) :
    wrote = Client.line command ∧ result.payload = took ∧ Client.complete command took = true := by
  cases h with
  | unwritten => simp at herror
  | unread => simp at herror
  | complete hwrote hread =>
    have hpayload : (Client.classify took).payload = took := by
      rw [Client.classify]
      split_ifs <;> rfl
    exact ⟨hwrote, hpayload, stop_of_readUntil hread⟩

/-- A call says that it has not written its line only if it has not. -/
theorem Ending.unwritten_of_error (h : Ending command chunks wrote took result)
    (herror : result.error = .writeFailed) : wrote ≠ Client.line command := by
  cases h with
  | unwritten hne hline _ _ =>
    rintro rfl
    exact hne (by simpa using hline)
  | unread => cases herror
  | complete =>
    rw [Client.classify] at herror
    split_ifs at herror

end Call

namespace Exchange

variable {s : Exchange} {index : ℕ} {call : Call} {wire : Wire} {result : ClientResponse}

/-- What a call has returned is what `Client.request` says of a connection that takes the line if
    this one has taken it, and delivers the pieces that have been read from this one. It reads
    all of them. -/
theorem returned_request (h : machine.Reachable s) (hcall : s.calls[index]? = some call)
    (hphase : call.phase = .returned result) :
    ∃ wire connection, s.wired.wires[index]? = some wire ∧
      (connection.writes = true ↔ wire.wrote = Client.line call.command) ∧
      connection.chunks = call.chunks ∧ call.chunks.flatten = wire.took ∧
      Client.request call.command connection = (result, []) := by
  have hlinked := reachable_linked h
  obtain ⟨wire, hwire⟩ := hlinked.exists_wire hcall
  obtain ⟨hne, hnewline⟩ := hlinked.commands call (List.mem_of_getElem? hcall)
  have hstands := hlinked.stands index call wire hcall hwire
  rw [Call.Stands, hphase] at hstands
  obtain ⟨connection, hchunks, hwrites, hrequest⟩ := hstands.request hne hnewline
  exact ⟨wire, connection, hwire, hwrites, hchunks, hstands.flatten, hrequest⟩

theorem reachable_wire (h : machine.Reachable s) (hwire : s.wired.wires[index]? = some wire) :
    wire.Served (s.wired.worker index) :=
  (Wired.reachable_serves (refines_wired.reachable h)).served index wire hwire

/-- The command of a call is executed once at most, and never if its line could not be
    written. -/
theorem executed_front (h : machine.Reachable s) (hcall : s.calls[index]? = some call)
    (hwire : s.wired.wires[index]? = some wire) :
    wire.executed <+: (commandOf call.command).toList ∧
      ∀ payload, call.phase = .returned ⟨.writeFailed, payload⟩ → wire.executed = [] := by
  have hlinked := reachable_linked h
  have hstands := hlinked.stands index call wire hcall hwire
  obtain ⟨-, hnewline⟩ := hlinked.commands call (List.mem_of_getElem? hcall)
  have hserved := reachable_wire h hwire
  have hexecuted := hserved.commands.2
  rcases hserved.lines_of_line hnewline hstands.wrote_prefix with hlines | ⟨hlines, -, hwrote⟩
  · rw [hlines, List.filterMap_nil, List.prefix_nil] at hexecuted
    rw [hexecuted]
    exact ⟨List.nil_prefix, fun _ _ => rfl⟩
  · refine ⟨?_, fun payload hphase => ?_⟩
    · rw [hlines, filterMap_commandOf_singleton] at hexecuted
      exact hexecuted
    · rw [Call.Stands, hphase] at hstands
      exact absurd hwrote (hstands.unwritten_of_error rfl)

/-- The response of the broker that a call returns is the whole answer to its line, whose
    command has been executed once, if the client tells what kind of response it will be. -/
theorem returned_answer (h : machine.Reachable s) (hcall : s.calls[index]? = some call)
    (hwire : s.wired.wires[index]? = some wire) (hphase : call.phase = .returned result)
    (herror : result.error = .none ∨ result.error = .brokerRejected)
    (hread : ∀ parsed, commandOf call.command = some parsed →
      Client.isMultiline call.command = parsed.type.isListing ∧ parsed.type ≠ .models) :
    (∃ reply, Answered call.command reply ∧ result.payload = reply.response ∧ wire.replies = [reply] ∧
        wire.executed = (commandOf call.command).toList) ∨
      (maxLineBytes ≤ call.command.length ∧ result.payload = Reply.tooLarge.response ∧
        wire.executed = []) := by
  have hlinked := reachable_linked h
  have hstands := hlinked.stands index call wire hcall hwire
  obtain ⟨-, hnewline⟩ := hlinked.commands call (List.mem_of_getElem? hcall)
  have hserved := reachable_wire h hwire
  have hlines := hserved.lines_of_line hnewline hstands.wrote_prefix
  rw [Call.Stands, hphase] at hstands
  obtain ⟨hwrote, hpayload, hcomplete⟩ := hstands.complete_of_error herror
  rw [hpayload]
  rcases hlines with hlines | ⟨hlines, hinput, -⟩
  · exact .inr (hserved.tooLarge hnewline hwrote hlines hcomplete)
  · exact .inl (hserved.answer hlines hinput hcomplete hread)

/-! ## A request -/

/-- The state after steps of an idle server without connections. -/
def after (actions : List Action) : Exchange :=
  (actions.foldlM perform { wired := { server := .idle } }).getD { wired := { server := .idle } }

theorem reachable_after (actions : List Action) : machine.Reachable (after actions) := by
  have hidle : machine.Reachable { wired := { server := .idle } } :=
    .init ⟨⟨Server.init_idle, rfl⟩, rfl⟩
  exact hidle.getD_foldlM (fun _ _ _ hstep => hstep) actions

/-- A client asks for the status, and reads it in two pieces. -/
def asking : List Action :=
  [.request (ascii "status"), .write 0 7, .broker (.run .accept), .broker (.work 0 .check),
    .broker (.receive 0 7), .broker (.work 0 .cut), .broker (.work 0 (.execute {})),
    .broker (.work 0 .count), .broker (.write 0 26), .read 0 10, .read 0 16, .close 0]

/-- The call when it has returned. -/
def asked : Call :=
  { command := ascii "status"
    phase := .returned ⟨.none, ascii "OK status 100 0 100 0\nEND\n"⟩
    chunks := [ascii "OK status ", ascii "100 0 100 0\nEND\n"] }

theorem calls_asking : (after asking).calls[0]? = some asked := by decide

theorem returned_asking :
    ∃ wire connection, (after asking).wired.wires[0]? = some wire ∧
      (connection.writes = true ↔ wire.wrote = Client.line (ascii "status")) ∧
      connection.chunks = [ascii "OK status ", ascii "100 0 100 0\nEND\n"] ∧
      [ascii "OK status ", ascii "100 0 100 0\nEND\n"].flatten = wire.took ∧
      Client.request (ascii "status") connection =
        (⟨.none, ascii "OK status 100 0 100 0\nEND\n"⟩, []) :=
  returned_request (reachable_after asking) calls_asking rfl

theorem executed_asking :
    ∃ wire, (after asking).wired.wires[0]? = some wire ∧
      wire.executed <+: (commandOf (ascii "status")).toList := by
  have hsome : (after asking).wired.wires[0]?.isSome = true := by decide
  obtain ⟨wire, hwire⟩ := Option.isSome_iff_exists.1 hsome
  exact ⟨wire, hwire, (executed_front (reachable_after asking) calls_asking hwire).1⟩

theorem answered_asking :
    ∃ wire, (after asking).wired.wires[0]? = some wire ∧
      ((∃ reply, Answered (ascii "status") reply ∧
          ascii "OK status 100 0 100 0\nEND\n" = reply.response ∧ wire.replies = [reply] ∧
          wire.executed = (commandOf (ascii "status")).toList) ∨
        (maxLineBytes ≤ (ascii "status").length ∧
          ascii "OK status 100 0 100 0\nEND\n" = Reply.tooLarge.response ∧ wire.executed = [])) := by
  have hsome : (after asking).wired.wires[0]?.isSome = true := by decide
  obtain ⟨wire, hwire⟩ := Option.isSome_iff_exists.1 hsome
  refine ⟨wire, hwire, returned_answer (reachable_after asking) calls_asking hwire rfl (.inl rfl) ?_⟩
  intro parsed hparsed
  have hcommand : commandOf asked.command = some { type := .status } := by decide
  obtain rfl := Option.some.inj (hcommand.symm.trans hparsed)
  exact ⟨by decide, by decide⟩

end Exchange

end Gpumemd
