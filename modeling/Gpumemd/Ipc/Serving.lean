import Gpumemd.Ipc.Responses
import Gpumemd.Ipc.Wire

/-!
# How a connection is served

Whatever the clients and the workers do, and however what they write and read is cut into
pieces, a connection is served in order (`Wired.reachable_served`): the worker takes the
lines of what the client has written, executes the command of each of them once, and writes
one reply to each, before it takes the next. It writes one thing more, at most, before it
closes: that a line is too long, or that the last line has no end.
-/

namespace Gpumemd

open Library Protocol

/-- The command that a line asks for. -/
def commandOf (line : Str) : Option Command := (parseCommand (stripCarriageReturn line)).toOption

/-- The reply is one to the line: to its command, or about what is wrong with it. -/
def Answered (line : Str) (reply : Reply) : Prop :=
  match parseCommand (stripCarriageReturn line) with
  | .ok command => reply.command = some command ∧ Framed command.type reply.response
  | .error error => reply = ⟨none, formatParseError error⟩

/-- The responses, one after the other. -/
def responses (replies : List Reply) : Str := replies.flatMap (·.response)

/-! ## Where a connection stands -/

/-- The worker is at the line. -/
inductive Activity.At (line : Str) (activity : Activity) : Prop
  | dispatching {command : Command} : parseCommand (stripCarriageReturn line) = .ok command →
      activity = .dispatching command → At line activity
  | executing {command : Command} : parseCommand (stripCarriageReturn line) = .ok command →
      activity.executing = some command → At line activity
  | rejected {error : ParseError} : parseCommand (stripCarriageReturn line) = .error error →
      activity = .responding none (formatParseError error) → At line activity

/-- The command that the worker is to execute. -/
def Activity.pending : Activity → List Command
  | .dispatching command => [command]
  | _ => []

namespace Wire

/-- The client writes no more, and the worker has read all. -/
def Ended (wire : Wire) : Prop := wire.hungUp = true ∧ wire.inbound = []

/-- What the worker says last, about the input that is left. -/
inductive Last (ended : Prop) (input : Str) : Str → Prop
  | tooLarge : cutLine input = .tooLarge → Last ended input Reply.tooLarge.response
  | unterminated : cutLine input = .incomplete → input ≠ [] → ended →
      Last ended input Reply.unterminated.response

/-- Every line has its reply. -/
def Idle (wire : Wire) : Prop :=
  List.Forall₂ Answered wire.lines wire.replies ∧ wire.sent = responses wire.replies

/-- The worker is at the last line. -/
def Busy (wire : Wire) (activity : Activity) : Prop :=
  ∃ before line, wire.lines = before ++ [line] ∧ activity.At line ∧
    List.Forall₂ Answered before wire.replies ∧ wire.sent = responses wire.replies

/-- The worker writes the last reply. -/
def Sends (wire : Wire) (reply : Reply) : Prop :=
  ∃ before, wire.replies = before ++ [reply] ∧ List.Forall₂ Answered wire.lines wire.replies ∧
    wire.offset ≤ reply.response.length ∧
    wire.sent = responses before ++ reply.response.take wire.offset

/-- The worker writes what it says last. -/
def Closes (wire : Wire) (input response : Str) : Prop :=
  Last wire.Ended input response ∧ List.Forall₂ Answered wire.lines wire.replies ∧
    wire.offset ≤ response.length ∧
    wire.sent = responses wire.replies ++ response.take wire.offset

/-- The worker has returned, and may have been interrupted. -/
def Closed (wire : Wire) (input : Str) : Prop :=
  List.Forall₂ Answered wire.lines wire.replies ∧
    ∃ final, (final = [] ∨ Last wire.Ended input final) ∧ wire.sent <+: responses wire.replies ++ final

/-- Where the connection stands. -/
def Position (wire : Wire) (worker : Worker) : Prop :=
  match worker.activity with
  | .checking => wire.Idle ∧ cutLine worker.input = .incomplete
  | .reading => wire.Idle ∧ cutLine worker.input = .incomplete
  | .processing => wire.Idle
  | .sending command response => wire.Sends ⟨command, response⟩
  | .closing response => wire.Closes worker.input response
  | .closed => wire.Closed worker.input
  | activity => wire.Busy activity

/-- The connection is served in order. -/
structure Served (wire : Wire) (worker : Worker) : Prop where
  wrote : wire.wrote = wire.received ++ wire.inbound
  sent : wire.sent = wire.took ++ wire.outbound
  received : wire.received = unlines '\n'.toUInt8 wire.lines ++ worker.input
  lines : ∀ line ∈ wire.lines, '\n'.toUInt8 ∉ line ∧ line.length < maxLineBytes
  executed : wire.executed ++ worker.activity.pending = wire.lines.filterMap commandOf
  position : wire.Position worker

end Wire

/-! ## Lines -/

variable {line rest input : Str} {command : Command} {activity : Activity}

theorem Activity.pending_of_executing (h : activity.executing = some command) :
    activity.pending = [] := by
  cases activity <;> first | rfl | cases h

/-- A line that is cut off the input, as it stands there. -/
theorem exists_of_cutLine (h : cutLine input = .line line rest) :
    ∃ text, input = text ++ '\n'.toUInt8 :: rest ∧ '\n'.toUInt8 ∉ text ∧
      text.length < maxLineBytes ∧ line = stripCarriageReturn text := by
  by_cases hnewline : '\n'.toUInt8 ∈ input
  · obtain ⟨text, rest', rfl, htext⟩ := List.eq_append_cons_of_mem hnewline
    rw [Session.cutLine_append_cons htext] at h
    split_ifs at h with hlong
    obtain ⟨rfl, rfl⟩ := Cut.line.inj h
    exact ⟨text, rfl, htext, by omega, rfl⟩
  · rw [Session.cutLine_of_notMem hnewline] at h
    split_ifs at h

theorem takeWhile_append_cons (h : '\n'.toUInt8 ∉ line) :
    (line ++ '\n'.toUInt8 :: rest).takeWhile (· != '\n'.toUInt8) = line := by
  rw [List.takeWhile_append_of_pos, List.takeWhile_cons_of_neg (by simp), List.append_nil]
  intro c hc
  rw [bne_iff_ne]
  rintro rfl
  exact h hc

theorem at_ofLine (line : Str) : (Activity.ofLine (stripCarriageReturn line)).At line := by
  rw [Activity.ofLine]
  split
  next hcommand => exact .dispatching hcommand rfl
  next herror => exact .rejected herror rfl

theorem pending_ofLine (line : Str) :
    (Activity.ofLine (stripCarriageReturn line)).pending = (commandOf line).toList := by
  rw [Activity.ofLine, commandOf]
  cases parseCommand (stripCarriageReturn line) <;> rfl

/-- The line that the worker is at has asked for the command that is executed. -/
theorem Activity.At.parses (h : activity.At line) (hexecuting : activity.executing = some command) :
    parseCommand (stripCarriageReturn line) = .ok command := by
  cases h with
  | dispatching _ hactivity =>
    rw [hactivity] at hexecuting
    cases hexecuting
  | executing hcommand hother =>
    rw [hother] at hexecuting
    exact Option.some.inj hexecuting ▸ hcommand
  | rejected _ hactivity =>
    rw [hactivity] at hexecuting
    cases hexecuting

theorem filterMap_commandOf_append (lines : List Str) (line : Str) :
    (lines ++ [line]).filterMap commandOf = lines.filterMap commandOf ++ (commandOf line).toList := by
  rw [List.filterMap_append]
  cases hcommand : commandOf line <;> simp [hcommand]

theorem responses_append (replies : List Reply) (reply : Reply) :
    responses (replies ++ [reply]) = responses replies ++ reply.response := by
  simp [responses]

/-! ## The steps of a worker -/

namespace Wire

variable {wire : Wire} {worker worker' : Worker} {work : Work} {offset : ℕ} {response : Str}
  {reply : Reply}

theorem Served.stands (h : wire.Served worker) (hactivity : worker.activity = activity) :
    wire.Position ⟨worker.input, activity⟩ := hactivity ▸ h.position

theorem Served.executed_eq (h : wire.Served worker) (hpending : worker.activity.pending = []) :
    wire.executed = wire.lines.filterMap commandOf := by
  rw [← h.executed, hpending, List.append_nil]

/-- A step that takes no line and starts nothing. -/
theorem Served.moves (h : wire.Served worker) (hpending : worker.activity.pending = [])
    (hpending' : activity.pending = [])
    (hposition : Position { wire with offset } { worker with activity }) :
    Served { wire with offset } { worker with activity } := by
  refine ⟨h.wrote, h.sent, h.received, h.lines, ?_, hposition⟩
  rw [hpending', List.append_nil]
  exact h.executed_eq hpending

theorem Idle.closed (h : wire.Idle) (input : Str) : wire.Closed input := by
  refine ⟨h.1, [], .inl rfl, ?_⟩
  rw [h.2, List.append_nil]

/-- Before it has written any of it, the worker can close. -/
theorem Idle.closes (h : wire.Idle) (hlast : Last wire.Ended input response) :
    Closes { wire with offset := 0 } input response := by
  refine ⟨hlast, h.1, Nat.zero_le _, ?_⟩
  rw [List.take_zero, List.append_nil]
  exact h.2

/-- A reply that has been written to its end. -/
theorem Sends.idle (h : wire.Sends reply) (hoffset : wire.offset = reply.response.length) :
    wire.Idle := by
  obtain ⟨before, hreplies, hanswered, -, hsent⟩ := h
  refine ⟨hanswered, ?_⟩
  rw [hsent, hreplies, responses_append, hoffset, List.take_length]

theorem Sends.closed (h : wire.Sends reply) (input : Str) : wire.Closed input := by
  obtain ⟨before, hreplies, hanswered, -, hsent⟩ := h
  refine ⟨hanswered, [], .inl rfl, ?_⟩
  rw [hsent, hreplies, responses_append, List.append_nil]
  exact List.prefix_append_right_inj _ |>.2 (List.take_prefix _ _)

theorem Closes.closed (h : wire.Closes input response) : wire.Closed input := by
  obtain ⟨hlast, hanswered, -, hsent⟩ := h
  refine ⟨hanswered, response, .inr hlast, ?_⟩
  rw [hsent]
  exact (List.prefix_append_right_inj _).2 (List.take_prefix _ _)

theorem position_of_executing (hexecuting : worker.activity.executing = some command) :
    wire.Position worker ↔ wire.Busy worker.activity := by
  obtain ⟨input, activity⟩ := worker
  cases activity <;> first | exact Iff.rfl | cases hexecuting

/-- The worker goes on with its command. -/
theorem Served.goesOn (h : wire.Served worker) (hexecuting : worker.activity.executing = some command)
    (hexecuting' : activity.executing = some command) : wire.Served { worker with activity } := by
  obtain ⟨before, line, hlines, hat, hanswered, hsent⟩ := (position_of_executing hexecuting).1 h.position
  refine h.moves (Activity.pending_of_executing hexecuting)
    (Activity.pending_of_executing hexecuting') ((position_of_executing hexecuting').2 ?_)
  exact ⟨before, line, hlines, .executing (hat.parses hexecuting) hexecuting', hanswered, hsent⟩

/-- The worker takes a line. -/
theorem Served.cuts {rest : Str} (h : wire.Served worker) (hactivity : worker.activity = .processing)
    (hcut : cutLine worker.input = .line line rest) :
    Served (wire.observe worker .cut) ⟨rest, .ofLine line⟩ := by
  obtain ⟨text, hinput, htext, hlength, rfl⟩ := exists_of_cutLine hcut
  have hidle : wire.Idle := h.stands hactivity
  have hexecuted : wire.executed = _ := h.executed_eq (by rw [hactivity]; rfl)
  have hobserve : wire.observe worker .cut = { wire with lines := wire.lines ++ [text] } := by
    rw [observe, hcut]
    simp only [hinput, takeWhile_append_cons htext]
  rw [hobserve]
  refine ⟨h.wrote, h.sent, ?_, ?_, ?_, ?_⟩
  · rw [h.received, hinput, unlines_append, unlines_cons]
    simp [unlines]
  · intro other hother
    rcases List.mem_append.1 hother with hother | hother
    · exact h.lines other hother
    · exact List.mem_singleton.1 hother ▸ ⟨htext, hlength⟩
  · rw [filterMap_commandOf_append, pending_ofLine, hexecuted]
  · have hbusy : Busy { wire with lines := wire.lines ++ [text] }
        (.ofLine (stripCarriageReturn text)) :=
      ⟨wire.lines, text, rfl, at_ofLine text, hidle⟩
    rw [Activity.ofLine] at hbusy ⊢
    split <;> simp_all only <;> exact hbusy

/-- The worker has its reply to the line. -/
theorem Busy.sends {command : Option Command} (h : wire.Busy (.responding command response))
    (hfaithful : (Activity.responding command response).Faithful) :
    Sends { wire with replies := wire.replies ++ [⟨command, response⟩], offset := 0 }
      ⟨command, response⟩ := by
  obtain ⟨before, line, hlines, hat, hanswered, hsent⟩ := h
  refine ⟨wire.replies, rfl, ?_, Nat.zero_le _, by rw [List.take_zero, List.append_nil]; exact hsent⟩
  have hline : Answered line ⟨command, response⟩ := by
    rw [Answered]
    cases hat with
    | dispatching _ hactivity => cases hactivity
    | executing hcommand hexecuting =>
      obtain rfl : command = some _ := hexecuting
      rw [hcommand]
      exact ⟨rfl, hfaithful.2⟩
    | rejected herror hactivity =>
      obtain ⟨rfl, rfl⟩ := Activity.responding.inj hactivity
      rw [herror]
  change List.Forall₂ Answered wire.lines _
  rw [hlines]
  exact List.rel_append hanswered (.cons hline .nil)

theorem Served.step {stop : Bool} (h : wire.Served worker) (hfaithful : worker.activity.Faithful)
    (hpermits : wire.permits worker work = true) (hstep : worker.Step stop work worker') :
    (wire.observe worker work).Served worker' := by
  cases hstep with
  | goes hactivity _ =>
    have hposition : wire.Idle ∧ cutLine worker.input = .incomplete := h.stands hactivity
    exact h.moves (by rw [hactivity]; rfl) rfl hposition
  | stops hactivity _ =>
    obtain ⟨hidle, -⟩ : wire.Idle ∧ _ := h.stands hactivity
    exact h.moves (by rw [hactivity]; rfl) rfl (hidle.closed _)
  | receive => cases hpermits
  | retry hactivity =>
    have hposition : wire.Idle ∧ cutLine worker.input = .incomplete := h.stands hactivity
    exact h.moves (by rw [hactivity]; rfl) rfl hposition
  | hangUp hactivity _ =>
    obtain ⟨hidle, -⟩ : wire.Idle ∧ _ := h.stands hactivity
    have hclosed : wire.Closed worker.input := hidle.closed _
    exact h.moves (by rw [hactivity]; rfl) rfl hclosed
  | unterminated hactivity hinput =>
    obtain ⟨hidle, hcut⟩ : wire.Idle ∧ _ := h.stands hactivity
    have hended : wire.hungUp = true ∧ wire.inbound = [] := by simpa [permits] using hpermits
    exact h.moves (by rw [hactivity]; rfl) rfl (hidle.closes (.unterminated hcut hinput hended))
  | fail hactivity =>
    obtain ⟨hidle, -⟩ : wire.Idle ∧ _ := h.stands hactivity
    exact h.moves (by rw [hactivity]; rfl) rfl (hidle.closed _)
  | incomplete hactivity hcut =>
    have hidle : wire.Idle := h.stands hactivity
    rw [observe, hcut]
    exact h.moves (by rw [hactivity]; rfl) rfl ⟨hidle, hcut⟩
  | tooLarge hactivity hcut =>
    have hidle : wire.Idle := h.stands hactivity
    rw [observe, hcut]
    exact h.moves (by rw [hactivity]; rfl) rfl (hidle.closes (.tooLarge hcut))
  | line hactivity hcut => exact h.cuts hactivity hcut
  | @execute outside command activity hactivity hexecuting =>
    have hbusy : wire.Busy (.dispatching command) := h.stands hactivity
    have hcommand (line : Str) (hat : (Activity.dispatching command).At line) :
        parseCommand (stripCarriageReturn line) = .ok command := by
      cases hat with
      | dispatching hcommand heq => exact Activity.dispatching.inj heq ▸ hcommand
      | executing _ heq => cases heq
      | rejected _ heq => cases heq
    have hobserve : wire.observe worker (.execute outside) =
        { wire with executed := wire.executed ++ [command] } := by
      simp only [observe, hactivity]
    rw [hobserve]
    refine ⟨h.wrote, h.sent, h.received, h.lines, ?_, (position_of_executing hexecuting).2 ?_⟩
    · have hexecuted := h.executed
      rw [hactivity] at hexecuted
      rw [Activity.pending_of_executing hexecuting, List.append_nil]
      exact hexecuted
    · obtain ⟨before, line, hlines, hat, hanswered, hsent⟩ := hbusy
      exact ⟨before, line, hlines, .executing (hcommand line hat) hexecuting, hanswered, hsent⟩
  | stays hpiece _ =>
    have hobserve : wire.observe worker work = wire := by
      cases work <;> first | rfl | cases hpiece
    rw [hobserve]
    exact h
  | @returns work command outcome hpiece hactivity =>
    have hobserve : wire.observe worker work = wire := by
      cases work <;> first | rfl | cases hpiece
    have hexecuting : worker.activity.executing = some command := by
      rcases hactivity with ⟨n, hactivity⟩ | hactivity <;> rw [hactivity] <;> rfl
    rw [hobserve]
    exact h.goesOn hexecuting rfl
  | record hactivity =>
    exact h.goesOn (by rw [hactivity]; rfl) rfl
  | @count command response hactivity =>
    have hbusy : wire.Busy (.responding command response) := h.stands hactivity
    have hobserve : wire.observe worker .count =
        { wire with replies := wire.replies ++ [⟨command, response⟩], offset := 0 } := by
      simp only [observe, hactivity]
    rw [hobserve]
    refine ⟨h.wrote, h.sent, h.received, h.lines, ?_, hbusy.sends (hactivity ▸ hfaithful)⟩
    have hexecuted := h.executed
    rw [hactivity] at hexecuted
    exact hexecuted
  | @sent command response hactivity =>
    have hsends : wire.Sends ⟨command, response⟩ := h.stands hactivity
    have hoffset : wire.offset = response.length := by
      simpa [permits, hactivity, Activity.text] using hpermits
    exact h.moves (by rw [hactivity]; rfl) rfl (hsends.idle hoffset)
  | @unsent command response hactivity =>
    have hsends : wire.Sends ⟨command, response⟩ := h.stands hactivity
    exact h.moves (by rw [hactivity]; rfl) rfl (hsends.closed _)
  | @closes sent response hactivity =>
    have hcloses : wire.Closes worker.input response := h.stands hactivity
    exact h.moves (by rw [hactivity]; rfl) rfl hcloses.closed

/-! ## The streams -/

/-- All lines but one have their reply, and what has been written is the front of the
    responses and of what the worker says last. -/
def InOrder (wire : Wire) (input : Str) : Prop :=
  ∃ answered rest final, wire.lines = answered ++ rest ∧ rest.length ≤ 1 ∧
    List.Forall₂ Answered answered wire.replies ∧
    (final = [] ∨ rest = [] ∧ Last wire.Ended input final) ∧
    wire.sent <+: responses wire.replies ++ final

theorem Closed.inOrder (h : wire.Closed input) : wire.InOrder input := by
  obtain ⟨hanswered, final, hfinal, hprefix⟩ := h
  exact ⟨wire.lines, [], final, (List.append_nil _).symm, Nat.zero_le _, hanswered,
    hfinal.imp_right fun hlast => ⟨rfl, hlast⟩, hprefix⟩

theorem Busy.inOrder (h : wire.Busy activity) (input : Str) : wire.InOrder input := by
  obtain ⟨before, line, hlines, -, hanswered, hsent⟩ := h
  refine ⟨before, [line], [], hlines, le_rfl, hanswered, .inl rfl, ?_⟩
  rw [hsent, List.append_nil]

theorem Position.inOrder (h : wire.Position worker) : wire.InOrder worker.input := by
  obtain ⟨input, activity⟩ := worker
  cases activity with
  | checking => exact (h.1.closed input).inOrder
  | reading => exact (h.1.closed input).inOrder
  | processing => exact (Idle.closed h input).inOrder
  | sending command response => exact (Sends.closed h input).inOrder
  | closing response => exact (Closes.closed h).inOrder
  | closed => exact Closed.inOrder h
  | _ => exact Busy.inOrder h input

/-- The commands that have been answered are those that the lines ask for. -/
theorem filterMap_of_answered {answered : List Str} {replies : List Reply}
    (h : List.Forall₂ Answered answered replies) :
    replies.filterMap (·.command) = answered.filterMap commandOf := by
  induction h with
  | nil => rfl
  | @cons line reply lines replies hline _ ih =>
    have hcommand : reply.command = commandOf line := by
      rw [Answered] at hline
      rw [commandOf]
      split at hline
      next hok => rw [hline.1, hok]; rfl
      next herror => rw [hline, herror]; rfl
    simp only [List.filterMap_cons, hcommand, ih]

/-- A command has been executed before it is answered. -/
theorem Served.commands (h : wire.Served worker) :
    wire.replies.filterMap (·.command) <+: wire.executed ∧
      wire.executed <+: wire.lines.filterMap commandOf := by
  refine ⟨?_, h.executed ▸ List.prefix_append _ _⟩
  by_cases hpending : worker.activity.pending = []
  · obtain ⟨answered, rest, final, hlines, -, hanswered, -⟩ := h.position.inOrder
    rw [h.executed_eq hpending, filterMap_of_answered hanswered, hlines, List.filterMap_append]
    exact List.prefix_append _ _
  · -- all the commands but the last one have been executed
    obtain ⟨input, activity⟩ := worker
    cases activity with
    | dispatching command =>
      obtain ⟨before, line, hlines, hat, hanswered, -⟩ : wire.Busy (.dispatching command) := h.position
      have hcommand : commandOf line = some command := by
        cases hat with
        | dispatching hcommand heq =>
          rw [commandOf, hcommand, Activity.dispatching.inj heq]
          rfl
        | executing _ heq => cases heq
        | rejected _ heq => cases heq
      have hexecuted := h.executed
      rw [hlines, filterMap_commandOf_append, hcommand] at hexecuted
      rw [filterMap_of_answered hanswered, List.append_cancel_right hexecuted]
    | _ => exact absurd rfl hpending

theorem served_default : Served {} {} :=
  ⟨rfl, rfl, rfl, List.forall_mem_nil _, rfl, ⟨.nil, rfl⟩, rfl⟩

theorem Last.mono {ended ended' : Prop} (h : Last ended input response) (himp : ended → ended') :
    Last ended' input response := by
  cases h with
  | tooLarge hcut => exact .tooLarge hcut
  | unterminated hcut hinput hended => exact .unterminated hcut hinput (himp hended)

/-- What moves in the streams is no part of where the connection stands. -/
theorem Position.congr {wire' : Wire} (h : wire.Position worker) (hended : wire.Ended → wire'.Ended)
    (hlines : wire'.lines = wire.lines) (hreplies : wire'.replies = wire.replies)
    (hoffset : wire'.offset = wire.offset) (hsent : wire'.sent = wire.sent) :
    wire'.Position worker := by
  obtain ⟨input, activity⟩ := worker
  cases activity with
  | closing response =>
    obtain ⟨hlast, h⟩ : wire.Closes input response := h
    refine ⟨hlast.mono hended, ?_⟩
    rw [hlines, hreplies, hoffset, hsent]
    exact h
  | closed =>
    obtain ⟨hanswered, final, hfinal, hprefix⟩ : wire.Closed input := h
    refine ⟨?_, final, hfinal.imp_right fun hlast => hlast.mono hended, ?_⟩
    · rw [hlines, hreplies]
      exact hanswered
    · rw [hsent, hreplies]
      exact hprefix
  | _ => simpa only [Position, Idle, Busy, Sends, hlines, hreplies, hoffset, hsent] using h

theorem Served.put (h : wire.Served worker) (hopen : wire.hungUp = false) (bytes : Str) :
    (wire.put bytes).Served worker := by
  refine ⟨?_, h.sent, h.received, h.lines, h.executed, h.position.congr ?_ rfl rfl rfl rfl⟩
  · change wire.wrote ++ bytes = wire.received ++ (wire.inbound ++ bytes)
    rw [h.wrote, List.append_assoc]
  · rintro ⟨hhung, -⟩
    rw [hopen] at hhung
    cases hhung

theorem Served.take (h : wire.Served worker) (count : ℕ) : (wire.take count).Served worker := by
  refine ⟨h.wrote, ?_, h.received, h.lines, h.executed, h.position.congr id rfl rfl rfl rfl⟩
  change wire.sent = wire.took ++ wire.outbound.take count ++ wire.outbound.drop count
  rw [List.append_assoc, List.take_append_drop, h.sent]

theorem Served.hangUp (h : wire.Served worker) : Served { wire with hungUp := true } worker :=
  ⟨h.wrote, h.sent, h.received, h.lines, h.executed,
    h.position.congr (fun hended => ⟨rfl, hended.2⟩) rfl rfl rfl rfl⟩

theorem Served.receive {count : ℕ} {stop : Bool} (h : wire.Served worker)
    (hstep : worker.Step stop (.receive (wire.inbound.take count)) worker') :
    (wire.receive count).Served worker' := by
  cases hstep with
  | receive hactivity _ =>
    obtain ⟨hidle, -⟩ : wire.Idle ∧ _ := h.stands hactivity
    have hexecuted : wire.executed = _ := h.executed_eq (by rw [hactivity]; rfl)
    refine ⟨?_, h.sent, ?_, h.lines, ?_, hidle⟩
    · change wire.wrote = wire.received ++ wire.inbound.take count ++ wire.inbound.drop count
      rw [List.append_assoc, List.take_append_drop, h.wrote]
    · change wire.received ++ _ = _ ++ (worker.input ++ _)
      rw [h.received, List.append_assoc]
      rfl
    · rw [Activity.pending, List.append_nil]
      · exact hexecuted
      · simp
  | stays hpiece => cases hpiece
  | returns hpiece => cases hpiece

theorem Served.write {count : ℕ} (h : wire.Served worker) (htext : worker.activity.text = some response)
    (hcount : wire.offset + count ≤ response.length) : (wire.write response count).Served worker := by
  obtain ⟨input, activity⟩ := worker
  have hsent : wire.sent ++ (response.drop wire.offset).take count =
      wire.took ++ (wire.outbound ++ (response.drop wire.offset).take count) := by
    rw [h.sent, List.append_assoc]
  refine ⟨h.wrote, hsent, h.received, h.lines, h.executed, ?_⟩
  cases activity with
  | sending command text =>
    obtain rfl := Option.some.inj htext
    obtain ⟨before, hreplies, hanswered, -, hfront⟩ : wire.Sends ⟨command, text⟩ := h.position
    refine ⟨before, hreplies, hanswered, hcount, ?_⟩
    change wire.sent ++ _ = _ ++ text.take (wire.offset + count)
    rw [hfront, List.append_assoc, List.take_add]
  | closing text =>
    obtain rfl := Option.some.inj htext
    obtain ⟨hlast, hanswered, -, hfront⟩ : wire.Closes input text := h.position
    refine ⟨hlast, hanswered, hcount, ?_⟩
    change wire.sent ++ _ = _ ++ text.take (wire.offset + count)
    rw [hfront, List.append_assoc, List.take_add]
    rfl
  | _ => cases htext

end Wire

/-! ## Runs -/

namespace Wired

variable {s t : Wired} {a : Action} {server : Server} {index : ℕ} {work : Work} {wire : Wire}

/-- Every connection is served in order. -/
structure Serves (s : Wired) : Prop where
  accepted : s.server.workers.length ≤ s.wires.length
  served : ∀ index (wire : Wire), s.wires[index]? = some wire → wire.Served (s.worker index)

theorem worker_congr (h : t.server.workers = s.server.workers) (index : ℕ) :
    t.worker index = s.worker index := by
  rw [worker, worker, h]

/-- A new worker is the one that its connection had. -/
theorem worker_append (workers : List Worker) (index : ℕ) :
    (workers ++ [({} : Worker)])[index]?.getD {} = workers[index]?.getD {} := by
  rcases lt_or_ge index workers.length with hlt | hge
  · rw [List.getElem?_append_left hlt]
  · rw [List.getElem?_append_right hge, List.getElem?_eq_none hge]
    cases index - workers.length <;> rfl

/-- A step of a worker is one of its connection, and leaves the other workers alone. -/
theorem step_of_perform (h : s.server.perform (.work index work) = some t.server) :
    (s.worker index).Step s.server.stopRequested work (t.worker index) ∧
      t.server.workers.length = s.server.workers.length ∧
      ∀ other, other ≠ index → t.worker other = s.worker other := by
  generalize haction : Server.Action.work index work = action at h
  generalize ht : t.server = server at h
  cases Server.perform_effect h with
  | @work index' work' worker worker' broker hworker hwork heffect =>
    obtain ⟨rfl, rfl⟩ := Server.Action.work.inj haction
    obtain ⟨hlt, -⟩ := List.getElem?_eq_some_iff.1 hworker
    have hstep : s.worker index = worker := by rw [Wired.worker, hworker, Option.getD_some]
    refine ⟨?_, List.length_set, fun other hother => ?_⟩
    · rw [hstep, Wired.worker, ht, List.getElem?_set_self hlt, Option.getD_some]
      exact Broker.work_step hwork
    · rw [Wired.worker, ht, List.getElem?_set_ne hother.symm, Wired.worker]
  | _ => cases haction

/-- A step that is one of the connection. -/
theorem Serves.set (h : s.Serves) {wire' : Wire} (hwires : t.wires = s.wires.set index wire')
    (hlength : t.server.workers.length = s.server.workers.length)
    (hothers : ∀ other, other ≠ index → t.worker other = s.worker other)
    (hserved : wire'.Served (t.worker index)) : t.Serves := by
  refine ⟨by rw [hlength, hwires, List.length_set]; exact h.accepted, fun other wire hwire => ?_⟩
  rw [hwires] at hwire
  by_cases heq : other = index
  · obtain rfl := heq
    obtain ⟨hlt, rfl⟩ := List.getElem?_eq_some_iff.1 hwire
    rw [List.getElem_set_self]
    exact hserved
  · rw [List.getElem?_set_ne (Ne.symm heq)] at hwire
    rw [hothers other heq]
    exact h.served other wire hwire

theorem reachable_faithful (h : machine.Reachable s) (index : ℕ) :
    (s.worker index).activity.Faithful := by
  rw [worker]
  cases hworker : s.server.workers[index]? with
  | none => trivial
  | some worker =>
    exact (Server.reachable_all Server.kept_faithful (refines_server.reachable h)).workers _
      (List.mem_of_getElem? hworker)

theorem Serves.step (h : s.Serves) (hfaithful : ∀ index, (s.worker index).activity.Faithful)
    (hstep : s.perform a = some t) : t.Serves := by
  cases perform_effect hstep with
  | connect =>
    refine ⟨h.accepted.trans (by simp), fun index wire hwire => ?_⟩
    rcases lt_or_ge index s.wires.length with hlt | hge
    · rw [List.getElem?_append_left hlt] at hwire
      exact h.served index wire hwire
    · -- it has no worker yet
      have hnone : s.server.workers[index]? = none :=
        List.getElem?_eq_none (h.accepted.trans hge)
      rw [List.getElem?_append_right hge] at hwire
      obtain rfl := List.mem_singleton.1 (List.mem_of_getElem? hwire)
      have hworker : worker { s with wires := s.wires ++ [({} : Wire)] } index = {} := by
        rw [worker, hnone, Option.getD_none]
      rw [hworker]
      exact Wire.served_default
  | put hwire hopen =>
    exact h.set rfl rfl (fun _ _ => rfl) ((h.served _ _ hwire).put hopen _)
  | take hwire => exact h.set rfl rfl (fun _ _ => rfl) ((h.served _ _ hwire).take _)
  | hangUp hwire => exact h.set rfl rfl (fun _ _ => rfl) (h.served _ _ hwire).hangUp
  | @receive index count wire server hwire hserver =>
    obtain ⟨hworker, hlength, hothers⟩ :=
      step_of_perform (t := ⟨server, s.wires.set index (wire.receive count)⟩) hserver
    exact h.set rfl hlength hothers ((h.served _ _ hwire).receive hworker)
  | write hwire htext hcount =>
    exact h.set rfl rfl (fun _ _ => rfl) ((h.served _ _ hwire).write htext hcount)
  | @work index work wire server hwire hpermits hserver =>
    obtain ⟨hworker, hlength, hothers⟩ := step_of_perform
      (t := ⟨server, s.wires.set index (wire.observe (s.worker index) work)⟩) hserver
    exact h.set rfl hlength hothers ((h.served _ _ hwire).step (hfaithful _) hpermits hworker)
  | @run action server _ hworkers =>
    rcases hworkers with hsame | ⟨hlt, hworkers⟩
    · refine ⟨by rw [hsame]; exact h.accepted, fun index wire hwire => ?_⟩
      rw [worker_congr hsame]
      exact h.served index wire hwire
    · refine ⟨by rw [hworkers, List.length_append]; exact hlt, fun index wire hwire => ?_⟩
      have hworker : worker { s with server } index = s.worker index := by
        rw [worker, hworkers, worker_append]
        rfl
      rw [hworker]
      exact h.served index wire hwire

theorem reachable_serves (h : machine.Reachable s) : s.Serves := by
  refine h.invariant (P := Serves) (fun s hinit => ?_)
    fun s a t hs hserves hstep => hserves.step (reachable_faithful hs) hstep
  obtain ⟨⟨_, _, _, _, _, _, hserver⟩, hwires⟩ := hinit
  refine ⟨by rw [hserver]; exact Nat.zero_le _, fun index wire hwire => ?_⟩
  rw [hwires] at hwire
  cases hwire

/-- A connection is served in order: the worker takes the lines that the client has written,
    executes the command of each of them once, and starts no reply to a line before it has
    written those to the lines before. -/
theorem reachable_served (h : machine.Reachable s) (hwire : s.wires[index]? = some wire) :
    unlines '\n'.toUInt8 wire.lines <+: wire.wrote ∧
      wire.executed <+: wire.lines.filterMap commandOf ∧
      wire.replies.filterMap (·.command) <+: wire.executed ∧
      ∃ answered rest final, wire.lines = answered ++ rest ∧ rest.length ≤ 1 ∧
        List.Forall₂ Answered answered wire.replies ∧
        final ∈ [[], Reply.tooLarge.response, Reply.unterminated.response] ∧
        wire.took <+: responses wire.replies ++ final := by
  have hserved := (reachable_serves h).served index wire hwire
  obtain ⟨hreplied, hexecuted⟩ := hserved.commands
  obtain ⟨answered, rest, final, hlines, hrest, hanswered, hfinal, hsent⟩ := hserved.position.inOrder
  refine ⟨?_, hexecuted, hreplied, answered, rest, final, hlines, hrest, hanswered, ?_, ?_⟩
  · rw [hserved.wrote, hserved.received, List.append_assoc]
    exact List.prefix_append _ _
  · rcases hfinal with rfl | ⟨-, hlast⟩
    · simp
    · cases hlast <;> simp
  · rw [hserved.sent] at hsent
    exact (List.prefix_append _ _).trans hsent

/-- The state after steps of an idle server without connections. -/
def after (actions : List Action) : Wired :=
  (actions.foldlM perform { server := .idle }).getD { server := .idle }

theorem reachable_after (actions : List Action) : machine.Reachable (after actions) := by
  have hidle : machine.Reachable { server := .idle } := .init ⟨Server.init_idle, rfl⟩
  exact hidle.getD_foldlM (fun _ _ _ hstep => hstep) actions

/-- A client writes a line and a piece of another, and reads a piece of the response. -/
def asking : List Action :=
  [.connect, .put 0 (ascii "status\nrel"), .run .accept, .work 0 .check, .receive 0 10, .work 0 .cut,
    .work 0 (.execute {}), .work 0 .count, .write 0 5, .take 0 3]

theorem served_asking :
    ∃ wire, (after asking).wires[0]? = some wire ∧ wire.took = ascii "OK " ∧
      unlines '\n'.toUInt8 wire.lines <+: ascii "status\nrel" ∧
      wire.executed <+: wire.lines.filterMap commandOf := by
  have hsome : (after asking).wires[0]?.isSome = true := by decide
  obtain ⟨wire, hwire⟩ := Option.isSome_iff_exists.1 hsome
  have htook : (after asking).wires[0]?.map (·.took) = some (ascii "OK ") := by decide
  have hwrote : (after asking).wires[0]?.map (·.wrote) = some (ascii "status\nrel") := by decide
  rw [hwire] at htook hwrote
  obtain ⟨hlines, hexecuted, -⟩ := reachable_served (reachable_after asking) hwire
  exact ⟨wire, hwire, Option.some.inj htook, Option.some.inj hwrote ▸ hlines, hexecuted⟩

end Wired

end Gpumemd
