import Gpumemd.Protocol.Format

/-!
# Sessions

`client_session` and `process_input` (`src/ipc/unix_socket_server.cpp`): a session reads
chunks, appends them to its input and executes the lines that are complete. The limit on
the length of a line is tested in two places, on a line and on an input without one.

Here a session runs alone, with any dispatcher and any way of recording requests, over
any state: `clientSession` answers as `answerStream` does, which cuts the whole stream at
newlines first (`clientSession_eq`). So how the stream is split into chunks makes no
difference.
-/

namespace Gpumemd

open Library Protocol

/-- `kMaxLineBytes`. -/
def maxLineBytes : ℕ := 4096

/-- The line without one carriage return at its end. -/
def stripCarriageReturn (line : Str) : Str :=
  if line.getLast? = some '\r'.toUInt8 then line.dropLast else line

/-- What `process_input` finds at the front of its input. -/
inductive Cut
  /-- No line, or not yet. -/
  | incomplete
  /-- A line that is too long, or that will be. -/
  | tooLarge
  /-- A line, and what follows it. -/
  | line (line rest : Str)
  deriving DecidableEq

/-- The start of a turn of the loop of `process_input`. -/
def cutLine (input : Str) : Cut :=
  match input.findIdx? (· == '\n'.toUInt8) with
  | none => if input.length ≥ maxLineBytes then .tooLarge else .incomplete
  | some newline =>
    if newline + 1 > maxLineBytes then .tooLarge
    else .line (stripCarriageReturn (input.take newline)) (input.drop (newline + 1))

/-- A response, and the command that was executed for it, if there was one. -/
structure Reply where
  command : Option Command
  response : Str
  deriving DecidableEq

/-- The reply to a line, or an input, that is too long. -/
def Reply.tooLarge : Reply := ⟨none, ascii "ERR request_too_large request exceeds 4096 bytes\n"⟩

/-- The reply to an input that ends without a newline. -/
def Reply.unterminated : Reply := ⟨none, ascii "ERR invalid_request unterminated command\n"⟩

theorem length_lt_of_cutLine {input line rest : Str} (h : cutLine input = .line line rest) :
    rest.length < input.length := by
  rw [cutLine] at h
  split at h
  · split_ifs at h
  next newline hnewline =>
    split_ifs at h
    obtain ⟨-, rfl⟩ := Cut.line.inj h
    have hlt := (List.findIdx?_eq_some_iff_getElem.1 hnewline).1
    rw [List.length_drop]
    omega

namespace Session

variable {σ : Type*} (dispatch : σ → Command → σ × Str) (record : σ → Bool → σ)

/-- Executes a line and records the request. -/
def answer (s : σ) (line : Str) : σ × Reply :=
  let (s, reply) :=
    match parseCommand line with
    | .ok command =>
      let (s, response) := dispatch s command
      (s, (⟨some command, response⟩ : Reply))
    | .error error => (s, ⟨none, formatParseError error⟩)
  (record s ((ascii "OK").isPrefixOf reply.response), reply)

/-- `process_input`: the state, the input that is left, the replies, and whether the
    session goes on. -/
def processInput (s : σ) (input : Str) : σ × Str × List Reply × Bool :=
  match h : cutLine input with
  | .incomplete => (s, input, [], true)
  | .tooLarge => (s, input, [.tooLarge], false)
  | .line line rest =>
    have := length_lt_of_cutLine h
    let (s, reply) := answer dispatch record s line
    let (s, input, replies, goesOn) := processInput s rest
    (s, input, reply :: replies, goesOn)
termination_by input.length

/-- `client_session`, from the input that is left of the chunks read before: it reads the
    chunks, and then the end of the stream. -/
def clientSession (s : σ) (input : Str) : List Str → σ × List Reply
  | [] => (s, if !input.isEmpty then [.unterminated] else [])
  | chunk :: chunks =>
    match processInput dispatch record s (input ++ chunk) with
    | (s, _, replies, false) => (s, replies)
    | (s, input, replies, true) =>
      let (s, more) := clientSession s input chunks
      (s, replies ++ more)

/-! ## The whole stream -/

/-- The replies to the lines of a stream, the last of which has no newline. -/
def answerLines (s : σ) : List Str → σ × List Reply
  | [] => (s, [])
  | [tail] =>
    if tail.length ≥ maxLineBytes then (s, [.tooLarge])
    else if !tail.isEmpty then (s, [.unterminated])
    else (s, [])
  | line :: lines =>
    if line.length + 1 > maxLineBytes then (s, [.tooLarge])
    else
      let (s, reply) := answer dispatch record s (stripCarriageReturn line)
      let (s, replies) := answerLines s lines
      (s, reply :: replies)

/-- The replies to a stream. -/
def answerStream (s : σ) (stream : Str) : σ × List Reply :=
  answerLines dispatch record s (stream.splitOn '\n'.toUInt8)

variable {dispatch record} {s : σ} {input line rest : Str} {chunks : List Str}

/-! ## The front of an input -/

theorem findIdx?_of_notMem (h : '\n'.toUInt8 ∉ input) :
    input.findIdx? (· == '\n'.toUInt8) = none := by
  rw [List.findIdx?_eq_none_iff]
  rintro c hc
  rw [beq_eq_false_iff_ne]
  rintro rfl
  exact h hc

theorem cutLine_of_notMem (h : '\n'.toUInt8 ∉ input) :
    cutLine input = if input.length ≥ maxLineBytes then .tooLarge else .incomplete := by
  rw [cutLine, findIdx?_of_notMem h]

theorem cutLine_append_cons (h : '\n'.toUInt8 ∉ line) :
    cutLine (line ++ '\n'.toUInt8 :: rest) =
      if line.length + 1 > maxLineBytes then .tooLarge
      else .line (stripCarriageReturn line) rest := by
  have hfind : (line ++ '\n'.toUInt8 :: rest).findIdx? (· == '\n'.toUInt8) = some line.length := by
    rw [List.findIdx?_append, findIdx?_of_notMem h, List.findIdx?_cons]
    simp
  have hdrop : (line ++ '\n'.toUInt8 :: rest).drop (line.length + 1) = rest := by
    rw [List.drop_append]
    simp
  rw [cutLine, hfind]
  dsimp only
  rw [List.take_left, hdrop]

/-! ## One piece of a stream after the other -/

theorem answerStream_append_cons (h : '\n'.toUInt8 ∉ line) :
    answerStream dispatch record s (line ++ '\n'.toUInt8 :: rest) =
      if line.length + 1 > maxLineBytes then (s, [.tooLarge])
      else
        let (s, reply) := answer dispatch record s (stripCarriageReturn line)
        let (s, replies) := answerStream dispatch record s rest
        (s, reply :: replies) := by
  rw [answerStream, List.splitOn_append_cons_self_of_not_mem h]
  obtain ⟨next, lines, hnext⟩ := List.exists_cons_of_ne_nil (List.splitOn_ne_nil '\n'.toUInt8 rest)
  simp only [answerStream, hnext, answerLines]

theorem answerStream_of_notMem (h : '\n'.toUInt8 ∉ input) :
    answerStream dispatch record s input =
      if input.length ≥ maxLineBytes then (s, [.tooLarge])
      else (s, if !input.isEmpty then [.unterminated] else []) := by
  rw [answerStream, List.splitOn_eq_singleton h, answerLines]
  split_ifs <;> rfl

/-- An input without a newline that is too long stays so, whatever comes. -/
theorem answerStream_tooLarge (h : '\n'.toUInt8 ∉ input) (hlong : maxLineBytes ≤ input.length) :
    answerStream dispatch record s (input ++ rest) = (s, [.tooLarge]) := by
  by_cases hrest : '\n'.toUInt8 ∈ rest
  · obtain ⟨more, after, rfl, hmore⟩ := List.eq_append_cons_of_mem hrest
    have hline : '\n'.toUInt8 ∉ input ++ more := by simp [h, hmore]
    rw [← List.append_assoc, answerStream_append_cons hline, if_pos]
    rw [List.length_append]
    omega
  · have hinput : '\n'.toUInt8 ∉ input ++ rest := by simp [h, hrest]
    rw [answerStream_of_notMem hinput, if_pos]
    rw [List.length_append]
    omega

/-! ## One line after the other -/

theorem processInput_incomplete (h : cutLine input = .incomplete) :
    processInput dispatch record s input = (s, input, [], true) := by
  rw [processInput]
  split <;> simp_all

theorem processInput_tooLarge (h : cutLine input = .tooLarge) :
    processInput dispatch record s input = (s, input, [.tooLarge], false) := by
  rw [processInput]
  split <;> simp_all

theorem processInput_line (h : cutLine input = .line line rest) :
    processInput dispatch record s input =
      let (s, reply) := answer dispatch record s line
      let (s, input, replies, goesOn) := processInput dispatch record s rest
      (s, input, reply :: replies, goesOn) := by
  conv_lhs => rw [processInput]
  split <;> simp_all

/-! ## One chunk after the other -/

variable (dispatch record) in
/-- A session that has just read a chunk, with the chunks that follow. -/
def serve (s : σ) (input : Str) (chunks : List Str) : σ × List Reply :=
  match processInput dispatch record s input with
  | (s, _, replies, false) => (s, replies)
  | (s, input, replies, true) =>
    let (s, more) := clientSession dispatch record s input chunks
    (s, replies ++ more)

theorem clientSession_cons (chunk : Str) :
    clientSession dispatch record s input (chunk :: chunks) =
      serve dispatch record s (input ++ chunk) chunks := rfl

theorem serve_incomplete (h : cutLine input = .incomplete) :
    serve dispatch record s input chunks = clientSession dispatch record s input chunks := by
  rw [serve, processInput_incomplete h]
  rfl

theorem serve_tooLarge (h : cutLine input = .tooLarge) :
    serve dispatch record s input chunks = (s, [.tooLarge]) := by
  rw [serve, processInput_tooLarge h]

theorem serve_line (h : cutLine input = .line line rest) :
    serve dispatch record s input chunks =
      let (s, reply) := answer dispatch record s line
      let (s, replies) := serve dispatch record s rest chunks
      (s, reply :: replies) := by
  rw [serve, processInput_line h]
  simp only [serve]
  generalize processInput dispatch record (answer dispatch record s line).1 rest = processed
  obtain ⟨s, input, replies, goesOn⟩ := processed
  cases goesOn <;> rfl

/-- If the session goes on as the stream asks when its input is incomplete, it does so
    with every input. -/
theorem serve_eq (hnext : ∀ s input, '\n'.toUInt8 ∉ input → input.length < maxLineBytes →
      clientSession dispatch record s input chunks =
        answerStream dispatch record s (input ++ chunks.flatten)) (s : σ) (input : Str) :
    serve dispatch record s input chunks =
      answerStream dispatch record s (input ++ chunks.flatten) := by
  induction hlength : input.length using Nat.strongRecOn generalizing s input with
  | ind length ih =>
    by_cases hnewline : '\n'.toUInt8 ∈ input
    · obtain ⟨line, rest, rfl, hline⟩ := List.eq_append_cons_of_mem hnewline
      have hcut : cutLine (line ++ '\n'.toUInt8 :: rest) = _ := cutLine_append_cons hline
      rw [List.append_assoc, List.cons_append, answerStream_append_cons hline]
      split_ifs at hcut ⊢ with hlong
      · exact serve_tooLarge hcut
      · rw [serve_line hcut]
        simp only
        rw [ih rest.length (by simp at hlength; omega) _ rest rfl]
    · have hcut := cutLine_of_notMem hnewline
      split_ifs at hcut with hlong
      · rw [serve_tooLarge hcut, answerStream_tooLarge hnewline hlong]
      · rw [serve_incomplete hcut, hnext s input hnewline (not_le.1 hlong)]

/-- However the stream is split into chunks, the session answers as to the whole stream. -/
theorem clientSession_append (chunks : List Str) (s : σ) (input : Str)
    (hnewline : '\n'.toUInt8 ∉ input) (hlength : input.length < maxLineBytes) :
    clientSession dispatch record s input chunks =
      answerStream dispatch record s (input ++ chunks.flatten) := by
  induction chunks generalizing s input with
  | nil =>
    rw [List.flatten_nil, List.append_nil, answerStream_of_notMem hnewline,
      if_neg (not_le.2 hlength), clientSession]
  | cons chunk chunks ih =>
    rw [clientSession_cons, serve_eq ih, List.flatten_cons, List.append_assoc]

/-- A session executes the commands and sends the responses that the whole stream asks
    for, however it is split into chunks. -/
theorem clientSession_eq (dispatch : σ → Command → σ × Str) (record : σ → Bool → σ) (s : σ)
    (chunks : List Str) :
    clientSession dispatch record s [] chunks =
      answerStream dispatch record s chunks.flatten :=
  clientSession_append chunks s [] List.not_mem_nil (by decide)

end Session

end Gpumemd
