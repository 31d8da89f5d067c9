import Gpumemd.Client.Request

/-!
# The command line client

`gpumemctl` (`src/client/main.cpp`) joins its arguments to a string, checks this with the
parser of the daemon, writes it as a line and prints the response. But the daemon cuts what
it reads at newlines first, and the tokens that may be anything may have newlines in them.
The daemon executes just the command that was checked exactly if the string `Arrives`
(`executed_sent_iff`).
-/

namespace Gpumemd

open Library Protocol

namespace Ctl

/-- `print_usage`. -/
def usage : Str :=
  ascii ("Usage: gpumemctl --socket PATH COMMAND [ARGUMENTS...]\n\n" ++
    "Commands: acquire NAME SIZE [PRIORITY] [TIMEOUT_MS],\n" ++
    "          try_acquire NAME SIZE, release NAME, status,\n" ++
    "          register NAME SIZE METADATA, register_file NAME PATH METADATA,\n" ++
    "          unregister NAME, retain NAME, release_model NAME, models\n\n" ++
    "Residency commands:\n" ++
    "  load NAME\n" ++
    "  unload NAME\n" ++
    "  residency\n" ++
    "  share NAME\n" ++
    "  metrics\n" ++
    "  node_register ID ENDPOINT CAPACITY\n" ++
    "  node_remove ID\n" ++
    "  nodes\n")

/-- What `gpumemctl` has done: its exit code, what it has printed, what it has written to
    the socket, and the chunks that it has not read. -/
structure Exit where
  code : ℕ
  output : Str := []
  errors : Str := []
  sent : Str := []
  unread : List Str
  deriving DecidableEq

/-- The string that `main` makes of the arguments after the path. -/
def joinArgs (args : List Str) : Str :=
  args.foldl (fun command arg => (if !command.isEmpty then command ++ ascii " " else command) ++ arg)
    []

/-- The commands whose responses `main` reads to their last line. -/
def isMultiline (type : CommandType) : Bool :=
  type = .status || type = .models || type = .residency || type = .metrics

/-- The end of `main`, for a command that it has accepted. -/
def communicate (path command : Str) (parsed : Command) (connection : Connection) : Exit :=
  let unread := connection.chunks
  if !connection.connects then
    { code := 1, errors := ascii "gpumemctl: could not connect to socket '" ++ path ++ ascii "'\n",
      unread }
  else
    let wire := command ++ ascii "\n"
    if !connection.writes then
      { code := 1, errors := ascii "gpumemctl: could not send command\n", unread }
    else
      let (response, unread, complete) :=
        readUntil (Client.responseComplete (isMultiline parsed.type)) [] unread
      if !complete then
        { code := 1, output := response,
          errors := ascii "gpumemctl: connection closed before response completed\n",
          sent := wire, unread }
      else
        { code := if (ascii "OK ").isPrefixOf response then 0 else 1, output := response,
          sent := wire, unread }

/-- `main`, without the name of the program. -/
def main (args : List Str) (connection : Connection) : Exit :=
  let unread := connection.chunks
  match args with
  | [flag] =>
    if flag = ascii "--help" then { code := 0, output := usage, unread }
    else { code := 2, errors := usage, unread }
  | flag :: path :: args =>
    if args.isEmpty || flag ≠ ascii "--socket" then { code := 2, errors := usage, unread }
    else
      let command := joinArgs args
      match parseCommand command with
      | .error error => { code := 2, errors := formatParseError error, unread }
      | .ok parsed => communicate path command parsed connection
  | [] => { code := 2, errors := usage, unread }

variable {args : List Str} {path string word : Str} {command : Command} {connection : Connection}

/-- No arguments make no command. -/
theorem ne_nil_of_parseCommand (hcommand : parseCommand (joinArgs args) = .ok command) :
    args ≠ [] := by
  rintro rfl
  cases hcommand

theorem main_of_parseCommand (hcommand : parseCommand (joinArgs args) = .ok command) :
    main (ascii "--socket" :: path :: args) connection =
      communicate path (joinArgs args) command connection := by
  obtain ⟨arg, args, rfl⟩ := List.exists_cons_of_ne_nil (ne_nil_of_parseCommand hcommand)
  rw [main, if_neg (by simp)]
  dsimp only
  rw [hcommand]

theorem sent_communicate (hconnects : connection.connects = true)
    (hwrites : connection.writes = true) :
    (communicate path string command connection).sent = string ++ ascii "\n" := by
  rw [communicate, if_neg (by simp [hconnects]), if_neg (by simp [hwrites])]
  dsimp only
  split_ifs <;> rfl

/-! ## What the daemon executes -/

/-- The commands of the replies. -/
def executed (replies : List Reply) : List Command := replies.filterMap (·.command)

/-- The commands of the lines, up to the first that is too long. -/
def commandsOf (lines : List Str) : List Command :=
  (lines.takeWhile fun line => line.length < maxLineBytes).filterMap fun line =>
    (parseCommand (stripCarriageReturn line)).toOption

theorem commandsOf_cons {line : Str} {lines : List Str} :
    commandsOf (line :: lines) =
      if line.length < maxLineBytes then
        (parseCommand (stripCarriageReturn line)).toOption.toList ++ commandsOf lines
      else [] := by
  rw [commandsOf, List.takeWhile_cons]
  split_ifs with hlength hlength' hlength'
  · rw [List.filterMap_cons]
    cases (parseCommand (stripCarriageReturn line)).toOption <;> rfl
  · exact absurd (by simpa using hlength) hlength'
  · exact absurd (by simpa using hlength') hlength
  · rfl

section Executed

variable {σ : Type*} {dispatch : σ → Command → σ × Str} {record : σ → Bool → σ}

theorem command_answer (s : σ) (line : Str) :
    (Session.answer dispatch record s line).2.command = (parseCommand line).toOption := by
  rw [Session.answer]
  cases parseCommand line <;> rfl

/-- Of lines, the daemon executes the commands. -/
theorem executed_processInput (s : σ) {lines : List Str}
    (hlines : ∀ line ∈ lines, '\n'.toUInt8 ∉ line) :
    executed (Session.processInput dispatch record s (unlines '\n'.toUInt8 lines)).2.2.1 =
      commandsOf lines := by
  induction lines generalizing s with
  | nil =>
    have hcut : cutLine [] = .incomplete := by decide
    rw [unlines, List.flatMap_nil, Session.processInput_incomplete hcut]
    rfl
  | cons line lines ih =>
    rw [List.forall_mem_cons] at hlines
    rw [commandsOf_cons, unlines_cons, List.append_assoc, List.singleton_append]
    generalize hrest : unlines '\n'.toUInt8 lines = rest at ih ⊢
    have hcut : cutLine (line ++ '\n'.toUInt8 :: rest) = _ := Session.cutLine_append_cons hlines.1
    by_cases hlength : line.length < maxLineBytes
    · rw [if_neg (by omega)] at hcut
      rw [if_pos hlength, Session.processInput_line hcut]
      dsimp only
      rw [executed, List.filterMap_cons, command_answer, ← ih _ hlines.2, executed]
      cases (parseCommand (stripCarriageReturn line)).toOption <;> rfl
    · rw [if_pos (by omega)] at hcut
      rw [if_neg hlength, Session.processInput_tooLarge hcut]
      rfl

end Executed

/-! ## What arrives -/

/-- What is in front of a newline in a token. -/
def beforeNewline (token : Str) : Str :=
  stripCarriageReturn (token.takeWhile fun c => c != '\n'.toUInt8)

/-- The string is an `acquire` whose timeout, which is not read since there is a cost, has
    a newline in it. This does no harm: the cost is zero, what is in front of the newline
    reads as no timeout, and no line after it is a command. -/
def Harmless (string : Str) : Prop :=
  ∃ name size priority skipped cost line lines,
    tokenize string = [ascii "acquire", name, size, priority, skipped, cost] ∧
      '\n'.toUInt8 ∈ skipped ∧ parseTimeout cost = some 0 ∧
      (beforeNewline skipped = [] ∨ parseTimeout (beforeNewline skipped) = some Millis.max) ∧
      string.splitOn '\n'.toUInt8 = line :: lines ∧ line.length < maxLineBytes ∧
      ∀ line ∈ lines.takeWhile fun line => line.length < maxLineBytes,
        ∀ command, parseCommand (stripCarriageReturn line) ≠ .ok command

/-- The string is a line that is not too long, or harmless. -/
def Arrives (string : Str) : Prop :=
  ('\n'.toUInt8 ∉ string ∧ string.length < maxLineBytes) ∨ Harmless string

theorem isBlank_carriageReturn : isBlank '\r'.toUInt8 = false := by decide

/-- A command that is accepted does not end with a carriage return. -/
theorem stripCarriageReturn_of_parseCommand (hcommand : parseCommand string = .ok command) :
    stripCarriageReturn string = string := by
  rw [stripCarriageReturn, if_neg]
  intro hreturn
  obtain ⟨token, htoken, hmem⟩ :=
    exists_mem_getLast_tokens (Option.mem_def.2 hreturn) isBlank_carriageReturn
  exact (plain_getLast_of_parseTokens hcommand htoken).notMem (by decide) hmem

/-- A newline is in a token. -/
theorem exists_token_of_mem (h : '\n'.toUInt8 ∈ string) :
    ∃ token ∈ tokenize string, '\n'.toUInt8 ∈ token :=
  exists_mem_tokens h (by decide)

/-- A string without a newline arrives unless it is too long. -/
theorem commandsOf_of_notMem (hcommand : parseCommand string = .ok command)
    (hnewline : '\n'.toUInt8 ∉ string) :
    commandsOf (string.splitOn '\n'.toUInt8) = [command] ↔ Arrives string := by
  have hharmless : ¬ Harmless string := by
    rintro ⟨name, size, priority, skipped, cost, line, lines, htokens, hskipped, -⟩
    have hmem : skipped ∈ tokenize string := by simp [htokens]
    exact hnewline (mem_of_mem_tokens hmem hskipped)
  rw [Arrives, or_iff_left hharmless, List.splitOn_eq_singleton hnewline, commandsOf_cons,
    stripCarriageReturn_of_parseCommand hcommand, hcommand, and_iff_right hnewline]
  by_cases hlength : string.length < maxLineBytes
  · rw [if_pos hlength]
    exact ⟨fun _ => hlength, fun _ => rfl⟩
  · rw [if_neg hlength]
    exact ⟨fun h => absurd h.symm (List.cons_ne_nil _ _), fun h => absurd h hlength⟩

/-- What is executed comes from a line. -/
theorem exists_of_mem_commandsOf {lines : List Str} (h : command ∈ commandsOf lines) :
    ∃ line ∈ lines, parseCommand (stripCarriageReturn line) = .ok command := by
  obtain ⟨line, hline, hparse⟩ := List.mem_filterMap.1 h
  refine ⟨line, (List.takeWhile_prefix _).subset hline, ?_⟩
  cases hresult : parseCommand (stripCarriageReturn line) with
  | error => simp [hresult, Except.toOption] at hparse
  | ok command' =>
    rw [hresult] at hparse
    rw [Option.some.inj hparse]

theorem front_stripCarriageReturn (line : Str) : stripCarriageReturn line <+: line := by
  rw [stripCarriageReturn]
  split_ifs
  · exact List.dropLast_prefix line
  · exact List.prefix_refl line

/-- A path or an endpoint with a newline never arrives. -/
theorem commandsOf_of_path {verb name last : Str} (hverb : verb ≠ ascii "acquire")
    (htokens : tokenize string = [verb, name, command.path, last])
    (hpath : '\n'.toUInt8 ∈ command.path) :
    commandsOf (string.splitOn '\n'.toUInt8) = [command] ↔ Arrives string := by
  have hnewline : '\n'.toUInt8 ∈ string :=
    mem_of_mem_tokens (show command.path ∈ tokenize string by simp [htokens]) hpath
  have hharmless : ¬ Harmless string := by
    rintro ⟨_, _, _, _, _, _, _, htokens', -⟩
    rw [htokens] at htokens'
    exact hverb (List.cons.inj htokens').1
  refine ⟨fun h => ?_, fun h => ?_⟩
  · -- the path of a command that a line gives has no newline
    obtain ⟨line, hline, hparse⟩ := exists_of_mem_commandsOf (h ▸ List.mem_singleton_self command)
    rcases path_of_parseTokens hparse with hnil | htoken
    · rw [hnil] at hpath
      exact absurd hpath List.not_mem_nil
    · have hmem := mem_of_mem_tokens htoken hpath
      exact absurd ((front_stripCarriageReturn line).subset hmem) (notMem_of_mem_splitOn hline)
  · rcases h with ⟨hnot, _⟩ | h
    · exact absurd hnewline hnot
    · exact absurd h hharmless

/-! ## An `acquire` with a newline in its timeout -/

variable {name size priority skipped cost : Str}

/-- The newline is in the token that is not read, so the tokens in front of it are in front
    of the newline. -/
theorem eq_of_tokens_newline {before after : List Str} {token : Str}
    (hname : Plain name) (hsize : Plain size) (hpriority : Plain priority) (hcost : Plain cost)
    (hnewline : '\n'.toUInt8 ∈ token)
    (h : [ascii "acquire", name, size, priority, skipped, cost] = before ++ token :: after) :
    before = [ascii "acquire", name, size, priority] ∧ token = skipped ∧ after = [cost] := by
  have hplain : ∀ token', Plain token' → token ≠ token' := by
    rintro _ hplain rfl
    exact hplain.notMem (by decide) hnewline
  have hverb : Plain (ascii "acquire") := by decide
  rcases before with _ | ⟨t₀, _ | ⟨t₁, _ | ⟨t₂, _ | ⟨t₃, _ | ⟨t₄, before⟩⟩⟩⟩⟩
  all_goals simp only [List.cons_append, List.nil_append, List.cons.injEq] at h
  · exact absurd h.1.symm (hplain _ hverb)
  · exact absurd h.2.1.symm (hplain _ hname)
  · exact absurd h.2.2.1.symm (hplain _ hsize)
  · exact absurd h.2.2.2.1.symm (hplain _ hpriority)
  · obtain ⟨rfl, rfl, rfl, rfl, rfl, rfl⟩ := h
    exact ⟨rfl, rfl, rfl⟩
  · -- the only token after the one that is not read is the cost
    have hmem : token ∈ [cost] := h.2.2.2.2.2 ▸ by simp
    exact absurd (List.mem_singleton.1 hmem) (hplain _ hcost)

/-- The first line, and the rest of the string. -/
theorem exists_first_line (hname : Plain name) (hsize : Plain size) (hpriority : Plain priority)
    (hcost : Plain cost) (hnewline : '\n'.toUInt8 ∈ string)
    (htokens : tokenize string = [ascii "acquire", name, size, priority, skipped, cost]) :
    ∃ line rest, string = line ++ '\n'.toUInt8 :: rest ∧ '\n'.toUInt8 ∉ line ∧
      tokenize (stripCarriageReturn line) = [ascii "acquire", name, size, priority] ++
        (if (beforeNewline skipped).isEmpty then [] else [beforeNewline skipped]) ∧
      (tokenize rest).length ≤ 2 := by
  obtain ⟨line, rest, rfl, hline⟩ := List.eq_append_cons_of_mem hnewline
  refine ⟨line, rest, rfl, hline, ?_⟩
  -- the newline is between the two parts of the word that it is in
  obtain ⟨front, word, rfl, hfront, hword⟩ := exists_append_word isBlank line
  obtain ⟨word', back, rfl, hback, hword'⟩ := exists_word_append isBlank rest
  rw [tokenize, tokens_append_cons_append hfront hword (by decide) hword' hback] at htokens
  obtain ⟨hbefore, hskipped, hafter⟩ :=
    eq_of_tokens_newline hname hsize hpriority hcost (by simp) htokens.symm
  have hwordline : ∀ c ∈ word, (c != '\n'.toUInt8) = true := by
    intro c hc
    rw [bne_iff_ne]
    rintro rfl
    exact hline (List.mem_append_right _ hc)
  have hbeforeNewline : beforeNewline skipped = stripCarriageReturn word := by
    rw [beforeNewline, ← hskipped, List.takeWhile_append_of_pos hwordline,
      List.takeWhile_cons_of_neg (by simp), List.append_nil]
  constructor
  · rw [hbeforeNewline, ← hbefore]
    rcases List.eq_nil_or_concat word with rfl | ⟨word, c, rfl⟩
    · -- the line ends with a blank
      have hstrip : stripCarriageReturn front = front := by
        rw [stripCarriageReturn, if_neg]
        intro hreturn
        exact absurd (hfront _ hreturn) (by decide)
      rw [List.append_nil, hstrip]
      exact (List.append_nil _).symm
    · rw [List.concat_eq_append, Client.stripCarriageReturn_append (by simp)]
      refine tokens_append_word hfront fun b hb => hword b ?_
      rw [List.concat_eq_append]
      exact (front_stripCarriageReturn _).subset hb
  · rw [tokenize, tokens_append_of_blank hword' hback, hafter]
    split_ifs <;> simp

/-- What the first line asks for: the command, if the cost is zero and there is no timeout in
    front of the newline. -/
theorem toOption_first_iff {bytes : Bytes} {token : Str} {priority : Int32} (cost : Millis)
    (front : Str) (hname : validName name = true) (hsize : parseSize size = some bytes)
    (hpriority : parsePriority token = some priority) :
    (parseTokens ([ascii "acquire", name, size, token] ++
        if front.isEmpty then [] else [front])).toOption =
      some { type := .acquire, name, bytes, acquireMode := .wait,
             options := { priority, estimatedCost := cost } } ↔
      cost = 0 ∧ (front = [] ∨ parseTimeout front = some Millis.max) := by
  rw [List.cons_append, parseTokens_acquire]
  cases front with
  | nil => simp [parseAcquire, parseOptions, hname, hsize, hpriority, Except.toOption, eq_comm]
  | cons c front =>
    cases htimeout : parseTimeout (c :: front) with
    | none => simp [parseAcquire, parseOptions, hname, hsize, hpriority, htimeout, Except.toOption]
    | some timeout =>
      simp [parseAcquire, parseOptions, hname, hsize, hpriority, htimeout, Except.toOption,
        and_comm, eq_comm]

/-- Lines with few tokens ask for no `acquire`. -/
theorem notMem_commandsOf_of_length {rest : Str} (hrest : (tokenize rest).length ≤ 2)
    (htype : command.type = .acquire) : command ∉ commandsOf (rest.splitOn '\n'.toUInt8) := by
  intro hmem
  obtain ⟨later, hlater, hparse⟩ := exists_of_mem_commandsOf hmem
  have hinfix := (front_stripCarriageReturn later).isInfix.trans (infix_of_mem_splitOn hlater)
  have hlength := le_length_of_acquire hparse htype
  have hle : (tokenize (stripCarriageReturn later)).length ≤ (tokenize rest).length :=
    length_tokens_le hinfix
  omega

/-- No other token has the newline. -/
theorem mem_skipped (hname : Plain name) (hsize : Plain size) (hpriority : Plain priority)
    (hcost : Plain cost)
    (htokens : tokenize string = [ascii "acquire", name, size, priority, skipped, cost])
    (hnewline : '\n'.toUInt8 ∈ string) : '\n'.toUInt8 ∈ skipped := by
  have hverb : Plain (ascii "acquire") := by decide
  obtain ⟨token, htoken, hmem⟩ := exists_token_of_mem hnewline
  rw [htokens] at htoken
  simp only [List.mem_cons, List.not_mem_nil, or_false] at htoken
  rcases htoken with rfl | rfl | rfl | rfl | rfl | rfl
  · exact absurd hmem (hverb.notMem (by decide))
  · exact absurd hmem (hname.notMem (by decide))
  · exact absurd hmem (hsize.notMem (by decide))
  · exact absurd hmem (hpriority.notMem (by decide))
  · exact hmem
  · exact absurd hmem (hcost.notMem (by decide))

/-- Whether an `acquire` with a newline in its timeout arrives. -/
theorem commandsOf_of_skipped {bytes : Bytes} {token token' : Str} {priority : Int32}
    {cost : Millis} (hname : validName name = true) (hsize : parseSize size = some bytes)
    (hpriority : parsePriority token = some priority) (hcost : parseTimeout token' = some cost)
    (htokens : tokenize string = [ascii "acquire", name, size, token, skipped, token'])
    (hnewline : '\n'.toUInt8 ∈ string)
    (hcommand : command = { type := .acquire, name, bytes, acquireMode := .wait,
                            options := { priority, estimatedCost := cost } }) :
    commandsOf (string.splitOn '\n'.toUInt8) = [command] ↔ Arrives string := by
  have hskipped := mem_skipped (plain_of_validName hname) (plain_of_parseSize hsize)
    (plain_of_parsePriority hpriority) (plain_of_parseTimeout hcost) htokens hnewline
  obtain ⟨line, rest, rfl, hline, hfirst, hrest⟩ := exists_first_line (plain_of_validName hname)
    (plain_of_parseSize hsize) (plain_of_parsePriority hpriority) (plain_of_parseTimeout hcost)
    hnewline htokens
  have hparse := toOption_first_iff cost (beforeNewline skipped) hname hsize hpriority
  rw [← hfirst, ← hcommand] at hparse
  have hlater := notMem_commandsOf_of_length hrest (show command.type = .acquire by rw [hcommand])
  have hlines : (line ++ '\n'.toUInt8 :: rest).splitOn '\n'.toUInt8 =
      line :: rest.splitOn '\n'.toUInt8 :=
    List.splitOn_append_cons_self_of_not_mem hline rest
  rw [hlines, commandsOf_cons, Arrives, or_iff_right fun h => h.1 hnewline]
  constructor
  · intro h
    split_ifs at h with hlength
    cases hoption : (parseCommand (stripCarriageReturn line)).toOption with
    | none =>
      rw [hoption, Option.toList_none, List.nil_append] at h
      exact absurd (h ▸ List.mem_singleton_self command) hlater
    | some first =>
      rw [hoption] at h
      obtain ⟨rfl, hnil⟩ := List.cons.inj h
      obtain ⟨rfl, hfront⟩ := hparse.1 hoption
      refine ⟨name, size, token, skipped, token', line, _, htokens, hskipped, hcost, hfront, hlines,
        hlength, fun later hmem command hok => ?_⟩
      have hsome := List.filterMap_eq_nil_iff.1 hnil later hmem
      rw [hok] at hsome
      cases hsome
  · rintro ⟨_, _, _, skipped', _, line', lines, htokens', -, hzero, hfront, hlines', hlength, hreject⟩
    rw [htokens] at htokens'
    simp only [List.cons.injEq, and_true, true_and] at htokens'
    obtain ⟨rfl, rfl, rfl, rfl, rfl⟩ := htokens'
    obtain ⟨rfl, rfl⟩ := List.cons.inj (hlines.symm.trans hlines')
    obtain rfl := Option.some.inj (hcost.symm.trans hzero)
    have hnone : commandsOf (rest.splitOn '\n'.toUInt8) = [] := by
      refine List.filterMap_eq_nil_iff.2 fun later hmem => ?_
      cases hresult : parseCommand (stripCarriageReturn later) with
      | error => rfl
      | ok command' => exact absurd hresult (hreject later hmem command')
    have hoption : (parseCommand (stripCarriageReturn line)).toOption = some command :=
      hparse.2 ⟨rfl, hfront⟩
    rw [if_pos hlength, hoption, hnone]
    rfl

/-! ## The whole client -/

/-- The lines of an accepted string give just its command exactly if it arrives. -/
theorem commandsOf_splitOn_iff (hcommand : parseCommand string = .ok command) :
    commandsOf (string.splitOn '\n'.toUInt8) = [command] ↔ Arrives string := by
  by_cases hnewline : '\n'.toUInt8 ∈ string
  · obtain ⟨token, htoken, hmem⟩ := exists_token_of_mem hnewline
    rcases plain_of_parseTokens hcommand with hplain | ⟨verb, name, last, htokens, hverb, hv, hn, hl⟩ |
      ⟨name, size, _, skipped, _, bytes, priority, cost, htokens, hname, hsize, hpriority, hcost, heq⟩
    · exact absurd hmem ((hplain token htoken).notMem (by decide))
    · refine commandsOf_of_path hverb htokens ?_
      change token ∈ tokenize string at htoken
      rw [htokens] at htoken
      simp only [List.mem_cons, List.not_mem_nil, or_false] at htoken
      rcases htoken with rfl | rfl | rfl | rfl
      · exact absurd hmem (hv.notMem (by decide))
      · exact absurd hmem (hn.notMem (by decide))
      · exact hmem
      · exact absurd hmem (hl.notMem (by decide))
    · exact commandsOf_of_skipped hname hsize hpriority hcost htokens hnewline heq
  · exact commandsOf_of_notMem hcommand hnewline

section Executed

variable {σ : Type*} (dispatch : σ → Command → σ × Str) (record : σ → Bool → σ) (s : σ)

/-- What the daemon executes of what `gpumemctl` has written. -/
theorem executed_sent (path : Str) (hcommand : parseCommand (joinArgs args) = .ok command)
    (hconnects : connection.connects = true) (hwrites : connection.writes = true) :
    executed (Session.processInput dispatch record s
        (main (ascii "--socket" :: path :: args) connection).sent).2.2.1 =
      commandsOf ((joinArgs args).splitOn '\n'.toUInt8) := by
  have hsent : joinArgs args ++ ascii "\n" =
      unlines '\n'.toUInt8 ((joinArgs args).splitOn '\n'.toUInt8) := (unlines_splitOn _).symm
  rw [main_of_parseCommand hcommand, sent_communicate hconnects hwrites, hsent,
    executed_processInput s fun line hline => notMem_of_mem_splitOn hline]

/-- The daemon executes just the command that `gpumemctl` has checked exactly if the string
    that it has made of its arguments arrives. -/
theorem executed_sent_iff (path : Str) (hcommand : parseCommand (joinArgs args) = .ok command)
    (hconnects : connection.connects = true) (hwrites : connection.writes = true) :
    executed (Session.processInput dispatch record s
        (main (ascii "--socket" :: path :: args) connection).sent).2.2.1 = [command] ↔
      Arrives (joinArgs args) := by
  rw [executed_sent dispatch record s path hcommand hconnects hwrites]
  exact commandsOf_splitOn_iff hcommand

end Executed

/-- A session that answers nothing and records nothing. -/
def mute : Unit → Command → Unit × Str := fun _ _ => ((), [])

theorem executed_sent_acquire :
    executed (Session.processInput mute (fun _ _ => ()) ()
        (main (ascii "--socket" :: ascii "broker" :: [ascii "try_acquire", ascii "worker", ascii "5"])
          { chunks := [] }).sent).2.2.1 =
      [{ type := .acquire, name := ascii "worker", bytes := 5, acquireMode := .try,
         options := { priority := 0, timeout := 0 } }] :=
  (executed_sent_iff mute (fun _ _ => ()) () (ascii "broker") (by decide) rfl rfl).2
    (.inl ⟨by decide, by decide⟩)

/-- The endpoint of the node has a newline in it. -/
def injected : List Str := [ascii "node_register", ascii "n", ascii "e\nrelease", ascii "5"]

/-- `gpumemctl` accepts the registration of a node, and the daemon executes a release. -/
theorem executed_sent_injected :
    parseCommand (joinArgs injected) =
        .ok { type := .registerNode, name := ascii "n", path := ascii "e\nrelease", bytes := 5 } ∧
      executed (Session.processInput mute (fun _ _ => ()) ()
          (main (ascii "--socket" :: ascii "broker" :: injected) { chunks := [] }).sent).2.2.1 =
        [{ type := .release, name := ascii "5" }] ∧
      ¬ ∀ args command, parseCommand (joinArgs args) = .ok command →
        executed (Session.processInput mute (fun _ _ => ()) ()
          (main (ascii "--socket" :: ascii "broker" :: args) { chunks := [] }).sent).2.2.1 =
            [command] := by
  have hcommand : parseCommand (joinArgs injected) =
      .ok { type := .registerNode, name := ascii "n", path := ascii "e\nrelease", bytes := 5 } := by
    decide
  have hexecuted : executed (Session.processInput mute (fun _ _ => ()) ()
      (main (ascii "--socket" :: ascii "broker" :: injected) { chunks := [] }).sent).2.2.1 =
        [{ type := .release, name := ascii "5" }] := by
    rw [executed_sent mute (fun _ _ => ()) () (ascii "broker") hcommand rfl rfl]
    decide
  refine ⟨hcommand, hexecuted, fun h => ?_⟩
  have hsame := hexecuted.symm.trans (h injected _ hcommand)
  exact absurd hsame (by decide)

end Ctl

end Gpumemd
