import Gpumemd.Client.Ctl
import Gpumemd.Ipc.Responses

/-!
# Where the clients stop reading

Both clients read until what they have read passes the same test, in which an error and a
response of one line are complete at the first newline and a listing is at `END`. They
differ in what they take for a listing.

* `Client::request` reads the response to any command but `models` to its end, however it
  is split (`request_of_responds`).
* It reads a listing of models to its end, however it is split, exactly if no path of a
  model ends with `END` (`request_models_iff`).
* `gpumemctl` does not take `nodes` for a listing, and stops at the first chunk with a
  newline (`Ctl.main_whole_iff`).
-/

namespace Gpumemd

open Library Protocol

variable {type : CommandType} {text front header : Str} {rows : List Str} {multiline : Bool}
  {chunks : List Str}

namespace Client

/-! ## The test -/

theorem responseComplete_iff :
    responseComplete multiline text = true ↔
      (ascii "ERR " <+: text ∧ '\n'.toUInt8 ∈ text) ∨
        (multiline = true ∧ ascii "END\n" <:+ text) ∨
        (multiline = false ∧ '\n'.toUInt8 ∈ text) := by
  simp [responseComplete, or_assoc]

theorem responseComplete_false_iff : responseComplete false text = true ↔ '\n'.toUInt8 ∈ text := by
  rw [responseComplete_iff]
  simp

/-- Nothing is complete before its first newline. -/
theorem responseComplete_of_notMem (h : '\n'.toUInt8 ∉ text) :
    responseComplete multiline text = false := by
  rw [Bool.eq_false_iff, Ne, responseComplete_iff]
  rintro (⟨-, hmem⟩ | ⟨-, hend⟩ | ⟨-, hmem⟩)
  · exact h hmem
  · exact h (hend.subset (by decide))
  · exact h hmem

theorem notMem_of_isLine (h : IsLine text) (hfront : front <+: text) (hne : front ≠ text) :
    '\n'.toUInt8 ∉ front := by
  obtain ⟨line, rfl, hline⟩ := eq_append_of_isLine h
  rcases List.prefix_concat_iff.1 hfront with heq | hfront
  · exact absurd heq hne
  · exact fun hmem => hline (hfront.subset hmem)

/-- The test passes at the end of a text, and not before. -/
structure Ends (multiline : Bool) (text : Str) : Prop where
  complete : responseComplete multiline text = true
  before : ∀ front, front <+: text → front ≠ [] → front ≠ text →
    responseComplete multiline front = false

theorem Ends.ne_nil (h : Ends multiline text) : text ≠ [] := by
  rintro rfl
  exact absurd h.complete (by cases multiline <;> decide)

/-- The read loop reads a text to its end, however it is split, exactly if the test passes
    at its end and not before. -/
theorem ends_iff (hne : text ≠ []) :
    Ends multiline text ↔ ∀ chunks : List Str, (∀ chunk ∈ chunks, chunk ≠ []) →
      chunks.flatten = text → readUntil (responseComplete multiline) [] chunks = (text, [], true) := by
  rw [forall_readUntil_iff hne]
  exact ⟨fun h => ⟨h.complete, h.before⟩, fun h => ⟨h.1, h.2⟩⟩

theorem Ends.readUntil (h : Ends multiline text) (hchunks : ∀ chunk ∈ chunks, chunk ≠ [])
    (hflatten : chunks.flatten = text) :
    readUntil (responseComplete multiline) [] chunks = (text, [], true) :=
  (ends_iff h.ne_nil).1 h chunks hchunks hflatten

theorem ends_of_isLine (h : IsLine text) (hkind : ascii "ERR " <+: text ∨ multiline = false) :
    Ends multiline text := by
  refine ⟨responseComplete_iff.2 ?_, fun front hfront _ hne =>
    responseComplete_of_notMem (notMem_of_isLine h hfront hne)⟩
  have hmem : '\n'.toUInt8 ∈ text := List.mem_of_getLast? h.1
  rcases hkind with herror | hmultiline
  · exact .inl ⟨herror, hmem⟩
  · exact .inr (.inr ⟨hmultiline, hmem⟩)

/-! ## Listings -/

/-- What starts as a success does not start as an error. -/
theorem not_error_of_ok (hok : ascii "OK " <+: text) (hfront : front <+: text) :
    ¬ ascii "ERR " <+: front := by
  intro herror
  rcases List.prefix_or_prefix_of_prefix hok (herror.trans hfront) with h | h
  · exact absurd h (by decide)
  · exact absurd h (by decide)

theorem ok_prefix_listing (header : Str) (rows : List Str) :
    ascii "OK " <+: unlines '\n'.toUInt8 ((ascii "OK " ++ header) :: rows) := by
  rw [unlines_cons, List.append_assoc, List.append_assoc]
  exact List.prefix_append _ _

theorem terminator_append : ascii "END\n" = terminator ++ ['\n'.toUInt8] := by decide

/-- In a listing, the test passes at what looks like the terminator. -/
theorem responseComplete_listing (hok : ascii "OK " <+: text) (hfront : front <+: text) :
    responseComplete true front = true ↔ terminator ++ ['\n'.toUInt8] <:+ front := by
  rw [responseComplete_iff, ← terminator_append]
  simp [not_error_of_ok hok hfront]

/-- The test passes at the end of a listing and not before exactly if no row ends with the
    terminator. -/
theorem ends_listing_iff (hrows : ∀ row ∈ (ascii "OK " ++ header) :: rows, '\n'.toUInt8 ∉ row) :
    Ends true (unlines '\n'.toUInt8 ((ascii "OK " ++ header) :: rows ++ [terminator])) ↔
      ∀ row ∈ (ascii "OK " ++ header) :: rows, ¬ terminator <:+ row := by
  have hok := ok_prefix_listing header (rows ++ [terminator])
  rw [← List.cons_append] at hok
  have hnewline : '\n'.toUInt8 ∉ terminator := by decide
  rw [← terminated_iff hrows hnewline]
  constructor
  · intro h front hfront hend
    by_contra hne
    have hcomplete := (responseComplete_listing hok hfront).2 hend
    rw [h.before front hfront (fun hnil => by simp [hnil] at hend) hne] at hcomplete
    cases hcomplete
  · intro h
    refine ⟨(responseComplete_listing hok (List.prefix_refl _)).2 ?_, fun front hfront _ hne => ?_⟩
    · rw [unlines_append, show unlines '\n'.toUInt8 [terminator] = terminator ++ ['\n'.toUInt8] by
        simp [unlines]]
      exact List.suffix_append _ _
    · rw [Bool.eq_false_iff]
      exact fun hcomplete => hne (h front hfront ((responseComplete_listing hok hfront).1 hcomplete))

/-- The client that takes just the listings for listings finds the end of the responses. -/
theorem ends_of_framed (h : Framed type text) (htype : type ≠ .models) :
    Ends type.isListing text := by
  cases h with
  | error hline herror => exact ends_of_isLine hline (.inl herror)
  | line hlisting hline _ => exact ends_of_isLine hline (.inr hlisting)
  | listing hlisting hrows hend =>
    rw [hlisting]
    exact (ends_listing_iff hrows).2 (hend htype)

/-! ## The library -/

section Request

variable {s : Server} {command : Command} {line response : Str}

theorem request_of_chunks (hne : line ≠ []) (hnewline : '\n'.toUInt8 ∉ line) :
    request line { chunks } =
      match readUntil (responseComplete (isMultiline line)) [] chunks with
      | (response, unread, complete) =>
        if !complete then (⟨.readFailed, response⟩, unread)
        else if (ascii "ERR ").isPrefixOf response then (⟨.brokerRejected, response⟩, unread)
        else if !(ascii "OK ").isPrefixOf response then (⟨.readFailed, response⟩, unread)
        else (⟨.none, response⟩, unread) := by
  rw [request, if_neg (by simp [hne, hnewline]), if_neg (by simp), if_neg (by simp)]

/-- A success is returned as a whole exactly if the read loop reads it to its end. -/
theorem request_eq_iff (hne : line ≠ []) (hnewline : '\n'.toUInt8 ∉ line)
    (hok : ascii "OK " <+: text) :
    request line { chunks } = (⟨.none, text⟩, []) ↔
      readUntil (responseComplete (isMultiline line)) [] chunks = (text, [], true) := by
  have hnot : ¬ ascii "ERR " <+: text := not_error_of_ok hok (List.prefix_refl text)
  rw [request_of_chunks hne hnewline]
  generalize readUntil (responseComplete (isMultiline line)) [] chunks = reading
  obtain ⟨response, unread, complete⟩ := reading
  constructor
  · intro h
    dsimp only at h
    split_ifs at h with hcomplete herror hkind
    · cases h
    · cases h
    · cases h
    · obtain ⟨rfl, rfl⟩ : response = text ∧ unread = [] := by simpa using h
      rw [Bool.not_eq_true, Bool.not_eq_false'] at hcomplete
      rw [hcomplete]
  · rintro h
    obtain ⟨rfl, rfl, rfl⟩ : response = text ∧ unread = [] ∧ complete = true := by simpa using h
    simp [hok, hnot]

theorem request_error (hne : line ≠ []) (hnewline : '\n'.toUInt8 ∉ line)
    (herror : ascii "ERR " <+: text)
    (hread : readUntil (responseComplete (isMultiline line)) [] chunks = (text, [], true)) :
    request line { chunks } = (⟨.brokerRejected, text⟩, []) := by
  rw [request_of_chunks hne hnewline, hread]
  simp [herror]

theorem request_eq (hne : line ≠ []) (hnewline : '\n'.toUInt8 ∉ line)
    (hread : readUntil (responseComplete (isMultiline line)) [] chunks = (text, [], true))
    (hframed : Framed type text) :
    request line { chunks } =
      (⟨if (ascii "OK ").isPrefixOf text then .none else .brokerRejected, text⟩, []) := by
  by_cases hok : ascii "OK " <+: text
  · rw [if_pos (List.isPrefixOf_iff_prefix.2 hok)]
    exact (request_eq_iff hne hnewline hok).2 hread
  · rw [if_neg (fun h => hok (List.isPrefixOf_iff_prefix.1 h))]
    refine request_error hne hnewline ?_ hread
    cases hframed with
    | error _ herror => exact herror
    | line _ _ hfront => exact absurd hfront hok
    | listing => exact absurd (ok_prefix_listing _ _) hok

/-- An accepted line that starts with its verb is not misread. -/
theorem isMultiline_of_parseCommand (hcommand : parseCommand line = .ok command)
    (hblank : line.head?.any isBlank = false) : isMultiline line = command.type.isListing := by
  have hstrip := Ctl.stripCarriageReturn_of_parseCommand hcommand
  rw [parseCommand] at hcommand
  obtain ⟨verb, args, htokens, -⟩ := parses_of_parseTokens hcommand
  have hlisting := isListing_iff (htokens ▸ hcommand)
  rcases verb_cases hblank (hstrip.symm ▸ htokens) with ⟨hverb, -⟩ | ⟨-, hreturn⟩
  · rw [Bool.eq_iff_iff, isMultiline_eq_true_iff, hverb, hlisting]
  · -- a carriage return at the end would have been dropped
    rw [stripCarriageReturn, if_pos (by rw [hreturn]; exact List.getLast?_concat)] at hstrip
    have hlength := congrArg List.length hstrip
    rw [List.length_dropLast, hreturn, List.length_append] at hlength
    simp [ascii] at hlength

/-- `Client::request` returns the whole response to any command but `models`, however it is
    split. -/
theorem request_of_responds (h : Server.machine.Reachable s) (hnewline : '\n'.toUInt8 ∉ line)
    (hblank : line.head?.any isBlank = false) (hcommand : parseCommand line = .ok command)
    (htype : command.type ≠ .models) (hresponds : s.Responds command response)
    (hchunks : ∀ chunk ∈ chunks, chunk ≠ []) (hflatten : chunks.flatten = response) :
    request line { chunks } =
        (⟨if (ascii "OK ").isPrefixOf response then .none else .brokerRejected, response⟩, []) ∧
      (command.type.isListing = false ∨ ¬ ascii "OK " <+: response → IsLine response) ∧
      (command.type.isListing = true → ascii "OK " <+: response →
        ∀ front, front <+: response → ascii "END\n" <:+ front → front = response) := by
  have hframed := Server.framed_of_responds h ⟨line, hcommand⟩ hresponds
  have hends := ends_of_framed hframed htype
  refine ⟨request_eq ?_ hnewline ?_ hframed, ?_, ?_⟩
  · rintro rfl
    cases hcommand
  · rw [isMultiline_of_parseCommand hcommand hblank]
    exact hends.readUntil hchunks hflatten
  · rintro hkind
    cases hframed with
    | error hline _ => exact hline
    | line _ hline _ => exact hline
    | listing hlisting =>
      rcases hkind with hline | hnot
      · rw [hlisting] at hline
        cases hline
      · exact absurd (ok_prefix_listing _ _) hnot
  · intro hlisting hok front hfront hend
    by_contra hne
    rw [hlisting] at hends
    have hbefore := hends.before front hfront (fun hnil => by simp [hnil, ascii] at hend) hne
    have hcomplete : responseComplete true front = true :=
      responseComplete_iff.2 (.inr (.inl ⟨rfl, hend⟩))
    rw [hbefore] at hcomplete
    cases hcomplete

end Request

theorem request_status :
    request (ascii "status") { chunks := [ascii "OK status 100 ", ascii "0 100 0\nEND\n"] } =
        (⟨.none, ascii "OK status 100 0 100 0\nEND\n"⟩, []) ∧
      ∀ front, front <+: ascii "OK status 100 0 100 0\nEND\n" → ascii "END\n" <:+ front →
        front = ascii "OK status 100 0 100 0\nEND\n" := by
  have hresponds : Server.idle.Responds { type := .status }
      (ascii "OK status 100 0 100 0\nEND\n") := by
    have hanswer : Server.idle.broker.answer { type := .status } =
        some (Server.idle.broker, ascii "OK status 100 0 100 0\nEND\n") :=
      congrArg (fun text => some (Server.idle.broker, text)) (by decide)
    exact Server.responds_of_answer rfl hanswer
  have hcommand : parseCommand (ascii "status") = .ok { type := .status } := by decide
  have hchunks : [ascii "OK status 100 ", ascii "0 100 0\nEND\n"].flatten =
      ascii "OK status 100 0 100 0\nEND\n" := by decide
  obtain ⟨hrequest, -, hend⟩ := request_of_responds (.init Server.init_idle) (by decide)
    (by decide) hcommand (by decide) hresponds (by decide) hchunks
  exact ⟨hrequest, hend rfl (by decide)⟩

/-! ## The listing of models -/

/-- Only a path that ends with the terminator makes a row of a model that does. -/
theorem terminator_modelRow_iff (model : ModelRecord) :
    terminator <:+ modelRow model ↔ terminator <:+ model.sourcePath := by
  have hblank : ascii " " = [' '.toUInt8] := by decide
  have hnot : ' '.toUInt8 ∉ terminator := by decide
  rw [modelRow]
  cases hpath : model.sourcePath with
  | nil =>
    simp only [List.isEmpty_nil, Bool.not_true, Bool.false_eq_true, if_false, List.append_nil]
    exact ⟨fun h => absurd h (not_terminator_numeral _), fun h => absurd h (by decide)⟩
  | cons c path =>
    simp only [List.isEmpty_cons, Bool.not_false, if_true]
    rw [hblank, List.singleton_append, suffix_append_cons_iff hnot]

theorem not_terminator_modelsHeader (snapshot : List ModelRecord) :
    ¬ terminator <:+ modelsHeader snapshot := by
  rw [modelsHeader, ← List.append_assoc]
  exact not_terminator_numeral _

theorem ends_formatModels_iff {snapshot : List ModelRecord}
    (hmodels : ∀ model ∈ snapshot, '\n'.toUInt8 ∉ model.id ∧ '\n'.toUInt8 ∉ model.metadata ∧
      '\n'.toUInt8 ∉ model.sourcePath) :
    Ends true (formatModels snapshot) ↔
      ∀ model ∈ snapshot, ¬ ascii "END" <:+ model.sourcePath := by
  have hrows := notMem_modelRows hmodels
  have hends : Ends true (formatModels snapshot) ↔
      ∀ row ∈ modelsHeader snapshot :: snapshot.map modelRow, ¬ terminator <:+ row := by
    rw [formatModels_eq]
    exact ends_listing_iff hrows
  rw [hends, List.forall_mem_cons, and_iff_right (not_terminator_modelsHeader snapshot),
    List.forall_mem_map]
  exact forall₂_congr fun model _ => not_congr (terminator_modelRow_iff model)

variable {s : Server}

/-- `Client::request` returns the whole listing of models, however it is split, exactly if
    no path of a model ends with the terminator. -/
theorem request_models_iff (h : Server.machine.Reachable s) :
    (∀ chunks : List Str, (∀ chunk ∈ chunks, chunk ≠ []) →
        chunks.flatten = formatModels s.broker.daemon.registry.modelSnapshot →
        request (ascii "models") { chunks } =
          (⟨.none, formatModels s.broker.daemon.registry.modelSnapshot⟩, [])) ↔
      ∀ model ∈ s.broker.daemon.registry.modelSnapshot, ¬ ascii "END" <:+ model.sourcePath := by
  have hmodels := fun model (hmodel : model ∈ s.broker.daemon.registry.modelSnapshot) =>
    Broker.notMem_of_mem_modelSnapshot (Server.reachable_daemon h) hmodel
  generalize s.broker.daemon.registry.modelSnapshot = snapshot at hmodels ⊢
  have hok : ascii "OK " <+: formatModels snapshot := by
    rw [formatModels_eq]
    exact ok_prefix_listing _ _
  have hne : formatModels snapshot ≠ [] := fun hnil => by
    rw [hnil] at hok
    exact absurd hok (by decide)
  have hmultiline : isMultiline (ascii "models") = true := by decide
  rw [← ends_formatModels_iff hmodels, ends_iff hne]
  refine forall_congr' fun chunks => imp_congr_right fun _ => imp_congr_right fun _ => ?_
  rw [request_eq_iff (by decide) (by decide) hok, hmultiline]

theorem request_models_idle :
    request (ascii "models") { chunks := [ascii "OK models 0\nE", ascii "ND\n"] } =
      (⟨.none, formatModels Server.idle.broker.daemon.registry.modelSnapshot⟩, []) :=
  (request_models_iff (.init Server.init_idle)).2 (by decide)
    [ascii "OK models 0\nE", ascii "ND\n"] (by decide) (by decide)

/-- A worker registers a file whose path ends with the terminator. -/
def registering : List Server.Action :=
  [.accept, .work 0 .check, .work 0 (.receive (ascii "register_file m /BACKEND x\n")),
    .work 0 .cut, .work 0 (.execute { fileSize := some 5 })]

/-- The server after that. -/
def registered : Server :=
  (registering.foldlM Server.perform Server.idle).getD Server.idle

theorem registered_reachable : Server.machine.Reachable registered :=
  Server.reachable_getD _

/-- The client takes the row of the model for the end of the listing. -/
theorem request_models_registered :
    Server.machine.Reachable registered ∧
      [ascii "OK models 1\nMODEL m x 5 0 0 /BACKEND\n", ascii "END\n"].flatten =
        formatModels registered.broker.daemon.registry.modelSnapshot ∧
      request (ascii "models")
          { chunks := [ascii "OK models 1\nMODEL m x 5 0 0 /BACKEND\n", ascii "END\n"] } =
        (⟨.none, ascii "OK models 1\nMODEL m x 5 0 0 /BACKEND\n"⟩, [ascii "END\n"]) ∧
      ¬ ∀ s, Server.machine.Reachable s → ∀ chunks : List Str, (∀ chunk ∈ chunks, chunk ≠ []) →
        chunks.flatten = formatModels s.broker.daemon.registry.modelSnapshot →
        request (ascii "models") { chunks } =
          (⟨.none, formatModels s.broker.daemon.registry.modelSnapshot⟩, []) := by
  have hflatten : [ascii "OK models 1\nMODEL m x 5 0 0 /BACKEND\n", ascii "END\n"].flatten =
      formatModels registered.broker.daemon.registry.modelSnapshot := by decide
  have hrequest : request (ascii "models")
      { chunks := [ascii "OK models 1\nMODEL m x 5 0 0 /BACKEND\n", ascii "END\n"] } =
        (⟨.none, ascii "OK models 1\nMODEL m x 5 0 0 /BACKEND\n"⟩, [ascii "END\n"]) := by decide
  refine ⟨registered_reachable, hflatten, hrequest, fun h => ?_⟩
  have hwhole := hrequest.symm.trans (h registered registered_reachable _ (by decide) hflatten)
  exact absurd (congrArg Prod.snd hwhole) (by decide)

end Client

/-! ## The command line -/

namespace Ctl

variable {s : Server} {command : Command} {args : List Str} {path string response : Str}

theorem communicate_iff :
    ((communicate path string command { chunks }).output = text ∧
        (communicate path string command { chunks }).errors = [] ∧
        (communicate path string command { chunks }).unread = []) ↔
      readUntil (Client.responseComplete (isMultiline command.type)) [] chunks =
        (text, [], true) := by
  rw [communicate, if_neg (by simp), if_neg (by simp)]
  generalize readUntil (Client.responseComplete (isMultiline command.type)) [] chunks = reading
  obtain ⟨response, unread, complete⟩ := reading
  dsimp only
  cases complete with
  | true => simp
  | false => simp [ascii]

/-- `gpumemctl` takes the listings for listings, but for that of nodes. -/
theorem isMultiline_of_ne_nodes (h : type ≠ .nodes) : isMultiline type = type.isListing := by
  cases type <;> first | rfl | exact absurd rfl h

/-- `gpumemctl` reads the response to any command but `models` to its end, and prints it,
    exactly if the command is not `nodes` or only the last chunk has a newline. -/
theorem main_whole_iff (h : Server.machine.Reachable s)
    (hcommand : parseCommand (joinArgs args) = .ok command) (htype : command.type ≠ .models)
    (hresponds : s.Responds command response) (path : Str)
    (hchunks : ∀ chunk ∈ chunks, chunk ≠ []) (hflatten : chunks.flatten = response) :
    ((main (ascii "--socket" :: path :: args) { chunks }).output = response ∧
        (main (ascii "--socket" :: path :: args) { chunks }).errors = [] ∧
        (main (ascii "--socket" :: path :: args) { chunks }).unread = []) ↔
      command.type ≠ .nodes ∨ '\n'.toUInt8 ∉ chunks.dropLast.flatten := by
  have hframed := Server.framed_of_responds h ⟨_, hcommand⟩ hresponds
  have hends := Client.ends_of_framed hframed htype
  rw [main_of_parseCommand hcommand, communicate_iff]
  by_cases hnodes : command.type = .nodes
  · -- the nodes are read as a line
    have hmultiline : isMultiline command.type = false := by rw [hnodes]; rfl
    have hmem : '\n'.toUInt8 ∈ response := by
      by_contra hnot
      have hcomplete := hends.complete
      rw [Client.responseComplete_of_notMem hnot] at hcomplete
      cases hcomplete
    rw [hmultiline, ← hflatten,
      readUntil_separator_iff fun _ => Client.responseComplete_false_iff, hflatten,
      and_iff_right hmem, or_iff_right (not_not.2 hnodes)]
  · rw [isMultiline_of_ne_nodes hnodes]
    exact iff_of_true (hends.readUntil hchunks hflatten) (.inl hnodes)

/-- An idle server has no nodes to list. -/
theorem responds_nodes : Server.idle.Responds { type := .nodes } (ascii "OK nodes 0\nEND\n") := by
  have hanswer : Server.idle.broker.answer { type := .nodes } =
      some (Server.idle.broker, ascii "OK nodes 0\nEND\n") :=
    congrArg (fun text => some (Server.idle.broker, text)) (by decide)
  exact Server.responds_of_answer rfl hanswer

theorem main_whole_nodes :
    (main [ascii "--socket", ascii "broker", ascii "nodes"]
        { chunks := [ascii "OK nodes", ascii " 0\nEND\n"] }).output = ascii "OK nodes 0\nEND\n" := by
  have hcommand : parseCommand (joinArgs [ascii "nodes"]) = .ok { type := .nodes } := by decide
  have hchunks : [ascii "OK nodes", ascii " 0\nEND\n"].flatten = ascii "OK nodes 0\nEND\n" := by
    decide
  have hwhole := main_whole_iff (.init Server.init_idle) hcommand (by decide) responds_nodes
    (ascii "broker") (by decide) hchunks
  exact (hwhole.2 (.inr (by decide))).1

/-- `gpumemctl` prints the first row of the listing of nodes, and ends with success. -/
theorem main_truncated_nodes :
    Server.idle.Responds { type := .nodes } (ascii "OK nodes 0\nEND\n") ∧
      main [ascii "--socket", ascii "broker", ascii "nodes"]
          { chunks := [ascii "OK nodes 0\n", ascii "END\n"] } =
        { code := 0, output := ascii "OK nodes 0\n", sent := ascii "nodes\n",
          unread := [ascii "END\n"] } ∧
      ¬ ∀ s, Server.machine.Reachable s → ∀ args command response path,
        parseCommand (joinArgs args) = .ok command → command.type ≠ .models →
        s.Responds command response → ∀ chunks : List Str, (∀ chunk ∈ chunks, chunk ≠ []) →
        chunks.flatten = response →
        (main (ascii "--socket" :: path :: args) { chunks }).output = response ∧
          (main (ascii "--socket" :: path :: args) { chunks }).errors = [] ∧
          (main (ascii "--socket" :: path :: args) { chunks }).unread = [] := by
  have hmain : main [ascii "--socket", ascii "broker", ascii "nodes"]
      { chunks := [ascii "OK nodes 0\n", ascii "END\n"] } =
        { code := 0, output := ascii "OK nodes 0\n", sent := ascii "nodes\n",
          unread := [ascii "END\n"] } := by decide
  refine ⟨responds_nodes, hmain, fun h => ?_⟩
  have hwhole := h Server.idle (.init Server.init_idle) [ascii "nodes"] { type := .nodes } _
    (ascii "broker") (by decide) (by decide) responds_nodes
    [ascii "OK nodes 0\n", ascii "END\n"] (by decide) (by decide)
  rw [hmain] at hwhole
  exact absurd hwhole.2.2 (by decide)

end Ctl

end Gpumemd
