import Gpumemd.Ipc.Session
import Gpumemd.Library.Framing
import Gpumemd.Protocol.Grammar

/-!
# What the client waits for

`Client::request` (`src/client/client.cpp`) writes a command line and reads until it takes
the response to be complete. It tells from the line whether the response will be a
listing (`isMultiline`), in its own way: the daemon skips blanks before the verb and drops
a carriage return at the end of the line, the client does neither. The two agree exactly
on the lines that are not `Misread` (`isMultiline_iff`).
-/

namespace Gpumemd

open Library Protocol

/-- `ClientError`. -/
inductive ClientError
  | none
  | invalidRequest
  | connectionFailed
  | writeFailed
  | readFailed
  | brokerRejected
  deriving DecidableEq

/-- `ClientResponse`. -/
structure ClientResponse where
  error : ClientError
  payload : Str
  deriving DecidableEq

/-- A connection of a client: whether it can be made and written to, and the chunks that
    the reads give before they fail or the stream ends. -/
structure Connection where
  connects : Bool := true
  writes : Bool := true
  chunks : List Str

namespace Client

/-- `is_multiline`. -/
def isMultiline (command : Str) : Bool :=
  let verb := command.takeWhile fun character => !isBlank character
  verb = ascii "status" || verb = ascii "models" || verb = ascii "residency" ||
    verb = ascii "metrics" || verb = ascii "nodes"

/-- The test of the read loop, which `Client::request` and `gpumemctl` share. -/
def responseComplete (multiline : Bool) (response : Str) : Bool :=
  ((ascii "ERR ").isPrefixOf response && response.contains '\n'.toUInt8) ||
    (multiline && (ascii "END\n").isSuffixOf response) ||
    (!multiline && response.contains '\n'.toUInt8)

/-- `Client::request`, and the chunks that it leaves unread. -/
def request (command : Str) (connection : Connection) : ClientResponse × List Str :=
  if command.isEmpty || command.contains '\n'.toUInt8 then
    (⟨.invalidRequest, []⟩, connection.chunks)
  else if !connection.connects then (⟨.connectionFailed, []⟩, connection.chunks)
  else if !connection.writes then (⟨.writeFailed, []⟩, connection.chunks)
  else
    let (response, unread, complete) :=
      readUntil (responseComplete (isMultiline command)) [] connection.chunks
    if !complete then (⟨.readFailed, response⟩, unread)
    else if (ascii "ERR ").isPrefixOf response then (⟨.brokerRejected, response⟩, unread)
    else if !(ascii "OK ").isPrefixOf response then (⟨.readFailed, response⟩, unread)
    else (⟨.none, response⟩, unread)

/-! ## Which commands are listings -/

variable {string word rest : Str} {command : Command}

theorem isMultiline_eq_true_iff :
    isMultiline string = true ↔ (string.takeWhile fun c => !isBlank c) ∈ listingVerbs := by
  simp [isMultiline, listingVerbs, listingCommands, or_assoc]

/-- The client does not see which command the string is: its first word is the verb of a
    listing, but it starts with a blank, or it is the verb and a carriage return. -/
def Misread (string : Str) : Prop :=
  ∃ verb ∈ listingVerbs, (tokenize (stripCarriageReturn string)).head? = some verb ∧
    (string.head?.any isBlank = true ∨ string = verb ++ ascii "\r")

/-- A string that does not start with a blank is a word, or starts with a word and a
    blank. -/
theorem word_cases (hstring : string.head?.any isBlank = false) :
    (∀ c ∈ string, isBlank c = false) ∨
      ∃ word b rest, string = word ++ b :: rest ∧ (∀ c ∈ word, isBlank c = false) ∧
        word ≠ [] ∧ isBlank b = true := by
  have hword : ∀ c ∈ string.takeWhile fun c => !isBlank c, isBlank c = false := fun c hc => by
    simpa using List.mem_takeWhile_imp hc
  have happend := List.takeWhile_append_dropWhile (p := fun c => !isBlank c) (l := string)
  cases hrest : string.dropWhile fun c => !isBlank c with
  | nil =>
    rw [hrest, List.append_nil] at happend
    exact .inl (happend ▸ hword)
  | cons b rest =>
    have hb : isBlank b = true := by
      have hhead := List.head?_dropWhile_not (fun c => !isBlank c) string
      rw [hrest] at hhead
      simpa using hhead
    refine .inr ⟨_, b, rest, (hrest ▸ happend).symm, hword, fun hnil => ?_, hb⟩
    rw [hnil, hrest, List.nil_append] at happend
    rw [← happend] at hstring
    simp [hb] at hstring

theorem takeWhile_of_word (hword : ∀ c ∈ string, isBlank c = false) :
    (string.takeWhile fun c => !isBlank c) = string := by
  rw [List.takeWhile_eq_self_iff]
  intro c hc
  rw [hword c hc]
  rfl

theorem stripCarriageReturn_append (hstring : string ≠ []) :
    stripCarriageReturn (word ++ string) = word ++ stripCarriageReturn string := by
  rw [stripCarriageReturn, stripCarriageReturn, List.getLast?_append_of_ne_nil _ hstring]
  split_ifs
  · exact List.dropLast_append_of_ne_nil hstring
  · rfl

theorem stripCarriageReturn_cons {b : UInt8} (hb : isBlank b = true) :
    stripCarriageReturn (b :: rest) = b :: stripCarriageReturn rest := by
  cases rest with
  | nil =>
    have hne : [b].getLast? ≠ some '\r'.toUInt8 := by
      rintro h
      obtain rfl := Option.some.inj h
      exact absurd hb (by decide)
    rw [stripCarriageReturn, if_neg hne]
    rfl
  | cons c rest =>
    have happend : stripCarriageReturn ([b] ++ c :: rest) = [b] ++ stripCarriageReturn (c :: rest) :=
      stripCarriageReturn_append (List.cons_ne_nil c rest)
    exact happend

theorem verb_of_word {verb : Str} {args : List Str} (hword : ∀ c ∈ word, isBlank c = false)
    (htokens : tokenize word = verb :: args) : verb = word := by
  have hne : word ≠ [] := by
    rintro rfl
    cases htokens
  rw [tokenize, tokens_of_word hword hne] at htokens
  exact (List.cons.inj htokens).1.symm

/-- What the client takes for the verb of a string that does not start with a blank: its
    verb, unless the string is the verb and a carriage return. -/
theorem verb_cases {verb : Str} {args : List Str} (hblank : string.head?.any isBlank = false)
    (htokens : tokenize (stripCarriageReturn string) = verb :: args) :
    (string.takeWhile fun c => !isBlank c) = verb ∧ string ≠ verb ++ ascii "\r" ∨
      (string.takeWhile fun c => !isBlank c) = string ∧ string = verb ++ ascii "\r" := by
  rcases word_cases hblank with hword | ⟨word, b, rest, rfl, hword, hne, hb⟩
  · rw [takeWhile_of_word hword]
    by_cases hreturn : string.getLast? = some '\r'.toUInt8
    · obtain ⟨front, rfl⟩ := List.getLast?_eq_some_iff.1 hreturn
      rw [stripCarriageReturn, if_pos hreturn, List.dropLast_concat] at htokens
      obtain rfl := verb_of_word (fun c hc => hword c (List.mem_append_left _ hc)) htokens
      exact .inr ⟨rfl, rfl⟩
    · rw [stripCarriageReturn, if_neg hreturn] at htokens
      obtain rfl := verb_of_word hword htokens
      refine .inl ⟨rfl, fun heq => hreturn ?_⟩
      rw [heq]
      exact List.getLast?_concat
  · -- the first word is the verb
    rw [stripCarriageReturn_append (List.cons_ne_nil b rest), stripCarriageReturn_cons hb,
      tokenize, tokens_append_cons hword hne hb] at htokens
    obtain ⟨rfl, -⟩ := List.cons.inj htokens
    refine .inl ⟨?_, fun heq => ?_⟩
    · rw [List.takeWhile_append_of_pos fun c hc => by rw [hword c hc]; rfl,
        List.takeWhile_cons_of_neg (by simp [hb]), List.append_nil]
    · -- a carriage return is no blank
      obtain ⟨rfl, -⟩ := List.cons.inj (List.append_cancel_left heq)
      exact absurd hb (by decide)

theorem misread_iff {verb : Str} {args : List Str}
    (htokens : tokenize (stripCarriageReturn string) = verb :: args) :
    Misread string ↔
      verb ∈ listingVerbs ∧ (string.head?.any isBlank = true ∨ string = verb ++ ascii "\r") := by
  simp only [Misread, htokens, List.head?_cons, Option.some.injEq]
  constructor
  · rintro ⟨_, hverb, rfl, hkind⟩
    exact ⟨hverb, hkind⟩
  · rintro ⟨hverb, hkind⟩
    exact ⟨verb, hverb, rfl, hkind⟩

/-- The client tells listings from other commands, as the daemon does, exactly on the
    strings that it does not misread. -/
theorem isMultiline_iff (hcommand : parseCommand (stripCarriageReturn string) = .ok command) :
    (isMultiline string = true ↔ command.type.isListing = true) ↔ ¬ Misread string := by
  rw [parseCommand] at hcommand
  obtain ⟨verb, args, htokens, -⟩ := parses_of_parseTokens hcommand
  rw [htokens] at hcommand
  rw [isListing_iff hcommand, isMultiline_eq_true_iff, misread_iff htokens]
  cases hblank : string.head?.any isBlank with
  | true =>
    -- the client sees an empty verb
    have hempty : (string.takeWhile fun c => !isBlank c) = [] := by
      cases string with
      | nil => rfl
      | cons c string => simpa using hblank
    have hnot : ([] : Str) ∉ listingVerbs := by decide
    simp [hempty, hnot]
  | false =>
    rcases verb_cases hblank htokens with ⟨hverb, hne⟩ | ⟨hsame, hreturn⟩
    · simp [hverb, hne]
    · -- the verb as the client sees it has the carriage return
      have hnot : verb ++ ascii "\r" ∉ listingVerbs := fun hmem =>
        (plain_of_mem_listingVerbs hmem).notMem (c := '\r'.toUInt8) (by decide)
          (List.mem_append_right _ (List.mem_singleton_self _))
      rw [hsame, hreturn]
      simp [hnot]

/-- The client takes ` status` for a command with a line as its response, and so it does
    with `status` and a carriage return. -/
theorem isMultiline_status :
    parseCommand (stripCarriageReturn (ascii " status")) = .ok { type := .status } ∧
      isMultiline (ascii " status") = false ∧
      parseCommand (stripCarriageReturn (ascii "status\r")) = .ok { type := .status } ∧
      isMultiline (ascii "status\r") = false ∧
      ¬ ∀ string command, string ≠ [] → '\n'.toUInt8 ∉ string →
        parseCommand (stripCarriageReturn string) = .ok command →
        (isMultiline string = true ↔ command.type.isListing = true) := by
  refine ⟨by decide, by decide, by decide, by decide, fun h => ?_⟩
  exact absurd ((h (ascii " status") { type := .status } (by decide) (by decide) (by decide)).2 rfl)
    (by decide)

theorem isMultiline_status_iff :
    (isMultiline (ascii "status\t") = true ↔ CommandType.status.isListing = true) ↔
      ¬ Misread (ascii "status\t") := by
  have hcommand : parseCommand (stripCarriageReturn (ascii "status\t")) =
      .ok { type := .status } := by decide
  exact isMultiline_iff hcommand

end Client

end Gpumemd
