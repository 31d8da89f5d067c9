import Gpumemd.Client.Acquire
import Gpumemd.Protocol.Grammar

/-!
# The names in the lines of the client

The methods of `Client` (`src/client/client.cpp`) paste the name that they are given into
their command line. The daemon cuts the line at its blanks, so it reads the words of the
name, whatever their number, and then the fields of the method (`tokenize_line`). A name that
is not one word is never read as it was given (`of_parseCommand_line`). The methods that
write a fixed number of fields are refused then, unless the name is a word with blanks around
it. But the number of the fields of an `acquire` is not fixed, so the words of a name may
push these on (`parseCommand_pushed`).
-/

namespace Gpumemd

open Library Protocol

namespace Client

/-- The line of a verb and what is given as a name. -/
def named (verb name : Str) : Str := verb ++ ascii " " ++ name

/-- `Client::try_acquire`: the line that it passes to `request`. -/
def tryAcquire (name : Str) (bytes : Bytes) : Str :=
  named (ascii "try_acquire") name ++ ascii " " ++ numeral bytes.toNat

/-- `Client::release`. -/
def release (name : Str) : Str := named (ascii "release") name

/-- `Client::load`. -/
def load (name : Str) : Str := named (ascii "load") name

/-- `Client::unload`. -/
def unload (name : Str) : Str := named (ascii "unload") name

/-- `Client::share`. -/
def share (name : Str) : Str := named (ascii "share") name

/-- A call of a method, but for the name. -/
inductive Call
  | acquire (bytes : Bytes) (options : AcquireOptions)
  | tryAcquire (bytes : Bytes)
  | release
  | load
  | unload
  | share

namespace Call

/-- The line that the method passes to `request`. -/
def line (name : Str) : Call → Str
  | acquire bytes options => Client.acquire name bytes options
  | tryAcquire bytes => Client.tryAcquire name bytes
  | release => Client.release name
  | load => Client.load name
  | unload => Client.unload name
  | share => Client.share name

def verb : Call → Str
  | acquire .. => ascii "acquire"
  | tryAcquire _ => ascii "try_acquire"
  | release => ascii "release"
  | load => ascii "load"
  | unload => ascii "unload"
  | share => ascii "share"

/-- The fields after the name. -/
def fields : Call → List Str
  | acquire bytes options => numeral bytes.toNat :: optionalFields options
  | tryAcquire bytes => [numeral bytes.toNat]
  | release | load | unload | share => []

/-- The type of the commands that the method is for. -/
def type : Call → CommandType
  | acquire .. | tryAcquire _ => .acquire
  | release => .release
  | load => .loadModel
  | unload => .unloadModel
  | share => .share

def acquireMode : Call → AcquireMode
  | tryAcquire _ => .try
  | acquire .. | release | load | unload | share => .wait

/-- The size, for the methods that are given one. -/
def bytes? : Call → Option Bytes
  | acquire bytes _ => some bytes
  | tryAcquire bytes => some bytes
  | release | load | unload | share => none

end Call

variable {name : Str} {call : Call} {command : Command} {bytes bytes' : Bytes}

/-! ## The words of a line -/

theorem tokenize_named (verb name : Str) (h : IsField verb) :
    tokenize (named verb name) = verb :: tokenize name := by
  rw [named, tokenize_append, tokenize_of_isField h, List.singleton_append]

/-- The daemon reads the words of the name between the verb and the other fields. -/
theorem tokenize_line (call : Call) (name : Str) :
    tokenize (call.line name) = call.verb :: (tokenize name ++ call.fields) := by
  cases call with
  | acquire bytes options => exact tokenize_acquire name bytes options
  | tryAcquire bytes =>
    rw [Call.line, tryAcquire, tokenize_append, tokenize_named _ _ (isField_name (by decide)),
      tokenize_of_isField (isField_numeral _)]
    rfl
  | release | load | unload | share =>
    rw [Call.fields, List.append_nil]
    exact tokenize_named _ _ (isField_name (by decide))

/-! ## What is read -/

/-- A size that is written in bytes is refused, or read as it is. -/
theorem eq_of_parseSize_numeral (h : parseSize (numeral bytes.toNat) = some bytes') :
    bytes' = bytes := by
  by_cases hbytes : bytes = 0
  · have hzero : parseSize (numeral (UInt64.toNat 0)) = none := by decide
    rw [hbytes, hzero] at h
    cases h
  · rw [parseSize_numeral hbytes] at h
    exact (Option.some.inj h).symm

/-- What the daemon reads of a line of the client: it takes the fields between the verb and
    the options for a name and a size, if the method writes a size. -/
structure Reads (call : Call) (args : List Str) (command : Command) : Prop where
  type : command.type = call.type
  acquireMode : command.acquireMode = call.acquireMode
  field : validName command.name = true
  /-- Of the fields of an `acquire`, those after the size are options. -/
  acquire : ∀ bytes options, call = .acquire bytes options → ∃ size optional,
    args = command.name :: size :: optional ∧ parseSize size = some command.bytes ∧
      parseOptions optional = some command.options
  tryAcquire : ∀ bytes, call = .tryAcquire bytes → ∃ size,
    args = [command.name, size] ∧ parseSize size = some command.bytes
  named : call.bytes? = none → args = [command.name]

theorem reads_of_parseTokens {args : List Str}
    (h : parseTokens (call.verb :: args) = .ok command) : Reads call args command := by
  cases call with
  | acquire bytes options =>
    obtain ⟨name, size, optional, bytes, options, rfl, hname, hsize, hoptions, rfl⟩ :=
      eq_of_parseAcquire h
    exact ⟨rfl, rfl, hname, fun _ _ _ => ⟨size, optional, rfl, hsize, hoptions⟩, nofun, nofun⟩
  | tryAcquire =>
    obtain ⟨name, size, bytes, rfl, hname, hsize, rfl⟩ := eq_of_parseTryAcquire h
    exact ⟨rfl, rfl, hname, nofun, fun _ _ => ⟨size, rfl, hsize⟩, nofun⟩
  | release | load | unload | share =>
    obtain ⟨name, rfl, hname, rfl⟩ := eq_of_parseNamed h
    exact ⟨rfl, rfl, hname, nofun, nofun, fun _ => rfl⟩

namespace Reads

/-- A method that is given a size writes it after the name, and a size is read there. -/
theorem exists_size {args : List Str} (h : Reads call args command)
    (hbytes : call.bytes? = some bytes) :
    (∃ rest, call.fields = numeral bytes.toNat :: rest) ∧
      ∃ size optional, args = command.name :: size :: optional ∧
        parseSize size = some command.bytes := by
  cases call with
  | acquire bytes options =>
    obtain rfl := Option.some.inj hbytes
    obtain ⟨size, optional, hargs, hsize, -⟩ := h.acquire _ _ rfl
    exact ⟨⟨_, rfl⟩, size, optional, hargs, hsize⟩
  | tryAcquire bytes =>
    obtain rfl := Option.some.inj hbytes
    obtain ⟨size, hargs, hsize⟩ := h.tryAcquire _ rfl
    exact ⟨⟨_, rfl⟩, size, [], hargs, hsize⟩
  | release | load | unload | share => cases hbytes

/-- Of a name that has one word, this word is read, and then the size that was given. -/
theorem word {word : Str} (h : Reads call (word :: call.fields) command) :
    command.name = word ∧ ∀ bytes ∈ call.bytes?, command.bytes = bytes := by
  cases hbytes : call.bytes? with
  | none => exact ⟨(List.cons.inj (h.named hbytes)).1.symm, nofun⟩
  | some bytes =>
    obtain ⟨⟨rest, hfields⟩, size, optional, hargs, hsize⟩ := h.exists_size hbytes
    rw [hfields] at hargs
    obtain ⟨hword, hrest⟩ := List.cons.inj hargs
    obtain ⟨rfl, -⟩ := List.cons.inj hrest
    exact ⟨hword.symm, fun _ hgiven => Option.some.inj hgiven ▸ eq_of_parseSize_numeral hsize⟩

/-- The number of fields is fixed, but for an `acquire`. -/
theorem length_eq_one {words : List Str} (h : Reads call (words ++ call.fields) command)
    (hcall : ∀ bytes options, call ≠ .acquire bytes options) : words.length = 1 := by
  cases call with
  | acquire bytes options => exact absurd rfl (hcall bytes options)
  | tryAcquire bytes =>
    obtain ⟨size, hargs, -⟩ := h.tryAcquire _ rfl
    have hlength := congrArg List.length hargs
    rw [List.length_append] at hlength
    exact Nat.succ.inj hlength
  | release | load | unload | share =>
    have hlength := congrArg List.length (h.named rfl)
    rwa [List.length_append] at hlength

end Reads

/-- A line of the client that is accepted gives a command of the type of the method, whatever
    the name is. The name is read as it was given exactly if it is a field, that is, if it is
    not empty and has no blanks. If it has one word, this is read, with the size that was
    given. If it has none or more of them, only an `acquire` is accepted, and its words and the
    fields after it are read one after the other for a name, a size and options. -/
theorem of_parseCommand_line (h : parseCommand (call.line name) = .ok command) :
    (command.type = call.type ∧ command.acquireMode = call.acquireMode) ∧
      (command.name = name ↔ IsField name) ∧
      ((tokenize name).length = 1 →
        tokenize name = [command.name] ∧ ∀ bytes ∈ call.bytes?, command.bytes = bytes) ∧
      ((tokenize name).length ≠ 1 → ∃ bytes options size optional,
        call = .acquire bytes options ∧
        tokenize name ++ numeral bytes.toNat :: optionalFields options =
          command.name :: size :: optional ∧
        parseSize size = some command.bytes ∧ parseOptions optional = some command.options) := by
  rw [parseCommand, tokenize_line] at h
  have hreads := reads_of_parseTokens h
  have hword : (tokenize name).length = 1 →
      tokenize name = [command.name] ∧ ∀ bytes ∈ call.bytes?, command.bytes = bytes := by
    intro hlength
    obtain ⟨word, hname⟩ := List.length_eq_one_iff.1 hlength
    rw [hname] at hreads ⊢
    obtain ⟨rfl, hbytes⟩ := Reads.word hreads
    exact ⟨rfl, hbytes⟩
  refine ⟨⟨hreads.type, hreads.acquireMode⟩, ⟨fun heq => ?_, fun hname => ?_⟩, hword,
    fun hlength => ?_⟩
  · exact heq ▸ isField_name hreads.field
  · have hfield := tokenize_of_isField hname
    obtain ⟨hwords, -⟩ := hword (congrArg List.length hfield)
    exact (List.cons.inj (hwords.symm.trans hfield)).1
  · by_cases hcall : ∀ bytes options, call ≠ .acquire bytes options
    · exact absurd (hreads.length_eq_one hcall) hlength
    · simp only [not_forall, not_not] at hcall
      obtain ⟨bytes, options, rfl⟩ := hcall
      obtain ⟨size, optional, hargs, hsize, hoptions⟩ := hreads.acquire _ _ rfl
      exact ⟨bytes, options, size, optional, rfl, hargs, hsize, hoptions⟩

/-- The second word of a name is read for the size, and the size for the priority. -/
theorem parseCommand_pushed :
    acquire (ascii "a 5") 100 {} = ascii "acquire a 5 100 0" ∧
      ∃ size optional, [ascii "a", ascii "5", ascii "100", ascii "0"] =
          ascii "a" :: size :: optional ∧ parseSize size = some 5 ∧
        parseOptions optional = some { priority := 100, timeout := 0 } := by
  have hline : parseCommand ((Call.acquire 100 {}).line (ascii "a 5")) =
      .ok { type := .acquire, name := ascii "a", bytes := 5, acquireMode := .wait,
            options := { priority := 100, timeout := 0 } } := by decide
  obtain ⟨-, -, -, hpushed⟩ := of_parseCommand_line hline
  obtain ⟨bytes, options, size, optional, hcall, hfields, hsize, hoptions⟩ :=
    hpushed (by decide)
  cases hcall
  exact ⟨by decide, size, optional, hfields, hsize, hoptions⟩

/-- A name with a blank may inject a field, and an empty one or one with blanks around it are
    not read as they were given. -/
theorem injected :
    parseCommand (acquire (ascii "a 5") 100 {}) =
        .ok { type := .acquire, name := ascii "a", bytes := 5, acquireMode := .wait,
              options := { priority := 100, timeout := 0 } } ∧
      parseCommand (acquire (ascii "") 100 { priority := 7 }) =
        .ok { type := .acquire, name := ascii "100", bytes := 7, acquireMode := .wait } ∧
      parseCommand (release (ascii "abc ")) = .ok { type := .release, name := ascii "abc" } ∧
      ¬ ∀ (call : Call) (name : Str) (command : Command), '\n'.toUInt8 ∉ name →
        parseCommand (call.line name) = .ok command →
        command.type = call.type ∧ command.name = name ∧
          ∀ bytes ∈ call.bytes?, command.bytes = bytes := by
  have hpushed : parseCommand (acquire (ascii "a 5") 100 {}) =
      .ok { type := .acquire, name := ascii "a", bytes := 5, acquireMode := .wait,
            options := { priority := 100, timeout := 0 } } := by decide
  refine ⟨hpushed, by decide, by decide, fun h => ?_⟩
  obtain ⟨-, hname, -⟩ := h (.acquire 100 {}) (ascii "a 5") _ (by decide) hpushed
  exact absurd hname (by decide)

end Client

end Gpumemd
