import Gpumemd.Protocol.Parse

/-!
# What the client asks for and what the daemon reads

`Client::acquire` (`src/client/client.cpp`) writes a command line, `parse_command`
reads it. The fields are written as they are read, one by one, but their number
depends on the options, and the two sides disagree on what it means: with a timeout
and a cost the timeout is not read, and without a timeout the cost is not written
(`parseCommand_acquire`). The options arrive as they were given exactly if the
estimated cost is zero (`parseCommand_acquire_iff`).
-/

namespace Gpumemd

open Library Protocol

namespace Client

/-- `Client::acquire`: the line that it passes to `request`. -/
def acquire (name : Str) (bytes : Bytes) (options : AcquireOptions) : Str :=
  let command := ascii "acquire " ++ name ++ ascii " " ++ numeral bytes.toNat ++ ascii " " ++
    signedNumeral options.priority.toInt
  if options.timeout ≠ Millis.max then
    let command := command ++ ascii " " ++ signedNumeral options.timeout.toInt
    if options.estimatedCost ≠ 0 then
      command ++ ascii " " ++ signedNumeral options.estimatedCost.toInt
    else command
  else command

variable {name : Str} {bytes : Bytes} {options : AcquireOptions}

/-! ## The fields of the line -/

/-- The optional fields. -/
def optionalFields (options : AcquireOptions) : List Str :=
  signedNumeral options.priority.toInt ::
    if options.timeout ≠ Millis.max then
      signedNumeral options.timeout.toInt ::
        if options.estimatedCost ≠ 0 then [signedNumeral options.estimatedCost.toInt] else []
    else []

/-- The line is its fields, joined by blanks. -/
theorem acquire_eq_intercalate (name : Str) (bytes : Bytes) (options : AcquireOptions) :
    acquire name bytes options = List.intercalate (ascii " ")
      (ascii "acquire" :: name :: numeral bytes.toNat :: optionalFields options) := by
  have hverb : ascii "acquire " = ascii "acquire" ++ ascii " " := by decide
  rw [acquire, optionalFields, hverb]
  split_ifs <;> simp [List.intercalate_cons_cons, List.intercalate_singleton]

theorem isBlank_of_isNameByte {c : UInt8} (hc : isNameByte c = true) : isBlank c = false := by
  rw [Bool.eq_false_iff]
  intro hblank
  rw [isBlank, Bool.or_eq_true, beq_iff_eq, beq_iff_eq] at hblank
  -- neither of the two blanks is among the bytes of a name
  rcases hblank with rfl | rfl
  · exact absurd hc (by decide)
  · exact absurd hc (by decide)

theorem isBlank_of_isDigit {c : UInt8} (hc : isDigit c = true) : isBlank c = false := by
  refine isBlank_of_isNameByte ?_
  rw [isNameByte]
  rw [isDigit] at hc
  simp [hc]

/-- A field is a token: nonempty and without blanks. -/
def IsField (field : Str) : Prop := field ≠ [] ∧ ∀ c ∈ field, isBlank c = false

theorem isField_name (hname : validName name = true) : IsField name := by
  obtain ⟨hne, _, hbytes⟩ := nameShape_iff.1 hname
  exact ⟨hne, fun c hc => isBlank_of_isNameByte (hbytes c hc)⟩

theorem isField_numeral (n : ℕ) : IsField (numeral n) :=
  ⟨numeral_ne_nil n, fun _ hc => isBlank_of_isDigit (isDigit_of_mem_numeral hc)⟩

theorem isField_signedNumeral (z : ℤ) : IsField (signedNumeral z) := by
  rw [signedNumeral]
  split_ifs
  · refine ⟨List.cons_ne_nil _ _, List.forall_mem_cons.2 ⟨by decide, ?_⟩⟩
    exact (isField_numeral _).2
  · exact isField_numeral _

theorem isField_of_mem_optionalFields {field : Str} (hfield : field ∈ optionalFields options) :
    IsField field := by
  rw [optionalFields, List.mem_cons] at hfield
  rcases hfield with rfl | hfield
  · exact isField_signedNumeral _
  · split_ifs at hfield
    · rcases List.mem_cons.1 hfield with rfl | hfield
      · exact isField_signedNumeral _
      · obtain rfl := List.mem_singleton.1 hfield
        exact isField_signedNumeral _
    · obtain rfl := List.mem_singleton.1 hfield
      exact isField_signedNumeral _
    · exact absurd hfield List.not_mem_nil

theorem tokenize_append (text text' : Str) :
    tokenize (text ++ ascii " " ++ text') = tokenize text ++ tokenize text' := by
  have hblank : ascii " " = [' '.toUInt8] := by decide
  rw [hblank, List.append_assoc, List.singleton_append]
  exact tokens_append_blank (by decide)

theorem tokenize_of_isField (h : IsField name) : tokenize name = [name] := tokens_of_word h.2 h.1

/-- The daemon cuts the line into the words of the name and the fields that the client wrote. -/
theorem tokenize_acquire (name : Str) (bytes : Bytes) (options : AcquireOptions) :
    tokenize (acquire name bytes options) =
      ascii "acquire" :: (tokenize name ++ numeral bytes.toNat :: optionalFields options) := by
  have hverb : IsField (ascii "acquire") := isField_name (by decide)
  have hfields : tokenize (List.intercalate (ascii " ")
      (numeral bytes.toNat :: optionalFields options)) =
        numeral bytes.toNat :: optionalFields options := by
    refine tokens_intercalate (by decide) (List.forall_mem_cons.2 ⟨isField_numeral _, ?_⟩)
    exact fun field hfield => isField_of_mem_optionalFields hfield
  rw [acquire_eq_intercalate, List.intercalate_cons_cons, List.intercalate_cons_cons,
    tokenize_append, tokenize_append, tokenize_of_isField hverb, hfields, List.singleton_append]

/-! ## What arrives -/

/-- What arrives of the options. -/
def received (options : AcquireOptions) : AcquireOptions :=
  if options.timeout = Millis.max then { priority := options.priority }
  else if options.estimatedCost = 0 then
    { priority := options.priority, timeout := options.timeout }
  else { priority := options.priority, estimatedCost := options.estimatedCost }

theorem parseOptions_optionalFields (htimeout : 0 ≤ options.timeout)
    (hcost : 0 ≤ options.estimatedCost) :
    parseOptions (optionalFields options) = some (received options) := by
  -- as many cases as the client writes fields
  rw [optionalFields, received]
  by_cases hmax : options.timeout = Millis.max
  · simp [hmax, parseOptions, parsePriority_signedNumeral]
  · by_cases hzero : options.estimatedCost = 0
    · simp [hmax, hzero, parseOptions, parsePriority_signedNumeral,
        parseTimeout_signedNumeral htimeout]
    · -- three fields: the second, the timeout, is skipped
      simp [hmax, hzero, parseOptions, parsePriority_signedNumeral,
        parseTimeout_signedNumeral hcost]

theorem length_optionalFields_le (options : AcquireOptions) :
    (optionalFields options).length ≤ 3 := by
  rw [optionalFields]
  split_ifs <;> simp

/-- Of a request that the client writes, the daemon reads the name, the size and some
    of the options. -/
theorem parseCommand_acquire (hname : validName name = true) (hbytes : bytes ≠ 0)
    (htimeout : 0 ≤ options.timeout) (hcost : 0 ≤ options.estimatedCost) :
    parseCommand (acquire name bytes options) =
      .ok { type := .acquire, name, bytes, acquireMode := .wait, options := received options } := by
  rw [parseCommand, tokenize_acquire, tokenize_of_isField (isField_name hname),
    List.singleton_append, parseTokens_acquire, parseAcquire,
    if_neg (not_lt.2 (length_optionalFields_le options)), hname, parseSize_numeral hbytes]
  simp [parseOptions_optionalFields htimeout hcost]

/-- The options arrive as they were given if and only if the estimated cost is zero. -/
theorem received_eq_iff : received options = options ↔ options.estimatedCost = 0 := by
  obtain ⟨priority, timeout, estimatedCost⟩ := options
  rw [received]
  split_ifs with hmax hzero
  · simp_all [eq_comm]
  · simp_all
  · simp_all [eq_comm]

/-- The daemon reads what the client was given if and only if the estimated cost is
    zero. -/
theorem parseCommand_acquire_iff (hname : validName name = true) (hbytes : bytes ≠ 0)
    (htimeout : 0 ≤ options.timeout) (hcost : 0 ≤ options.estimatedCost) :
    parseCommand (acquire name bytes options) =
        .ok { type := .acquire, name, bytes, acquireMode := .wait, options } ↔
      options.estimatedCost = 0 := by
  rw [parseCommand_acquire hname hbytes htimeout hcost, ← received_eq_iff]
  simp

theorem parseCommand_acquire_worker :
    parseCommand (acquire (ascii "worker") 1024 { priority := -3, timeout := 5000 }) =
        .ok { type := .acquire, name := ascii "worker", bytes := 1024, acquireMode := .wait,
              options := { priority := -3, timeout := 5000 } } :=
  (parseCommand_acquire_iff (by decide) (by decide) (by decide) (by decide)).2 rfl

/-- With a timeout and a cost, the request arrives without its timeout; with a cost
    only, it arrives without its cost. -/
theorem parseCommand_acquire_cost :
    acquire (ascii "worker") 1024 { timeout := 5000, estimatedCost := 10 } =
        ascii "acquire worker 1024 0 5000 10" ∧
      parseCommand (acquire (ascii "worker") 1024 { timeout := 5000, estimatedCost := 10 }) =
        .ok { type := .acquire, name := ascii "worker", bytes := 1024, acquireMode := .wait,
              options := { timeout := Millis.max, estimatedCost := 10 } } ∧
      parseCommand (acquire (ascii "worker") 1024 { timeout := 5000, estimatedCost := 10 }) ≠
        .ok { type := .acquire, name := ascii "worker", bytes := 1024, acquireMode := .wait,
              options := { timeout := 5000, estimatedCost := 10 } } ∧
      parseCommand (acquire (ascii "worker") 1024 { estimatedCost := 10 }) ≠
        .ok { type := .acquire, name := ascii "worker", bytes := 1024, acquireMode := .wait,
              options := { estimatedCost := 10 } } := by
  decide

end Client

end Gpumemd
