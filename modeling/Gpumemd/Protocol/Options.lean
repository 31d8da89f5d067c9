import Gpumemd.Protocol.Classification

/-!
# The options of `acquire`

The optional fields of an `acquire` as they are written (`IsOptions`): a priority, then a
timeout, then a cost. A line with three of them is read without its timeout: the parser
reads a timeout only from a line that ends with it. So the parser treats an `acquire` as it
is written exactly if no timeout is dropped that differs from the default
(`parseCommand_options_iff`).
-/

namespace Gpumemd

open Library

namespace Protocol

/-- The options that the words after the size are. Those that are not there have their
    defaults. -/
inductive IsOptions : List Str → AcquireOptions → Prop
  | none : IsOptions [] { priority := 0, timeout := Millis.max, estimatedCost := 0 }
  | priority {token : Str} {priority : Int32} : IsPriority token priority →
      IsOptions [token] { priority, timeout := Millis.max, estimatedCost := 0 }
  | timeout {token token' : Str} {priority : Int32} {timeout : Millis} :
      IsPriority token priority → IsDuration token' timeout →
      IsOptions [token, token'] { priority, timeout, estimatedCost := 0 }
  | cost {token token' token'' : Str} {priority : Int32} {timeout estimatedCost : Millis} :
      IsPriority token priority → IsDuration token' timeout → IsDuration token'' estimatedCost →
      IsOptions [token, token', token''] { priority, timeout, estimatedCost }

/-- The command that an `acquire` with these arguments is. -/
def IsAcquire (name size : Str) (optional : List Str) (command : Command) : Prop :=
  IsName name ∧ ∃ bytes options, IsSize size bytes ∧ IsOptions optional options ∧
    command = { type := .acquire, name, bytes, acquireMode := .wait, options }

/-- The `acquire` has a cost, its other fields are valid, and its timeout is not the
    default. -/
def DropsTimeout (name size : Str) (optional : List Str) : Prop :=
  ∃ token token' token'', optional = [token, token', token''] ∧ IsName name ∧
    (∃ bytes, IsSize size bytes) ∧ (∃ priority, IsPriority token priority) ∧
    (∃ cost, IsDuration token'' cost) ∧ ¬ IsDuration token' Millis.max

variable {line name size token token' token'' : Str} {optional : List Str}
  {options : AcquireOptions} {command : Command}

/-- A text is one number of milliseconds at most. -/
theorem IsDuration.unique {timeout timeout' : Millis} (h : IsDuration token timeout)
    (h' : IsDuration token timeout') : timeout = timeout' :=
  Int64.toInt_inj.1 (h.2.2.trans h'.2.2.symm)

/-! ## The options that are read -/

theorem parseOptions_cost :
    parseOptions [token, token', token''] = some options ↔ ∃ priority estimatedCost,
      IsPriority token priority ∧ IsDuration token'' estimatedCost ∧
      options = { priority, timeout := Millis.max, estimatedCost } := by
  constructor
  · intro h
    rcases eq_of_parseOptions h with ⟨hnil, _⟩ | ⟨_, _, hone, _⟩ | ⟨_, _, _, _, htwo, _⟩ |
      ⟨_, _, _, priority, cost, hthree, hpriority, hcost, rfl⟩
    · cases hnil
    · cases hone
    · cases htwo
    · cases hthree
      exact ⟨priority, cost, parsePriority_iff.1 hpriority, parseTimeout_iff.1 hcost, rfl⟩
  · rintro ⟨priority, cost, hpriority, hcost, rfl⟩
    rw [parseOptions, parsePriority_iff.2 hpriority, parseTimeout_iff.2 hcost]
    rfl

/-- Without a cost, the options are read as they are written. -/
theorem parseOptions_iff (h : optional.length < 3) :
    parseOptions optional = some options ↔ IsOptions optional options := by
  constructor
  · intro hoptions
    rcases eq_of_parseOptions hoptions with ⟨rfl, rfl⟩ | ⟨_, _, rfl, hpriority, rfl⟩ |
      ⟨_, _, _, _, rfl, hpriority, htimeout, rfl⟩ | ⟨_, _, _, _, _, rfl, _⟩
    · exact .none
    · exact .priority (parsePriority_iff.1 hpriority)
    · exact .timeout (parsePriority_iff.1 hpriority) (parseTimeout_iff.1 htimeout)
    · exact absurd h (Nat.lt_irrefl 3)
  · intro hoptions
    cases hoptions with
    | none => rfl
    | priority hpriority =>
      rw [parseOptions, parsePriority_iff.2 hpriority]
      rfl
    | timeout hpriority htimeout =>
      rw [parseOptions, parsePriority_iff.2 hpriority, parseTimeout_iff.2 htimeout]
      rfl
    | cost => exact absurd h (Nat.lt_irrefl 3)

/-- An `acquire` is accepted if its name, its size and its options are read. -/
theorem parseCommand_acquire_eq_ok (hline : runs line = ascii "acquire" :: name :: size :: optional) :
    parseCommand line = .ok command ↔ IsName name ∧ ∃ bytes options, IsSize size bytes ∧
      parseOptions optional = some options ∧
      command = { type := .acquire, name, bytes, acquireMode := .wait, options } := by
  rw [parseCommand, ← runs_eq, hline]
  constructor
  · intro h
    rw [parseTokens_acquire] at h
    obtain ⟨_, _, _, bytes, options, hargs, hname, hbytes, hoptions, hcommand⟩ :=
      eq_of_parseAcquire h
    cases hargs
    exact ⟨validName_iff.1 hname, bytes, options, parseSize_iff.1 hbytes, hoptions, hcommand⟩
  · rintro ⟨hname, bytes, options, hbytes, hoptions, rfl⟩
    exact parseAcquire_of hname hbytes hoptions

/-- An `acquire` of three to six words is accepted exactly where all its fields are valid,
    and its fields are stored as they are written, if and only if its timeout is not
    dropped. -/
theorem parseCommand_options_iff (hline : runs line = ascii "acquire" :: name :: size :: optional)
    (hlength : optional.length ≤ 3) :
    (∀ command, parseCommand line = .ok command ↔ IsAcquire name size optional command) ↔
      ¬ DropsTimeout name size optional := by
  simp only [parseCommand_acquire_eq_ok hline]
  rcases hlength.lt_or_eq with hlt | heq
  · refine iff_of_true (fun command => ?_) ?_
    · simp only [IsAcquire, parseOptions_iff hlt]
    · rintro ⟨_, _, _, rfl, _⟩
      exact Nat.lt_irrefl 3 hlt
  · obtain ⟨token, token', token'', rfl⟩ := List.length_eq_three.1 heq
    simp only [parseOptions_cost]
    constructor
    · rintro hiff ⟨_, _, _, htokens, hname, ⟨bytes, hbytes⟩, ⟨priority, hpriority⟩,
        ⟨cost, hcost⟩, htimeout⟩
      cases htokens
      -- the command that is returned has the default timeout
      obtain ⟨_, _, _, _, hoptions, hcommand⟩ :=
        (hiff _).1 ⟨hname, bytes, _, hbytes, ⟨priority, cost, hpriority, hcost, rfl⟩, rfl⟩
      cases hoptions with
      | cost _ htimeout' _ =>
        obtain rfl := congrArg (·.options.timeout) hcommand
        exact htimeout htimeout'
    · intro hkept command
      constructor
      · rintro ⟨hname, bytes, _, hbytes, ⟨priority, cost, hpriority, hcost, rfl⟩, hcommand⟩
        have htimeout : IsDuration token' Millis.max := by
          by_contra hdropped
          exact hkept ⟨_, _, _, rfl, hname, ⟨bytes, hbytes⟩, ⟨priority, hpriority⟩,
            ⟨cost, hcost⟩, hdropped⟩
        exact ⟨hname, bytes, _, hbytes, .cost hpriority htimeout hcost, hcommand⟩
      · rintro ⟨hname, bytes, _, hbytes, hoptions, hcommand⟩
        cases hoptions with
        | @cost _ _ _ priority timeout cost hpriority htimeout hcost =>
          have hmax : timeout = Millis.max := by
            by_contra hne
            exact hkept ⟨_, _, _, rfl, hname, ⟨bytes, hbytes⟩, ⟨priority, hpriority⟩,
              ⟨cost, hcost⟩, fun hdefault => hne (htimeout.unique hdefault)⟩
          subst hmax
          exact ⟨hname, bytes, _, hbytes, ⟨priority, cost, hpriority, hcost, rfl⟩, hcommand⟩

/-- A line without a cost is read as it is written. -/
theorem parseCommand_acquire_wait :
    parseCommand (ascii "acquire processA 1B 2 1000") =
      .ok { type := .acquire, name := ascii "processA", bytes := 1, acquireMode := .wait,
            options := { priority := 2, timeout := 1000, estimatedCost := 0 } } := by
  have hline : runs (ascii "acquire processA 1B 2 1000") =
      ascii "acquire" :: ascii "processA" :: ascii "1B" :: [ascii "2", ascii "1000"] := by
    rw [ascii_ofList]
    decide
  have hkept : ¬ DropsTimeout (ascii "processA") (ascii "1B") [ascii "2", ascii "1000"] := by
    rintro ⟨_, _, _, htokens, _⟩
    cases htokens
  refine ((parseCommand_options_iff hline (by decide)).2 hkept _).2
    ⟨validName_iff.1 (by decide), 1, _, parseSize_iff.1 (by decide), ?_, rfl⟩
  exact .timeout (parsePriority_iff.1 (by decide)) (parseTimeout_iff.1 (by decide))

/-- With a cost, the line waits without a limit whatever its timeout is. -/
theorem parseCommand_acquire_unlimited :
    parseCommand (ascii "acquire processA 1B 2 1000 75") =
        .ok { type := .acquire, name := ascii "processA", bytes := 1, acquireMode := .wait,
              options := { priority := 2, timeout := Millis.max, estimatedCost := 75 } } ∧
      parseCommand (ascii "acquire processA 1B 2 soon 75") =
        .ok { type := .acquire, name := ascii "processA", bytes := 1, acquireMode := .wait,
              options := { priority := 2, timeout := Millis.max, estimatedCost := 75 } } ∧
      ¬ ∀ line name size optional, runs line = ascii "acquire" :: name :: size :: optional →
        optional.length ≤ 3 → ∀ command,
          parseCommand line = .ok command ↔ IsAcquire name size optional command := by
  have hread : parseCommand (ascii "acquire processA 1B 2 1000 75") =
      .ok { type := .acquire, name := ascii "processA", bytes := 1, acquireMode := .wait,
            options := { priority := 2, timeout := Millis.max, estimatedCost := 75 } } := by
    rw [ascii_ofList]
    decide +kernel
  have hread' : parseCommand (ascii "acquire processA 1B 2 soon 75") =
      .ok { type := .acquire, name := ascii "processA", bytes := 1, acquireMode := .wait,
            options := { priority := 2, timeout := Millis.max, estimatedCost := 75 } } := by
    rw [ascii_ofList]
    decide +kernel
  refine ⟨hread, hread', fun hall => ?_⟩
  have hline : runs (ascii "acquire processA 1B 2 1000 75") = ascii "acquire" ::
      ascii "processA" :: ascii "1B" :: [ascii "2", ascii "1000", ascii "75"] := by
    rw [ascii_ofList]
    decide
  obtain ⟨_, _, _, _, hoptions, hcommand⟩ := (hall _ _ _ _ hline (by decide) _).1 hread
  cases hoptions with
  | cost _ htimeout _ =>
    obtain rfl := congrArg (·.options.timeout) hcommand
    exact absurd htimeout.2.2 (by decide)

end Protocol

end Gpumemd
