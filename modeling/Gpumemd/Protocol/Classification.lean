import Gpumemd.Protocol.Grammar
import Gpumemd.Protocol.Numbers

/-!
# The accepted lines

The commands as they are written (`Accepts`): the verbs with their arguments, each of these by
what it is as a text, and the command that a line stands for. Apart from an `acquire` with six
tokens, `parse_command` accepts these and no other lines, and returns the command of the line
(`parseCommand_iff`).
-/

namespace Gpumemd

open Library

namespace Protocol

/-- The maximal runs of bytes that are neither blank nor tab. -/
def runs (line : Str) : List Str := (line.splitOnP isBlank).filter (!·.isEmpty)

/-- The bytes of a name. -/
def nameBytes : Str :=
  ascii "ABCDEFGHIJKLMNOPQRSTUVWXYZabcdefghijklmnopqrstuvwxyz0123456789_.-"

/-- The text is a name. -/
def IsName (text : Str) : Prop :=
  1 ≤ text.length ∧ text.length ≤ 64 ∧ ∀ c ∈ text, c ∈ nameBytes

/-- The text is printable, and not too long for the metadata of a model. -/
def IsMetadata (text : Str) : Prop :=
  1 ≤ text.length ∧ text.length ≤ 128 ∧ ∀ c ∈ text, 32 ≤ c.toNat ∧ c.toNat ≤ 126

/-- The words are a command. -/
inductive Accepts : List Str → Command → Prop
  | listing {verb : Str} {type : CommandType} : (verb, type) ∈ listingCommands →
      Accepts [verb] { type }
  | named {verb name : Str} {type : CommandType} : (verb, type) ∈ namedCommands → IsName name →
      Accepts [verb, name] { type, name }
  | register {name size metadata : Str} {bytes : Bytes} : IsName name → IsSize size bytes →
      IsMetadata metadata →
      Accepts [ascii "register", name, size, metadata]
        { type := .registerModel, name, bytes, metadata }
  | registerFile {name path metadata : Str} : IsName name → path.length ≤ 4096 →
      IsMetadata metadata →
      Accepts [ascii "register_file", name, path, metadata]
        { type := .registerFile, name, path, metadata }
  | nodeRegister {name endpoint size : Str} {bytes : Bytes} : IsName name →
      endpoint.length ≤ 256 → IsSize size bytes →
      Accepts [ascii "node_register", name, endpoint, size]
        { type := .registerNode, name, path := endpoint, bytes }
  | tryAcquire {name size : Str} {bytes : Bytes} : IsName name → IsSize size bytes →
      Accepts [ascii "try_acquire", name, size]
        { type := .acquire, name, bytes, acquireMode := .try,
          options := { priority := 0, timeout := 0, estimatedCost := 0 } }
  | acquire {name size : Str} {bytes : Bytes} : IsName name → IsSize size bytes →
      Accepts [ascii "acquire", name, size]
        { type := .acquire, name, bytes, acquireMode := .wait,
          options := { priority := 0, timeout := Millis.max, estimatedCost := 0 } }
  | acquirePriority {name size token : Str} {bytes : Bytes} {priority : Int32} : IsName name →
      IsSize size bytes → IsPriority token priority →
      Accepts [ascii "acquire", name, size, token]
        { type := .acquire, name, bytes, acquireMode := .wait,
          options := { priority, timeout := Millis.max, estimatedCost := 0 } }
  | acquireTimeout {name size token token' : Str} {bytes : Bytes} {priority : Int32}
      {timeout : Millis} : IsName name → IsSize size bytes → IsPriority token priority →
      IsDuration token' timeout →
      Accepts [ascii "acquire", name, size, token, token']
        { type := .acquire, name, bytes, acquireMode := .wait,
          options := { priority, timeout, estimatedCost := 0 } }

variable {line text : Str} {words : List Str} {command : Command}

/-! ## Names, metadata and paths -/

theorem runs_eq (line : Str) : runs line = tokenize line := (tokens_eq_filter_splitOnP line).symm

/-- A run is not empty, and has neither blanks nor tabs. -/
theorem of_mem_runs (h : text ∈ runs line) : text ≠ [] ∧ ∀ c ∈ text, isBlank c = false :=
  of_mem_tokens (runs_eq line ▸ h)

theorem isNameByte_iff (c : UInt8) : isNameByte c = true ↔ c ∈ nameBytes := by
  have hbytes : nameBytes.map UInt8.toNat =
      List.range' 65 26 ++ List.range' 97 26 ++ List.range' 48 10 ++ [95, 46, 45] := by
    rw [nameBytes, ascii_ofList]
    decide
  have hmem : c ∈ nameBytes ↔ c.toNat ∈ nameBytes.map UInt8.toNat :=
    (List.mem_map_of_injective fun _ _ => UInt8.toNat_inj.1).symm
  rw [hmem, hbytes, isNameByte]
  simp only [Bool.or_eq_true, Bool.and_eq_true, decide_eq_true_eq, beq_iff_eq,
    UInt8.le_iff_toNat_le, ← UInt8.toNat_inj, List.mem_append, List.mem_range'_1, List.mem_cons,
    List.not_mem_nil, or_false]
  -- the bounds are the codes of the characters
  show ((((97 ≤ c.toNat ∧ c.toNat ≤ 122 ∨ 65 ≤ c.toNat ∧ c.toNat ≤ 90) ∨
    48 ≤ c.toNat ∧ c.toNat ≤ 57) ∨ c.toNat = 95) ∨ c.toNat = 45) ∨ c.toNat = 46 ↔ _
  omega

theorem validName_iff : validName text = true ↔ IsName text := by
  simp only [validName, nameShape_iff, isNameByte_iff, IsName, Nat.one_le_iff_ne_zero, ne_eq,
    List.length_eq_zero_iff]

/-- A run has no blanks, so the parser takes it as metadata if it is printable. -/
theorem validMetadata_iff (h : ∀ c ∈ text, isBlank c = false) :
    validMetadata text = true ↔ IsMetadata text := by
  rw [validMetadata, IsMetadata, Nat.one_le_iff_ne_zero, ne_eq, List.length_eq_zero_iff]
  split_ifs with hlength
  · rw [Bool.or_eq_true, List.isEmpty_iff, decide_eq_true_eq] at hlength
    refine ⟨False.elim, fun hmetadata => absurd hlength ?_⟩
    rw [not_or, Nat.not_lt]
    exact ⟨hmetadata.1, hmetadata.2.1⟩
  · rw [Bool.or_eq_true, not_or, List.isEmpty_iff, decide_eq_true_eq, Nat.not_lt] at hlength
    rw [List.all_eq_true]
    have hbyte : ∀ c ∈ text, (decide (32 ≤ c) && decide (c < 127) && c != ' '.toUInt8 &&
        c != '\t'.toUInt8) = true ↔ 32 ≤ c.toNat ∧ c.toNat ≤ 126 := by
      intro c hc
      have hblank := h c hc
      rw [isBlank, Bool.or_eq_false_iff, beq_eq_false_iff_ne, beq_eq_false_iff_ne] at hblank
      simp only [Bool.and_eq_true, decide_eq_true_eq, bne_iff_ne, hblank.1, hblank.2, and_true,
        ne_eq, not_false_eq_true, UInt8.le_iff_toNat_le, UInt8.lt_iff_toNat_lt]
      exact and_congr_right' Nat.lt_succ_iff
    exact ⟨fun hall => ⟨hlength.1, hlength.2, fun c hc => (hbyte c hc).1 (hall c hc)⟩,
      fun hall c hc => (hbyte c hc).2 (hall.2.2 c hc)⟩

/-! ## The commands -/

theorem parseTokens_listing {verb : Str} {type : CommandType} (h : (verb, type) ∈ listingCommands)
    (args : List Str) : parseTokens (verb :: args) = parseListing type args := by
  simp only [listingCommands, List.mem_cons, Prod.mk.injEq, List.not_mem_nil, or_false] at h
  rcases h with ⟨rfl, rfl⟩ | ⟨rfl, rfl⟩ | ⟨rfl, rfl⟩ | ⟨rfl, rfl⟩ | ⟨rfl, rfl⟩ <;> rfl

theorem parseTokens_named {verb : Str} {type : CommandType} (h : (verb, type) ∈ namedCommands)
    (args : List Str) : ∃ invalid, parseTokens (verb :: args) = parseNamed type invalid args := by
  simp only [namedCommands, List.mem_cons, Prod.mk.injEq, List.not_mem_nil, or_false] at h
  rcases h with ⟨rfl, rfl⟩ | ⟨rfl, rfl⟩ | ⟨rfl, rfl⟩ | ⟨rfl, rfl⟩ | ⟨rfl, rfl⟩ | ⟨rfl, rfl⟩ |
    ⟨rfl, rfl⟩ | ⟨rfl, rfl⟩ <;> exact ⟨_, rfl⟩

/-- A command that the parser accepts is written as it should be, unless it is an `acquire` with
    a cost. -/
theorem accepts_of_parses {verb : Str} {args : List Str} (h : Parses verb args command)
    (hargs : ∀ arg ∈ args, ∀ c ∈ arg, isBlank c = false)
    (hcost : ¬ (args.length = 5 ∧ verb = ascii "acquire")) : Accepts (verb :: args) command := by
  cases h with
  | listing hverb => exact .listing hverb
  | named hverb hname => exact .named hverb (validName_iff.1 hname)
  | nodeRegister hname hbytes hendpoint =>
    rw [Bool.or_eq_false_iff, decide_eq_false_iff_not, Nat.not_lt] at hendpoint
    exact .nodeRegister (validName_iff.1 hname) hendpoint.2 (parseSize_iff.1 hbytes)
  | @register name size metadata bytes hname hbytes hmetadata =>
    have hblank := hargs metadata (by simp)
    exact .register (validName_iff.1 hname) (parseSize_iff.1 hbytes)
      ((validMetadata_iff hblank).1 hmetadata)
  | @registerFile name path metadata hname hpath hmetadata =>
    rw [Bool.or_eq_false_iff, decide_eq_false_iff_not, Nat.not_lt] at hpath
    have hblank := hargs metadata (by simp)
    exact .registerFile (validName_iff.1 hname) hpath.2 ((validMetadata_iff hblank).1 hmetadata)
  | tryAcquire hname hbytes => exact .tryAcquire (validName_iff.1 hname) (parseSize_iff.1 hbytes)
  | acquire hname hbytes hoptions =>
    have hname' := validName_iff.1 hname
    have hbytes' := parseSize_iff.1 hbytes
    rcases eq_of_parseOptions hoptions with ⟨rfl, rfl⟩ | ⟨token, priority, rfl, hpriority, rfl⟩ |
      ⟨token, token', priority, timeout, rfl, hpriority, htimeout, rfl⟩ |
      ⟨token, skipped, token', priority, cost, rfl, hpriority, htoken', rfl⟩
    · exact .acquire hname' hbytes'
    · exact .acquirePriority hname' hbytes' (parsePriority_iff.1 hpriority)
    · exact .acquireTimeout hname' hbytes' (parsePriority_iff.1 hpriority)
        (parseTimeout_iff.1 htimeout)
    · exact absurd ⟨rfl, rfl⟩ hcost

/-- A name and a size that are read, in an `acquire` whose options are read. -/
theorem parseAcquire_of {name size : Str} {optional : List Str} {bytes : Bytes}
    {options : AcquireOptions} (hname : IsName name) (hbytes : IsSize size bytes)
    (hoptions : parseOptions optional = some options) :
    parseTokens (ascii "acquire" :: name :: size :: optional) =
      .ok { type := .acquire, name, bytes, acquireMode := .wait, options } := by
  have hlength : ¬ optional.length > 3 := by
    rcases eq_of_parseOptions hoptions with ⟨rfl, _⟩ | ⟨_, _, rfl, _⟩ | ⟨_, _, _, _, rfl, _⟩ |
      ⟨_, _, _, _, _, rfl, _⟩ <;> simp
  simp [parseTokens_acquire, parseAcquire, hlength, validName_iff.2 hname, parseSize_iff.2 hbytes,
    hoptions]

/-- What is written as a command should be, the parser accepts. -/
theorem parseTokens_of_accepts (h : Accepts words command)
    (hwords : ∀ word ∈ words, word ≠ [] ∧ ∀ c ∈ word, isBlank c = false) :
    parseTokens words = .ok command := by
  cases h with
  | listing hverb => rw [parseTokens_listing hverb, parseListing]
  | named hverb hname =>
    obtain ⟨invalid, hparse⟩ := parseTokens_named hverb [_]
    rw [hparse, parseNamed, validName_iff.2 hname]
    rfl
  | @register name size metadata bytes hname hbytes hmetadata =>
    have hblank := (hwords metadata (by simp)).2
    show parseRegister [name, size, metadata] = _
    rw [parseRegister, validName_iff.2 hname, parseSize_iff.2 hbytes,
      (validMetadata_iff hblank).2 hmetadata]
    rfl
  | @registerFile name path metadata hname hpath hmetadata =>
    have hblank := (hwords metadata (by simp)).2
    have hempty := (hwords path (by simp)).1
    show parseRegisterFile [name, path, metadata] = _
    rw [parseRegisterFile, validName_iff.2 hname, (validMetadata_iff hblank).2 hmetadata]
    simp [hempty, hpath]
  | @nodeRegister name endpoint size bytes hname hendpoint hbytes =>
    have hempty := (hwords endpoint (by simp)).1
    show parseNodeRegister [name, endpoint, size] = _
    rw [parseNodeRegister, validName_iff.2 hname, parseSize_iff.2 hbytes]
    simp [hempty, hendpoint]
  | @tryAcquire name size bytes hname hbytes =>
    show parseTryAcquire [name, size] = _
    rw [parseTryAcquire, validName_iff.2 hname, parseSize_iff.2 hbytes]
    rfl
  | acquire hname hbytes => exact parseAcquire_of hname hbytes rfl
  | acquirePriority hname hbytes hpriority =>
    refine parseAcquire_of hname hbytes ?_
    rw [parseOptions, parsePriority_iff.2 hpriority]
    rfl
  | acquireTimeout hname hbytes hpriority htimeout =>
    refine parseAcquire_of hname hbytes ?_
    rw [parseOptions, parsePriority_iff.2 hpriority, parseTimeout_iff.2 htimeout]
    rfl

/-- Apart from an `acquire` with a cost, the parser accepts the lines that are commands, and
    returns the command that is written. -/
theorem parseCommand_iff
    (hcost : ¬ ((runs line).length = 6 ∧ (runs line).head? = some (ascii "acquire"))) :
    parseCommand line = .ok command ↔ Accepts (runs line) command := by
  rw [parseCommand, ← runs_eq]
  constructor
  · intro h
    obtain ⟨verb, args, heq, hparses⟩ := parses_of_parseTokens h
    rw [heq] at hcost ⊢
    refine accepts_of_parses hparses (fun arg harg => ?_) fun ⟨hlength, hverb⟩ => ?_
    · exact (of_mem_runs (heq ▸ List.mem_cons_of_mem _ harg : arg ∈ runs line)).2
    · exact hcost ⟨by rw [List.length_cons, hlength], by rw [hverb, List.head?_cons]⟩
  · exact fun h => parseTokens_of_accepts h fun _ hword => of_mem_runs hword

/-- A line with tabs, a sign and a unit. -/
theorem parseCommand_signed :
    Accepts (runs (ascii "\tacquire  llm 2KiB \t-7 250"))
      { type := .acquire, name := ascii "llm", bytes := 2048, acquireMode := .wait,
        options := { priority := -7, timeout := 250, estimatedCost := 0 } } := by
  have hcost : ¬ ((runs (ascii "\tacquire  llm 2KiB \t-7 250")).length = 6 ∧
      (runs (ascii "\tacquire  llm 2KiB \t-7 250")).head? = some (ascii "acquire")) := by
    rw [ascii_ofList]
    decide
  refine (parseCommand_iff hcost).1 ?_
  rw [ascii_ofList]
  decide +kernel

end Protocol

end Gpumemd
