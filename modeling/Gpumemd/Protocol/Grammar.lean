import Gpumemd.Protocol.Parse

/-!
# What the parser accepts

What an accepted list of tokens consists of, verb by verb (`Parses`). The type of the
command follows from the verb, and only the verb of a listing makes a command of its type
(`isListing_of_parseTokens`).

Most tokens of an accepted command are `Plain`: they have no blanks or line breaks. The
exceptions are a path, an endpoint, and the timeout of an `acquire` with a cost, which is
not read (`plain_of_parseTokens`).
-/

namespace Gpumemd

open Library

/-- The successful response to the command is a listing. -/
def CommandType.isListing : CommandType → Bool
  | .status | .models | .residency | .metrics | .nodes => true
  | _ => false

namespace Protocol

variable {type : CommandType} {invalid : ParseError} {args tokens : List Str} {command : Command}
  {token : Str}

/-! ## The tokens of each verb -/

theorem eq_of_parseListing (h : parseListing type args = .ok command) :
    args = [] ∧ command = { type } := by
  cases args with
  | nil => exact ⟨rfl, (Except.ok.inj h).symm⟩
  | cons => cases h

theorem eq_of_parseNamed (h : parseNamed type invalid args = .ok command) :
    ∃ name, args = [name] ∧ validName name = true ∧ command = { type, name } := by
  rw [parseNamed.eq_def] at h
  split at h
  next name =>
    split_ifs at h with hname
    exact ⟨name, rfl, by simpa using hname, (Except.ok.inj h).symm⟩
  next => cases h

theorem eq_of_parseNodeRegister (h : parseNodeRegister args = .ok command) :
    ∃ name endpoint size bytes, args = [name, endpoint, size] ∧ validName name = true ∧
      parseSize size = some bytes ∧ (endpoint.isEmpty || endpoint.length > 256) = false ∧
      command = { type := .registerNode, name, path := endpoint, bytes } := by
  rw [parseNodeRegister.eq_def] at h
  split at h
  next name endpoint size =>
    cases hbytes : parseSize size with
    | none =>
      rw [hbytes] at h
      split_ifs at h
    | some bytes =>
      rw [hbytes] at h
      split_ifs at h with hname hendpoint
      exact ⟨name, endpoint, size, bytes, rfl, by simpa using hname, hbytes,
        by simpa using hendpoint, (Except.ok.inj h).symm⟩
  next => cases h

theorem eq_of_parseRegister (h : parseRegister args = .ok command) :
    ∃ name size metadata bytes, args = [name, size, metadata] ∧ validName name = true ∧
      parseSize size = some bytes ∧ validMetadata metadata = true ∧
      command = { type := .registerModel, name, bytes, metadata } := by
  rw [parseRegister.eq_def] at h
  split at h
  next name size metadata =>
    cases hbytes : parseSize size with
    | none =>
      rw [hbytes] at h
      split_ifs at h
    | some bytes =>
      rw [hbytes] at h
      split_ifs at h with hname hmetadata
      exact ⟨name, size, metadata, bytes, rfl, by simpa using hname, hbytes,
        by simpa using hmetadata, (Except.ok.inj h).symm⟩
  next => cases h

theorem eq_of_parseRegisterFile (h : parseRegisterFile args = .ok command) :
    ∃ name path metadata, args = [name, path, metadata] ∧ validName name = true ∧
      (path.isEmpty || path.length > 4096) = false ∧ validMetadata metadata = true ∧
      command = { type := .registerFile, name, path, metadata } := by
  rw [parseRegisterFile.eq_def] at h
  split at h
  next name path metadata =>
    split_ifs at h with hname hpath hmetadata
    exact ⟨name, path, metadata, rfl, by simpa using hname, by simpa using hpath,
      by simpa using hmetadata, (Except.ok.inj h).symm⟩
  next => cases h

theorem eq_of_parseTryAcquire (h : parseTryAcquire args = .ok command) :
    ∃ name size bytes, args = [name, size] ∧ validName name = true ∧
      parseSize size = some bytes ∧
      command = { type := .acquire, name, bytes, acquireMode := .try,
                  options := { priority := 0, timeout := 0 } } := by
  rw [parseTryAcquire.eq_def] at h
  split at h
  next name size =>
    split_ifs at h with hname
    split at h
    · cases h
    next bytes hbytes =>
      exact ⟨name, size, bytes, rfl, by simpa using hname, hbytes, (Except.ok.inj h).symm⟩
  next => cases h

theorem eq_of_parseAcquire (h : parseAcquire args = .ok command) :
    ∃ name size optional bytes options, args = name :: size :: optional ∧
      validName name = true ∧ parseSize size = some bytes ∧ parseOptions optional = some options ∧
      command = { type := .acquire, name, bytes, acquireMode := .wait, options } := by
  rw [parseAcquire.eq_def] at h
  split at h
  next name size optional =>
    split_ifs at h with hlength hname
    split at h
    · cases h
    next bytes hbytes =>
      split at h
      · cases h
      next options hoptions =>
        exact ⟨name, size, optional, bytes, options, rfl, by simpa using hname, hbytes, hoptions,
          (Except.ok.inj h).symm⟩
  next => cases h

/-- The options of an `acquire`: none, a priority, a priority and a timeout, or a priority
    and a cost with a token that is not read between them. -/
theorem eq_of_parseOptions {optional : List Str} {options : AcquireOptions}
    (h : parseOptions optional = some options) :
    (optional = [] ∧ options = {}) ∨
      (∃ token priority, optional = [token] ∧ parsePriority token = some priority ∧
        options = { priority }) ∨
      (∃ token token' priority timeout, optional = [token, token'] ∧
        parsePriority token = some priority ∧ parseTimeout token' = some timeout ∧
        options = { priority, timeout }) ∨
      ∃ token skipped token' priority cost, optional = [token, skipped, token'] ∧
        parsePriority token = some priority ∧ parseTimeout token' = some cost ∧
        options = { priority, estimatedCost := cost } := by
  rw [parseOptions.eq_def] at h
  split at h
  next => exact .inl ⟨rfl, (Option.some.inj h).symm⟩
  next token =>
    cases hpriority : parsePriority token with
    | none => simp [hpriority] at h
    | some priority =>
      simp only [hpriority, Option.bind_eq_bind, Option.bind_some, Option.pure_def] at h
      exact .inr (.inl ⟨token, priority, rfl, hpriority, (Option.some.inj h).symm⟩)
  next token token' =>
    cases hpriority : parsePriority token with
    | none => simp [hpriority] at h
    | some priority =>
      cases htimeout : parseTimeout token' with
      | none => simp [hpriority, htimeout] at h
      | some timeout =>
        simp only [hpriority, htimeout, Option.bind_eq_bind, Option.bind_some, Option.pure_def] at h
        exact .inr (.inr (.inl ⟨token, token', priority, timeout, rfl, hpriority, htimeout,
          (Option.some.inj h).symm⟩))
  next token skipped token' =>
    cases hpriority : parsePriority token with
    | none => simp [hpriority] at h
    | some priority =>
      cases hcost : parseTimeout token' with
      | none => simp [hpriority, hcost] at h
      | some cost =>
        simp only [hpriority, hcost, Option.bind_eq_bind, Option.bind_some, Option.pure_def] at h
        exact .inr (.inr (.inr ⟨token, skipped, token', priority, cost, rfl, hpriority, hcost,
          (Option.some.inj h).symm⟩))
  next => cases h

/-! ## The grammar -/

/-- The verbs of the listings. -/
def listingCommands : List (Str × CommandType) :=
  [(ascii "status", .status), (ascii "models", .models), (ascii "residency", .residency),
    (ascii "metrics", .metrics), (ascii "nodes", .nodes)]

/-- The verbs of the commands with a name only. -/
def namedCommands : List (Str × CommandType) :=
  [(ascii "share", .share), (ascii "node_remove", .unregisterNode),
    (ascii "unregister", .unregisterModel), (ascii "retain", .retainModel),
    (ascii "release_model", .releaseModel), (ascii "load", .loadModel),
    (ascii "unload", .unloadModel), (ascii "release", .release)]

/-- An accepted command, from its verb and the tokens after it. -/
inductive Parses : Str → List Str → Command → Prop
  | listing {verb : Str} {type : CommandType} : (verb, type) ∈ listingCommands →
      Parses verb [] { type }
  | named {verb name : Str} {type : CommandType} : (verb, type) ∈ namedCommands →
      validName name = true → Parses verb [name] { type, name }
  | nodeRegister {name endpoint size : Str} {bytes : Bytes} : validName name = true →
      parseSize size = some bytes → (endpoint.isEmpty || endpoint.length > 256) = false →
      Parses (ascii "node_register") [name, endpoint, size]
        { type := .registerNode, name, path := endpoint, bytes }
  | register {name size metadata : Str} {bytes : Bytes} : validName name = true →
      parseSize size = some bytes → validMetadata metadata = true →
      Parses (ascii "register") [name, size, metadata]
        { type := .registerModel, name, bytes, metadata }
  | registerFile {name path metadata : Str} : validName name = true →
      (path.isEmpty || path.length > 4096) = false → validMetadata metadata = true →
      Parses (ascii "register_file") [name, path, metadata]
        { type := .registerFile, name, path, metadata }
  | tryAcquire {name size : Str} {bytes : Bytes} : validName name = true →
      parseSize size = some bytes →
      Parses (ascii "try_acquire") [name, size]
        { type := .acquire, name, bytes, acquireMode := .try,
          options := { priority := 0, timeout := 0 } }
  | acquire {name size : Str} {optional : List Str} {bytes : Bytes} {options : AcquireOptions} :
      validName name = true → parseSize size = some bytes →
      parseOptions optional = some options →
      Parses (ascii "acquire") (name :: size :: optional)
        { type := .acquire, name, bytes, acquireMode := .wait, options }

theorem parses_listing {verb : Str} (hverb : (verb, type) ∈ listingCommands)
    (h : parseListing type args = .ok command) : Parses verb args command := by
  obtain ⟨rfl, rfl⟩ := eq_of_parseListing h
  exact .listing hverb

theorem parses_named {verb : Str} (hverb : (verb, type) ∈ namedCommands)
    (h : parseNamed type invalid args = .ok command) : Parses verb args command := by
  obtain ⟨name, rfl, hname, rfl⟩ := eq_of_parseNamed h
  exact .named hverb hname

/-- The verb decides which parser reads the tokens after it. -/
theorem parses_of_cons {verb : Str} (h : parseTokens (verb :: args) = .ok command) :
    Parses verb args command := by
  rw [parseTokens] at h
  by_cases hstatus : verb = ascii "status"
  · rw [if_pos hstatus] at h
    exact parses_listing (by rw [hstatus]; decide) h
  rw [if_neg hstatus] at h
  by_cases hmodels : verb = ascii "models"
  · rw [if_pos hmodels] at h
    exact parses_listing (by rw [hmodels]; decide) h
  rw [if_neg hmodels] at h
  by_cases hresidency : verb = ascii "residency"
  · rw [if_pos hresidency] at h
    exact parses_listing (by rw [hresidency]; decide) h
  rw [if_neg hresidency] at h
  by_cases hshare : verb = ascii "share"
  · rw [if_pos hshare] at h
    exact parses_named (by rw [hshare]; decide) h
  rw [if_neg hshare] at h
  by_cases hmetrics : verb = ascii "metrics"
  · rw [if_pos hmetrics] at h
    exact parses_listing (by rw [hmetrics]; decide) h
  rw [if_neg hmetrics] at h
  by_cases hnodes : verb = ascii "nodes"
  · rw [if_pos hnodes] at h
    exact parses_listing (by rw [hnodes]; decide) h
  rw [if_neg hnodes] at h
  by_cases hnodeRegister : verb = ascii "node_register"
  · rw [if_pos hnodeRegister] at h
    obtain ⟨name, endpoint, size, bytes, rfl, hname, hbytes, hendpoint, rfl⟩ :=
      eq_of_parseNodeRegister h
    exact hnodeRegister ▸ .nodeRegister hname hbytes hendpoint
  rw [if_neg hnodeRegister] at h
  by_cases hnodeRemove : verb = ascii "node_remove"
  · rw [if_pos hnodeRemove] at h
    exact parses_named (by rw [hnodeRemove]; decide) h
  rw [if_neg hnodeRemove] at h
  by_cases hregister : verb = ascii "register"
  · rw [if_pos hregister] at h
    obtain ⟨name, size, metadata, bytes, rfl, hname, hbytes, hmetadata, rfl⟩ :=
      eq_of_parseRegister h
    exact hregister ▸ .register hname hbytes hmetadata
  rw [if_neg hregister] at h
  by_cases hregisterFile : verb = ascii "register_file"
  · rw [if_pos hregisterFile] at h
    obtain ⟨name, path, metadata, rfl, hname, hpath, hmetadata, rfl⟩ := eq_of_parseRegisterFile h
    exact hregisterFile ▸ .registerFile hname hpath hmetadata
  rw [if_neg hregisterFile] at h
  by_cases hunregister : verb = ascii "unregister"
  · rw [if_pos hunregister] at h
    exact parses_named (by rw [hunregister]; decide) h
  rw [if_neg hunregister] at h
  by_cases hretain : verb = ascii "retain"
  · rw [if_pos hretain] at h
    exact parses_named (by rw [hretain]; decide) h
  rw [if_neg hretain] at h
  by_cases hreleaseModel : verb = ascii "release_model"
  · rw [if_pos hreleaseModel] at h
    exact parses_named (by rw [hreleaseModel]; decide) h
  rw [if_neg hreleaseModel] at h
  by_cases hload : verb = ascii "load"
  · rw [if_pos hload] at h
    exact parses_named (by rw [hload]; decide) h
  rw [if_neg hload] at h
  by_cases hunload : verb = ascii "unload"
  · rw [if_pos hunload] at h
    exact parses_named (by rw [hunload]; decide) h
  rw [if_neg hunload] at h
  by_cases hrelease : verb = ascii "release"
  · rw [if_pos hrelease] at h
    exact parses_named (by rw [hrelease]; decide) h
  rw [if_neg hrelease] at h
  by_cases htryAcquire : verb = ascii "try_acquire"
  · rw [if_pos htryAcquire] at h
    obtain ⟨name, size, bytes, rfl, hname, hbytes, rfl⟩ := eq_of_parseTryAcquire h
    exact htryAcquire ▸ .tryAcquire hname hbytes
  rw [if_neg htryAcquire] at h
  by_cases hacquire : verb = ascii "acquire"
  · rw [if_pos hacquire] at h
    obtain ⟨name, size, optional, bytes, options, rfl, hname, hbytes, hoptions, rfl⟩ :=
      eq_of_parseAcquire h
    exact hacquire ▸ .acquire hname hbytes hoptions
  rw [if_neg hacquire] at h
  cases h

theorem parses_of_parseTokens (h : parseTokens tokens = .ok command) :
    ∃ verb args, tokens = verb :: args ∧ Parses verb args command := by
  cases tokens with
  | nil => cases h
  | cons verb args => exact ⟨verb, args, rfl, parses_of_cons h⟩

/-- The path of a command is one of its tokens, if it has one. -/
theorem path_of_parseTokens (h : parseTokens tokens = .ok command) :
    command.path = [] ∨ command.path ∈ tokens := by
  obtain ⟨verb, args, rfl, hparses⟩ := parses_of_parseTokens h
  cases hparses with
  | nodeRegister => exact .inr (by simp)
  | registerFile => exact .inr (by simp)
  | _ => exact .inl rfl

/-- A client that acquires has a name and a size. -/
theorem le_length_of_acquire (h : parseTokens tokens = .ok command)
    (htype : command.type = .acquire) : 3 ≤ tokens.length := by
  obtain ⟨verb, args, rfl, hparses⟩ := parses_of_parseTokens h
  cases hparses with
  | listing hverb =>
    have hlisting : ∀ p ∈ listingCommands, p.2 ≠ .acquire := by decide
    exact absurd htype (hlisting _ hverb)
  | named hverb _ =>
    have hnamed : ∀ p ∈ namedCommands, p.2 ≠ .acquire := by decide
    exact absurd htype (hnamed _ hverb)
  | tryAcquire => exact le_rfl
  | acquire => exact Nat.le_add_left _ _
  | _ => cases htype

/-- The verbs of the commands whose responses are listings. -/
def listingVerbs : List Str := listingCommands.map (·.1)

/-- Only the verb of a listing makes a command of its type. -/
theorem isListing_of_parseTokens (h : parseTokens tokens = .ok command) :
    (∃ verb ∈ listingVerbs, tokens = [verb]) ∧ command.type.isListing = true ∨
      (∃ verb args, tokens = verb :: args ∧ verb ∉ listingVerbs) ∧
        command.type.isListing = false := by
  obtain ⟨verb, args, rfl, hparses⟩ := parses_of_parseTokens h
  cases hparses with
  | listing hverb =>
    have hlisting : ∀ p ∈ listingCommands, p.2.isListing = true := by decide
    exact .inl ⟨⟨verb, List.mem_map_of_mem hverb, rfl⟩, hlisting _ hverb⟩
  | @named _ name _ hverb _ =>
    have hnamed : ∀ p ∈ namedCommands, p.1 ∉ listingVerbs ∧ p.2.isListing = false := by decide
    exact .inr ⟨⟨verb, [name], rfl, (hnamed _ hverb).1⟩, (hnamed _ hverb).2⟩
  | nodeRegister => exact .inr ⟨⟨_, _, rfl, by decide⟩, rfl⟩
  | register => exact .inr ⟨⟨_, _, rfl, by decide⟩, rfl⟩
  | registerFile => exact .inr ⟨⟨_, _, rfl, by decide⟩, rfl⟩
  | tryAcquire => exact .inr ⟨⟨_, _, rfl, by decide⟩, rfl⟩
  | acquire => exact .inr ⟨⟨_, _, rfl, by decide⟩, rfl⟩

theorem isListing_iff {verb : Str} (h : parseTokens (verb :: args) = .ok command) :
    command.type.isListing = true ↔ verb ∈ listingVerbs := by
  rcases isListing_of_parseTokens h with ⟨⟨verb', hverb, heq⟩, hlisting⟩ |
    ⟨⟨verb', args', heq, hverb⟩, hlisting⟩
  · obtain ⟨rfl, -⟩ := List.cons.inj heq
    simp [hlisting, hverb]
  · obtain ⟨rfl, -⟩ := List.cons.inj heq
    simp [hlisting, hverb]

/-! ## Plain tokens -/

/-- All bytes of the token are above the blank. -/
def Plain (token : Str) : Prop := ∀ c ∈ token, 32 < c

instance : Decidable (Plain token) := List.decidableBAll (fun c => 32 < c) token

theorem Plain.notMem (h : Plain token) {c : UInt8} (hc : c ≤ 32) : c ∉ token := fun hmem =>
  absurd (h c hmem) (UInt8.not_lt.2 hc)

theorem plain_of_mem_listingVerbs (h : token ∈ listingVerbs) : Plain token := by
  have hverbs : ∀ verb ∈ listingVerbs, Plain verb := by decide
  exact hverbs token h

theorem plain_of_isDigit (h : ∀ c ∈ token, isDigit c = true) : Plain token := by
  intro c hc
  obtain ⟨hlow, _⟩ := isDigit_iff.1 (h c hc)
  rw [UInt8.lt_iff_toNat_lt]
  exact lt_of_lt_of_le (by decide) hlow

theorem plain_of_validName (h : validName token = true) : Plain token := by
  intro c hc
  have hname := (nameShape_iff.1 h).2.2 c hc
  rw [UInt8.lt_iff_toNat_lt]
  simp only [isNameByte, Bool.or_eq_true, Bool.and_eq_true, decide_eq_true_eq, beq_iff_eq,
    UInt8.le_iff_toNat_le] at hname
  -- the smallest byte of a name is the hyphen
  have hbytes : 'a'.toUInt8.toNat = 97 ∧ 'A'.toUInt8.toNat = 65 ∧ '0'.toUInt8.toNat = 48 := by decide
  have hothers : '_'.toUInt8.toNat = 95 ∧ '-'.toUInt8.toNat = 45 ∧ '.'.toUInt8.toNat = 46 := by decide
  show 32 < c.toNat
  rcases hname with (((h | h) | h) | h) | h
  · rcases h with h | h <;> omega
  · omega
  · rw [h]; omega
  · rw [h]; omega
  · rw [h]; omega

theorem plain_of_validMetadata (h : validMetadata token = true) : Plain token := by
  intro c hc
  rw [validMetadata] at h
  split_ifs at h
  have hbyte := List.all_eq_true.1 h c hc
  simp only [Bool.and_eq_true, decide_eq_true_eq, bne_iff_ne, ne_eq] at hbyte
  obtain ⟨⟨⟨hlow, _⟩, hblank⟩, _⟩ := hbyte
  exact UInt8.lt_of_le_of_ne hlow (Ne.symm hblank)

/-- A numeral that is read to its end consists of digits. -/
theorem isDigit_of_fromChars {value : UInt64} (h : fromChars token = some (value, [])) :
    ∀ c ∈ token, isDigit c = true := by
  rw [fromChars] at h
  split_ifs at h
  obtain ⟨-, hrest⟩ := Prod.mk.inj (Option.some.inj h)
  exact List.dropWhile_eq_nil_iff.1 hrest

theorem plain_of_parseUnsigned {value : UInt64} (h : parseUnsigned token = some value) :
    Plain token := by
  rw [parseUnsigned] at h
  split_ifs at h
  split at h
  · cases h
  next value' rest hchars =>
    split_ifs at h with hrest
    rw [List.isEmpty_iff] at hrest
    exact plain_of_isDigit (isDigit_of_fromChars (hrest ▸ hchars))

theorem plain_of_parseTimeout {timeout : Millis} (h : parseTimeout token = some timeout) :
    Plain token := by
  rw [parseTimeout] at h
  split at h
  · cases h
  next value hvalue => exact plain_of_parseUnsigned hvalue

theorem plain_of_parsePriority {priority : Int32} (h : parsePriority token = some priority) :
    Plain token := by
  cases token with
  | nil => exact fun c hc => absurd hc List.not_mem_nil
  | cons sign rest =>
    rw [parsePriority] at h
    dsimp only at h
    split at h
    · cases h
    next magnitude hmagnitude =>
      have hplain := plain_of_parseUnsigned hmagnitude
      split_ifs at hplain with hsign
      · -- a sign is above the blank, too
        rw [Bool.or_eq_true, decide_eq_true_eq, decide_eq_true_eq] at hsign
        refine List.forall_mem_cons.2 ⟨?_, hplain⟩
        rcases hsign with rfl | rfl
        · decide
        · decide
      · exact hplain

theorem isDigit_of_any_eq_false {digits : Str} (h : (digits.any fun c => !isDigit c) = false) :
    ∀ c ∈ digits, isDigit c = true := by
  simpa [List.any_eq_false] using h

theorem plain_of_parseSize {bytes : Bytes} (h : parseSize token = some bytes) : Plain token := by
  rw [parseSize] at h
  split at h
  next digits multiplier hunit =>
    split_ifs at h with hdigits
    rw [Bool.or_eq_true, not_or, Bool.not_eq_true, Bool.not_eq_true] at hdigits
    have hplain : Plain digits := plain_of_isDigit (isDigit_of_any_eq_false hdigits.2)
    split at hunit
    next suffix value hfind =>
      obtain ⟨rfl, rfl⟩ := Prod.mk.inj hunit
      -- the digits are in front of a unit, which is one of a few
      have hunits : ∀ p ∈ suffixes, Plain p.1 := by decide
      have hsuffix := List.find?_some hfind
      obtain ⟨front, rfl⟩ : suffix <:+ token := List.isSuffixOf_iff_suffix.1 hsuffix
      rw [List.length_append, Nat.add_sub_cancel, List.take_left] at hplain
      intro c hc
      rcases List.mem_append.1 hc with hc | hc
      · exact hplain c hc
      · exact hunits _ (List.mem_of_find?_eq_some hfind) c hc
    next =>
      obtain ⟨rfl, rfl⟩ := Prod.mk.inj hunit
      exact hplain

/-- The tokens of an accepted command are plain, but for a path or an endpoint, and for the
    timeout of an `acquire` with a cost, which is not read. -/
theorem plain_of_parseTokens (h : parseTokens tokens = .ok command) :
    (∀ token ∈ tokens, Plain token) ∨
      (∃ verb name last, tokens = [verb, name, command.path, last] ∧ verb ≠ ascii "acquire" ∧
        Plain verb ∧ Plain name ∧ Plain last) ∨
      ∃ name size token skipped token' bytes priority cost,
        tokens = [ascii "acquire", name, size, token, skipped, token'] ∧
          validName name = true ∧ parseSize size = some bytes ∧
          parsePriority token = some priority ∧ parseTimeout token' = some cost ∧
          command = { type := .acquire, name, bytes, acquireMode := .wait,
                      options := { priority, estimatedCost := cost } } := by
  obtain ⟨verb, args, rfl, hparses⟩ := parses_of_parseTokens h
  cases hparses with
  | listing hverb =>
    have hlisting : ∀ p ∈ listingCommands, Plain p.1 := by decide
    exact .inl (by simpa using hlisting _ hverb)
  | named hverb hname =>
    have hnamed : ∀ p ∈ namedCommands, Plain p.1 := by decide
    exact .inl (by simpa using ⟨hnamed _ hverb, plain_of_validName hname⟩)
  | nodeRegister hname hbytes _ =>
    exact .inr (.inl ⟨_, _, _, rfl, by decide, by decide, plain_of_validName hname,
      plain_of_parseSize hbytes⟩)
  | register hname hbytes hmetadata =>
    refine .inl ?_
    simp only [List.forall_mem_cons]
    exact ⟨by decide, plain_of_validName hname, plain_of_parseSize hbytes,
      plain_of_validMetadata hmetadata, List.forall_mem_nil _⟩
  | registerFile hname _ hmetadata =>
    exact .inr (.inl ⟨_, _, _, rfl, by decide, by decide, plain_of_validName hname,
      plain_of_validMetadata hmetadata⟩)
  | tryAcquire hname hbytes =>
    refine .inl ?_
    simp only [List.forall_mem_cons]
    exact ⟨by decide, plain_of_validName hname, plain_of_parseSize hbytes, List.forall_mem_nil _⟩
  | acquire hname hbytes hoptions =>
    have hverb : Plain (ascii "acquire") := by decide
    have hname' := plain_of_validName hname
    have hsize := plain_of_parseSize hbytes
    rcases eq_of_parseOptions hoptions with ⟨rfl, rfl⟩ | ⟨token, priority, rfl, hpriority, rfl⟩ |
      ⟨token, token', priority, timeout, rfl, hpriority, htimeout, rfl⟩ |
      ⟨token, skipped, token', priority, cost, rfl, hpriority, hcost, rfl⟩
    · refine .inl ?_
      simp only [List.forall_mem_cons]
      exact ⟨hverb, hname', hsize, List.forall_mem_nil _⟩
    · refine .inl ?_
      simp only [List.forall_mem_cons]
      exact ⟨hverb, hname', hsize, plain_of_parsePriority hpriority, List.forall_mem_nil _⟩
    · refine .inl ?_
      simp only [List.forall_mem_cons]
      exact ⟨hverb, hname', hsize, plain_of_parsePriority hpriority, plain_of_parseTimeout htimeout,
        List.forall_mem_nil _⟩
    · exact .inr (.inr ⟨_, _, _, _, _, _, _, _, rfl, hname, hbytes, hpriority, hcost, rfl⟩)

/-- The name of a command is plain, if it has one. -/
theorem plain_name_of_parseTokens (h : parseTokens tokens = .ok command) : Plain command.name := by
  obtain ⟨verb, args, rfl, hparses⟩ := parses_of_parseTokens h
  cases hparses with
  | listing => exact fun _ hc => absurd hc List.not_mem_nil
  | named _ hname => exact plain_of_validName hname
  | nodeRegister hname => exact plain_of_validName hname
  | register hname => exact plain_of_validName hname
  | registerFile hname => exact plain_of_validName hname
  | tryAcquire hname => exact plain_of_validName hname
  | acquire hname => exact plain_of_validName hname

/-- The last token of an accepted command is plain. -/
theorem plain_getLast_of_parseTokens (h : parseTokens tokens = .ok command) {token : Str}
    (htoken : token ∈ tokens.getLast?) : Plain token := by
  rcases plain_of_parseTokens h with hplain | ⟨verb, name, last, rfl, _, _, _, hlast⟩ |
    ⟨name, size, priority, skipped, cost, _, _, _, rfl, _, _, _, hcost, _⟩
  · exact hplain token (List.mem_of_getLast? htoken)
  · obtain rfl := Option.mem_some.1 htoken
    exact hlast
  · obtain rfl := Option.mem_some.1 htoken
    exact plain_of_parseTimeout hcost

end Protocol

end Gpumemd
