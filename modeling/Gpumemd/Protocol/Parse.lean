import Mathlib.Data.List.TakeWhile
import Gpumemd.Library.Decimal
import Gpumemd.Library.Tokens
import Gpumemd.Resource.Manager

/-!
# The command parser

`parse_command` (`src/protocol/protocol.cpp`): a line is cut into tokens at blanks
and tabs, the first of which is the verb; each verb checks the number of its tokens
and then their contents. Failures are `ParseError`s, and the order of the checks
decides which one is reported.
-/

namespace Gpumemd

open Library

/-- `CommandType`. -/
inductive CommandType
  | acquire
  | release
  | status
  | registerModel
  | registerFile
  | share
  | metrics
  | registerNode
  | unregisterNode
  | nodes
  | unregisterModel
  | retainModel
  | releaseModel
  | models
  | loadModel
  | unloadModel
  | residency
  deriving DecidableEq

/-- `AcquireMode`. -/
inductive AcquireMode
  | wait
  | try
  deriving DecidableEq

/-- `ParseError`, but for `None`: a successful parse has a command instead. -/
inductive ParseError
  | invalidRequest
  | invalidSize
  | invalidName
  | invalidModelId
  | invalidMetadata
  | invalidPath
  deriving DecidableEq

/-- `Command`. -/
structure Command where
  type : CommandType := .status
  name : Str := []
  bytes : Bytes := 0
  acquireMode : AcquireMode := .wait
  options : AcquireOptions := {}
  metadata : Str := []
  path : Str := []
  deriving DecidableEq

namespace Protocol

/-- `valid_name`. -/
def validName (name : Str) : Bool := nameShape name

/-- `valid_metadata`. -/
def validMetadata (metadata : Str) : Bool :=
  if metadata.isEmpty || metadata.length > 128 then false
  else metadata.all fun character =>
    32 ≤ character && character < 127 && character != ' '.toUInt8 && character != '\t'.toUInt8

/-! ## Numbers -/

/-- `std::from_chars` for `std::uint64_t`: the value of the digits at the front, if
    there are any and it fits, and what follows them. -/
def fromChars (text : Str) : Option (UInt64 × Str) :=
  let digits := text.takeWhile isDigit
  if digits.isEmpty || 2 ^ 64 ≤ value digits then none
  else some (UInt64.ofNat (value digits), text.dropWhile isDigit)

/-- The units of `parse_size`, in the order in which it tries them. -/
def suffixes : List (Str × Bytes) :=
  [(ascii "KiB", 1024), (ascii "MiB", 1024 * 1024), (ascii "GiB", 1024 * 1024 * 1024),
    (ascii "KB", 1000), (ascii "MB", 1000 * 1000), (ascii "GB", 1000 * 1000 * 1000),
    (ascii "B", 1)]

/-- `parse_size`. -/
def parseSize (token : Str) : Option Bytes :=
  let (digits, multiplier) :=
    match suffixes.find? fun (suffix, _) => suffix.isSuffixOf token with
    | some (suffix, value) => (token.take (token.length - suffix.length), value)
    | none => (token, 1)
  if digits.isEmpty || digits.any fun character => !isDigit character then none
  else
    match fromChars digits with
    | none => none
    | some (value, rest) =>
      if !rest.isEmpty || value = 0 || value > Bytes.max / multiplier then none
      else some (value * multiplier)

/-- `parse_bytes`. -/
def parseBytes (token : Str) : Option Bytes := parseSize token

/-- `parse_unsigned`. -/
def parseUnsigned (token : Str) : Option UInt64 :=
  if token.isEmpty then none
  else
    match fromChars token with
    | none => none
    | some (value, rest) => if rest.isEmpty then some value else none

/-- `parse_priority`. -/
def parsePriority (token : Str) : Option Int32 :=
  match token with
  | [] => none
  | sign :: rest =>
    let negative := sign = '-'.toUInt8
    let token := if sign = '-'.toUInt8 || sign = '+'.toUInt8 then rest else token
    match parseUnsigned token with
    | none => none
    | some magnitude =>
      let positiveLimit : UInt64 := 2147483647
      let negativeLimit := positiveLimit + 1
      if magnitude > (if negative then negativeLimit else positiveLimit) then none
      else if negative then
        if magnitude = negativeLimit then some Int32.minValue
        else some (-Int32.ofInt magnitude.toNat)
      else some (Int32.ofInt magnitude.toNat)

/-- `parse_timeout`. -/
def parseTimeout (token : Str) : Option Millis :=
  match parseUnsigned token with
  | none => none
  | some value => if value > Millis.max.toUInt64 then none else some value.toInt64

/-! ## Commands -/

/-- A blank between tokens. -/
def isBlank (character : UInt8) : Bool := character == ' '.toUInt8 || character == '\t'.toUInt8

/-- `tokenize`. -/
def tokenize (line : Str) : List Str := tokens isBlank line

/-- A command that is only a verb. -/
def parseListing (type : CommandType) : List Str → Except ParseError Command
  | [] => .ok { type }
  | _ => .error .invalidRequest

/-- A command with a name. -/
def parseNamed (type : CommandType) (invalid : ParseError) : List Str → Except ParseError Command
  | [name] => if !validName name then .error invalid else .ok { type, name }
  | _ => .error .invalidRequest

/-- `node_register`. -/
def parseNodeRegister : List Str → Except ParseError Command
  | [name, endpoint, size] =>
    if !validName name then .error .invalidName
    else
      match parseSize size with
      | none => .error .invalidSize
      | some bytes =>
        if endpoint.isEmpty || endpoint.length > 256 then .error .invalidRequest
        else .ok { type := .registerNode, name, path := endpoint, bytes }
  | _ => .error .invalidRequest

/-- `register`. -/
def parseRegister : List Str → Except ParseError Command
  | [name, size, metadata] =>
    if !validName name then .error .invalidModelId
    else
      match parseSize size with
      | none => .error .invalidSize
      | some bytes =>
        if !validMetadata metadata then .error .invalidMetadata
        else .ok { type := .registerModel, name, bytes, metadata }
  | _ => .error .invalidRequest

/-- `register_file`. -/
def parseRegisterFile : List Str → Except ParseError Command
  | [name, path, metadata] =>
    if !validName name then .error .invalidModelId
    else if path.isEmpty || path.length > 4096 then .error .invalidPath
    else if !validMetadata metadata then .error .invalidMetadata
    else .ok { type := .registerFile, name, path, metadata }
  | _ => .error .invalidRequest

/-- `try_acquire`. -/
def parseTryAcquire : List Str → Except ParseError Command
  | [name, size] =>
    if !validName name then .error .invalidName
    else
      match parseSize size with
      | none => .error .invalidSize
      | some bytes =>
        .ok { type := .acquire, name, bytes, acquireMode := .try,
              options := { priority := 0, timeout := 0 } }
  | _ => .error .invalidRequest

/-- The options of `acquire`, from the tokens after the size. Of three, the second is
    not read. -/
def parseOptions : List Str → Option AcquireOptions
  | [] => some {}
  | [priority] => do
    return { priority := ← parsePriority priority }
  | [priority, timeout] => do
    return { priority := ← parsePriority priority, timeout := ← parseTimeout timeout }
  | [priority, _, cost] => do
    return { priority := ← parsePriority priority, estimatedCost := ← parseTimeout cost }
  | _ => none

/-- `acquire`. -/
def parseAcquire : List Str → Except ParseError Command
  | name :: size :: optional =>
    if optional.length > 3 then .error .invalidRequest
    else if !validName name then .error .invalidName
    else
      match parseSize size with
      | none => .error .invalidSize
      | some bytes =>
        match parseOptions optional with
        | none => .error .invalidRequest
        | some options => .ok { type := .acquire, name, bytes, acquireMode := .wait, options }
  | _ => .error .invalidRequest

/-- The command of a list of tokens. -/
def parseTokens : List Str → Except ParseError Command
  | [] => .error .invalidRequest
  | verb :: args =>
    if verb = ascii "status" then parseListing .status args
    else if verb = ascii "models" then parseListing .models args
    else if verb = ascii "residency" then parseListing .residency args
    else if verb = ascii "share" then parseNamed .share .invalidModelId args
    else if verb = ascii "metrics" then parseListing .metrics args
    else if verb = ascii "nodes" then parseListing .nodes args
    else if verb = ascii "node_register" then parseNodeRegister args
    else if verb = ascii "node_remove" then parseNamed .unregisterNode .invalidName args
    else if verb = ascii "register" then parseRegister args
    else if verb = ascii "register_file" then parseRegisterFile args
    else if verb = ascii "unregister" then parseNamed .unregisterModel .invalidModelId args
    else if verb = ascii "retain" then parseNamed .retainModel .invalidModelId args
    else if verb = ascii "release_model" then parseNamed .releaseModel .invalidModelId args
    else if verb = ascii "load" then parseNamed .loadModel .invalidModelId args
    else if verb = ascii "unload" then parseNamed .unloadModel .invalidModelId args
    else if verb = ascii "release" then parseNamed .release .invalidName args
    else if verb = ascii "try_acquire" then parseTryAcquire args
    else if verb = ascii "acquire" then parseAcquire args
    else .error .invalidRequest

/-- `parse_command`. -/
def parseCommand (line : Str) : Except ParseError Command := parseTokens (tokenize line)

theorem parseTokens_acquire (args : List Str) :
    parseTokens (ascii "acquire" :: args) = parseAcquire args := rfl

/-! ## Numerals -/

theorem fromChars_numeral {n : ℕ} (hn : n < 2 ^ 64) :
    fromChars (numeral n) = some (UInt64.ofNat n, []) := by
  have hdigits : ∀ c ∈ numeral n, isDigit c = true := fun c hc => isDigit_of_mem_numeral hc
  have htake : (numeral n).takeWhile isDigit = numeral n := List.takeWhile_eq_self_iff.2 hdigits
  have hdrop : (numeral n).dropWhile isDigit = [] := List.dropWhile_eq_nil_iff.2 hdigits
  have hempty : (numeral n).isEmpty = false := by simp [numeral_ne_nil]
  have hfit : ¬ 2 ^ 64 ≤ n := not_le.2 hn
  simp only [fromChars, htake, hdrop, value_numeral, hempty, hfit, decide_false, Bool.or_self,
    Bool.false_eq_true, if_false]

theorem parseUnsigned_numeral {n : ℕ} (hn : n < 2 ^ 64) :
    parseUnsigned (numeral n) = some (UInt64.ofNat n) := by
  rw [parseUnsigned, fromChars_numeral hn]
  simp [numeral_ne_nil]

/-- No numeral ends with a unit. -/
theorem find?_suffixes_numeral (n : ℕ) :
    (suffixes.find? fun (suffix, _) => suffix.isSuffixOf (numeral n)) = none := by
  -- every unit has a `B`, which is no digit
  have hunit : ∀ p ∈ suffixes, 'B'.toUInt8 ∈ p.1 := by decide
  rw [List.find?_eq_none]
  rintro ⟨suffix, value⟩ hp hsuffix
  have hmem : 'B'.toUInt8 ∈ numeral n := (List.isSuffixOf_iff_suffix.1 hsuffix).subset (hunit _ hp)
  exact absurd (isDigit_of_mem_numeral hmem) (by decide)

/-- A size written in bytes is read as it is. -/
theorem parseSize_numeral {bytes : Bytes} (hbytes : bytes ≠ 0) :
    parseSize (numeral bytes.toNat) = some bytes := by
  have hdigits : ((numeral bytes.toNat).any fun c => !isDigit c) = false := by
    rw [List.any_eq_false]
    intro c hc
    simp [isDigit_of_mem_numeral hc]
  have hempty : (numeral bytes.toNat).isEmpty = false := by simp [numeral_ne_nil]
  -- without a unit the multiplier is one, so the product cannot overflow
  have hfit : ¬ bytes > Bytes.max / 1 := by
    rw [UInt64.div_one]
    exact UInt64.not_lt.2 bytes.le_max
  simp only [parseSize, find?_suffixes_numeral, hempty, hdigits, Bool.or_self, Bool.false_eq_true,
    if_false, fromChars_numeral bytes.toNat_lt, UInt64.ofNat_toNat, List.isEmpty_nil, Bool.not_true,
    hbytes, hfit, decide_false, UInt64.mul_one]

/-- A numeral does not start with a sign. -/
theorem exists_numeral_eq_cons (n : ℕ) :
    ∃ d rest, numeral n = d :: rest ∧ d ≠ '-'.toUInt8 ∧ d ≠ '+'.toUInt8 := by
  obtain ⟨d, rest, hd⟩ := List.exists_cons_of_ne_nil (numeral_ne_nil n)
  have hdigit : isDigit d = true := isDigit_of_mem_numeral (hd ▸ List.mem_cons_self)
  refine ⟨d, rest, hd, ?_, ?_⟩
  · rintro rfl
    exact absurd hdigit (by decide)
  · rintro rfl
    exact absurd hdigit (by decide)

/-- A priority is read as it is written. -/
theorem parsePriority_signedNumeral (priority : Int32) :
    parsePriority (signedNumeral priority.toInt) = some priority := by
  have hlow := priority.le_toInt
  have hhigh := priority.toInt_lt
  have hmagnitude : priority.toInt.natAbs < 2 ^ 64 := by omega
  have htoNat : (UInt64.ofNat priority.toInt.natAbs).toNat = priority.toInt.natAbs :=
    UInt64.toNat_ofNat_of_lt hmagnitude
  rw [signedNumeral]
  split_ifs with hneg
  · -- a negative priority: the smallest one has no positive counterpart
    have hle : ¬ UInt64.ofNat priority.toInt.natAbs > 2147483647 + 1 := by
      rw [gt_iff_lt, UInt64.lt_iff_toNat_lt, htoNat]
      show ¬ 2147483648 < _
      omega
    have hvalue : -Int32.ofInt priority.toInt.natAbs = priority := by
      have habs : ((priority.toInt.natAbs : ℕ) : ℤ) = -priority.toInt := by omega
      rw [← Int32.ofInt_neg, habs, neg_neg, Int32.ofInt_toInt]
    rw [parsePriority]
    simp only [decide_true, Bool.true_or, if_true, parseUnsigned_numeral hmagnitude, hle, if_false,
      htoNat, hvalue]
    split_ifs with hmin
    · have hmin' : priority.toInt.natAbs = 2147483648 := by
        rw [← htoNat, hmin]
        rfl
      rw [← hvalue, hmin']
      rfl
    · rfl
  · -- a priority without a sign starts with a digit
    obtain ⟨d, rest, hd, hminus, hplus⟩ := exists_numeral_eq_cons priority.toInt.natAbs
    have hle : ¬ UInt64.ofNat priority.toInt.natAbs > 2147483647 := by
      rw [gt_iff_lt, UInt64.lt_iff_toNat_lt, htoNat]
      show ¬ 2147483647 < _
      omega
    have hvalue : Int32.ofInt priority.toInt.natAbs = priority := by
      rw [Int.natAbs_of_nonneg (not_lt.1 hneg), Int32.ofInt_toInt]
    have hunsigned := parseUnsigned_numeral hmagnitude
    rw [hd] at hunsigned ⊢
    rw [parsePriority]
    simp only [hminus, hplus, decide_false, Bool.or_self, Bool.false_eq_true, if_false, hunsigned,
      hle, htoNat, hvalue]

/-- A nonnegative duration is read as it is written. -/
theorem parseTimeout_signedNumeral {timeout : Millis} (htimeout : 0 ≤ timeout) :
    parseTimeout (signedNumeral timeout.toInt) = some timeout := by
  have hlow : 0 ≤ timeout.toInt := Int64.le_iff_toInt_le.1 htimeout
  have hhigh := timeout.toInt_lt
  have hmagnitude : timeout.toInt.natAbs < 2 ^ 64 := by omega
  have htoNat : (UInt64.ofNat timeout.toInt.natAbs).toNat = timeout.toInt.natAbs :=
    UInt64.toNat_ofNat_of_lt hmagnitude
  -- a nonnegative duration is within the limit that the parser checks
  have hle : ¬ UInt64.ofNat timeout.toInt.natAbs > Millis.max.toUInt64 := by
    rw [gt_iff_lt, UInt64.lt_iff_toNat_lt, htoNat]
    show ¬ 2 ^ 63 - 1 < _
    omega
  have hvalue : (UInt64.ofNat timeout.toInt.natAbs).toInt64 = timeout := by
    rw [UInt64.toInt64_ofNat', ← Int64.ofInt_eq_ofNat, Int.natAbs_of_nonneg hlow,
      Int64.ofInt_toInt]
  rw [signedNumeral, if_neg (not_lt.2 hlow), parseTimeout]
  simp only [parseUnsigned_numeral hmagnitude, hle, if_false, hvalue]

end Protocol

end Gpumemd
