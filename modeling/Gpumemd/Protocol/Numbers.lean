import Mathlib.Data.List.Find
import Gpumemd.Protocol.Parse

/-!
# The numbers of the commands

What sizes, priorities and durations are, as texts, and that the parser of each reads exactly
these (`parseSize_iff`, `parsePriority_iff`, `parseTimeout_iff`). What `parse_bytes` gives to
its callers is the exact number of bytes of a size, which is at most `2 ^ 64 - 1`
(`parseBytes_iff`).
-/

namespace Gpumemd

open Library

namespace Protocol

/-- One or more digits. -/
def IsDecimal (text : Str) : Prop := text ≠ [] ∧ ∀ c ∈ text, isDigit c = true

/-- What may follow the digits of a size, and how many bytes it stands for. -/
def units : List (Str × ℕ) :=
  [([], 1), (ascii "B", 1), (ascii "KB", 1000), (ascii "MB", 1000 ^ 2), (ascii "GB", 1000 ^ 3),
    (ascii "KiB", 1024), (ascii "MiB", 1024 ^ 2), (ascii "GiB", 1024 ^ 3)]

/-- The text is a size of this many bytes: a decimal, with or without a unit. -/
def IsSize (text : Str) (bytes : Bytes) : Prop :=
  ∃ digits, IsDecimal digits ∧ ∃ unit ∈ units, text = digits ++ unit.1 ∧
    1 ≤ value digits * unit.2 ∧ value digits * unit.2 ≤ 2 ^ 64 - 1 ∧
    bytes.toNat = value digits * unit.2

/-- The text is a priority: a decimal in the range of `int`, with or without a sign. -/
def IsPriority (text : Str) (priority : Int32) : Prop :=
  ∃ digits, IsDecimal digits ∧
    ((text = digits ∨ text = '+'.toUInt8 :: digits) ∧ value digits ≤ 2 ^ 31 - 1 ∧
        priority.toInt = value digits ∨
      text = '-'.toUInt8 :: digits ∧ value digits ≤ 2 ^ 31 ∧ priority.toInt = -value digits)

/-- The text is a number of milliseconds: a decimal in the range of `std::chrono`. -/
def IsDuration (text : Str) (duration : Millis) : Prop :=
  IsDecimal text ∧ value text ≤ 2 ^ 63 - 1 ∧ duration.toInt = value text

variable {text digits : Str}

/-! ## Decimals -/

theorem IsDecimal.takeWhile (h : IsDecimal digits) : digits.takeWhile isDigit = digits :=
  List.takeWhile_eq_self_iff.2 h.2

theorem IsDecimal.dropWhile (h : IsDecimal digits) : digits.dropWhile isDigit = [] :=
  List.dropWhile_eq_nil_iff.2 h.2

/-- `std::from_chars` reads a decimal to its end, if it fits. -/
theorem fromChars_of_isDecimal (h : IsDecimal digits) : fromChars digits =
    if value digits < 2 ^ 64 then some (UInt64.ofNat (value digits), []) else none := by
  have hempty : digits.isEmpty = false := by simpa using h.1
  rw [fromChars, h.takeWhile, h.dropWhile, hempty]
  split_ifs with hfail hlt hlt
  · rw [Bool.false_or, decide_eq_true_eq] at hfail
    omega
  · rfl
  · rfl
  · rw [Bool.false_or, decide_eq_true_eq] at hfail
    omega

/-- `std::from_chars` reads the whole text only if it is a decimal. -/
theorem isDecimal_of_fromChars {n : UInt64} (h : fromChars text = some (n, [])) : IsDecimal text := by
  rw [fromChars] at h
  split_ifs at h with hfail
  obtain ⟨-, hrest⟩ := Prod.mk.inj (Option.some.inj h)
  have hdigits := List.dropWhile_eq_nil_iff.1 hrest
  refine ⟨?_, hdigits⟩
  rintro rfl
  exact hfail rfl

theorem parseUnsigned_iff {n : UInt64} :
    parseUnsigned text = some n ↔ IsDecimal text ∧ value text = n.toNat := by
  constructor
  · intro h
    rw [parseUnsigned] at h
    split_ifs at h
    split at h
    next => cases h
    next m rest hchars =>
      split_ifs at h with hrest
      obtain rfl := List.isEmpty_iff.1 hrest
      obtain rfl := Option.some.inj h
      have hdecimal := isDecimal_of_fromChars hchars
      rw [fromChars_of_isDecimal hdecimal] at hchars
      split_ifs at hchars with hlt
      obtain ⟨rfl, -⟩ := Prod.mk.inj (Option.some.inj hchars)
      exact ⟨hdecimal, (UInt64.toNat_ofNat_of_lt' hlt).symm⟩
  · rintro ⟨hdecimal, hvalue⟩
    have hlt : value text < 2 ^ 64 := hvalue ▸ n.toNat_lt
    have hempty : text.isEmpty = false := by simpa using hdecimal.1
    rw [parseUnsigned, hempty, fromChars_of_isDecimal hdecimal, if_pos hlt, hvalue]
    simp

/-! ## Durations and priorities -/

theorem parseTimeout_iff {duration : Millis} :
    parseTimeout text = some duration ↔ IsDuration text duration := by
  constructor
  · intro h
    rw [parseTimeout] at h
    split at h
    next => cases h
    next n hn =>
      split_ifs at h with hle
      obtain rfl := Option.some.inj h
      obtain ⟨hdecimal, hvalue⟩ := parseUnsigned_iff.1 hn
      have hmax : n.toNat ≤ 2 ^ 63 - 1 := UInt64.le_iff_toNat_le.1 (UInt64.not_lt.1 hle)
      refine ⟨hdecimal, hvalue ▸ hmax, ?_⟩
      have hn' : n.toInt64 = Int64.ofInt n.toNat := by
        rw [Int64.ofInt_eq_ofNat, ← UInt64.toInt64_ofNat', UInt64.ofNat_toNat]
      rw [hvalue, hn', Int64.toInt_ofInt_of_le (by omega) (by omega)]
  · rintro ⟨hdecimal, hle, hvalue⟩
    have hlt : value text < 2 ^ 64 := by omega
    have hn : parseUnsigned text = some (UInt64.ofNat (value text)) :=
      parseUnsigned_iff.2 ⟨hdecimal, (UInt64.toNat_ofNat_of_lt' hlt).symm⟩
    have hmax : ¬ UInt64.ofNat (value text) > Millis.max.toUInt64 := by
      rw [gt_iff_lt, UInt64.lt_iff_toNat_lt, UInt64.toNat_ofNat_of_lt' hlt]
      show ¬ 2 ^ 63 - 1 < _
      omega
    have hduration : (UInt64.ofNat (value text)).toInt64 = duration := by
      rw [UInt64.toInt64_ofNat', ← Int64.ofInt_eq_ofNat, ← hvalue, Int64.ofInt_toInt]
    rw [parseTimeout, hn]
    simp only [hmax, if_false, hduration]

/-- The number of a text after its sign. -/
def signed (negative : Bool) (magnitude : UInt64) : Option Int32 :=
  if magnitude > (if negative then 2147483647 + 1 else 2147483647) then none
  else if negative then
    if magnitude = 2147483647 + 1 then some Int32.minValue else some (-Int32.ofInt magnitude.toNat)
  else some (Int32.ofInt magnitude.toNat)

/-- A positive number is at most `2 ^ 31 - 1`, a negative one at least `-2 ^ 31`. -/
theorem signed_iff {negative : Bool} {magnitude : UInt64} {priority : Int32} :
    signed negative magnitude = some priority ↔
      if negative then magnitude.toNat ≤ 2 ^ 31 ∧ priority.toInt = -magnitude.toNat
      else magnitude.toNat ≤ 2 ^ 31 - 1 ∧ priority.toInt = magnitude.toNat := by
  rw [signed]
  cases negative with
  | false =>
    simp only [Bool.false_eq_true, if_false]
    split_ifs with hmax
    · have hgt : 2 ^ 31 - 1 < magnitude.toNat := UInt64.lt_iff_toNat_lt.1 hmax
      exact ⟨nofun, fun h => absurd h.1 (Nat.not_le.2 hgt)⟩
    · have hle : magnitude.toNat ≤ 2 ^ 31 - 1 := UInt64.le_iff_toNat_le.1 (UInt64.not_lt.1 hmax)
      have hint : (Int32.ofInt magnitude.toNat).toInt = magnitude.toNat :=
        Int32.toInt_ofInt_of_le (by omega) (by omega)
      rw [Option.some_inj, ← Int32.toInt_inj, hint]
      exact ⟨fun h => ⟨hle, h.symm⟩, fun h => h.2.symm⟩
  | true =>
    simp only [if_true]
    split_ifs with hmax hmin
    · have hgt : 2 ^ 31 < magnitude.toNat := UInt64.lt_iff_toNat_lt.1 hmax
      exact ⟨nofun, fun h => absurd h.1 (Nat.not_le.2 hgt)⟩
    · -- the smallest number has no positive counterpart
      rw [Option.some_inj, ← Int32.toInt_inj, hmin]
      exact ⟨fun h => ⟨by decide, h.symm⟩, fun h => h.2.symm⟩
    · have hle : magnitude.toNat ≤ 2 ^ 31 := UInt64.le_iff_toNat_le.1 (UInt64.not_lt.1 hmax)
      have hint : (-Int32.ofInt magnitude.toNat).toInt = -magnitude.toNat := by
        rw [← Int32.ofInt_neg, Int32.toInt_ofInt_of_le (by omega) (by omega)]
      rw [Option.some_inj, ← Int32.toInt_inj, hint]
      exact ⟨fun h => ⟨hle, h.symm⟩, fun h => h.2.symm⟩

/-- A priority is a number after an optional sign. -/
theorem parsePriority_cons (sign : UInt8) (rest : Str) : parsePriority (sign :: rest) =
    (parseUnsigned (if sign = '-'.toUInt8 || sign = '+'.toUInt8 then rest else sign :: rest)).bind
      (signed (sign = '-'.toUInt8)) := by
  rw [parsePriority]
  dsimp only
  cases parseUnsigned (if sign = '-'.toUInt8 || sign = '+'.toUInt8 then rest else sign :: rest) with
  | none => rfl
  | some magnitude => simp only [Option.bind_some, signed, decide_eq_true_eq]

theorem exists_parseUnsigned_iff {P : ℕ → Prop} (hP : ∀ n, P n → n < 2 ^ 64) :
    (∃ n, parseUnsigned text = some n ∧ P n.toNat) ↔ IsDecimal text ∧ P (value text) := by
  constructor
  · rintro ⟨n, hn, h⟩
    obtain ⟨hdecimal, hvalue⟩ := parseUnsigned_iff.1 hn
    exact ⟨hdecimal, hvalue ▸ h⟩
  · rintro ⟨hdecimal, h⟩
    have hvalue : (UInt64.ofNat (value text)).toNat = value text :=
      UInt64.toNat_ofNat_of_lt' (hP _ h)
    exact ⟨UInt64.ofNat (value text), parseUnsigned_iff.2 ⟨hdecimal, hvalue.symm⟩, hvalue.symm ▸ h⟩

/-- A sign is no digit. -/
theorem not_isDecimal_cons {sign : UInt8} (hsign : isDigit sign = false) (rest : Str) :
    ¬ IsDecimal (sign :: rest) := fun h =>
  Bool.false_ne_true (hsign.symm.trans (h.2 sign List.mem_cons_self))

theorem isPriority_minus {rest : Str} {priority : Int32} :
    IsPriority ('-'.toUInt8 :: rest) priority ↔
      IsDecimal rest ∧ value rest ≤ 2 ^ 31 ∧ priority.toInt = -value rest := by
  constructor
  · rintro ⟨digits, hdecimal, ⟨rfl | hplus, _⟩ | ⟨hminus, h⟩⟩
    · exact absurd hdecimal (not_isDecimal_cons (by decide) rest)
    · exact absurd (List.cons.inj hplus).1 (by decide)
    · obtain rfl := (List.cons.inj hminus).2
      exact ⟨hdecimal, h⟩
  · rintro ⟨hdecimal, h⟩
    exact ⟨rest, hdecimal, .inr ⟨rfl, h⟩⟩

theorem isPriority_plus {rest : Str} {priority : Int32} :
    IsPriority ('+'.toUInt8 :: rest) priority ↔
      IsDecimal rest ∧ value rest ≤ 2 ^ 31 - 1 ∧ priority.toInt = value rest := by
  constructor
  · rintro ⟨digits, hdecimal, ⟨rfl | hplus, h⟩ | ⟨hminus, _⟩⟩
    · exact absurd hdecimal (not_isDecimal_cons (by decide) rest)
    · obtain rfl := (List.cons.inj hplus).2
      exact ⟨hdecimal, h⟩
    · exact absurd (List.cons.inj hminus).1 (by decide)
  · rintro ⟨hdecimal, h⟩
    exact ⟨rest, hdecimal, .inl ⟨.inr rfl, h⟩⟩

theorem isPriority_unsigned {sign : UInt8} {rest : Str} {priority : Int32}
    (hminus : sign ≠ '-'.toUInt8) (hplus : sign ≠ '+'.toUInt8) :
    IsPriority (sign :: rest) priority ↔ IsDecimal (sign :: rest) ∧
      value (sign :: rest) ≤ 2 ^ 31 - 1 ∧ priority.toInt = value (sign :: rest) := by
  constructor
  · rintro ⟨digits, hdecimal, ⟨rfl | h, hvalue⟩ | ⟨h, _⟩⟩
    · exact ⟨hdecimal, hvalue⟩
    · exact absurd (List.cons.inj h).1 hplus
    · exact absurd (List.cons.inj h).1 hminus
  · rintro ⟨hdecimal, h⟩
    exact ⟨sign :: rest, hdecimal, .inl ⟨.inl rfl, h⟩⟩

theorem parsePriority_iff {priority : Int32} :
    parsePriority text = some priority ↔ IsPriority text priority := by
  cases text with
  | nil =>
    refine ⟨nofun, ?_⟩
    rintro ⟨digits, hdecimal, ⟨rfl | h, _⟩ | ⟨h, _⟩⟩
    · exact absurd rfl hdecimal.1
    · cases h
    · cases h
  | cons sign rest =>
    rw [parsePriority_cons, Option.bind_eq_some_iff]
    simp only [signed_iff]
    by_cases hminus : sign = '-'.toUInt8
    · rw [hminus, if_pos (by decide), isPriority_minus]
      exact exists_parseUnsigned_iff (P := fun n => n ≤ 2 ^ 31 ∧ priority.toInt = -n)
        fun n h => by omega
    · have hpositive : ¬ decide (sign = '-'.toUInt8) = true := by simpa using hminus
      simp only [hpositive]
      by_cases hplus : sign = '+'.toUInt8
      · rw [hplus, if_pos (by decide), isPriority_plus]
        exact exists_parseUnsigned_iff (P := fun n => n ≤ 2 ^ 31 - 1 ∧ priority.toInt = n)
          fun n h => by omega
      · rw [if_neg (by simp [hplus]), isPriority_unsigned hminus hplus]
        exact exists_parseUnsigned_iff (P := fun n => n ≤ 2 ^ 31 - 1 ∧ priority.toInt = n)
          fun n h => by omega

/-! ## Sizes -/

/-- The number of a size, before its unit, times what the unit stands for. -/
def scaled (digits : Str) (multiplier : Bytes) : Option Bytes :=
  if digits.isEmpty || digits.any fun character => !isDigit character then none
  else
    match fromChars digits with
    | none => none
    | some (value, rest) =>
      if !rest.isEmpty || value = 0 || value > Bytes.max / multiplier then none
      else some (value * multiplier)

theorem parseSize_of_find?_eq_some {suffix : Str} {multiplier : Bytes}
    (h : (suffixes.find? fun (suffix, _) => suffix.isSuffixOf text) = some (suffix, multiplier)) :
    parseSize text = scaled (text.take (text.length - suffix.length)) multiplier := by
  simp only [parseSize, h]
  rfl

theorem parseSize_of_find?_eq_none
    (h : (suffixes.find? fun (suffix, _) => suffix.isSuffixOf text) = none) :
    parseSize text = scaled text 1 := by
  simp only [parseSize, h]
  rfl

/-- The product must fit into 64 bits. -/
theorem scaled_iff {multiplier bytes : Bytes} (hpos : 0 < multiplier.toNat) :
    scaled digits multiplier = some bytes ↔ IsDecimal digits ∧
      1 ≤ value digits * multiplier.toNat ∧ value digits * multiplier.toNat ≤ 2 ^ 64 - 1 ∧
      bytes.toNat = value digits * multiplier.toNat := by
  by_cases hdecimal : IsDecimal digits
  · have hempty : digits.isEmpty = false := by simpa using hdecimal.1
    have hall : (digits.any fun c => !isDigit c) = false := by simpa using hdecimal.2
    rw [scaled, hempty, hall, if_neg (by decide), fromChars_of_isDecimal hdecimal]
    by_cases hlt : value digits < 2 ^ 64
    · have hvalue := UInt64.toNat_ofNat_of_lt' hlt
      have hdiv : (Bytes.max / multiplier).toNat = (2 ^ 64 - 1) / multiplier.toNat :=
        UInt64.toNat_div _ _
      rw [if_pos hlt]
      simp only [List.isEmpty_nil, Bool.not_true, Bool.false_or, Bool.or_eq_true, decide_eq_true_eq,
        gt_iff_lt, UInt64.lt_iff_toNat_lt, ← UInt64.toNat_inj, hvalue, hdiv, UInt64.toNat_zero]
      split_ifs with hfail
      · refine ⟨nofun, fun ⟨_, hone, hmax, _⟩ => ?_⟩
        rcases hfail with hzero | hgt
        · rw [hzero, Nat.zero_mul] at hone
          omega
        · exact absurd ((Nat.le_div_iff_mul_le hpos).2 hmax) (Nat.not_le.2 hgt)
      · rw [not_or, Nat.not_lt] at hfail
        have hone : 0 < value digits * multiplier.toNat :=
          Nat.mul_pos (Nat.pos_of_ne_zero hfail.1) hpos
        have hmax := (Nat.le_div_iff_mul_le hpos).1 hfail.2
        rw [Option.some_inj, ← UInt64.toNat_inj, UInt64.toNat_mul, hvalue,
          Nat.mod_eq_of_lt (by omega)]
        exact ⟨fun h => ⟨hdecimal, hone, hmax, h.symm⟩, fun h => h.2.2.2.symm⟩
    · -- the number alone is too large
      have hle : value digits ≤ value digits * multiplier.toNat := Nat.le_mul_of_pos_right _ hpos
      rw [if_neg hlt]
      exact ⟨nofun, fun ⟨_, _, hmax, _⟩ => absurd hmax (by omega)⟩
  · rw [scaled, if_pos]
    · exact ⟨nofun, fun h => absurd h.1 hdecimal⟩
    · rw [Bool.or_eq_true, List.isEmpty_iff, List.any_eq_true]
      by_cases hnil : digits = []
      · exact .inl hnil
      · right
        simpa [IsDecimal, hnil] using hdecimal

/-- A unit has no digits. -/
theorem isDigit_of_mem_suffixes {p : Str × Bytes} (hp : p ∈ suffixes) {c : UInt8} (hc : c ∈ p.1) :
    isDigit c = false := by
  have hunits : (suffixes.all fun p => p.1.all fun c => !isDigit c) = true := by rfl
  simpa using List.all_eq_true.1 (List.all_eq_true.1 hunits p hp) c hc

/-- A unit ends a number with a unit only if it ends the unit. -/
theorem isSuffixOf_append {p : Str × Bytes} (hp : p ∈ suffixes) (hdecimal : IsDecimal digits)
    (unit : Str) : p.1.isSuffixOf (digits ++ unit) = p.1.isSuffixOf unit := by
  rw [Bool.eq_iff_iff, List.isSuffixOf_iff_suffix, List.isSuffixOf_iff_suffix]
  constructor
  · intro h
    rcases List.suffix_or_suffix_of_suffix h (List.suffix_append digits unit) with h' | ⟨front, h'⟩
    · exact h'
    · -- what is in front of the unit would be digits
      rw [← h', List.suffix_append_self_iff] at h
      have hfront : front = [] := by
        refine List.eq_nil_iff_forall_not_mem.2 fun c hc => ?_
        have hdigit := hdecimal.2 c (h.subset hc)
        rw [isDigit_of_mem_suffixes hp (h' ▸ List.mem_append_left _ hc)] at hdigit
        cases hdigit
      rw [← h', hfront, List.nil_append]
  · exact fun h => h.trans (List.suffix_append _ _)

/-- The unit that is found is the one that follows the digits. -/
theorem find?_suffixes (hdecimal : IsDecimal digits) (unit : Str) :
    (suffixes.find? fun (suffix, _) => suffix.isSuffixOf (digits ++ unit)) =
      suffixes.find? fun (suffix, _) => suffix.isSuffixOf unit :=
  List.find?_congr fun _ hp => isSuffixOf_append hp hdecimal unit

theorem parseSize_iff {bytes : Bytes} : parseSize text = some bytes ↔ IsSize text bytes := by
  constructor
  · intro h
    cases hfind : suffixes.find? fun (suffix, _) => suffix.isSuffixOf text with
    | none =>
      rw [parseSize_of_find?_eq_none hfind, scaled_iff (by decide)] at h
      exact ⟨text, h.1, ([], 1), by decide, (List.append_nil _).symm, h.2⟩
    | some p =>
      have hp := List.mem_of_find?_eq_some hfind
      have hpos : ∀ p ∈ suffixes, 0 < p.2.toNat := by decide
      have hunits : ∀ p ∈ suffixes, (p.1, p.2.toNat) ∈ units := by decide
      have hsuffix := List.find?_some hfind
      obtain ⟨front, rfl⟩ : p.1 <:+ text := List.isSuffixOf_iff_suffix.1 hsuffix
      rw [parseSize_of_find?_eq_some hfind, List.length_append, Nat.add_sub_cancel, List.take_left,
        scaled_iff (hpos p hp)] at h
      exact ⟨front, h.1, (p.1, p.2.toNat), hunits p hp, rfl, h.2⟩
  · rintro ⟨digits, hdecimal, unit, hunit, rfl, h⟩
    have hunits : ∀ unit ∈ units, unit = ([], 1) ∨
        ∃ p ∈ suffixes, unit = (p.1, p.2.toNat) := by decide
    rcases hunits unit hunit with rfl | ⟨p, hp, rfl⟩
    · have hfind := find?_suffixes hdecimal []
      rw [List.append_nil] at hfind ⊢
      rw [parseSize_of_find?_eq_none (hfind.trans (by decide)), scaled_iff (by decide)]
      exact ⟨hdecimal, h⟩
    · have hself : ∀ p ∈ suffixes,
          (suffixes.find? fun (suffix, _) => suffix.isSuffixOf p.1) = some p := by decide
      have hpos : ∀ p ∈ suffixes, 0 < p.2.toNat := by decide
      rw [parseSize_of_find?_eq_some ((find?_suffixes hdecimal p.1).trans (hself p hp)),
        List.length_append, Nat.add_sub_cancel, List.take_left, scaled_iff (hpos p hp)]
      exact ⟨hdecimal, h⟩

/-- A text is a decimal with a unit in one way only. -/
theorem eq_of_append_units {digits digits' : Str} {unit unit' : Str × ℕ} (hdigits : IsDecimal digits)
    (hdigits' : IsDecimal digits') (hunit : unit ∈ units) (hunit' : unit' ∈ units)
    (h : digits ++ unit.1 = digits' ++ unit'.1) : digits = digits' ∧ unit = unit' := by
  -- the digits end where the unit starts
  have hstart : ∀ unit ∈ units, unit.1.takeWhile isDigit = [] := by decide
  have hdistinct : ∀ unit ∈ units, ∀ unit' ∈ units, unit.1 = unit'.1 → unit = unit' := by decide
  have hfront := congrArg (List.takeWhile isDigit) h
  rw [List.takeWhile_append_of_pos hdigits.2, List.takeWhile_append_of_pos hdigits'.2,
    hstart _ hunit, hstart _ hunit', List.append_nil, List.append_nil] at hfront
  rw [hfront] at h
  exact ⟨hfront, hdistinct _ hunit _ hunit' (List.append_cancel_left h)⟩

/-- `parse_bytes` returns the exact product of the decimal and its unit, and fails exactly on
    what is no decimal with or without a unit, or has a product that is zero or does not fit. -/
theorem parseBytes_iff (text : Str) :
    ((∃ bytes, parseBytes text = some bytes) ↔
      ∃ digits, IsDecimal digits ∧ ∃ unit ∈ units, text = digits ++ unit.1 ∧
        1 ≤ value digits * unit.2 ∧ value digits * unit.2 ≤ 2 ^ 64 - 1) ∧
    ∀ bytes digits unit, IsDecimal digits → unit ∈ units → text = digits ++ unit.1 →
      parseBytes text = some bytes → bytes.toNat = value digits * unit.2 := by
  have hread {digits : Str} {unit : Str × ℕ} (hdigits : IsDecimal digits) (hunit : unit ∈ units)
      (htext : text = digits ++ unit.1) (hone : 1 ≤ value digits * unit.2)
      (hmax : value digits * unit.2 ≤ 2 ^ 64 - 1) :
      parseBytes text = some (UInt64.ofNat (value digits * unit.2)) :=
    parseSize_iff.2 ⟨digits, hdigits, unit, hunit, htext, hone, hmax,
      UInt64.toNat_ofNat_of_lt' (by omega : _ < 2 ^ 64)⟩
  refine ⟨⟨?_, ?_⟩, ?_⟩
  · rintro ⟨bytes, hbytes⟩
    obtain ⟨digits, hdigits, unit, hunit, htext, hone, hmax, _⟩ := parseSize_iff.1 hbytes
    exact ⟨digits, hdigits, unit, hunit, htext, hone, hmax⟩
  · rintro ⟨digits, hdigits, unit, hunit, htext, hone, hmax⟩
    exact ⟨_, hread hdigits hunit htext hone hmax⟩
  · intro bytes digits unit hdigits hunit htext hbytes
    obtain ⟨digits', hdigits', unit', hunit', htext', -, -, hvalue⟩ := parseSize_iff.1 hbytes
    obtain ⟨rfl, rfl⟩ := eq_of_append_units hdigits hdigits' hunit hunit' (htext.symm.trans htext')
    exact hvalue

end Protocol

end Gpumemd
