import Mathlib.Data.List.Basic

/-!
# Byte strings, byte counts and names

The data every part of the broker is about: strings are byte strings
(`std::string`), amounts of memory are 64-bit (`Bytes`, with the wrapping
arithmetic of `std::uint64_t`), durations and clock readings are the 64-bit
counts of `std::chrono`. Counters of single events (sequence numbers, reference
counts, load orders) are natural numbers: a run that counts fewer than `2 ^ 64`
events does not tell them from `std::uint64_t`.

Clients, models and nodes share one shape of name, checked separately by each
component that takes one (`nameShape`).
-/

namespace Gpumemd

/-- A byte string. -/
abbrev Str := List UInt8

instance : Std.Total (α := Str) (· ≤ ·) := inferInstance
instance : Std.Antisymm (α := Str) (· ≤ ·) := inferInstance
instance : IsTrans Str (· ≤ ·) := inferInstance

/-- The bytes of an ASCII text. -/
def ascii (text : String) : Str := text.toList.map fun c => c.toNat.toUInt8

/-- The characters of a literal are there, and need not be decoded. -/
theorem ascii_ofList (l : List Char) :
    ascii (String.ofList l) = l.map fun c => c.toNat.toUInt8 := by
  rw [ascii, String.toList_ofList]

/-- An amount of memory. -/
abbrev Bytes := UInt64

/-- `std::numeric_limits<Bytes>::max()`. -/
def Bytes.max : Bytes := UInt64.ofNat (UInt64.size - 1)

theorem Bytes.le_max (bytes : Bytes) : bytes ≤ Bytes.max :=
  UInt64.le_iff_toNat_le.2 (Nat.le_of_lt_succ bytes.toNat_lt)

/-- A duration in milliseconds (`std::chrono::milliseconds`). -/
abbrev Millis := Int64

/-- A reading of the steady clock, in nanoseconds. -/
abbrev TimePoint := Int64

/-- `std::chrono::milliseconds::max()`. -/
def Millis.max : Millis := Int64.maxValue

/-- `Clock::time_point::max()`. -/
def TimePoint.max : TimePoint := Int64.maxValue

/-- A letter, a digit, `_`, `-` or `.`. -/
def isNameByte (character : UInt8) : Bool :=
  let letter := ('a'.toUInt8 ≤ character && character ≤ 'z'.toUInt8) ||
    ('A'.toUInt8 ≤ character && character ≤ 'Z'.toUInt8)
  let digit := '0'.toUInt8 ≤ character && character ≤ '9'.toUInt8
  letter || digit || character == '_'.toUInt8 || character == '-'.toUInt8 ||
    character == '.'.toUInt8

/-- The shape of a name: at most 64 bytes, at least one, all of them name bytes. -/
def nameShape (name : Str) : Bool :=
  if name.isEmpty || name.length > 64 then false else name.all isNameByte

theorem nameShape_iff {name : Str} :
    nameShape name = true ↔
      name ≠ [] ∧ name.length ≤ 64 ∧ ∀ character ∈ name, isNameByte character = true := by
  simp [nameShape, and_assoc]

end Gpumemd
