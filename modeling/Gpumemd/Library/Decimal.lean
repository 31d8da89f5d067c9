import Mathlib.Data.Nat.Digits.Defs

/-!
# Decimal numerals

Natural numbers and integers written in decimal, as byte strings. A numeral is
never empty and only made of digits, and reading it gives the number back
(`value_numeral`).
-/

namespace Library

/-- An ASCII digit. -/
def isDigit (character : UInt8) : Bool := '0'.toUInt8 ≤ character && character ≤ '9'.toUInt8

/-- The digit `d`. -/
def digit (d : ℕ) : UInt8 := '0'.toUInt8 + d.toUInt8

/-- What a digit stands for. -/
def digitValue (character : UInt8) : ℕ := character.toNat - 48

/-- A natural number in decimal, without leading zeros. -/
def numeral (n : ℕ) : List UInt8 :=
  if n = 0 then [digit 0] else ((Nat.digits 10 n).map digit).reverse

/-- An integer in decimal. -/
def signedNumeral (z : ℤ) : List UInt8 :=
  if z < 0 then '-'.toUInt8 :: numeral z.natAbs else numeral z.natAbs

/-- The number that a string of digits stands for. -/
def value (s : List UInt8) : ℕ := Nat.ofDigits 10 (s.map digitValue).reverse

theorem toNat_digit {d : ℕ} (h : d < 10) : (digit d).toNat = 48 + d := by
  have hd : d.toUInt8.toNat = d := by
    rw [Nat.toUInt8_eq, UInt8.toNat_ofNat']
    omega
  rw [digit, UInt8.toNat_add, hd]
  show (48 + d) % 2 ^ 8 = 48 + d
  omega

theorem digitValue_digit {d : ℕ} (h : d < 10) : digitValue (digit d) = d := by
  rw [digitValue, toNat_digit h]
  omega

theorem isDigit_iff {c : UInt8} : isDigit c = true ↔ 48 ≤ c.toNat ∧ c.toNat ≤ 57 := by
  rw [isDigit, Bool.and_eq_true, decide_eq_true_eq, decide_eq_true_eq]
  exact Iff.rfl

theorem isDigit_digit {d : ℕ} (h : d < 10) : isDigit (digit d) = true := by
  rw [isDigit_iff, toNat_digit h]
  omega

theorem numeral_ne_nil (n : ℕ) : numeral n ≠ [] := by
  rw [numeral]
  split_ifs with h
  · exact List.cons_ne_nil _ _
  · simpa [Nat.digits_eq_nil_iff_eq_zero] using h

/-- A numeral is made of digits. -/
theorem isDigit_of_mem_numeral {n : ℕ} {c : UInt8} (hc : c ∈ numeral n) : isDigit c = true := by
  rw [numeral] at hc
  split_ifs at hc
  · obtain rfl := List.mem_singleton.1 hc
    exact isDigit_digit (by decide)
  · obtain ⟨d, hd, rfl⟩ := List.mem_map.1 (List.mem_reverse.1 hc)
    exact isDigit_digit (Nat.digits_lt_base (by decide) hd)

/-- Reading a numeral gives the number back. -/
theorem value_numeral (n : ℕ) : value (numeral n) = n := by
  rw [numeral]
  split_ifs with h
  · rw [h]
    rfl
  · -- the digits come out as they went in, one by one
    have hdigits : ((Nat.digits 10 n).map digit).map digitValue = Nat.digits 10 n := by
      rw [List.map_map]
      refine (List.map_congr_left ?_).trans (List.map_id _)
      intro d hd
      exact digitValue_digit (Nat.digits_lt_base (by decide) hd)
    rw [value, List.map_reverse, List.reverse_reverse, hdigits, Nat.ofDigits_digits]

end Library
