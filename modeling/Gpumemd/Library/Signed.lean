import Mathlib.Algebra.Ring.Int.Defs
import Mathlib.Algebra.Ring.Nat
import Mathlib.Tactic.Common

/-!
# Signed arithmetic that must not overflow

An operation on signed numbers has an exact result, which need not be a 64-bit number:
`checked` is the number of that value, if there is one. Where there is, the operations of
`Int64`, which wrap, are exact (`checked_add`, `checked_sub`, `checked_mul`, `checked_div`).
-/

namespace Library

/-- The 64-bit number of the value, if there is one. -/
def checked (value : ℤ) : Option Int64 :=
  if (Int64.ofInt value).toInt = value then some (Int64.ofInt value) else none

variable {value : ℤ} {x y : Int64}

theorem checked_eq_some_iff : checked value = some x ↔ x.toInt = value := by
  rw [checked]
  split_ifs with hvalue
  · rw [Option.some_inj, ← Int64.toInt_inj, hvalue, eq_comm]
  · refine iff_of_false (by simp) ?_
    rintro rfl
    exact hvalue (by rw [Int64.ofInt_toInt])

/-- A value in range is kept by the reduction to 64 bits. -/
theorem bmod_of_range (hlow : -2 ^ 63 ≤ value) (hhigh : value < 2 ^ 63) :
    value.bmod (2 ^ 64) = value := by
  simp only [Int.bmod]
  omega

theorem checked_add (hlow : -2 ^ 63 ≤ x.toInt + y.toInt) (hhigh : x.toInt + y.toInt < 2 ^ 63) :
    checked (x.toInt + y.toInt) = some (x + y) := by
  rw [checked_eq_some_iff, Int64.toInt_add, bmod_of_range hlow hhigh]

theorem checked_sub (hlow : -2 ^ 63 ≤ x.toInt - y.toInt) (hhigh : x.toInt - y.toInt < 2 ^ 63) :
    checked (x.toInt - y.toInt) = some (x - y) := by
  rw [checked_eq_some_iff, Int64.toInt_sub, bmod_of_range hlow hhigh]

theorem checked_mul (hlow : -2 ^ 63 ≤ x.toInt * y.toInt) (hhigh : x.toInt * y.toInt < 2 ^ 63) :
    checked (x.toInt * y.toInt) = some (x * y) := by
  rw [checked_eq_some_iff, Int64.toInt_mul, bmod_of_range hlow hhigh]

/-- A quotient only overflows for the divisor `-1`. -/
theorem checked_div (hy : y ≠ -1) : checked (x.toInt.tdiv y.toInt) = some (x / y) :=
  checked_eq_some_iff.2 (Int64.toInt_div_of_ne_right x y hy)

end Library
