import Gpumemd.Library.Signed
import Gpumemd.Resource.Manager

/-!
# Deadlines without overflow

`acquire` compares the timeout with what is left of the clock in milliseconds, after a
division that rounds, and adds it in nanoseconds. With a clock that has not run below zero
none of its operations overflows (`checkedDeadline_eq`), and the comparison admits exactly
the timeouts whose deadline the clock can show (`le_maximumTimeout_iff`).
-/

namespace Gpumemd

open Library

namespace ResourceManager

variable {now : TimePoint} {timeout : Millis}

/-- The deadline as `acquire` computes it, unless an operation overflows: the difference, the
    two casts between the units and the sum. -/
def checkedDeadline (now : TimePoint) (timeout : Millis) : Option TimePoint :=
  if timeout ≠ Millis.max then do
    let remaining ← checked (TimePoint.max.toInt - now.toInt)
    let maximumTimeout ← checked (remaining.toInt.tdiv 1000000)
    if timeout ≤ maximumTimeout then do
      let duration ← checked (timeout.toInt * 1000000)
      checked (now.toInt + duration.toInt)
    else return TimePoint.max
  else return TimePoint.max

theorem toInt_max : TimePoint.max.toInt = 2 ^ 63 - 1 := rfl

theorem toInt_maximumTimeout (now : TimePoint) :
    (maximumTimeout now).toInt = (TimePoint.max - now).toInt.tdiv 1000000 := by
  have hquotient : checked ((TimePoint.max - now).toInt.tdiv (1000000 : Int64).toInt) =
      some (maximumTimeout now) := checked_div (by decide)
  rw [checked_eq_some_iff.1 hquotient]
  rfl

/-- A clock that has not run below zero leaves a difference. -/
theorem toInt_remaining (hnow : 0 ≤ now) :
    (TimePoint.max - now).toInt = TimePoint.max.toInt - now.toInt := by
  have hpos : 0 ≤ now.toInt := Int64.le_iff_toInt_le.1 hnow
  have hlt := now.toInt_lt
  refine checked_eq_some_iff.1 (checked_sub ?_ ?_)
  · rw [toInt_max]
    omega
  · rw [toInt_max]
    omega

/-- Below zero the difference wraps around, and no positive timeout passes the comparison. -/
theorem nonneg_of_le_maximumTimeout (htimeout : 0 < timeout) (hle : timeout ≤ maximumTimeout now) :
    0 ≤ now := by
  have hpos : 0 < timeout.toInt := Int64.lt_iff_toInt_lt.1 htimeout
  have hle' : timeout.toInt ≤ (maximumTimeout now).toInt := Int64.le_iff_toInt_le.1 hle
  have hlow := now.le_toInt
  have hnonneg : 0 ≤ (TimePoint.max - now).toInt := by
    by_contra hneg
    have hquot : 0 ≤ (-(TimePoint.max - now).toInt).tdiv 1000000 :=
      Int.tdiv_nonneg (by omega) (by omega)
    rw [Int.neg_tdiv] at hquot
    rw [toInt_maximumTimeout] at hle'
    omega
  rw [Int64.le_iff_toInt_le]
  show 0 ≤ now.toInt
  rw [Int64.toInt_sub, toInt_max] at hnonneg
  simp only [Int.bmod] at hnonneg
  omega

/-- The comparison in milliseconds admits what can be added in nanoseconds. -/
theorem le_maximumTimeout_iff (hnow : 0 ≤ now) :
    timeout ≤ maximumTimeout now ↔
      now.toInt + timeout.toInt * 1000000 ≤ TimePoint.max.toInt := by
  have hlt := now.toInt_lt
  have hmax := toInt_max
  rw [Int64.le_iff_toInt_le, toInt_maximumTimeout, toInt_remaining hnow,
    Int.tdiv_eq_ediv_of_nonneg (by omega)]
  omega

/-- Where the comparison succeeds, the product and the sum are exact. -/
theorem deadline_of_le (htimeout : 0 < timeout) (hfinite : timeout ≠ Millis.max)
    (hle : timeout ≤ maximumTimeout now) :
    checked (timeout.toInt * 1000000) = some (timeout * 1000000) ∧
      checked (now.toInt + (timeout * 1000000).toInt) = some (deadline now timeout) ∧
      (deadline now timeout).toInt = now.toInt + timeout.toInt * 1000000 := by
  have hpos : 0 < timeout.toInt := Int64.lt_iff_toInt_lt.1 htimeout
  have hnow := nonneg_of_le_maximumTimeout htimeout hle
  have hnow' : 0 ≤ now.toInt := Int64.le_iff_toInt_le.1 hnow
  have hsum := (le_maximumTimeout_iff hnow).1 hle
  rw [toInt_max] at hsum
  have hproduct : checked (timeout.toInt * 1000000) = some (timeout * 1000000) :=
    checked_mul (y := 1000000) (show -2 ^ 63 ≤ timeout.toInt * 1000000 by omega)
      (show timeout.toInt * 1000000 < 2 ^ 63 by omega)
  have hscaled := checked_eq_some_iff.1 hproduct
  have hdeadline : deadline now timeout = now + timeout * 1000000 := by
    rw [deadline, if_pos hfinite, if_pos hle]
  have hadd : checked (now.toInt + (timeout * 1000000).toInt) = some (deadline now timeout) := by
    rw [hdeadline]
    exact checked_add (by omega) (by omega)
  exact ⟨hproduct, hadd, hscaled ▸ checked_eq_some_iff.1 hadd⟩

/-- Otherwise there is no deadline. -/
theorem deadline_of_not_le (hnot : ¬ (timeout ≠ Millis.max ∧ timeout ≤ maximumTimeout now)) :
    deadline now timeout = TimePoint.max := by
  rw [deadline]
  split_ifs with hfinite hle
  · exact absurd ⟨hfinite, hle⟩ hnot
  · rfl
  · rfl

/-- The deadline of a request with a positive timeout comes later: it is only set where it
    can be represented. -/
theorem lt_deadline (htimeout : 0 < timeout) :
    deadline now timeout = TimePoint.max ∨ now < deadline now timeout := by
  by_cases hset : timeout ≠ Millis.max ∧ timeout ≤ maximumTimeout now
  · have hpos : 0 < timeout.toInt := Int64.lt_iff_toInt_lt.1 htimeout
    obtain ⟨-, -, hexact⟩ := deadline_of_le htimeout hset.1 hset.2
    rw [Int64.lt_iff_toInt_lt, hexact]
    exact .inr (by omega)
  · exact .inl (deadline_of_not_le hset)

/-- The deadline of a request with a positive timeout is computed without overflow. -/
theorem checkedDeadline_eq (hnow : 0 ≤ now) (htimeout : 0 < timeout) :
    checkedDeadline now timeout = some (deadline now timeout) := by
  have hremaining : checked (TimePoint.max.toInt - now.toInt) = some (TimePoint.max - now) :=
    checked_eq_some_iff.2 (toInt_remaining hnow)
  have hmaximum : checked ((TimePoint.max - now).toInt.tdiv 1000000) = some (maximumTimeout now) :=
    checked_eq_some_iff.2 (toInt_maximumTimeout now)
  rw [checkedDeadline]
  by_cases hfinite : timeout ≠ Millis.max
  · rw [if_pos hfinite, hremaining, Option.bind_eq_bind, Option.bind_some, hmaximum,
      Option.bind_some]
    by_cases hle : timeout ≤ maximumTimeout now
    · obtain ⟨hproduct, hsum, -⟩ := deadline_of_le htimeout hfinite hle
      rw [if_pos hle, hproduct, Option.bind_some, hsum]
    · rw [if_neg hle, deadline_of_not_le fun h => hle h.2]
      rfl
  · rw [if_neg hfinite, deadline_of_not_le fun h => hfinite h.1]
    rfl

/-- There is no deadline only for a timeout that stands for none, and where the sum is not
    before the end of the clock. -/
theorem of_deadline_eq_max (hnow : 0 ≤ now) (htimeout : 0 < timeout)
    (hmax : deadline now timeout = TimePoint.max) :
    timeout = Millis.max ∨ TimePoint.max.toInt ≤ now.toInt + timeout.toInt * 1000000 := by
  by_cases hfinite : timeout = Millis.max
  · exact .inl hfinite
  · right
    by_cases hle : timeout ≤ maximumTimeout now
    · obtain ⟨-, -, hexact⟩ := deadline_of_le htimeout hfinite hle
      rw [← hexact, hmax]
    · rw [le_maximumTimeout_iff hnow] at hle
      exact (not_le.1 hle).le

end ResourceManager

end Gpumemd
