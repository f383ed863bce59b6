import Mathlib.Algebra.Order.Ring.Int

/-! Go's durations and the difference of two times, all in nanoseconds. -/

namespace PiiShield

def minDuration : Int := -2 ^ 63

def maxDuration : Int := 2 ^ 63 - 1

/-- `Time.Sub`; a difference out of range is the nearest duration. -/
def timeSub (t u : Int) : Int := max minDuration (min maxDuration (t - u))

/-- The product of a duration and a number, which wraps around. -/
def durationMul (d n : Int) : Int := (d * n).bmod (2 ^ 64)

theorem timeSub_le (t u : Int) : timeSub t u ≤ maxDuration := max_le (by decide) (min_le_left _ _)

theorem timeSub_le_sub {t u : Int} (h : u ≤ t) : timeSub t u ≤ t - u :=
  max_le (by rw [minDuration]; omega) (min_le_right _ _)

theorem timeSub_eq {t u : Int} (hle : u ≤ t) (hlt : t - u ≤ maxDuration) : timeSub t u = t - u := by
  rw [timeSub, min_eq_right hlt]
  exact max_eq_right (by rw [minDuration]; omega)

theorem durationMul_eq {d n : Int} (h : 0 ≤ d * n) (hlt : d * n ≤ maxDuration) : durationMul d n = d * n := by
  rw [maxDuration] at hlt
  exact Int.bmod_eq_of_le (by omega) (by omega)

theorem durationMul_le (d n : Int) : durationMul d n ≤ maxDuration := by
  grind [Int.bmod_lt, durationMul, maxDuration]

end PiiShield
