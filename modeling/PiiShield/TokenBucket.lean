import Mathlib.Algebra.Order.Field.Rat
import Mathlib.Tactic.Linarith
import Mathlib.Tactic.Ring

/-! An exact token bucket. It holds at most `size` tokens, gains one every `interval`, and a request
takes one if it is there. -/

namespace PiiShield.TokenBucket

structure State where
  tokens : ℚ
  last : ℤ

section Definitions

variable (interval size : ℤ)

def full (now : ℤ) : State := ⟨size, now⟩

def level (b : State) (now : ℤ) : ℚ := min (size : ℚ) (b.tokens + ((now - b.last : ℤ) : ℚ) / interval)

def take (b : State) (now : ℤ) : State × Bool :=
  if 1 ≤ level interval size b now then (⟨level interval size b now - 1, now⟩, true)
  else (⟨level interval size b now, now⟩, false)

def takes (now : ℤ) : Nat → State → State × List Bool
  | 0, b => (b, [])
  | n + 1, b =>
    let r := take interval size b now
    let s := takes now n r.1
    (s.1, r.2 :: s.2)

structure Holds (now : ℤ) (b : State) : Prop where
  nonneg : 0 ≤ b.tokens
  le_size : b.tokens ≤ size
  last_le : b.last ≤ now

end Definitions

variable {interval size now : ℤ} {b : State}

theorem Holds.mono {later : ℤ} (h : Holds size now b) (hle : now ≤ later) : Holds size later b :=
  ⟨h.nonneg, h.le_size, h.last_le.trans hle⟩

theorem holds_full (hsize : 0 ≤ size) (now : ℤ) : Holds size now (full size now) :=
  ⟨Int.cast_nonneg hsize, le_refl _, le_refl _⟩

theorem le_level (hinterval : 0 < interval) (h : Holds size now b) : b.tokens ≤ level interval size b now := by
  have hgain : (0 : ℚ) ≤ ((now - b.last : ℤ) : ℚ) / interval :=
    div_nonneg (Int.cast_nonneg (sub_nonneg.mpr h.last_le)) (Int.cast_nonneg hinterval.le)
  exact le_min h.le_size (le_add_of_nonneg_right hgain)

theorem level_le_size : level interval size b now ≤ size := min_le_left _ _

theorem level_full : level interval size (full size now) now = size := by
  rw [level, full, sub_self, Int.cast_zero, zero_div, add_zero, min_self]

theorem level_eq_size (hinterval : 0 < interval) (h : 0 ≤ b.tokens) (hidle : interval * size ≤ now - b.last) :
    level interval size b now = size := by
  have hpos : (0 : ℚ) < interval := Int.cast_pos.mpr hinterval
  have hgain : (size : ℚ) ≤ ((now - b.last : ℤ) : ℚ) / interval := by
    rw [le_div_iff₀ hpos, ← Int.cast_mul, Int.cast_le, mul_comm]
    exact hidle
  exact min_eq_left (by linarith)

theorem level_eq_size_later {later : ℤ} (hinterval : 0 < interval) (h : level interval size b now = size)
    (hle : now ≤ later) : level interval size b later = size := by
  have hpos : (0 : ℚ) < interval := Int.cast_pos.mpr hinterval
  have hnow : (size : ℚ) ≤ b.tokens + ((now - b.last : ℤ) : ℚ) / interval := min_eq_left_iff.mp h
  have hgain : ((now - b.last : ℤ) : ℚ) / interval ≤ ((later - b.last : ℤ) : ℚ) / interval :=
    div_le_div_of_nonneg_right (Int.cast_le.mpr (by omega)) hpos.le
  exact min_eq_left (by linarith)

theorem take_eq_of_level_eq {b' : State} (h : level interval size b now = level interval size b' now) :
    take interval size b now = take interval size b' now := by
  rw [take, take, h]

theorem holds_take (hinterval : 0 < interval) (h : Holds size now b) :
    Holds size now (take interval size b now).1 := by
  have hlevel := le_level hinterval h
  have hsize : level interval size b now ≤ size := level_le_size
  rw [take]
  split
  · next hone =>
    dsimp only
    exact ⟨sub_nonneg.mpr hone, by dsimp only; linarith, le_refl _⟩
  exact ⟨h.nonneg.trans hlevel, hsize, le_refl _⟩

theorem last_take : (take interval size b now).1.last = now := by
  rw [take]
  split <;> rfl

theorem level_take (hinterval : 0 < interval) (h : Holds size now b) :
    level interval size (take interval size b now).1 now = (take interval size b now).1.tokens := by
  rw [level, last_take, sub_self, Int.cast_zero, zero_div, add_zero]
  exact min_eq_right (holds_take hinterval h).le_size

theorem takes_all_iff (hinterval : 0 < interval) {n : Nat} (h : Holds size now b) :
    (∀ a ∈ (takes interval size now n b).2, a = true) ↔ (n : ℚ) ≤ level interval size b now := by
  induction n generalizing b with
  | zero =>
    have hnonneg : 0 ≤ level interval size b now := h.nonneg.trans (le_level hinterval h)
    simpa [takes] using hnonneg
  | succ n ih =>
    have hrest := ih (holds_take hinterval h)
    rw [level_take hinterval h] at hrest
    rw [takes, List.forall_mem_cons, hrest, take]
    grind

theorem holds_takes (hinterval : 0 < interval) (n : Nat) (h : Holds size now b) :
    Holds size now (takes interval size now n b).1 := by
  induction n generalizing b with
  | zero => exact h
  | succ n ih => exact ih (holds_take hinterval h)

theorem level_takes (hinterval : 0 < interval) {n : Nat} (h : Holds size now b)
    (hn : (n : ℚ) ≤ level interval size b now) :
    level interval size (takes interval size now n b).1 now = level interval size b now - n := by
  induction n generalizing b with
  | zero => simp [takes]
  | succ n ih =>
    rw [Nat.cast_succ] at hn ⊢
    have hpos : (0 : ℚ) ≤ n := Nat.cast_nonneg n
    have htake : take interval size b now = (⟨level interval size b now - 1, now⟩, true) :=
      if_pos (by linarith)
    grind [level_take, holds_take, takes]

theorem level_le_add {later : ℤ} (hinterval : 0 < interval) (hle : now ≤ later) :
    level interval size b later ≤ level interval size b now + ((later - now : ℤ) : ℚ) / interval := by
  have hgain : (0 : ℚ) ≤ ((later - now : ℤ) : ℚ) / interval :=
    div_nonneg (Int.cast_nonneg (sub_nonneg.mpr hle)) (Int.cast_nonneg hinterval.le)
  grind [level]

end PiiShield.TokenBucket
