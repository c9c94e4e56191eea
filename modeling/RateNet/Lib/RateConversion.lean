/-
Module: RateNet.Lib.RateConversion
Layer: Lib
Purpose: Counting the ticks of a fractional rate on an integer time line. A rate of `num` ticks per `den`
  instants has begun `x * num / den` ticks by instant `x`, and tick `i` begins at the first instant not
  before `i * den / num`. The two rounded conversions are adjoint, and rounding an instant up to the
  next tick is adjoint to the start of a tick. The last section replaces the division by a truncated
  fixed-point reciprocal and one correction step.
Imports: Mathlib.Algebra.Order.Floor.Div, Mathlib.Tactic
Trusted boundary: none
Main exports: ticksAt, tickStart, tickStart_le_iff, ticksAt_add_ceil_le, tickStart_add_le, nextTick,
  nextTick_le_iff, reciprocal, corrected_eq_ticksAt
-/
import Mathlib.Algebra.Order.Floor.Div
import Mathlib.Tactic

namespace RateConversion

variable {num den : ℕ}

/-- Ticks begun by instant `x`. -/
def ticksAt (num den x : ℕ) : ℕ := x * num / den

/-- The first instant at which tick `i` has begun. -/
def tickStart (num den i : ℕ) : ℕ := (i * den) ⌈/⌉ num

/-- The adjunction between the two roundings: a tick has begun exactly from its start on. -/
theorem tickStart_le_iff (hnum : 0 < num) (hden : 0 < den) {i x : ℕ} :
    tickStart num den i ≤ x ↔ i ≤ ticksAt num den x := by
  unfold tickStart ticksAt
  rw [ceilDiv_le_iff_le_mul hnum, Nat.le_div_iff_mul_le hden, mul_comm num x]

theorem ticksAt_mono {x y : ℕ} (h : x ≤ y) : ticksAt num den x ≤ ticksAt num den y :=
  Nat.div_le_div_right (Nat.mul_le_mul_right _ h)

theorem tickStart_mono (hnum : 0 < num) (hden : 0 < den) {i j : ℕ} (h : i ≤ j) :
    tickStart num den i ≤ tickStart num den j :=
  (tickStart_le_iff hnum hden).2 (h.trans ((tickStart_le_iff hnum hden).1 le_rfl))

/-- Two stretches of time that together hold at most `n` ticks hold at most `n`, the first rounded down and
    the second up. -/
theorem ticksAt_add_ceil_le (hden : 0 < den) {x y n : ℕ} (h : (x + y) * num ≤ n * den) :
    ticksAt num den x + (y * num) ⌈/⌉ den ≤ n := by
  have floor : ticksAt num den x * den ≤ x * num := Nat.div_mul_le_self _ _
  have whole : ticksAt num den x ≤ n := by
    refine Nat.le_of_mul_le_mul_right (floor.trans (le_trans ?_ h)) hden
    exact Nat.mul_le_mul_right _ (Nat.le_add_right x y)
  have rest : (y * num) ⌈/⌉ den ≤ n - ticksAt num den x := by
    rw [ceilDiv_le_iff_le_mul hden, mul_comm den, Nat.sub_mul]
    rw [Nat.add_mul] at h
    omega
  omega

/-- A tick `i` ticks after the last one begun starts within the time of `i` ticks. -/
theorem tickStart_ticksAt_add_le (hnum : 0 < num) (hden : 0 < den) (x i : ℕ) :
    tickStart num den (ticksAt num den x + i) ≤ x + tickStart num den i := by
  have reached : i ≤ ticksAt num den (tickStart num den i) := (tickStart_le_iff hnum hden).1 le_rfl
  have both : ticksAt num den x + ticksAt num den (tickStart num den i) ≤
      ticksAt num den (x + tickStart num den i) := by
    unfold ticksAt
    rw [Nat.add_mul]
    exact Nat.div_add_div_le_add_div
  rw [tickStart_le_iff hnum hden]
  exact (Nat.add_le_add_left reached _).trans both

/-- Starting two runs of ticks apart costs less than two instants over starting them as one. -/
theorem tickStart_add_le (hnum : 0 < num) (i j : ℕ) :
    tickStart num den i + tickStart num den j ≤ (i + j) * den / num + 2 := by
  have sum : i * den / num + j * den / num ≤ (i + j) * den / num := by
    rw [Nat.add_mul]
    exact Nat.div_add_div_le_add_div
  have up : ∀ x, x ⌈/⌉ num ≤ x / num + 1 := by
    intro x
    rw [ceilDiv_le_iff_le_mul hnum]
    exact (Nat.lt_mul_div_succ x hnum).le
  have firstUp := up (i * den)
  have secondUp := up (j * den)
  simp only [tickStart]
  omega

/-- A rate of at most one tick per instant never outruns the instants. -/
theorem ticksAt_le (hle : num ≤ den) (x : ℕ) : ticksAt num den x ≤ x := by
  rcases Nat.eq_zero_or_pos den with rfl | hden
  · simp [ticksAt]
  · exact Nat.div_le_of_le_mul (by rw [mul_comm den x]; exact Nat.mul_le_mul_left x hle)

theorem le_tickStart (hnum : 0 < num) (hle : num ≤ den) (i : ℕ) : i ≤ tickStart num den i :=
  ((tickStart_le_iff hnum (lt_of_lt_of_le hnum hle)).1 le_rfl).trans (ticksAt_le hle _)

/-- A rate of at most one tick per instant starts its ticks at distinct instants. -/
theorem tickStart_lt_tickStart (hnum : 0 < num) (hle : num ≤ den) {i j : ℕ} (h : i < j) :
    tickStart num den i < tickStart num den j := by
  have hden : 0 < den := lt_of_lt_of_le hnum hle
  have start : j * den ≤ num * tickStart num den j := by
    exact (ceilDiv_le_iff_le_mul hnum).1 le_rfl
  have room : (i + 1) * den ≤ j * den := Nat.mul_le_mul_right _ h
  have positive : 0 < tickStart num den j := by
    by_contra hzero
    have : tickStart num den j = 0 := by omega
    rw [this] at start
    nlinarith
  have below : tickStart num den i ≤ tickStart num den j - 1 := by
    rw [tickStart, ceilDiv_le_iff_le_mul hnum, Nat.mul_sub, mul_one]
    have : (i + 1) * den = i * den + den := by ring
    omega
  omega

/-- The first tick that begins at or after instant `x`, computed from the tick under way at `x`. -/
def nextTick (num den x : ℕ) : ℕ :=
  if x ≤ tickStart num den (ticksAt num den x) then ticksAt num den x else ticksAt num den x + 1

/-- Rounding an instant up to a tick is adjoint to taking the start of a tick. -/
theorem nextTick_le_iff (hnum : 0 < num) (hle : num ≤ den) {i x : ℕ} :
    nextTick num den x ≤ i ↔ x ≤ tickStart num den i := by
  have hden : 0 < den := lt_of_lt_of_le hnum hle
  have under : tickStart num den (ticksAt num den x) ≤ x := (tickStart_le_iff hnum hden).2 le_rfl
  unfold nextTick
  split
  · -- the tick under way begins exactly at `x`
    rename_i exact_start
    have same : tickStart num den (ticksAt num den x) = x := le_antisymm under exact_start
    constructor
    · intro h
      exact exact_start.trans (tickStart_mono hnum hden h)
    · intro h
      by_contra hlt
      have := tickStart_lt_tickStart hnum hle (Nat.lt_of_not_le hlt)
      omega
  · rename_i later
    constructor
    · intro h
      have ahead : x < tickStart num den (ticksAt num den x + 1) := by
        by_contra hge
        have := (tickStart_le_iff hnum hden).1 (Nat.le_of_not_lt hge)
        omega
      exact ahead.le.trans (tickStart_mono hnum hden h)
    · intro h
      by_contra hlt
      have : tickStart num den i ≤ tickStart num den (ticksAt num den x) :=
        tickStart_mono hnum hden (by omega)
      omega

theorem nextTick_mono (hnum : 0 < num) (hle : num ≤ den) {x y : ℕ} (h : x ≤ y) :
    nextTick num den x ≤ nextTick num den y :=
  (nextTick_le_iff hnum hle).2 (h.trans ((nextTick_le_iff hnum hle).1 le_rfl))

theorem le_nextTick (hnum : 0 < num) (hle : num ≤ den) {i x : ℕ} (h : tickStart num den i ≤ x) :
    i ≤ nextTick num den x := by
  have reaches : x ≤ tickStart num den (nextTick num den x) := (nextTick_le_iff hnum hle).1 le_rfl
  by_contra hlt
  have := tickStart_lt_tickStart hnum hle (Nat.lt_of_not_le hlt)
  omega

/-!
### The reciprocal

`base` is the fixed-point scale. Truncating `num * base / den` and multiplying back loses less than one
tick as long as the instant stays below the scale, so one exact comparison restores the floor.
-/

/-- The truncated reciprocal `num * base / den`. -/
def reciprocal (num den base : ℕ) : ℕ := num * base / den

theorem reciprocal_estimate_le (hden : 0 < den) {base : ℕ} (hbase : 0 < base) (x : ℕ) :
    x * reciprocal num den base / base ≤ ticksAt num den x := by
  have trunc : reciprocal num den base * den ≤ num * base := Nat.div_mul_le_self _ _
  have est : x * reciprocal num den base / base * base ≤ x * reciprocal num den base :=
    Nat.div_mul_le_self _ _
  rw [ticksAt, Nat.le_div_iff_mul_le hden]
  refine Nat.le_of_mul_le_mul_right ?_ hbase
  calc x * reciprocal num den base / base * den * base
      = x * reciprocal num den base / base * base * den := by ring
    _ ≤ x * reciprocal num den base * den := Nat.mul_le_mul_right _ est
    _ = x * (reciprocal num den base * den) := by ring
    _ ≤ x * (num * base) := Nat.mul_le_mul_left _ trunc
    _ = x * num * base := by ring

theorem ticksAt_le_reciprocal_estimate (hden : 0 < den) {base x : ℕ} (hx : x < base) :
    ticksAt num den x ≤ x * reciprocal num den base / base + 1 := by
  set est := x * reciprocal num den base / base with hest
  have hbase : 0 < base := by omega
  rcases Nat.eq_zero_or_pos x with rfl | hpos
  · simp [ticksAt]
  have trunc : num * base < (reciprocal num den base + 1) * den := by
    have := Nat.lt_mul_div_succ (num * base) hden
    rw [reciprocal, mul_comm (_ + 1) den]
    exact this
  have est_lt : x * reciprocal num den base < (est + 1) * base := by
    have := Nat.lt_mul_div_succ (x * reciprocal num den base) hbase
    rw [hest, mul_comm (_ + 1) base]
    exact this
  have floor : ticksAt num den x * den ≤ x * num := Nat.div_mul_le_self _ _
  -- scale the floor by `base` and push it through both truncations
  have scaled : ticksAt num den x * (den * base) < (est + 2) * (den * base) := by
    calc ticksAt num den x * (den * base)
        = ticksAt num den x * den * base := by ring
      _ ≤ x * num * base := Nat.mul_le_mul_right _ floor
      _ = x * (num * base) := by ring
      _ < x * ((reciprocal num den base + 1) * den) := Nat.mul_lt_mul_of_pos_left trunc hpos
      _ = (x * reciprocal num den base + x) * den := by ring
      _ ≤ ((est + 1) * base + base) * den := Nat.mul_le_mul_right _ (by omega)
      _ = (est + 2) * (den * base) := by ring
  have := Nat.lt_of_mul_lt_mul_right scaled
  omega

/-- The estimate corrected by one exact comparison is the floor. -/
theorem corrected_eq_ticksAt (hden : 0 < den) {base x : ℕ} (hx : x < base) :
    (if (x * reciprocal num den base / base + 1) * den ≤ x * num
      then x * reciprocal num den base / base + 1
      else x * reciprocal num den base / base) = ticksAt num den x := by
  have low : x * reciprocal num den base / base ≤ ticksAt num den x :=
    reciprocal_estimate_le hden (by omega) x
  have high : ticksAt num den x ≤ x * reciprocal num den base / base + 1 :=
    ticksAt_le_reciprocal_estimate hden hx
  split
  · rename_i reached
    have := (Nat.le_div_iff_mul_le hden).2 reached
    rw [ticksAt] at high ⊢
    omega
  · rename_i short
    have : ¬ x * reciprocal num den base / base + 1 ≤ ticksAt num den x := by
      rw [ticksAt, Nat.le_div_iff_mul_le hden]
      exact short
    omega

end RateConversion
