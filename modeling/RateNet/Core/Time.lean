/-
Module: RateNet.Core.Time
Layer: Core
Purpose: The machine integers and the time line of the crate. A `Duration` is its nanosecond count, a
  natural number throughout; the conversions to clamped nanoseconds, floored milliseconds and ceiled
  milliseconds are the ones the store and the algorithms use, saturation included. The lemmas give each
  conversion its Galois reading, so that no later proof unfolds a division.
Imports: Mathlib.Algebra.Order.Floor.Div, Mathlib.Tactic
Trusted boundary: none
Main exports: u32Max, u64Max, satAdd, satMul, durationMax, durationAdd, nanos, millis,
  fromMillis, ceilMillis
-/
import Mathlib.Algebra.Order.Floor.Div
import Mathlib.Tactic

namespace RateNet

/-- `u32::MAX`. -/
def u32Max : ℕ := 4294967295

/-- `u64::MAX`. -/
def u64Max : ℕ := 18446744073709551615

/-- `u64::saturating_add`. -/
def satAdd (a b : ℕ) : ℕ := min (a + b) u64Max

/-- `u64::saturating_mul`. -/
def satMul (a b : ℕ) : ℕ := min (a * b) u64Max

theorem satAdd_eq {a b : ℕ} (h : a + b ≤ u64Max) : satAdd a b = a + b := min_eq_left h

theorem satMul_eq {a b : ℕ} (h : a * b ≤ u64Max) : satMul a b = a * b := min_eq_left h

theorem satAdd_eq_of_lt {a b : ℕ} (h : satAdd a b < u64Max) : satAdd a b = a + b := by
  simp only [satAdd] at h ⊢
  omega

theorem satMul_eq_of_lt {a b : ℕ} (h : satMul a b < u64Max) : satMul a b = a * b := by
  simp only [satMul] at h ⊢
  omega

theorem satAdd_le (a b : ℕ) : satAdd a b ≤ a + b := min_le_left _ _

/-- Nanoseconds in a second. -/
def nanosPerSec : ℕ := 1000000000

/-- Nanoseconds in a millisecond. -/
def nanosPerMilli : ℕ := 1000000

/-- `Duration::MAX`: `u64::MAX` seconds and 999 999 999 nanoseconds. -/
def durationMax : ℕ := u64Max * nanosPerSec + 999999999

theorem u64Max_lt_durationMax : u64Max < durationMax := by decide

/-- `Duration::saturating_add`. -/
def durationAdd (a b : ℕ) : ℕ := min (a + b) durationMax

theorem durationAdd_eq {a b : ℕ} (h : a + b ≤ durationMax) : durationAdd a b = a + b :=
  min_eq_left h

/-- Clamps a duration-since-epoch to nanoseconds, saturating at the `u64` ceiling. -/
def nanos (now : ℕ) : ℕ := min now u64Max

theorem nanos_eq {now : ℕ} (h : now ≤ u64Max) : nanos now = now := min_eq_left h

theorem nanos_le (now : ℕ) : nanos now ≤ u64Max := min_le_right _ _

theorem nanos_le_self (now : ℕ) : nanos now ≤ now := min_le_left _ _

theorem nanos_mono {a b : ℕ} (h : a ≤ b) : nanos a ≤ nanos b := min_le_min_right _ h

/-- Whole milliseconds in `now`, saturating. -/
def millis (now : ℕ) : ℕ := min (now / nanosPerMilli) u64Max

/-- `Duration::from_millis`. -/
def fromMillis (ms : ℕ) : ℕ := ms * nanosPerMilli

/-- Milliseconds in `duration`, rounded up and saturating.  Whole seconds are whole milliseconds, so
    only the sub-second part rounds. -/
def ceilMillis (duration : ℕ) : ℕ :=
  let sub := (duration % nanosPerSec) ⌈/⌉ nanosPerMilli
  min (duration / nanosPerSec * 1000 + sub) u64Max

/-- The split into seconds and a sub-second part rounds exactly like one division. -/
theorem ceilMillis_eq (d : ℕ) : ceilMillis d = min (d ⌈/⌉ nanosPerMilli) u64Max := by
  unfold ceilMillis
  simp only [Nat.ceilDiv_eq_add_pred_div, nanosPerSec, nanosPerMilli]
  congr 1
  omega

theorem ceilMillis_mono {a b : ℕ} (h : a ≤ b) : ceilMillis a ≤ ceilMillis b := by
  rw [ceilMillis_eq, ceilMillis_eq]
  simp only [Nat.ceilDiv_eq_add_pred_div, nanosPerMilli]
  omega

/-- An unsaturated deadline is never rounded to before itself. -/
theorem le_fromMillis_ceilMillis {d : ℕ} (h : ceilMillis d < u64Max) :
    d ≤ fromMillis (ceilMillis d) := by
  rw [ceilMillis_eq] at h ⊢
  simp only [Nat.ceilDiv_eq_add_pred_div, nanosPerMilli, fromMillis] at h ⊢
  omega

/-- A rounded deadline is the least millisecond count at or after the deadline. -/
theorem ceilMillis_le_of_le_fromMillis {d : ℕ} {ms : ℕ} (h : d ≤ fromMillis ms) :
    ceilMillis d ≤ ms := by
  rw [ceilMillis_eq]
  simp only [Nat.ceilDiv_eq_add_pred_div, nanosPerMilli, fromMillis] at h ⊢
  omega

theorem ceilMillis_fromMillis {ms : ℕ} (h : ms ≤ u64Max) : ceilMillis (fromMillis ms) = ms := by
  rw [ceilMillis_eq]
  simp only [Nat.ceilDiv_eq_add_pred_div, nanosPerMilli, fromMillis]
  omega

theorem fromMillis_le_of_le_millis {ms : ℕ} {now : ℕ} (h : ms ≤ millis now) :
    fromMillis ms ≤ now := by
  simp only [millis, fromMillis, nanosPerMilli] at h ⊢
  omega

/-- A deadline still ahead on the millisecond clock is still ahead. -/
theorem lt_fromMillis_of_millis_lt {ms now : ℕ} (bound : ms ≤ u64Max) (h : millis now < ms) :
    now < fromMillis ms := by
  simp only [millis, fromMillis, nanosPerMilli] at h ⊢
  omega

theorem millis_mono {a b : ℕ} (h : a ≤ b) : millis a ≤ millis b := by
  simp only [millis, nanosPerMilli]
  omega

theorem fromMillis_mono {a b : ℕ} (h : a ≤ b) : fromMillis a ≤ fromMillis b :=
  Nat.mul_le_mul_right _ h

/-- No wait in milliseconds is `Duration::MAX`. -/
theorem fromMillis_lt_durationMax {ms : ℕ} (h : ms ≤ u64Max) : fromMillis ms < durationMax :=
  lt_of_le_of_lt (fromMillis_mono h) (by decide)

/-- A deadline that has passed on the millisecond clock has passed. -/
theorem le_of_ceilMillis_le_millis {d now : ℕ} (hd : ceilMillis d < u64Max)
    (h : ceilMillis d ≤ millis now) : d ≤ now :=
  le_trans (le_fromMillis_ceilMillis hd) (fromMillis_le_of_le_millis h)

end RateNet
