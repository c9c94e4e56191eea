/-
Module: RateNet.Algo.FixedWindow
Layer: Algo
Purpose: The fixed window counter: a packed word of the newest window's low bits and its count, and a second
  word with the full number of the newest window any thread has opened. `attempt` is what one iteration
  of the acquire loop decides from the two words it loaded and the word it remembers having opened a
  window over; `acquire` is the call with no other thread in between.
Imports: RateNet.Core.KeyState, Mathlib.Data.Nat.Bitwise
Trusted boundary: none
Main exports: FixedWindow, FixedWindow.new, attempt, acquire, peek, reset, unpack_packed, Under, usedAt,
  acquire_fits, acquire_full, peek_eq
-/
import RateNet.Core.KeyState
import Mathlib.Data.Nat.Bitwise

namespace RateNet

/-- Fixed-window state for one key. -/
structure FixedWindow where
  /-- Packed `(window index, count)`. -/
  state : ℕ
  /-- Full number of the newest window any thread has opened. -/
  latest : ℕ
  periodNs : ℕ
  limit : ℕ
  /-- Set when the quota admits nothing. -/
  denyAll : Bool
deriving DecidableEq

/-- What one iteration of the acquire loop decides. -/
inductive FixedAttempt where
  /-- Swap in `total` as the count of `window`. -/
  | charge (window total : ℕ)
  | refuse (retryAfter : ℕ)
deriving DecidableEq

namespace FixedWindow

/-- The low 32 bits of a window number: the packed index. -/
def lowBits (window : ℕ) : ℕ := window % 2 ^ 32

def pack (windowIndex count : ℕ) : ℕ := (windowIndex <<< 32) ||| count

def unpack (state : ℕ) : ℕ × ℕ := ((state >>> 32) % 2 ^ 32, state &&& (2 ^ 32 - 1))

def new (quota : Quota) (now : ℕ) : FixedWindow :=
  let periodNs := nanos quota.period
  let window := nanos now / periodNs
  { state := pack (lowBits window) 0
    latest := window
    periodNs
    limit := quota.limit
    denyAll := quota.limit == 0 || periodNs == 0 }

/-- The full window number containing `nowNs`; zero for a zero period. -/
def windowOf (fw : FixedWindow) (nowNs : ℕ) : ℕ := nowNs / fw.periodNs

/-- The wait from `nowNs` until `window` ends. -/
def untilEndOf (fw : FixedWindow) (window nowNs : ℕ) : ℕ :=
  satMul (satAdd window 1) fw.periodNs - nowNs

/-- The count already admitted in `window`, given a state word and the `latest` value loaded after it. -/
def countIn (window current latest : ℕ) : ℕ :=
  if latest = window ∧ (unpack current).1 = lowBits window then (unpack current).2 else 0

/-- One iteration of the acquire loop. -/
def attempt (fw : FixedWindow) (n nowNs current latest : ℕ) (openedOver : Option (ℕ × ℕ)) :
    FixedAttempt :=
  -- a late thread counts against the newer window, never its own
  let window := max (fw.windowOf nowNs) latest
  let base := if openedOver = some (current, window) then 0 else countIn window current latest
  let total := base + n
  if total > fw.limit then .refuse (fw.untilEndOf window nowNs) else .charge window total

/-- The word a successful swap leaves. -/
def packed (window total : ℕ) : ℕ := pack (lowBits window) (min total u32Max)

/-- Checks `n` units as of `now`, with no other thread in between. -/
def acquire (fw : FixedWindow) (n now : ℕ) : Decision × FixedWindow :=
  if n = 0 then
    (.allow, fw)
  else if fw.denyAll ∨ n > fw.limit then
    (.deny durationMax, fw)
  else
    match fw.attempt n (nanos now) fw.state fw.latest none with
    | .charge window total =>
      (.allow, { fw with state := packed window total, latest := max fw.latest window })
    | .refuse retryAfter => (.deny retryAfter, fw)

/-- What is left of the current window, and when it ends. -/
def peek (fw : FixedWindow) (now : ℕ) : Snapshot :=
  if fw.denyAll then
    .closed
  else
    let nowNs := nanos now
    let window := max (fw.windowOf nowNs) fw.latest
    let used := min (countIn window fw.state fw.latest) fw.limit
    let resetAfter := if used = 0 then 0 else fw.untilEndOf window nowNs
    .new fw.limit (fw.limit - used) resetAfter

/-- Zeroes the newest window's count. -/
def reset (fw : FixedWindow) : FixedWindow := { fw with state := pack (lowBits fw.latest) 0 }

end FixedWindow

instance : KeyState FixedWindow where
  create quota now := if admitsAnything .fixedWindow quota then some (.new quota now) else none
  acquire fw n now := fw.acquire n now
  peek fw now := (fw.peek now, fw)
  reset fw _ := fw.reset

/-!
### Reading the packed word
-/

namespace FixedWindow

/-- A packed word reads back its two halves. -/
theorem unpack_pack {index count : ℕ} (hi : index < 2 ^ 32) (hc : count < 2 ^ 32) :
    unpack (pack index count) = (index, count) := by
  have packed : pack index count = index <<< 32 + count :=
    (Nat.shiftLeft_add_eq_or_of_lt hc index).symm
  have high : pack index count >>> 32 = index := by
    rw [packed, Nat.shiftRight_eq_div_pow, Nat.shiftLeft_eq, Nat.mul_comm,
      Nat.mul_add_div (Nat.two_pow_pos 32), Nat.div_eq_of_lt hc, Nat.add_zero]
  have low : pack index count &&& (2 ^ 32 - 1) = count := by
    rw [packed, Nat.and_two_pow_sub_one_eq_mod, Nat.shiftLeft_eq, Nat.mul_comm, Nat.mul_add_mod,
      Nat.mod_eq_of_lt hc]
  rw [unpack, high, low, Nat.mod_eq_of_lt hi]

theorem lowBits_lt (window : ℕ) : lowBits window < 2 ^ 32 := Nat.mod_lt _ (Nat.two_pow_pos 32)

theorem unpack_packed (window total : ℕ) :
    unpack (packed window total) = (lowBits window, min total u32Max) :=
  unpack_pack (lowBits_lt window) (lt_of_le_of_lt (min_le_right _ _) (by decide))

theorem countIn_packed (window total : ℕ) : countIn window (packed window total) window =
    min total u32Max := by
  rw [countIn, unpack_packed, if_pos ⟨rfl, rfl⟩]

/-!
### States
-/

variable {quota : Quota} {fw : FixedWindow} {n now : ℕ}

/-- A state kept under `quota`: the word counts the newest window, and never past the limit. -/
structure Under (quota : Quota) (fw : FixedWindow) : Prop where
  period : fw.periodNs = nanos quota.period
  limit : fw.limit = quota.limit
  period_pos : 0 < nanos quota.period
  limit_pos : 0 < quota.limit
  opened : fw.denyAll = false
  word : ∃ held ≤ quota.limit, fw.state = packed fw.latest held

/-- The window a call at `now` is judged in. -/
def windowAt (fw : FixedWindow) (now : ℕ) : ℕ := max (fw.windowOf (nanos now)) fw.latest

/-- What that window counts. -/
def usedAt (fw : FixedWindow) (now : ℕ) : ℕ := countIn (fw.windowAt now) fw.state fw.latest

/-- The count of the window a word holds is the word's, that of a later one nothing. -/
theorem usedAt_of_word {held : ℕ} (word : fw.state = packed fw.latest held) (fits : held ≤ u32Max)
    (now : ℕ) : fw.usedAt now = if fw.windowAt now = fw.latest then held else 0 := by
  rw [usedAt, word]
  split
  · rename_i current
    rw [current, countIn_packed]
    exact min_eq_left fits
  · rename_i later
    rw [countIn, if_neg]
    rintro ⟨same, -⟩
    exact later same.symm

namespace Under

theorem guard (under : fw.Under quota) (possible : n ≤ quota.limit) :
    ¬ (fw.denyAll = true ∨ n > fw.limit) := by
  rw [under.opened, under.limit]
  rintro (closed | more)
  · cases closed
  · omega

/-- The newest window counts what the word holds, a later one nothing. -/
theorem usedAt_eq (under : fw.Under quota) : ∃ held ≤ quota.limit, fw.state = packed fw.latest held ∧
    ∀ now, fw.usedAt now = if fw.windowAt now = fw.latest then held else 0 := by
  obtain ⟨held, fits, word⟩ := under.word
  exact ⟨held, fits, word, usedAt_of_word word (fits.trans quota.limit_le)⟩

theorem usedAt_le (under : fw.Under quota) (now : ℕ) : fw.usedAt now ≤ quota.limit := by
  obtain ⟨held, fits, -, used⟩ := under.usedAt_eq
  rw [used]
  split
  · exact fits
  · exact Nat.zero_le _

theorem windowAt_mono (fw : FixedWindow) {a b : ℕ} (h : a ≤ b) : fw.windowAt a ≤ fw.windowAt b :=
  max_le_max_right _ (Nat.div_le_div_right (nanos_mono h))

/-- A later reading finds no more units in its window. -/
theorem usedAt_anti (under : fw.Under quota) {a b : ℕ} (h : a ≤ b) : fw.usedAt b ≤ fw.usedAt a := by
  obtain ⟨held, -, -, used⟩ := under.usedAt_eq
  have windows := windowAt_mono fw h
  have start : fw.latest ≤ fw.windowAt a := le_max_right _ _
  rw [used, used]
  by_cases same : fw.windowAt b = fw.latest
  · rw [if_pos same, if_pos (by omega)]
  · rw [if_neg same]
    exact Nat.zero_le _

end Under

/-- Units that fit are admitted and counted. -/
theorem acquire_fits (under : fw.Under quota) (asked : 1 ≤ n) (fits : fw.usedAt now + n ≤ quota.limit) :
    fw.acquire n now = (.allow,
      { fw with state := packed (fw.windowAt now) (fw.usedAt now + n), latest := fw.windowAt now }) := by
  have room : ¬ countIn (max (fw.windowOf (nanos now)) fw.latest) fw.state fw.latest + n > fw.limit := by
    rw [under.limit]
    exact Nat.not_lt.2 fits
  have newest : max fw.latest (max (fw.windowOf (nanos now)) fw.latest) = fw.windowAt now :=
    max_eq_right (le_max_right _ _)
  rw [acquire, if_neg (by omega), if_neg (under.guard (by omega))]
  simp only [attempt, reduceCtorEq, if_false, if_neg room, newest]
  rfl

/-- Units that do not fit are denied until the window ends. -/
theorem acquire_full (under : fw.Under quota) (possible : n ≤ quota.limit)
    (full : quota.limit < fw.usedAt now + n) :
    fw.acquire n now = (.deny (fw.untilEndOf (fw.windowAt now) (nanos now)), fw) := by
  have used := under.usedAt_le now
  have no_room : countIn (max (fw.windowOf (nanos now)) fw.latest) fw.state fw.latest + n > fw.limit := by
    rw [under.limit]
    exact full
  rw [acquire, if_neg (by omega), if_neg (under.guard possible)]
  simp only [attempt, reduceCtorEq, if_false, if_pos no_room]
  rfl

theorem acquire_zero (fw : FixedWindow) (now : ℕ) : fw.acquire 0 now = (.allow, fw) := by
  rw [acquire, if_pos rfl]

theorem acquire_impossible (under : fw.Under quota) (h : quota.limit < n) (now : ℕ) :
    fw.acquire n now = (.deny durationMax, fw) := by
  have bound := under.limit
  rw [acquire, if_neg (by omega), if_pos (Or.inr (by omega))]

/-- What a read reports. -/
theorem peek_eq (under : fw.Under quota) (now : ℕ) :
    fw.peek now = .new quota.limit (quota.limit - fw.usedAt now)
      (if fw.usedAt now = 0 then 0 else fw.untilEndOf (fw.windowAt now) (nanos now)) := by
  have used : min (countIn (max (fw.windowOf (nanos now)) fw.latest) fw.state fw.latest) quota.limit =
      fw.usedAt now := min_eq_left (under.usedAt_le now)
  simp only [peek, under.opened, Bool.false_eq_true, if_false, used, under.limit]
  rfl

/-- A check leaves a state kept under its quota. -/
theorem Under.acquire (under : fw.Under quota) (n now : ℕ) : (fw.acquire n now).2.Under quota := by
  rcases Nat.eq_zero_or_pos n with rfl | asked
  · rw [acquire_zero]
    exact under
  rcases Nat.lt_or_ge quota.limit n with impossible | possible
  · rw [acquire_impossible under impossible]
    exact under
  rcases Nat.lt_or_ge quota.limit (fw.usedAt now + n) with full | fits
  · rw [acquire_full under possible full]
    exact under
  · rw [acquire_fits under asked fits]
    exact { under with word := ⟨_, fits, rfl⟩ }

theorem Under.reset (under : fw.Under quota) : fw.reset.Under quota :=
  { under with word := ⟨0, Nat.zero_le _, rfl⟩ }

theorem new_under (admits : admitsAnything .fixedWindow quota = true) (now : ℕ) :
    (FixedWindow.new quota now).Under quota := by
  obtain ⟨limit, period⟩ := (admitsAnything_window (Or.inl rfl)).1 admits
  have positive : 0 < nanos quota.period := by
    simp only [nanos, u64Max]
    omega
  refine ⟨rfl, rfl, positive, limit, ?_, 0, Nat.zero_le _, rfl⟩
  simp only [new, Bool.or_eq_false_iff, beq_eq_false_iff_ne]
  exact ⟨limit.ne', positive.ne'⟩

theorem remaining_eq (under : fw.Under quota) (now : ℕ) :
    (fw.peek now).remaining = quota.limit - fw.usedAt now := by
  rw [peek_eq under, Snapshot.new_remaining]
  omega

/-- The decision agrees with the snapshot. -/
theorem Under.allow_iff (under : fw.Under quota) :
    (fw.acquire n now).1 = .allow ↔ n = 0 ∨ n ≤ (fw.peek now).remaining := by
  have used := under.usedAt_le now
  rw [remaining_eq under]
  rcases Nat.eq_zero_or_pos n with rfl | asked
  · simp [acquire_zero]
  rcases Nat.lt_or_ge quota.limit n with impossible | possible
  · rw [acquire_impossible under impossible]
    simp only [reduceCtorEq, false_iff]
    omega
  rcases Nat.lt_or_ge quota.limit (fw.usedAt now + n) with full | fits
  · rw [acquire_full under possible full]
    simp only [reduceCtorEq, false_iff]
    omega
  · rw [acquire_fits under asked fits]
    simp only [true_iff]
    omega

/-- The window is over by the deadline a snapshot reports. -/
theorem Under.usedAt_of_due (under : fw.Under quota) {later : ℕ}
    (due : now + (fw.peek now).resetAfter ≤ later) (clock : later < u64Max) : fw.usedAt later = 0 := by
  have anti := under.usedAt_anti ((Nat.le_add_right _ _).trans due)
  rw [peek_eq under, Snapshot.new_resetAfter] at due
  split at due
  · omega
  · rename_i some_used
    rw [untilEndOf, under.period, nanos_eq (by omega : now ≤ u64Max)] at due
    obtain ⟨held, -, -, used⟩ := under.usedAt_eq
    have current : fw.windowAt now = fw.latest := by
      by_contra moved
      rw [used, if_neg moved] at some_used
      exact some_used rfl
    have early : satMul (satAdd fw.latest 1) (nanos quota.period) ≤ later := by
      rw [current] at due
      omega
    have product := satMul_eq_of_lt (lt_of_le_of_lt early clock)
    rw [product] at early
    have number : satAdd fw.latest 1 ≤ satAdd fw.latest 1 * nanos quota.period :=
      Nat.le_mul_of_pos_right _ under.period_pos
    have sum := satAdd_eq_of_lt (lt_of_le_of_lt (number.trans early) clock)
    rw [sum] at early
    have next : fw.latest + 1 ≤ fw.windowOf (nanos later) := by
      rw [windowOf, under.period, nanos_eq clock.le]
      exact (Nat.le_div_iff_mul_le under.period_pos).2 early
    rw [used, if_neg]
    simp only [windowAt]
    omega

/-- A fresh state counts nothing. -/
theorem usedAt_new (quota : Quota) (made now : ℕ) : (FixedWindow.new quota made).usedAt now = 0 := by
  have word : (FixedWindow.new quota made).state = packed (FixedWindow.new quota made).latest 0 := rfl
  rw [usedAt, word, countIn]
  split
  · rw [unpack_packed]
    rfl
  · rfl

/-- A reset state counts nothing. -/
theorem usedAt_reset (fw : FixedWindow) (now : ℕ) : fw.reset.usedAt now = 0 := by
  have word : fw.reset.state = packed fw.reset.latest 0 := rfl
  rw [usedAt, word, countIn]
  split
  · rw [unpack_packed]
    rfl
  · rfl

/-- Units that fit are counted on top of what the window counted. -/
theorem usedAt_acquire (under : fw.Under quota) (asked : 1 ≤ n) (fits : fw.usedAt now + n ≤ quota.limit) :
    (fw.acquire n now).2.usedAt now = fw.usedAt now + n := by
  rw [acquire_fits under asked fits]
  have same : max (fw.windowOf (nanos now)) (fw.windowAt now) = fw.windowAt now :=
    max_eq_right (le_max_left _ _)
  show countIn (max (fw.windowOf (nanos now)) (fw.windowAt now))
    (packed (fw.windowAt now) (fw.usedAt now + n)) (fw.windowAt now) = fw.usedAt now + n
  rw [same, countIn_packed]
  exact min_eq_left (fits.trans quota.limit_le)

end FixedWindow

end RateNet
