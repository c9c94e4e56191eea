/-
Module: RateNet.Algo.SlidingCounter
Layer: Algo
Purpose: The sliding window counter: the counts of the current window and of the one before it, the
  latter fading linearly across the current window. Sums are scaled by the period, so they are exact
  integers. Every check and every read first rolls the windows forward, so a read leaves a changed state
  behind; a late call is judged at the start of the current window.
Imports: RateNet.Core.KeyState
Trusted boundary: none
Main exports: SlidingCounter, SlidingCounter.new, roll, weighted, fits, earliestFit, acquire, peek, reset,
  Under, aged, load, aged_aged, load_anti, acquire_fits, acquire_full, peek_eq
-/
import RateNet.Core.KeyState

namespace RateNet

/-- Sliding-counter state for one key. -/
structure SlidingCounter where
  /-- Index of the window `curr` counts. -/
  window : ℕ
  /-- Admitted in the previous window. -/
  prev : ℕ
  /-- Admitted in the current window. -/
  curr : ℕ
  periodNs : ℕ
  limit : ℕ
deriving DecidableEq, Repr

namespace SlidingCounter

def new (quota : Quota) (now : ℕ) : SlidingCounter :=
  { window := nanos now / nanos quota.period, prev := 0, curr := 0, periodNs := nanos quota.period
    limit := quota.limit }

/-- The weighted count scaled by the period: the previous window's share is full at the boundary and
    zero at the next. -/
def weighted (sc : SlidingCounter) (offset : ℕ) : ℕ :=
  sc.prev * (sc.periodNs - offset) + sc.curr * sc.periodNs

/-- Whether `n` more units fit at `offset`. -/
def fits (sc : SlidingCounter) (offset n : ℕ) : Bool :=
  sc.weighted offset + n * sc.periodNs ≤ sc.limit * sc.periodNs

/-- Nanoseconds from `offset` until `n` units first fit, assuming no other traffic. -/
def earliestFit (sc : SlidingCounter) (offset n : ℕ) : ℕ :=
  if sc.curr + n ≤ sc.limit ∧ sc.prev > 0 then
    -- still in this window, once the previous window's share has faded enough
    let slack := (sc.limit - n - sc.curr) * sc.periodNs / sc.prev
    let fitAt := sc.periodNs - min slack sc.periodNs
    max (min fitAt u64Max - offset) 1
  else
    -- only in the next window, where this window's count becomes the fading one
    let slack := if sc.curr = 0 then sc.periodNs else (sc.limit - n) * sc.periodNs / sc.curr
    let x := sc.periodNs - min slack sc.periodNs
    satAdd (sc.periodNs - offset) (min x u64Max)

/-- The instant a call at `realNowNs` is judged at. -/
def instant (sc : SlidingCounter) (realNowNs : ℕ) : ℕ := max realNowNs (satMul sc.window sc.periodNs)

/-- Rolls the windows forward to `realNowNs`: the effective instant and its offset into the current
    window. -/
def roll (sc : SlidingCounter) (realNowNs : ℕ) : (ℕ × ℕ) × SlidingCounter :=
  let nowNs := sc.instant realNowNs
  let windowNumber := nowNs / sc.periodNs
  let sc :=
    if windowNumber > sc.window then
      { sc with
        prev := if windowNumber = sc.window + 1 then sc.curr else 0
        curr := 0
        window := windowNumber }
    else sc
  ((nowNs, nowNs % sc.periodNs), sc)

/-- Checks `n` units as of `now`. -/
def acquire (sc : SlidingCounter) (n now : ℕ) : Decision × SlidingCounter :=
  if n = 0 then
    (.allow, sc)
  else if sc.limit = 0 ∨ sc.periodNs = 0 ∨ n > sc.limit then
    (.deny durationMax, sc)
  else
    let realNowNs := nanos now
    let ((nowNs, offset), sc) := sc.roll realNowNs
    if sc.fits offset n then
      (.allow, { sc with curr := min (sc.curr + n) u32Max })
    else
      -- a late thread waits from its own, earlier, instant
      let waitNs := sc.earliestFit offset n
      let lateBy := nowNs - realNowNs
      (.deny (max (satAdd waitNs lateBy) 1), sc)

/-- Units admissible right now, and the wait until both windows' counts have faded out. -/
def peek (sc : SlidingCounter) (now : ℕ) : Snapshot × SlidingCounter :=
  if sc.limit = 0 ∨ sc.periodNs = 0 then
    (.closed, sc)
  else
    let realNowNs := nanos now
    let ((nowNs, offset), sc) := sc.roll realNowNs
    let headroom := sc.limit * sc.periodNs - sc.weighted offset
    let remaining := min (headroom / sc.periodNs) u32Max
    let toBoundary := sc.periodNs - offset
    let fullIn :=
      if sc.curr > 0 then satAdd toBoundary sc.periodNs
      else if sc.prev > 0 then toBoundary
      else 0
    let lateBy := nowNs - realNowNs
    let resetAfter := if fullIn = 0 then 0 else satAdd fullIn lateBy
    (.new sc.limit remaining resetAfter, sc)

/-- Clears both windows. -/
def reset (sc : SlidingCounter) : SlidingCounter := { sc with prev := 0, curr := 0 }

end SlidingCounter

instance : KeyState SlidingCounter where
  create quota now := if admitsAnything .slidingWindowCounter quota then some (.new quota now) else none
  acquire sc n now := sc.acquire n now
  peek sc now := sc.peek now
  reset sc _ := sc.reset

/-!
### Rolling
-/

namespace SlidingCounter

variable {quota : Quota} {sc : SlidingCounter} {now : ℕ}

/-- A state kept under `quota`: neither window ever counts more than the limit. -/
structure Under (quota : Quota) (sc : SlidingCounter) : Prop where
  period : sc.periodNs = nanos quota.period
  limit : sc.limit = quota.limit
  period_pos : 0 < nanos quota.period
  limit_pos : 0 < quota.limit
  prev_le : sc.prev ≤ quota.limit
  curr_le : sc.curr ≤ quota.limit
  start_le : sc.window * nanos quota.period ≤ u64Max

/-- The state with its windows rolled forward to `now`. -/
def aged (sc : SlidingCounter) (now : ℕ) : SlidingCounter := (sc.roll (nanos now)).2

/-- The window a call at `now` is judged in. -/
def windowAt (sc : SlidingCounter) (now : ℕ) : ℕ := max sc.window (nanos now / sc.periodNs)

/-- The weighted count a call at `now` is judged against, scaled by the period. -/
def load (sc : SlidingCounter) (now : ℕ) : ℕ :=
  (sc.aged now).weighted (sc.instant (nanos now) % sc.periodNs)

theorem roll_eq (sc : SlidingCounter) (now : ℕ) : sc.roll (nanos now) =
    ((sc.instant (nanos now), sc.instant (nanos now) % sc.periodNs), sc.aged now) := by
  simp only [aged, roll]
  split
  · rfl
  · rfl

namespace Under

theorem not_closed (under : sc.Under quota) : ¬ (sc.limit = 0 ∨ sc.periodNs = 0) := by
  rw [under.limit, under.period, not_or]
  exact ⟨under.limit_pos.ne', under.period_pos.ne'⟩

theorem guard (under : sc.Under quota) {n : ℕ} (possible : n ≤ quota.limit) :
    ¬ (sc.limit = 0 ∨ sc.periodNs = 0 ∨ n > sc.limit) := by
  have opened := under.not_closed
  have bound := under.limit
  omega

theorem instant_eq (under : sc.Under quota) (now : ℕ) :
    sc.instant (nanos now) = max (nanos now) (sc.window * nanos quota.period) := by
  have unsaturated : satMul sc.window sc.periodNs = sc.window * nanos quota.period := by
    rw [under.period]
    exact satMul_eq under.start_le
  rw [instant, unsaturated]

/-- The instant a call is judged at lies in the window it is judged in. -/
theorem instant_div (under : sc.Under quota) (now : ℕ) :
    sc.instant (nanos now) / nanos quota.period = sc.windowAt now := by
  have positive := under.period_pos
  rw [under.instant_eq, windowAt, under.period]
  rcases Nat.le_total (nanos now) (sc.window * nanos quota.period) with late | later
  · have early : nanos now / nanos quota.period ≤ sc.window := Nat.div_le_of_le_mul (by rwa [Nat.mul_comm])
    rw [max_eq_right late, Nat.mul_div_cancel _ positive, max_eq_left early]
  · have reached : sc.window ≤ nanos now / nanos quota.period := (Nat.le_div_iff_mul_le positive).2 later
    rw [max_eq_left later, max_eq_right reached]

/-- Rolling keeps the counts in their window, moves them one window back, or drops them. -/
theorem aged_eq (under : sc.Under quota) (now : ℕ) : sc.aged now =
    if sc.windowAt now = sc.window then sc
    else
      { sc with
        window := sc.windowAt now
        prev := if sc.windowAt now = sc.window + 1 then sc.curr else 0
        curr := 0 } := by
  have reached : sc.window ≤ sc.windowAt now := le_max_left _ _
  simp only [aged, roll]
  rw [under.period, under.instant_div]
  by_cases same : sc.windowAt now = sc.window
  · rw [if_neg (by omega), if_pos same]
  · rw [if_pos (by omega), if_neg same]

theorem instant_le (under : sc.Under quota) (now : ℕ) : sc.instant (nanos now) ≤ u64Max := by
  rw [under.instant_eq]
  exact max_le (nanos_le now) under.start_le

theorem le_instant (under : sc.Under quota) (now : ℕ) : nanos now ≤ sc.instant (nanos now) := by
  rw [under.instant_eq]
  exact le_max_left _ _

/-- The instant a call is judged at is the start of its window and an offset into it. -/
theorem instant_split (under : sc.Under quota) (now : ℕ) :
    sc.windowAt now * nanos quota.period + sc.instant (nanos now) % nanos quota.period =
      sc.instant (nanos now) := by
  rw [← under.instant_div, Nat.mul_comm]
  exact Nat.div_add_mod _ _

theorem windowAt_mul_le (under : sc.Under quota) (now : ℕ) :
    sc.windowAt now * nanos quota.period ≤ sc.instant (nanos now) := by
  rw [← under.instant_div]
  exact Nat.div_mul_le_self _ _

theorem aged (under : sc.Under quota) (now : ℕ) : (sc.aged now).Under quota := by
  have bound := (under.windowAt_mul_le now).trans (under.instant_le now)
  rw [under.aged_eq]
  split
  · exact under
  · refine { under with prev_le := ?_, curr_le := Nat.zero_le _, start_le := bound }
    show (if _ then sc.curr else 0) ≤ _
    split
    · exact under.curr_le
    · exact Nat.zero_le _

theorem aged_window (under : sc.Under quota) (now : ℕ) : (sc.aged now).window = sc.windowAt now := by
  rw [under.aged_eq]
  split
  · rename_i same
    exact same.symm
  · rfl

theorem windowAt_mono (sc : SlidingCounter) {a b : ℕ} (h : a ≤ b) : sc.windowAt a ≤ sc.windowAt b :=
  max_le_max_left _ (Nat.div_le_div_right (nanos_mono h))

/-- Reading a counter twice leaves it as of the later reading. -/
theorem aged_aged (under : sc.Under quota) (a b : ℕ) : (sc.aged a).aged b = sc.aged (max a b) := by
  have period : (sc.aged a).periodNs = sc.periodNs := (under.aged a).period.trans under.period.symm
  have again : (sc.aged a).windowAt b = sc.windowAt (max a b) := by
    rw [windowAt, windowAt, under.aged_window, period, windowAt]
    rcases Nat.le_total a b with h | h
    · have mono : nanos a / sc.periodNs ≤ nanos b / sc.periodNs := Nat.div_le_div_right (nanos_mono h)
      rw [max_eq_right h]
      omega
    · have mono : nanos b / sc.periodNs ≤ nanos a / sc.periodNs := Nat.div_le_div_right (nanos_mono h)
      rw [max_eq_left h]
      omega
  have first : sc.windowAt a ≤ sc.windowAt (max a b) := windowAt_mono sc (le_max_left a b)
  have start : sc.window ≤ sc.windowAt a := le_max_left _ _
  rw [(under.aged a).aged_eq, again, under.aged_window]
  rw [under.aged_eq, under.aged_eq]
  generalize sc.windowAt (max a b) = last at first ⊢
  generalize sc.windowAt a = middle at first start ⊢
  -- the later window is the middle one, or the counts have moved on from it
  by_cases still : last = middle
  · subst still
    rw [if_pos rfl]
  · rw [if_neg still]
    by_cases unmoved : middle = sc.window
    · subst unmoved
      rw [if_pos rfl, if_neg still]
    · have moved : ¬ last = sc.window := by omega
      have skipped : ¬ last = sc.window + 1 := by omega
      simp only [if_neg unmoved, if_neg moved, if_neg skipped, ite_self]

/-- The weighted count, from the end of the window it is judged in. -/
theorem load_eq (under : sc.Under quota) (now : ℕ) :
    sc.load now = (sc.aged now).prev *
        ((sc.windowAt now + 1) * nanos quota.period - sc.instant (nanos now)) +
      (sc.aged now).curr * nanos quota.period := by
  have split := under.instant_split now
  have shared : nanos quota.period - sc.instant (nanos now) % nanos quota.period =
      (sc.windowAt now + 1) * nanos quota.period - sc.instant (nanos now) := by
    rw [Nat.add_mul, Nat.one_mul]
    omega
  rw [load, weighted, under.period, (under.aged now).period, shared]

/-- Once a later window has begun, the current one counts nothing and the one before it no more than the current
    one did. -/
theorem aged_of_later (under : sc.Under quota) {a b : ℕ} (later : sc.windowAt a < sc.windowAt b) :
    (sc.aged b).curr = 0 ∧ (sc.aged b).prev ≤ (sc.aged a).curr := by
  have start : sc.window ≤ sc.windowAt a := le_max_left _ _
  refine ⟨by rw [under.aged_eq, if_neg (by omega)], ?_⟩
  rw [under.aged_eq, if_neg (by omega), under.aged_eq]
  show (if _ then sc.curr else 0) ≤ _
  by_cases unmoved : sc.windowAt a = sc.window
  · rw [if_pos unmoved]
    split
    · exact le_rfl
    · exact Nat.zero_le _
  · rw [if_neg (by omega)]
    exact Nat.zero_le _

/-- Once a later window has begun, what the windows weigh is no more than the current one did. -/
theorem aged_weighted_le (under : sc.Under quota) {a b : ℕ} (later : sc.windowAt a < sc.windowAt b)
    (offset : ℕ) : (sc.aged b).weighted offset ≤ (sc.aged a).curr * nanos quota.period := by
  obtain ⟨curr, prev⟩ := under.aged_of_later later
  rw [weighted, curr, Nat.zero_mul, Nat.add_zero, (under.aged b).period]
  exact Nat.mul_le_mul prev (Nat.sub_le _ _)

/-- A later reading finds no larger weighted count. -/
theorem load_anti (under : sc.Under quota) {a b : ℕ} (h : a ≤ b) : sc.load b ≤ sc.load a := by
  have windows : sc.windowAt a ≤ sc.windowAt b := windowAt_mono sc h
  have instants : sc.instant (nanos a) ≤ sc.instant (nanos b) := by
    rw [under.instant_eq, under.instant_eq]
    exact max_le_max_right _ (nanos_mono h)
  rw [under.load_eq, under.load_eq]
  by_cases same : sc.windowAt b = sc.windowAt a
  · -- in one window only the share of the previous one fades
    have alike : sc.aged b = sc.aged a := by rw [under.aged_eq, under.aged_eq, same]
    rw [alike, same]
    exact Nat.add_le_add_right (Nat.mul_le_mul_left _ (Nat.sub_le_sub_left instants _)) _
  · have share := under.aged_weighted_le (lt_of_le_of_ne windows (Ne.symm same))
      (sc.instant (nanos b) % sc.periodNs)
    rw [← under.load_eq]
    exact share.trans (Nat.le_add_left _ _)

/-- What is left of the limit is whole exactly when neither window counts anything. -/
theorem load_eq_zero (under : sc.Under quota) (now : ℕ) :
    sc.load now = 0 ↔ (sc.aged now).prev = 0 ∧ (sc.aged now).curr = 0 := by
  have inside : sc.instant (nanos now) < (sc.windowAt now + 1) * nanos quota.period := by
    rw [← under.instant_div]
    exact Nat.lt_mul_of_div_lt (Nat.lt_succ_self _) under.period_pos
  have share : (sc.windowAt now + 1) * nanos quota.period - sc.instant (nanos now) ≠ 0 := by omega
  have positive := under.period_pos.ne'
  rw [under.load_eq, Nat.add_eq_zero_iff, Nat.mul_eq_zero, Nat.mul_eq_zero]
  simp [share, positive]

end Under

/-- The units left beside the weighted count as of `now`. -/
def remainingAt (sc : SlidingCounter) (now : ℕ) : ℕ :=
  (sc.limit * sc.periodNs - sc.load now) / sc.periodNs

/-- Units fit exactly when they are no more than what is left. -/
theorem Under.fits_iff (under : sc.Under quota) {n : ℕ} (asked : 1 ≤ n) (now : ℕ) :
    (sc.aged now).fits (sc.instant (nanos now) % sc.periodNs) n = true ↔ n ≤ sc.remainingAt now := by
  have positive : 0 < sc.periodNs := under.period ▸ under.period_pos
  have period : (sc.aged now).periodNs = sc.periodNs := (under.aged now).period.trans under.period.symm
  have limit : (sc.aged now).limit = sc.limit := (under.aged now).limit.trans under.limit.symm
  have some_units : 0 < n * sc.periodNs := Nat.mul_pos asked positive
  rw [fits, decide_eq_true_iff, period, limit, remainingAt, Nat.le_div_iff_mul_le positive, load]
  omega

theorem remainingAt_le (under : sc.Under quota) (now : ℕ) : sc.remainingAt now ≤ quota.limit := by
  rw [remainingAt, ← under.limit]
  exact Nat.div_le_of_le_mul (by rw [Nat.mul_comm sc.periodNs]; exact Nat.sub_le _ _)

theorem remainingAt_mono (under : sc.Under quota) {a b : ℕ} (h : a ≤ b) :
    sc.remainingAt a ≤ sc.remainingAt b :=
  Nat.div_le_div_right (Nat.sub_le_sub_left (under.load_anti h) _)

theorem remainingAt_eq_limit (under : sc.Under quota) (now : ℕ) :
    sc.remainingAt now = quota.limit ↔ sc.load now = 0 := by
  have positive : 0 < sc.periodNs := under.period ▸ under.period_pos
  have whole := Nat.mul_pos under.limit_pos positive
  rw [remainingAt, ← under.limit]
  constructor
  · intro all
    have enough := (Nat.le_div_iff_mul_le positive).1 all.ge
    rw [under.limit] at enough
    omega
  · intro nothing
    rw [nothing, Nat.sub_zero, Nat.mul_div_cancel _ positive]

/-- Units that fit are admitted and counted in the current window. -/
theorem acquire_fits (under : sc.Under quota) {n : ℕ} (asked : 1 ≤ n) (fits : n ≤ sc.remainingAt now) :
    sc.acquire n now = (.allow, { sc.aged now with curr := (sc.aged now).curr + n }) ∧
      (sc.aged now).curr + n ≤ quota.limit := by
  have possible := fits.trans (remainingAt_le under now)
  have room := (under.fits_iff asked now).2 fits
  have sum : (sc.aged now).curr + n ≤ quota.limit := by
    rw [SlidingCounter.fits, decide_eq_true_iff, weighted, (under.aged now).limit, Nat.add_assoc,
      ← Nat.add_mul] at room
    have positive : 0 < (sc.aged now).periodNs := (under.aged now).period ▸ under.period_pos
    exact Nat.le_of_mul_le_mul_right ((Nat.le_add_left _ _).trans room) positive
  refine ⟨?_, sum⟩
  rw [acquire, if_neg (by omega), if_neg (under.guard possible)]
  simp only [roll_eq, if_pos room, min_eq_left (sum.trans quota.limit_le)]

/-- Units that do not fit are denied, and the windows are rolled. -/
theorem acquire_full (under : sc.Under quota) {n : ℕ} (possible : n ≤ quota.limit)
    (full : sc.remainingAt now < n) : ∃ wait, sc.acquire n now = (.deny wait, sc.aged now) := by
  have no_room := mt (under.fits_iff (by omega) now).1 (Nat.not_le_of_lt full)
  rw [acquire, if_neg (by omega), if_neg (under.guard possible)]
  simp only [roll_eq, if_neg no_room]
  exact ⟨_, rfl⟩

theorem acquire_zero (sc : SlidingCounter) (now : ℕ) : sc.acquire 0 now = (.allow, sc) := by
  rw [acquire, if_pos rfl]

theorem acquire_impossible (under : sc.Under quota) {n : ℕ} (h : quota.limit < n) (now : ℕ) :
    sc.acquire n now = (.deny durationMax, sc) := by
  have bound := under.limit
  rw [acquire, if_neg (by omega), if_pos (by omega)]

/-- The wait until both windows' counts have faded, as a read reports it. -/
def resetAfter (sc : SlidingCounter) (now : ℕ) : ℕ :=
  let toBoundary := sc.periodNs - sc.instant (nanos now) % sc.periodNs
  let fullIn :=
    if (sc.aged now).curr > 0 then satAdd toBoundary sc.periodNs
    else if (sc.aged now).prev > 0 then toBoundary
    else 0
  if fullIn = 0 then 0 else satAdd fullIn (sc.instant (nanos now) - nanos now)

/-- What a read does. -/
theorem peek_eq (under : sc.Under quota) (now : ℕ) :
    sc.peek now = (.new quota.limit (sc.remainingAt now) (sc.resetAfter now), sc.aged now) := by
  have period : (sc.aged now).periodNs = sc.periodNs := (under.aged now).period.trans under.period.symm
  have limit : (sc.aged now).limit = sc.limit := (under.aged now).limit.trans under.limit.symm
  have small : min (sc.remainingAt now) u32Max = sc.remainingAt now :=
    min_eq_left ((remainingAt_le under now).trans quota.limit_le)
  rw [peek, if_neg under.not_closed]
  simp only [roll_eq, period, limit]
  rw [← under.limit, ← small]
  rfl

/-- A check leaves a state kept under its quota. -/
theorem Under.acquire (under : sc.Under quota) (n now : ℕ) : (sc.acquire n now).2.Under quota := by
  rcases Nat.eq_zero_or_pos n with rfl | asked
  · rw [acquire_zero]
    exact under
  rcases Nat.lt_or_ge quota.limit n with impossible | possible
  · rw [acquire_impossible under impossible]
    exact under
  rcases Nat.lt_or_ge (sc.remainingAt now) n with full | fits
  · obtain ⟨wait, denied⟩ := acquire_full under possible full
    rw [denied]
    exact under.aged now
  · obtain ⟨allowed, sum⟩ := acquire_fits under asked fits
    rw [allowed]
    exact { under.aged now with curr_le := sum }

theorem Under.peek (under : sc.Under quota) (now : ℕ) : (sc.peek now).2.Under quota := by
  rw [peek_eq under]
  exact under.aged now

theorem Under.reset (under : sc.Under quota) : sc.reset.Under quota :=
  { under with prev_le := Nat.zero_le _, curr_le := Nat.zero_le _ }

theorem new_under (admits : admitsAnything .slidingWindowCounter quota = true) (now : ℕ) :
    (SlidingCounter.new quota now).Under quota := by
  obtain ⟨limit, period⟩ := (admitsAnything_window (Or.inr (Or.inr rfl))).1 admits
  refine ⟨rfl, rfl, ?_, limit, Nat.zero_le _, Nat.zero_le _, ?_⟩
  · simp only [nanos, u64Max]
    omega
  · exact (Nat.div_mul_le_self _ _).trans (nanos_le now)

theorem remaining_eq (under : sc.Under quota) (now : ℕ) :
    (sc.peek now).1.remaining = sc.remainingAt now := by
  rw [peek_eq under, Snapshot.new_remaining, min_eq_left (remainingAt_le under now)]

/-- The decision agrees with the snapshot. -/
theorem Under.allow_iff (under : sc.Under quota) {n : ℕ} :
    (sc.acquire n now).1 = .allow ↔ n = 0 ∨ n ≤ (sc.peek now).1.remaining := by
  have bound := remainingAt_le under now
  rw [remaining_eq under]
  rcases Nat.eq_zero_or_pos n with rfl | asked
  · simp [acquire_zero]
  rcases Nat.lt_or_ge quota.limit n with impossible | possible
  · rw [acquire_impossible under impossible]
    simp only [reduceCtorEq, false_iff]
    omega
  rcases Nat.lt_or_ge (sc.remainingAt now) n with full | fits
  · obtain ⟨wait, denied⟩ := acquire_full under possible full
    rw [denied]
    simp only [reduceCtorEq, false_iff]
    omega
  · rw [(acquire_fits under asked fits).1]
    simp only [true_iff]
    omega

/-- Rolling to a window no later than that of `now` does not move the instant `now` is judged at. -/
theorem Under.instant_aged (under : sc.Under quota) {read : ℕ} (reached : sc.windowAt read ≤ sc.windowAt now) :
    (sc.aged read).instant (nanos now) = sc.instant (nanos now) := by
  have floor := under.windowAt_mul_le now
  have start : sc.window ≤ sc.windowAt read := le_max_left _ _
  have starts := Nat.mul_le_mul_right (nanos quota.period) start
  have bounds := Nat.mul_le_mul_right (nanos quota.period) reached
  rw [(under.aged read).instant_eq, under.aged_window, under.instant_eq]
  rw [under.instant_eq] at floor
  omega

theorem Under.load_aged_of_reached (under : sc.Under quota) {read : ℕ}
    (reached : sc.windowAt read ≤ sc.windowAt now) : (sc.aged read).load now = sc.load now := by
  have period : (sc.aged read).periodNs = sc.periodNs := (under.aged read).period.trans under.period.symm
  have same : sc.windowAt (max read now) = sc.windowAt now := by
    rcases Nat.le_total read now with h | h
    · rw [max_eq_right h]
    · rw [max_eq_left h]
      exact le_antisymm reached (windowAt_mono sc h)
  have alike : sc.aged (max read now) = sc.aged now := by rw [under.aged_eq, under.aged_eq, same]
  rw [load, under.aged_aged, period, alike, under.instant_aged reached]
  rfl

/-- Reading at any instant does not tighten a counter. -/
theorem Under.load_aged (under : sc.Under quota) (read now : ℕ) : (sc.aged read).load now ≤ sc.load now := by
  rcases Nat.lt_or_ge (sc.windowAt now) (sc.windowAt read) with earlier | reached
  · -- the read has rolled past the window of `now`
    have period : (sc.aged read).periodNs = sc.periodNs := (under.aged read).period.trans under.period.symm
    have last : sc.windowAt now < sc.windowAt (max read now) :=
      lt_of_lt_of_le earlier (windowAt_mono sc (le_max_left read now))
    rw [load, under.aged_aged, period, under.load_eq now]
    exact (under.aged_weighted_le last _).trans (Nat.le_add_left _ _)
  · exact (under.load_aged_of_reached reached).le

/-- What was left before an earlier reading is left after it. -/
theorem Under.remainingAt_aged (under : sc.Under quota) {read : ℕ} (h : read ≤ now) :
    (sc.aged read).remainingAt now = sc.remainingAt now := by
  rw [remainingAt, remainingAt, under.load_aged_of_reached (windowAt_mono sc h), (under.aged read).limit,
    (under.aged read).period, under.limit, under.period]

/-- Reading at one instant twice reads the same. -/
theorem Under.peek_aged (under : sc.Under quota) (now : ℕ) :
    (sc.aged now).peek now = (.new quota.limit (sc.remainingAt now) (sc.resetAfter now), sc.aged now) := by
  have period : (sc.aged now).periodNs = sc.periodNs := (under.aged now).period.trans under.period.symm
  have state : (sc.aged now).aged now = sc.aged now := by rw [under.aged_aged, max_self]
  rw [peek_eq (under.aged now), under.remainingAt_aged le_rfl, resetAfter, state, under.instant_aged le_rfl,
    period]
  rfl

/-- Nothing is left of the counts two windows on, nor one window on from an empty one. -/
theorem Under.aged_of_passed (under : sc.Under quota) (passed : sc.window < sc.windowAt now)
    (quiet : sc.curr = 0 ∨ sc.window + 1 < sc.windowAt now) :
    (sc.aged now).prev = 0 ∧ (sc.aged now).curr = 0 := by
  rw [under.aged_eq, if_neg (by omega)]
  refine ⟨?_, rfl⟩
  show (if _ then sc.curr else 0) = 0
  split
  · omega
  · rfl

/-- Both windows have faded by the deadline a snapshot reports. -/
theorem Under.load_of_due (under : sc.Under quota) {later : ℕ} (due : now + sc.resetAfter now ≤ later)
    (clock : later < u64Max) : sc.load later = 0 := by
  have order : now ≤ later := (Nat.le_add_right _ _).trans due
  have ahead := under.le_instant now
  have offset := Nat.mod_lt (sc.instant (nanos now)) under.period_pos
  have split := under.instant_split now
  have aged := under.aged now
  have again : sc.aged later = (sc.aged now).aged later := by rw [under.aged_aged, max_eq_right order]
  have window := under.aged_window now
  -- the window of `later`, once the windows of `now` have passed
  have reached : ∀ count, (sc.windowAt now + count) * nanos quota.period ≤ later →
      sc.windowAt now + count ≤ (sc.aged now).windowAt later := by
    intro count passed
    have inside := (Nat.le_div_iff_mul_le under.period_pos).2 passed
    rw [← aged.period, ← nanos_eq clock.le] at inside
    exact le_max_of_le_right inside
  rw [resetAfter, under.period] at due
  rw [nanos_eq (by omega : now ≤ u64Max)] at due ahead split offset
  rw [under.load_eq_zero, again]
  by_cases curr : (sc.aged now).curr > 0
  · simp only [if_pos curr] at due
    have waits : satAdd (nanos quota.period - sc.instant now % nanos quota.period) (nanos quota.period) ≠
        0 := by
      simp only [satAdd, u64Max]
      omega
    rw [if_neg waits] at due
    have end_ := reached 2 (by
      simp only [satAdd] at due
      rw [Nat.add_mul]
      omega)
    exact aged.aged_of_passed (by omega) (Or.inr (by omega))
  · by_cases prev : (sc.aged now).prev > 0
    · simp only [if_neg curr, if_pos prev] at due
      rw [if_neg (by omega)] at due
      have end_ := reached 1 (by
        simp only [satAdd] at due
        rw [Nat.add_mul]
        omega)
      exact aged.aged_of_passed (by omega) (Or.inl (by omega))
    · rw [← again, ← under.load_eq_zero]
      have nothing := (under.load_eq_zero now).2 ⟨by omega, by omega⟩
      have anti := under.load_anti order
      omega

/-- Empty windows weigh nothing, now or later. -/
theorem Under.load_of_empty (under : sc.Under quota) (prev : sc.prev = 0) (curr : sc.curr = 0) (now : ℕ) :
    sc.load now = 0 := by
  rw [under.load_eq_zero, under.aged_eq]
  split
  · exact ⟨prev, curr⟩
  · rw [curr, ite_self]
    exact ⟨rfl, rfl⟩

/-- Units that fit weigh a period each. -/
theorem load_acquire (under : sc.Under quota) {n : ℕ} (asked : 1 ≤ n) (fits : n ≤ sc.remainingAt now) :
    (sc.acquire n now).2.load now = sc.load now + n * nanos quota.period := by
  have after := under.acquire n now
  rw [(acquire_fits under asked fits).1] at after ⊢
  dsimp only at after ⊢
  generalize same : ({ sc.aged now with curr := (sc.aged now).curr + n } : SlidingCounter) = sc' at after ⊢
  have window : sc'.windowAt now = sc'.window := by
    subst same
    have period : (sc.aged now).periodNs = sc.periodNs := (under.aged now).period.trans under.period.symm
    show max (sc.aged now).window (nanos now / (sc.aged now).periodNs) = (sc.aged now).window
    rw [period, under.aged_window]
    exact max_eq_left (le_max_right _ _)
  have instants : sc'.instant (nanos now) = sc.instant (nanos now) := by
    subst same
    exact under.instant_aged le_rfl
  have windows : sc'.windowAt now = sc.windowAt now := by
    rw [← after.instant_div, ← under.instant_div, instants]
  have alike : sc'.aged now = sc' := by rw [after.aged_eq, if_pos window]
  rw [after.load_eq, under.load_eq, alike, windows, instants]
  subst same
  show (sc.aged now).prev * _ + ((sc.aged now).curr + n) * _ = _
  rw [Nat.add_mul (sc.aged now).curr, Nat.add_assoc]

/-- Units that fit are gone from what is left. -/
theorem remainingAt_acquire (under : sc.Under quota) {n : ℕ} (asked : 1 ≤ n) (fits : n ≤ sc.remainingAt now) :
    (sc.acquire n now).2.remainingAt now = sc.remainingAt now - n := by
  have after := under.acquire n now
  rw [remainingAt, remainingAt, after.limit, after.period, under.limit, under.period,
    load_acquire under asked fits, ← Nat.sub_sub, Nat.mul_comm n, Nat.sub_mul_div]

end SlidingCounter

end RateNet
