/-
Module: RateNet.Algo.Gcra
Layer: Algo
Purpose: The leaky bucket. `GcraParams` holds a quota's parameters and runs against a theoretical arrival
  time (TAT) counted in emission intervals; `Gcra` is one such time with its parameters. The operations
  are the source's, with the compare-and-swap loop cut into one attempt: `attempt` is what an iteration
  decides from the word it loaded, and `checkNIn` is the call with no other thread in between. The
  second half reads the conversions as the rounded rate conversions of `RateConversion` and gives one
  specification lemma per operation.
Imports: RateNet.Core.KeyState, RateNet.Lib.RateConversion
Trusted boundary: none
Main exports: GcraParams, GcraParams.new, intervalsAt, nanosAt, attempt, checkNIn, peekIn, isFullIn,
  restoreUntilIn, validate, Gcra, IsOpen, intervalsAt_eq, checkNIn_cases, checkNIn_allow_iff, peekIn_open,
  Gcra.Under
-/
import RateNet.Core.KeyState
import RateNet.Lib.RateConversion

namespace RateNet

open RateConversion

/-- A GCRA quota's parameters. -/
structure GcraParams where
  /-- Effective units per period, at most one per nanosecond. -/
  limit : ℕ
  periodNs : ℕ
  /-- `limit * 2^64 / periodNs`; zero exactly when the quota admits nothing. -/
  perNs : ℕ
  /-- Delay tolerance in intervals: `burst - 1`. -/
  tolerance : ℕ
  quota : Quota
deriving DecidableEq

/-- Why a quota is rejected. -/
inductive RateLimiterError where
  | zeroQuota
  | zeroPeriod
  | zeroBurst
  | rateTooHigh
deriving DecidableEq, Repr

/-- The strict checks behind `try_new`. -/
def validate (quota : Quota) : Except RateLimiterError Unit :=
  if quota.limit = 0 then .error .zeroQuota
  else if quota.period = 0 then .error .zeroPeriod
  else if quota.burst = 0 then .error .zeroBurst
  else if quota.limit > quota.period then .error .rateTooHigh
  else .ok ()

/-- What one iteration of the check loop decides from the word it loaded. -/
inductive GcraAttempt where
  /-- Swap this new arrival time in; the call admits if the swap succeeds. -/
  | swap (newTat : ℕ)
  | refuse (retryAfter : ℕ)
deriving DecidableEq, Repr

namespace GcraParams

/-- The parameters for `quota`: a rate finer than one unit per nanosecond is clamped to it, and a zero
    limit, period or burst admits nothing. -/
def new (quota : Quota) : GcraParams :=
  let periodNs := nanos quota.period
  let burst := quota.burst
  let limit := min quota.limit periodNs
  let perNs := if limit = 0 ∨ burst = 0 then 0 else (limit <<< 64) / periodNs
  { limit, periodNs, perNs, tolerance := burst - 1, quota }

/-- The parameters for `quota`, validated. -/
def tryNew (quota : Quota) : Except RateLimiterError GcraParams :=
  match validate quota with
  | .error e => .error e
  | .ok _ => .ok (new quota)

/-- Whether the quota admits nothing. -/
def closed (p : GcraParams) : Bool := p.perNs == 0

/-- The current time in intervals: the reciprocal estimate, corrected by one exact comparison. -/
def intervalsAt (p : GcraParams) (nowNs : ℕ) : ℕ :=
  let estimate := ((nowNs * p.perNs) >>> 64) % 2 ^ 64
  let next := estimate + 1
  if next * p.periodNs ≤ nowNs * p.limit then estimate + 1 else estimate

/-- The first nanosecond at which `interval` has begun. -/
def nanosAt (p : GcraParams) (interval : ℕ) : ℕ :=
  min ((interval * p.periodNs) ⌈/⌉ p.limit) u64Max

/-- One iteration of the check loop for `n` units, from the loaded word `current`. -/
def attempt (p : GcraParams) (n nowNs nowIv current : ℕ) : GcraAttempt :=
  let span := n - 1
  let ceiling := satAdd nowIv p.tolerance
  -- a late thread only ever sees a later arrival time here, which makes it stricter
  let effective := max current nowIv
  if satAdd effective span ≤ ceiling then
    .swap (satAdd effective n)
  else
    let readyIv := satAdd effective span - p.tolerance
    .refuse (max (p.nanosAt readyIv - nowNs) 1)

/-- Checks `n` units against the word `tat` at `now`, with no other thread in between: the decision and
    the word left behind. -/
def checkNIn (p : GcraParams) (tat n now : ℕ) : Decision × ℕ :=
  if n = 0 then
    (.allow, tat)
  else if p.closed ∨ n - 1 > p.tolerance then
    (.deny durationMax, tat)
  else
    let nowNs := nanos now
    match p.attempt n nowNs (p.intervalsAt nowNs) tat with
    | .swap newTat => (.allow, newTat)
    | .refuse retryAfter => (.deny retryAfter, tat)

/-- Reads the allowance in `tat` at `now`. -/
def peekIn (p : GcraParams) (tat now : ℕ) : Snapshot :=
  if p.closed then
    .closed
  else
    let burst := p.tolerance + 1
    let nowNs := nanos now
    let nowIv := p.intervalsAt nowNs
    let tat := max tat nowIv
    let remaining := satAdd nowIv burst - tat
    let resetAfter := if tat = nowIv then 0 else p.nanosAt tat - nowNs
    .new (min burst u32Max) (min remaining u32Max) resetAfter

/-- Whether `tat` holds the whole burst at `now`. -/
def isFullIn (p : GcraParams) (tat now : ℕ) : Bool :=
  p.closed || decide (tat ≤ p.intervalsAt (nanos now))

/-- Raises `tat` to the first emission interval that begins at or after `«until»`. -/
def restoreUntilIn (p : GcraParams) (tat «until» : ℕ) : ℕ :=
  if p.closed then
    tat
  else
    let untilNs := nanos «until»
    let floor := p.intervalsAt untilNs
    let interval := if p.nanosAt floor ≥ untilNs then floor else satAdd floor 1
    max tat interval

end GcraParams

/-- A single-key leaky bucket: one arrival time plus its parameters. -/
structure Gcra where
  tat : ℕ
  params : GcraParams
deriving DecidableEq

namespace Gcra

/-- Interval 0 is at or before any `now`, so a fresh key is full. -/
def new (quota : Quota) : Gcra := { tat := 0, params := .new quota }

def checkNAt (g : Gcra) (n now : ℕ) : Decision × Gcra :=
  ((g.params.checkNIn g.tat n now).1, { g with tat := (g.params.checkNIn g.tat n now).2 })

def peekAt (g : Gcra) (now : ℕ) : Snapshot := g.params.peekIn g.tat now

def reset (g : Gcra) : Gcra := { g with tat := 0 }

def isFullAt (g : Gcra) (now : ℕ) : Bool := g.params.isFullIn g.tat now

def restoreUntil (g : Gcra) («until» : ℕ) : Gcra :=
  { g with tat := g.params.restoreUntilIn g.tat «until» }

end Gcra

instance : KeyState Gcra where
  create quota _ := if admitsAnything .leakyBucket quota then some (Gcra.new quota) else none
  acquire g n now := g.checkNAt n now
  peek g now := (g.peekAt now, g)
  reset g _ := g.reset
  isFull g now := (g.isFullAt now, g)
  restore g debt now := if debt.until > now then g.restoreUntil debt.until else g

/-!
### Open parameters

`IsOpen` is what `GcraParams.new` gives for a quota that admits something; every arithmetic fact below
rests on it alone.
-/

namespace GcraParams

/-- Parameters of a quota that admits something. -/
structure IsOpen (p : GcraParams) : Prop where
  limit_pos : 0 < p.limit
  limit_le : p.limit ≤ p.periodNs
  period_le : p.periodNs ≤ u64Max
  perNs_eq : p.perNs = reciprocal p.limit p.periodNs (2 ^ 64)
  tolerance_lt : p.tolerance < u32Max

namespace IsOpen

variable {p : GcraParams}

theorem period_pos (hp : p.IsOpen) : 0 < p.periodNs := lt_of_lt_of_le hp.limit_pos hp.limit_le

theorem perNs_pos (hp : p.IsOpen) : 0 < p.perNs := by
  rw [hp.perNs_eq, reciprocal]
  refine Nat.div_pos ?_ hp.period_pos
  have := hp.limit_pos
  have := hp.period_le
  simp only [u64Max] at this
  omega

theorem not_closed (hp : p.IsOpen) : p.closed = false := by
  have := hp.perNs_pos
  simp only [closed, beq_eq_false_iff_ne, ne_eq]
  omega

end IsOpen

/-- `new` builds open parameters exactly when it does not mark the quota closed. -/
theorem new_isOpen {quota : Quota} (h : (new quota).closed = false) : (new quota).IsOpen := by
  have hne : ¬ (min quota.limit (nanos quota.period) = 0 ∨ quota.burst = 0) := by
    intro hzero
    have hper : (new quota).perNs = 0 := if_pos hzero
    simp [closed, hper] at h
  rw [not_or] at hne
  have bound := quota.burst_le
  refine ⟨?_, ?_, nanos_le _, ?_, ?_⟩
  · exact Nat.pos_of_ne_zero hne.1
  · exact min_le_right _ _
  · simp only [new, if_neg (not_or.2 hne), reciprocal, Nat.shiftLeft_eq]
  · simp only [new]
    omega

/-- The burst an open quota was configured with is the tolerance plus one. -/
theorem tolerance_add_one {quota : Quota} (h : (new quota).closed = false) :
    (new quota).tolerance + 1 = quota.burst := by
  have hburst : quota.burst ≠ 0 := by
    intro hzero
    have hper : (new quota).perNs = 0 := if_pos (Or.inr hzero)
    simp [closed, hper] at h
  simp only [new]
  omega

/-- A quota the key state is created for has open parameters. -/
theorem new_isOpen_of_admits {quota : Quota} (h : admitsAnything .leakyBucket quota = true) :
    (new quota).IsOpen := by
  obtain ⟨hlimit, hperiod, hburst⟩ := admitsAnything_leakyBucket.1 h
  have hnanos : 0 < nanos quota.period := by
    simp only [nanos, u64Max]
    omega
  have hmin : 0 < min quota.limit (nanos quota.period) := lt_min hlimit hnanos
  have hpositive : (new quota).perNs ≠ 0 := by
    simp only [new]
    rw [if_neg (by omega)]
    refine (Nat.div_pos ?_ hnanos).ne'
    have := nanos_le quota.period
    simp only [u64Max] at this
    rw [Nat.shiftLeft_eq]
    omega
  exact new_isOpen (by simpa [closed] using hpositive)

/-- A quota the strict checks accept admits something. -/
theorem admits_of_tryNew {quota : Quota} {p : GcraParams} (h : tryNew quota = .ok p) :
    admitsAnything .leakyBucket quota = true := by
  have hvalid : validate quota = .ok () := by
    cases hv : validate quota with
    | error e => simp [tryNew, hv] at h
    | ok u => rfl
  rw [admitsAnything_leakyBucket]
  unfold validate at hvalid
  split at hvalid
  · cases hvalid
  · split at hvalid
    · cases hvalid
    · split at hvalid
      · cases hvalid
      · omega

theorem new_isOpen_of_tryNew {quota : Quota} {p : GcraParams} (h : tryNew quota = .ok p) :
    p = new quota ∧ p.IsOpen := by
  have hp : p = new quota := by
    unfold tryNew at h
    split at h
    · cases h
    · cases h
      rfl
  subst hp
  exact ⟨rfl, new_isOpen_of_admits (admits_of_tryNew h)⟩

section Conversions

variable {p : GcraParams} (hp : p.IsOpen)
include hp

/-- The corrected reciprocal is the exact floor, and the cast of the estimate loses nothing. -/
theorem intervalsAt_eq {nowNs : ℕ} (h : nowNs ≤ u64Max) :
    p.intervalsAt nowNs = ticksAt p.limit p.periodNs nowNs := by
  have hbase : nowNs < 2 ^ 64 := by
    simp only [u64Max] at h
    omega
  have fits : nowNs * reciprocal p.limit p.periodNs (2 ^ 64) / 2 ^ 64 < 2 ^ 64 := by
    refine lt_of_le_of_lt (reciprocal_estimate_le hp.period_pos (by norm_num) nowNs) ?_
    exact lt_of_le_of_lt (ticksAt_le hp.limit_le nowNs) hbase
  simp only [intervalsAt, Nat.shiftRight_eq_div_pow, hp.perNs_eq, Nat.mod_eq_of_lt fits]
  exact corrected_eq_ticksAt hp.period_pos hbase

theorem intervalsAt_mono {a b : ℕ} (h : a ≤ b) (hb : b ≤ u64Max) :
    p.intervalsAt a ≤ p.intervalsAt b := by
  rw [intervalsAt_eq hp (h.trans hb), intervalsAt_eq hp hb]
  exact ticksAt_mono h

theorem intervalsAt_nanos_mono {a b : ℕ} (h : a ≤ b) :
    p.intervalsAt (nanos a) ≤ p.intervalsAt (nanos b) :=
  intervalsAt_mono hp (nanos_mono h) (nanos_le b)

omit hp in
theorem nanosAt_eq (p : GcraParams) (interval : ℕ) :
    p.nanosAt interval = min (tickStart p.limit p.periodNs interval) u64Max := rfl

/-- An interval that has not begun by `now` starts later, also where the start saturates. -/
theorem lt_nanosAt_of_intervalsAt_lt {nowNs i : ℕ} (h : nowNs < u64Max)
    (hi : p.intervalsAt nowNs < i) : nowNs < p.nanosAt i := by
  rw [intervalsAt_eq hp h.le] at hi
  have : nowNs < tickStart p.limit p.periodNs i := by
    by_contra hge
    have := (tickStart_le_iff hp.limit_pos hp.period_pos).1 (Nat.le_of_not_lt hge)
    omega
  rw [nanosAt_eq]
  exact lt_min this h

theorem le_intervalsAt_of_nanosAt_le {nowNs i : ℕ} (h : nowNs < u64Max) (hi : p.nanosAt i ≤ nowNs) :
    i ≤ p.intervalsAt nowNs := by
  by_contra hlt
  have := lt_nanosAt_of_intervalsAt_lt hp h (Nat.lt_of_not_le hlt)
  omega

/-- Restoring to an instant at or after the start of `i` reaches at least interval `i`. -/
theorem le_restoreUntilIn {tat i untilNs : ℕ} (hi : tickStart p.limit p.periodNs i ≤ untilNs)
    (hu : tickStart p.limit p.periodNs i ≤ u64Max) : i ≤ p.restoreUntilIn tat untilNs := by
  simp only [restoreUntilIn, hp.not_closed, Bool.false_eq_true, if_false]
  refine le_max_of_le_right ?_
  have reached : tickStart p.limit p.periodNs i ≤ nanos untilNs := le_min hi hu
  rw [intervalsAt_eq hp (nanos_le untilNs)]
  have floor_le : i ≤ ticksAt p.limit p.periodNs (nanos untilNs) :=
    (tickStart_le_iff hp.limit_pos hp.period_pos).1 reached
  split
  · exact floor_le
  · have := nanos_le untilNs
    have := ticksAt_le hp.limit_le (nanos untilNs)
    simp only [satAdd]
    omega

/-- A later deadline restores to no earlier interval. -/
theorem restoreUntilIn_mono {tat a b : ℕ} (h : a ≤ b) :
    p.restoreUntilIn tat a ≤ p.restoreUntilIn tat b := by
  simp only [restoreUntilIn, hp.not_closed, Bool.false_eq_true, if_false]
  apply max_le_max_left
  have instants := nanos_mono h
  have floors := intervalsAt_nanos_mono hp h
  rcases Nat.eq_or_lt_of_le floors with same | later
  · rw [same]
    split
    · split
      · exact le_rfl
      · have small := intervalsAt_eq hp (nanos_le b) ▸ ticksAt_le hp.limit_le (nanos b)
        exact le_min (Nat.le_succ _) (small.trans (nanos_le b))
    · rename_i short
      rw [if_neg (by omega)]
  · have next := satAdd_le (p.intervalsAt (nanos a)) 1
    have start : p.intervalsAt (nanos b) ≤ satAdd (p.intervalsAt (nanos b)) 1 := by
      have small := intervalsAt_eq hp (nanos_le b) ▸ ticksAt_le hp.limit_le (nanos b)
      exact le_min (Nat.le_succ _) (small.trans (nanos_le b))
    split <;> split <;> omega

end Conversions

/-!
### One lemma per operation
-/

/-- The interval number of `now` plus the burst fits a word, so no addition of a check saturates. -/
def Unsaturated (p : GcraParams) (now : ℕ) : Prop :=
  p.intervalsAt (nanos now) + (p.tolerance + 1) ≤ u64Max

/-- What a swap offered by one iteration does to the word. -/
theorem attempt_swap {p : GcraParams} {n nowNs nowIv current newTat : ℕ} (hn : 0 < n)
    (hsat : nowIv + (p.tolerance + 1) ≤ u64Max)
    (h : p.attempt n nowNs nowIv current = .swap newTat) :
    newTat = max current nowIv + n ∧ newTat ≤ nowIv + (p.tolerance + 1) := by
  simp only [attempt] at h
  split at h
  · rename_i fits
    simp only [GcraAttempt.swap.injEq] at h
    simp only [satAdd] at fits h
    omega
  · cases h

/-- Everything a check can do to the word: nothing, or admit and advance it by exactly `n` from the
    later of the word and the current interval, never past the current interval plus the burst. -/
theorem checkNIn_cases {p : GcraParams} (tat n : ℕ) {now : ℕ} (hsat : p.Unsaturated now) :
    (n = 0 ∧ p.checkNIn tat n now = (.allow, tat)) ∨
    (0 < n ∧ ∃ retryAfter, p.checkNIn tat n now = (.deny retryAfter, tat)) ∨
    (0 < n ∧ p.checkNIn tat n now = (.allow, max tat (p.intervalsAt (nanos now)) + n) ∧
      max tat (p.intervalsAt (nanos now)) + n ≤ p.intervalsAt (nanos now) + (p.tolerance + 1)) := by
  rcases Nat.eq_zero_or_pos n with hn | hn
  · exact Or.inl ⟨hn, by simp [checkNIn, hn]⟩
  refine Or.inr ?_
  simp only [checkNIn, if_neg hn.ne']
  split
  · exact Or.inl ⟨hn, _, rfl⟩
  · split
    · rename_i newTat hattempt
      obtain ⟨heq, hle⟩ := attempt_swap hn hsat hattempt
      subst heq
      exact Or.inr ⟨hn, rfl, hle⟩
    · exact Or.inl ⟨hn, _, rfl⟩

/-- A read of open parameters. -/
theorem peekIn_open {p : GcraParams} (hp : p.IsOpen) (tat now : ℕ) :
    p.peekIn tat now = Snapshot.new (p.tolerance + 1)
      (min (satAdd (p.intervalsAt (nanos now)) (p.tolerance + 1) -
        max tat (p.intervalsAt (nanos now))) u32Max)
      (if max tat (p.intervalsAt (nanos now)) = p.intervalsAt (nanos now) then 0
        else p.nanosAt (max tat (p.intervalsAt (nanos now))) - nanos now) := by
  have small : min (p.tolerance + 1) u32Max = p.tolerance + 1 := min_eq_left hp.tolerance_lt
  simp only [peekIn, hp.not_closed, Bool.false_eq_true, if_false, small]

/-- A check of units that can fit is admitted exactly when they fit before the tolerance runs out. -/
theorem checkNIn_allow_iff {p : GcraParams} (hp : p.IsOpen) {tat n now : ℕ} (asked : 1 ≤ n)
    (possible : n ≤ p.tolerance + 1) :
    (p.checkNIn tat n now).1 = .allow ↔
      satAdd (max tat (p.intervalsAt (nanos now))) (n - 1) ≤
        satAdd (p.intervalsAt (nanos now)) p.tolerance := by
  have guard : ¬ (p.closed = true ∨ n - 1 > p.tolerance) := by
    rw [hp.not_closed]
    simp only [Bool.false_eq_true, false_or]
    omega
  rw [checkNIn, if_neg (by omega), if_neg guard]
  simp only [attempt]
  split
  · rename_i swapped
    split at swapped
    · rename_i fits
      exact iff_of_true rfl fits
    · cases swapped
  · rename_i refused
    split at refused
    · cases refused
    · rename_i full
      exact iff_of_false (by simp) full

/-- A denied check leaves the word. -/
theorem checkNIn_denied {p : GcraParams} {tat n now : ℕ} (denied : (p.checkNIn tat n now).1.isDeny = true) :
    (p.checkNIn tat n now).2 = tat := by
  unfold checkNIn at denied ⊢
  split
  · rfl
  · split
    · rfl
    · rename_i asked possible
      rw [if_neg asked, if_neg possible] at denied
      simp only at denied ⊢
      split
      · rename_i swapped
        rw [swapped] at denied
        cases denied
      · rfl

theorem checkNIn_impossible {p : GcraParams} {tat n now : ℕ} (h : p.tolerance + 1 < n) :
    p.checkNIn tat n now = (.deny durationMax, tat) := by
  rw [checkNIn, if_neg (by omega), if_pos (Or.inr (by omega))]

end GcraParams

namespace Gcra

/-- A state kept under `quota`. -/
structure Under (quota : Quota) (g : Gcra) : Prop where
  params : g.params = .new quota
  admits : admitsAnything .leakyBucket quota = true

namespace Under

variable {quota : Quota} {g : Gcra}

theorem isOpen (under : g.Under quota) : (GcraParams.new quota).IsOpen :=
  GcraParams.new_isOpen_of_admits under.admits

theorem burst (under : g.Under quota) : (GcraParams.new quota).tolerance + 1 = quota.burst :=
  GcraParams.tolerance_add_one under.isOpen.not_closed

theorem checkNAt (under : g.Under quota) (n now : ℕ) : (g.checkNAt n now).2.Under quota :=
  ⟨under.params, under.admits⟩

/-- What a read reports. -/
theorem peekAt_eq (under : g.Under quota) (now : ℕ) : g.peekAt now = Snapshot.new quota.burst
    (min (satAdd ((GcraParams.new quota).intervalsAt (nanos now)) quota.burst -
      max g.tat ((GcraParams.new quota).intervalsAt (nanos now))) u32Max)
    (if max g.tat ((GcraParams.new quota).intervalsAt (nanos now)) =
        (GcraParams.new quota).intervalsAt (nanos now) then 0
      else (GcraParams.new quota).nanosAt
        (max g.tat ((GcraParams.new quota).intervalsAt (nanos now))) - nanos now) := by
  rw [peekAt, under.params, GcraParams.peekIn_open under.isOpen, under.burst]

/-- The units left as of `now`. -/
theorem remaining_eq (under : g.Under quota) (now : ℕ) : (g.peekAt now).remaining =
    min (satAdd ((GcraParams.new quota).intervalsAt (nanos now)) quota.burst -
      max g.tat ((GcraParams.new quota).intervalsAt (nanos now))) quota.burst := by
  have burst := quota.burst_le
  rw [under.peekAt_eq, Snapshot.new_remaining]
  omega

/-- The bucket is whole once its arrival time has begun. -/
theorem remaining_of_reached (under : g.Under quota) {now : ℕ}
    (fits : (GcraParams.new quota).intervalsAt (nanos now) + quota.burst ≤ u64Max)
    (reached : g.tat ≤ (GcraParams.new quota).intervalsAt (nanos now)) :
    (g.peekAt now).remaining = quota.burst := by
  rw [under.remaining_eq, max_eq_right reached, satAdd_eq fits]
  omega

/-- Without saturation the decision agrees with the snapshot. -/
theorem allow_iff (under : g.Under quota) {n now : ℕ}
    (fits : (GcraParams.new quota).intervalsAt (nanos now) + quota.burst ≤ u64Max) :
    (g.checkNAt n now).1 = .allow ↔ n = 0 ∨ n ≤ (g.peekAt now).remaining := by
  have burst := under.burst
  have decided : (g.checkNAt n now).1 = ((GcraParams.new quota).checkNIn g.tat n now).1 := by
    rw [Gcra.checkNAt, under.params]
  rw [decided, under.remaining_eq, satAdd_eq fits]
  rcases Nat.eq_zero_or_pos n with rfl | asked
  · simp [GcraParams.checkNIn]
  rcases Nat.lt_or_ge quota.burst n with impossible | possible
  · rw [GcraParams.checkNIn_impossible (by omega)]
    simp only [reduceCtorEq, false_iff]
    omega
  · rw [GcraParams.checkNIn_allow_iff under.isOpen asked (by omega)]
    simp only [satAdd]
    omega

/-- A snapshot's deadline is the start of the arrival time, or the present where that has passed. -/
theorem deadline_eq (under : g.Under quota) {now : ℕ} (clock : now < u64Max) :
    durationAdd now (g.peekAt now).resetAfter = max ((GcraParams.new quota).nanosAt g.tat) now := by
  have hp := under.isOpen
  have far := u64Max_lt_durationMax
  have start_le : (GcraParams.new quota).nanosAt g.tat ≤ u64Max := min_le_right _ _
  rw [under.peekAt_eq, Snapshot.new_resetAfter, nanos_eq clock.le]
  split
  · rename_i reached
    have passed : (GcraParams.new quota).nanosAt g.tat ≤ now := by
      rw [GcraParams.intervalsAt_eq hp clock.le] at reached
      exact (min_le_left _ _).trans ((tickStart_le_iff hp.limit_pos hp.period_pos).2 (by omega))
    rw [durationAdd_eq (by omega), Nat.add_zero, max_eq_right passed]
  · rename_i ahead
    have arrival : max g.tat ((GcraParams.new quota).intervalsAt now) = g.tat := by omega
    have later := GcraParams.lt_nanosAt_of_intervalsAt_lt hp clock (by omega : _ < g.tat)
    rw [arrival, durationAdd_eq (by omega)]
    omega

/-- The bucket is whole by the deadline a snapshot reports. -/
theorem reached_of_due (under : g.Under quota) {now later : ℕ}
    (due : now + (g.peekAt now).resetAfter ≤ later) (clock : later < u64Max) :
    g.tat ≤ (GcraParams.new quota).intervalsAt (nanos later) := by
  have hp := under.isOpen
  have mono := GcraParams.intervalsAt_nanos_mono hp ((Nat.le_add_right _ _).trans due)
  rw [under.peekAt_eq, Snapshot.new_resetAfter] at due
  split at due
  · rename_i reached
    omega
  · rename_i ahead
    have arrival : max g.tat ((GcraParams.new quota).intervalsAt (nanos now)) = g.tat := by omega
    rw [arrival] at due
    rw [nanos_eq (by omega : now ≤ u64Max)] at due
    rw [nanos_eq clock.le]
    exact GcraParams.le_intervalsAt_of_nanosAt_le hp clock (by omega)

end Under

end Gcra

end RateNet
