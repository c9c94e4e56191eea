/-
Module: RateNet.Algo.TokenBucket
Layer: Algo
Purpose: What the crate itself computes for the token bucket, whose accounting is another crate's: the bucket
  rebuilt from a debt, and the time an idle key takes to recover under each algorithm. A bucket is started
  with a number of tokens at an anchor and refills at its rate from there; nothing else is assumed of it.
Imports: RateNet.Core.KeyState, RateNet.Lib.RateConversion
Trusted boundary: a bucket started with `initial` tokens at `anchor` has refilled
  `(t - anchor) * refillAmount / refillPeriod` tokens by `t`; a configuration is rejected only for a zero
  capacity, amount or period
Main exports: BucketConfig, BucketCore, BucketConfig.restore, refillTime, Algorithm.recoveryTime,
  restored_bucket_repays_on_time
-/
import RateNet.Core.KeyState
import RateNet.Lib.RateConversion

namespace RateNet

open RateConversion

/-- A token bucket's configuration, which no zero passes. -/
structure BucketConfig where
  capacity : ℕ
  refillAmount : ℕ
  refillPeriod : ℕ
  /-- Tokens the bucket starts with. -/
  initial : ℕ
  capacity_pos : 0 < capacity
  amount_pos : 0 < refillAmount
  period_pos : 0 < refillPeriod
  capacity_le : capacity ≤ u32Max
  amount_le : refillAmount ≤ u32Max
  period_le : refillPeriod ≤ durationMax

/-- A bucket as it was started: its configuration's tokens at `anchor`. -/
structure BucketCore where
  config : BucketConfig
  anchor : ℕ

/-- Tokens started with and refilled by `t`. -/
def BucketCore.tokensBy (bucket : BucketCore) (t : ℕ) : ℕ :=
  bucket.config.initial + (t - bucket.anchor) * bucket.config.refillAmount / bucket.config.refillPeriod

namespace BucketConfig

/-- Time to refill the whole capacity, rounded down. -/
def full (config : BucketConfig) : ℕ := config.capacity * config.refillPeriod / config.refillAmount

/-- The whole tokens a bucket that is full again at `«until»` had accrued by the time line's origin. -/
def accrued (config : BucketConfig) («until» : ℕ) : ℕ :=
  let short := config.full - «until»
  (short * config.refillAmount) ⌈/⌉ config.refillPeriod

/-- The instant at which that bucket held them: when it was empty, if that is not before the origin. -/
def anchorFor (config : BucketConfig) («until» : ℕ) : ℕ :=
  («until» + (config.accrued «until» * config.refillPeriod) ⌈/⌉ config.refillAmount) - config.full

/-- The bucket that was empty one full refill before `debt.until`, or `none` for a debt repaid by `now`. -/
def restore (config : BucketConfig) (debt : Debt) (now : ℕ) : Option BucketCore :=
  if debt.until ≤ now then
    none
  else
    let k := config.accrued debt.until
    -- past the representable range the latest instant drains the bucket for good
    let anchor := min (config.anchorFor debt.until) u64Max
    let initial := if k ≤ u32Max then k else config.capacity
    some { config := { config with initial := min initial config.capacity }, anchor }

end BucketConfig

/-- Time for a bucket to refill its whole burst, rounded up to the nanosecond. -/
def refillTime (quota : Quota) : ℕ := min ((quota.burst * quota.period) ⌈/⌉ quota.limit) u64Max

/-- How long an idle key takes to become indistinguishable from a fresh one. -/
def Algorithm.recoveryTime (algorithm : Algorithm) (quota : Quota) : ℕ :=
  if quota.limit = 0 ∨ quota.period = 0 then
    0
  else
    match algorithm with
    | .tokenBucket | .leakyBucket => refillTime quota
    | .fixedWindow | .slidingWindowLog => quota.period
    | .slidingWindowCounter => min (quota.period * 2) durationMax

/-!
### The rebuilt bucket
-/

namespace BucketConfig

variable (config : BucketConfig) («until» : ℕ)

theorem full_mul_le : config.full * config.refillAmount ≤ config.capacity * config.refillPeriod :=
  Nat.div_mul_le_self _ _

/-- No more tokens than the capacity were accrued by the origin. -/
theorem accrued_le : config.accrued «until» ≤ config.capacity := by
  have whole := config.full_mul_le
  have part : (config.full - «until») * config.refillAmount ≤ config.full * config.refillAmount :=
    Nat.mul_le_mul_right _ (Nat.sub_le _ _)
  rw [accrued, ceilDiv_le_iff_le_mul config.period_pos, mul_comm config.refillPeriod]
  exact part.trans whole

/-- The anchor is not before the origin: its subtraction does not saturate. -/
theorem full_le_anchor : config.full ≤
    «until» + (config.accrued «until» * config.refillPeriod) ⌈/⌉ config.refillAmount := by
  have enough : (config.full - «until») * config.refillAmount ≤ config.refillPeriod * config.accrued «until» :=
    (ceilDiv_le_iff_le_mul config.period_pos).1 le_rfl
  have rounded := (ceilDiv_le_iff_le_mul config.amount_pos).1
    (le_refl ((config.accrued «until» * config.refillPeriod) ⌈/⌉ config.refillAmount))
  have short : config.full - «until» ≤
      (config.accrued «until» * config.refillPeriod) ⌈/⌉ config.refillAmount := by
    refine Nat.le_of_mul_le_mul_right ?_ config.amount_pos
    rw [mul_comm _ config.refillAmount, mul_comm _ config.refillAmount]
    rw [mul_comm _ config.refillAmount, mul_comm config.refillPeriod] at enough
    exact enough.trans rounded
  omega

theorem anchorFor_add : config.anchorFor «until» + config.full =
    «until» + tickStart config.refillAmount config.refillPeriod (config.accrued «until») :=
  Nat.sub_add_cancel (config.full_le_anchor «until»)

/-- From the anchor to the deadline the bucket refills no more than the tokens it lacks. -/
theorem anchored_refill_le {x y : ℕ} (span : config.anchorFor «until» + (x + y) = «until») :
    (x + y) * config.refillAmount ≤ (config.capacity - config.accrued «until») * config.refillPeriod := by
  have sum := config.anchorFor_add «until»
  have whole := config.full_mul_le
  have rounded : config.accrued «until» * config.refillPeriod ≤
      config.refillAmount * tickStart config.refillAmount config.refillPeriod (config.accrued «until») :=
    (ceilDiv_le_iff_le_mul config.amount_pos).1 le_rfl
  have parts : config.full =
      (x + y) + tickStart config.refillAmount config.refillPeriod (config.accrued «until») := by omega
  rw [parts, Nat.add_mul, mul_comm (tickStart _ _ _)] at whole
  rw [Nat.sub_mul]
  omega

end BucketConfig

/-- A bucket rebuilt from a debt that is still owed, with an anchor the clock can show: its tokens are no
    more than the capacity and its anchor is not before the origin; up to the deadline it never holds more
    than the capacity less what refills from then until the deadline; and it is full again at most two
    nanoseconds after the deadline. -/
theorem restored_bucket_repays_on_time (config : BucketConfig) (debt : Debt) (now : ℕ)
    (owed : now < debt.until) (shown : config.anchorFor debt.until < 2 ^ 64) :
    ∃ bucket, config.restore debt now = some bucket ∧
      bucket.config.initial = config.accrued debt.until ∧ config.accrued debt.until ≤ config.capacity ∧
      (bucket.anchor : ℤ) = debt.until +
        ((config.accrued debt.until * config.refillPeriod) ⌈/⌉ config.refillAmount : ℕ) - config.full ∧
      (∀ t, bucket.anchor ≤ t → t ≤ debt.until →
        bucket.tokensBy t + ((debt.until - t) * config.refillAmount) ⌈/⌉ config.refillPeriod ≤
          config.capacity) ∧
      ∃ first ≤ debt.until + 2, IsLeast {t | bucket.anchor ≤ t ∧ config.capacity ≤ bucket.tokensBy t} first := by
  have tokens := config.accrued_le debt.until
  have small := config.capacity_le
  have origin := config.full_le_anchor debt.until
  have sum := config.anchorFor_add debt.until
  have kept : min (if config.accrued debt.until ≤ u32Max then config.accrued debt.until else config.capacity)
      config.capacity = config.accrued debt.until := by
    rw [if_pos (tokens.trans small), min_eq_left tokens]
  have clamped : min (config.anchorFor debt.until) u64Max = config.anchorFor debt.until := by
    refine min_eq_left ?_
    simp only [u64Max]
    omega
  refine ⟨⟨{ config with initial := config.accrued debt.until }, config.anchorFor debt.until⟩, ?_, rfl, tokens,
    ?_, ?_, ?_⟩
  · rw [BucketConfig.restore, if_neg (by omega)]
    simp only [kept, clamped]
  · show ((config.anchorFor debt.until : ℕ) : ℤ) = _
    rw [BucketConfig.anchorFor]
    omega
  · intro t after before
    change config.anchorFor debt.until ≤ t at after
    have span : config.anchorFor debt.until + ((t - config.anchorFor debt.until) + (debt.until - t)) =
        debt.until := by omega
    have refilled := ticksAt_add_ceil_le config.period_pos (config.anchored_refill_le debt.until span)
    simp only [BucketCore.tokensBy]
    simp only [ticksAt] at refilled
    omega
  · -- the bucket is full once the tokens it lacks have begun
    have reached : ∀ t, config.anchorFor debt.until ≤ t →
        (config.capacity ≤ config.accrued debt.until +
            (t - config.anchorFor debt.until) * config.refillAmount / config.refillPeriod ↔
          tickStart config.refillAmount config.refillPeriod (config.capacity - config.accrued debt.until) ≤
            t - config.anchorFor debt.until) := by
      intro t after
      rw [tickStart_le_iff config.amount_pos config.period_pos, ticksAt]
      omega
    have cost := @tickStart_add_le config.refillAmount config.refillPeriod config.amount_pos
      (config.accrued debt.until) (config.capacity - config.accrued debt.until)
    rw [Nat.add_sub_cancel' tokens] at cost
    change _ ≤ config.full + 2 at cost
    refine ⟨config.anchorFor debt.until +
      tickStart config.refillAmount config.refillPeriod (config.capacity - config.accrued debt.until),
      by omega, ⟨Nat.le_add_right _ _, ?_⟩, ?_⟩
    · refine (reached _ (Nat.le_add_right _ _)).2 ?_
      omega
    · rintro t ⟨after, full⟩
      have start := (reached t after).1 full
      change config.anchorFor debt.until ≤ t at after
      omega

/-- Five tokens refilled at three per second, full again at 400 ms: 0.8 tokens short, rebuilt with four tokens
    at 66.7 ms. -/
theorem restored_bucket_repays_on_time_at_three_per_second :
    let config : BucketConfig :=
      { capacity := 5, refillAmount := 3, refillPeriod := nanosPerSec, initial := 5
        capacity_pos := by decide, amount_pos := by decide, period_pos := by decide
        capacity_le := by decide, amount_le := by decide, period_le := by decide }
    let debt : Debt := { spent := 2, «until» := 400000000 }
    ∃ bucket, config.restore debt 0 = some bucket ∧ bucket.config.initial = 4 ∧ bucket.anchor = 66666668 ∧
      ∀ t, bucket.anchor ≤ t → t ≤ 400000000 →
        bucket.tokensBy t + ((400000000 - t) * 3) ⌈/⌉ nanosPerSec ≤ 5 := by
  intro config debt
  obtain ⟨bucket, made, tokens, -, anchor, early, -⟩ :=
    restored_bucket_repays_on_time config debt 0 (by decide) (by decide +kernel)
  have accrued : config.accrued debt.until = 4 := by decide +kernel
  have refill : config.full = 1666666666 := by decide +kernel
  have ahead : (4 * config.refillPeriod) ⌈/⌉ config.refillAmount = 1333333334 := by decide +kernel
  rw [accrued, ahead, refill] at anchor
  have deadline : debt.until = 400000000 := rfl
  exact ⟨bucket, made, tokens.trans accrued, by omega, early⟩

end RateNet
