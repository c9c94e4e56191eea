/-
Module: RateNet.Core.KeyState
Layer: Core
Purpose: The vocabulary every algorithm and the store share: quotas, decisions, snapshots, debts, and the
  `KeyState` interface with its default methods. The sliding algorithms age their state while they are
  being read, so every read of a state also returns the state it leaves behind; for the others that
  state is the one read.
Imports: RateNet.Core.Time
Trusted boundary: none
Main exports: Quota, Decision, Snapshot, Debt, Algorithm, freshSnapshot, admitsAnything, closed, KeyState
-/
import RateNet.Core.Time

namespace RateNet

/-- `limit` units per `period`, with bursts of up to `burst`.  The bounds are the source's integer
    types. -/
structure Quota where
  limit : ℕ
  period : ℕ
  burst : ℕ
  limit_le : limit ≤ u32Max
  burst_le : burst ≤ u32Max
  period_le : period ≤ durationMax
deriving DecidableEq

namespace Quota

/-- `limit` units per second, with a burst of `limit`. -/
def perSecond (limit : ℕ) (limit_le : limit ≤ u32Max) : Quota :=
  { limit, period := nanosPerSec, burst := limit, limit_le, burst_le := limit_le
    period_le := by decide }

end Quota

/-- One unit per nanosecond, in a burst of one. -/
def unitPerNano : Quota :=
  { limit := 1, period := 1, burst := 1, limit_le := by decide, burst_le := by decide
    period_le := by decide }

/-- The result of checking a key against its limit. -/
inductive Decision where
  | allow
  | deny (retryAfter : ℕ)
deriving DecidableEq, Repr

def Decision.isAllow : Decision → Bool
  | .allow => true
  | .deny _ => false

def Decision.isDeny (decision : Decision) : Bool := !decision.isAllow

/-- How much of its allowance a key has left.  A snapshot never reports more than the capacity. -/
structure Snapshot where
  limit : ℕ
  remaining : ℕ
  resetAfter : ℕ
  remaining_le : remaining ≤ limit
deriving DecidableEq

namespace Snapshot

/-- Assembles a snapshot, clamping `remaining` to `limit`. -/
def new (limit remaining resetAfter : ℕ) : Snapshot :=
  { limit, remaining := min remaining limit, resetAfter, remaining_le := min_le_right _ _ }

@[simp] theorem new_limit (limit remaining resetAfter : ℕ) : (new limit remaining resetAfter).limit = limit :=
  rfl

@[simp] theorem new_remaining (limit remaining resetAfter : ℕ) :
    (new limit remaining resetAfter).remaining = min remaining limit := rfl

@[simp] theorem new_resetAfter (limit remaining resetAfter : ℕ) :
    (new limit remaining resetAfter).resetAfter = resetAfter := rfl

/-- A key with its whole allowance. -/
def full (limit : ℕ) : Snapshot := new limit limit 0

/-- A limiter that admits nothing. -/
def closed : Snapshot := new 0 0 durationMax

end Snapshot

/-- What an evicted key still owed: `spent` units were unavailable, all of them back by `until`. -/
structure Debt where
  spent : ℕ
  «until» : ℕ
deriving DecidableEq, Repr

/-- The default `debt`: what a snapshot taken at `now` leaves owing. -/
def Snapshot.debt (snapshot : Snapshot) (now : ℕ) : Option Debt :=
  let spent := snapshot.limit - snapshot.remaining
  if 0 < spent then some { spent, «until» := durationAdd now snapshot.resetAfter } else none

theorem Snapshot.debt_eq_none {snapshot : Snapshot} {now : ℕ} :
    snapshot.debt now = none ↔ snapshot.remaining = snapshot.limit := by
  have bound := snapshot.remaining_le
  simp only [Snapshot.debt, ite_eq_right_iff, reduceCtorEq, imp_false]
  omega

theorem Snapshot.debt_eq_some {snapshot : Snapshot} {now : ℕ} {debt : Debt} :
    snapshot.debt now = some debt ↔
      snapshot.remaining < snapshot.limit ∧ debt.spent = snapshot.limit - snapshot.remaining ∧
        debt.until = durationAdd now snapshot.resetAfter := by
  have bound := snapshot.remaining_le
  obtain ⟨spent, until_⟩ := debt
  simp only [Snapshot.debt]
  split
  · simp only [Option.some.injEq, Debt.mk.injEq]
    constructor
    · rintro ⟨rfl, rfl⟩
      exact ⟨by omega, rfl, rfl⟩
    · rintro ⟨-, rfl, rfl⟩
      exact ⟨rfl, rfl⟩
  · simp only [reduceCtorEq, false_iff]
    omega

/-- The algorithms a limiter can run. -/
inductive Algorithm where
  | tokenBucket
  | leakyBucket
  | fixedWindow
  | slidingWindowLog
  | slidingWindowCounter
deriving DecidableEq, Repr

/-- What a key that has never been seen reports. -/
def freshSnapshot (algorithm : Algorithm) (quota : Quota) : Snapshot :=
  if quota.limit = 0 ∨ quota.period = 0 then
    .closed
  else
    let capacity := match algorithm with
      | .tokenBucket | .leakyBucket => quota.burst
      | .fixedWindow | .slidingWindowLog | .slidingWindowCounter => quota.limit
    if capacity = 0 then .closed else .full capacity

/-- Whether `quota` admits anything at all under `algorithm`. -/
def admitsAnything (algorithm : Algorithm) (quota : Quota) : Bool :=
  0 < (freshSnapshot algorithm quota).limit

/-- The buckets admit something unless the limit, the period or the burst is zero. -/
theorem admitsAnything_leakyBucket {quota : Quota} :
    admitsAnything .leakyBucket quota = true ↔
      0 < quota.limit ∧ 0 < quota.period ∧ 0 < quota.burst := by
  simp only [admitsAnything, freshSnapshot, Snapshot.closed, Snapshot.full, Snapshot.new]
  split <;> [skip; split] <;> simp <;> omega

/-- The window algorithms ignore the burst. -/
theorem admitsAnything_window {algorithm : Algorithm} {quota : Quota}
    (window : algorithm = .fixedWindow ∨ algorithm = .slidingWindowLog ∨
      algorithm = .slidingWindowCounter) :
    admitsAnything algorithm quota = true ↔ 0 < quota.limit ∧ 0 < quota.period := by
  rcases window with rfl | rfl | rfl <;>
  · simp only [admitsAnything, freshSnapshot, Snapshot.closed, Snapshot.full, Snapshot.new]
    split <;> [skip; split] <;> simp <;> omega

/-- The decision of a key that admits nothing: zero units always fit, any more never will. -/
def closed (n : ℕ) : Decision := if n = 0 then .allow else .deny durationMax

/-- One key's state under one algorithm.  `debt`, `isFull`, `recoversAt` and `restore` carry the trait's
    default bodies; the buckets override some of them. -/
class KeyState (S : Type) where
  /-- Fresh state with its whole allowance, or `none` for a quota that admits nothing. -/
  create : Quota → ℕ → Option S
  /-- Checks `n` units as of `now`. -/
  acquire : S → ℕ → ℕ → Decision × S
  /-- The remaining allowance as of `now`. -/
  peek : S → ℕ → Snapshot × S
  /-- Restores the whole allowance as of `now`. -/
  reset : S → ℕ → S
  /-- What the key owes as of `now`, or `none` if it has fully recovered. -/
  debt : S → ℕ → Option Debt × S := fun state now =>
    ((peek state now).1.debt now, (peek state now).2)
  /-- Whether the key's state is indistinguishable from a fresh key's. -/
  isFull : S → ℕ → Bool × S := fun state now =>
    ((debt state now).1.isNone, (debt state now).2)
  /-- When the key has its whole allowance again, or `none` if it already has. -/
  recoversAt : S → ℕ → Option ℕ × S := fun state now =>
    ((debt state now).1.map (·.until), (debt state now).2)
  /-- Makes a fresh state no more permissive than a key that owed the debt. -/
  restore : S → Debt → ℕ → S := fun state owed now =>
    if owed.until ≤ now ∨ owed.spent = 0 then
      state
    else
      let (snapshot, state) := peek state now
      let units := min owed.spent snapshot.limit
      if 0 < units then (acquire state units now).2 else state

end RateNet
