/-
Module: RateNet.Proofs.RecoveryTime
Purpose: The floor of an idle TTL, `recovery_time`, against the states it is a floor for. It is computed from
  the quota as configured, while the leaky bucket runs on a limit clamped to one unit per nanosecond: no
  state driven by readings in order reports a longer wait, except of a bucket whose clamped rate refills its
  burst more slowly than the configured one would.
Trusted boundary: none
Main exports: RecoversInTime, Gcra.tat_le_of_reached, Gcra.recoversInTime_iff, FixedWindow.recoversInTime,
  SlidingLog.recoversInTime, SlidingCounter.recoversInTime, recovery_time_covers_iff
-/
import RateNet.Algo.TokenBucket
import RateNet.Proofs.RestoredKeys

namespace RateNet

open RateConversion

/-- No state of `quota` driven by readings in order reports a wait longer than the recovery time, while the
    clock has not saturated. -/
def RecoversInTime (S : Type) [KeyState S] [LawfulKeyState S] (quota : Quota) : Prop :=
  ∀ (last now : ℕ) (s : S), KeyState.Reached quota last s → last ≤ now → now ≤ u64Max →
    (KeyState.peek s now).1.resetAfter ≤ (LawfulKeyState.algorithm S).recoveryTime quota

/-!
### The leaky bucket
-/

/-- An admitted check leaves the word within the burst of the current interval, also where its sums saturate. -/
theorem GcraParams.checkNIn_le (p : GcraParams) {tat n now bound : ℕ} (held : tat ≤ bound)
    (room : p.intervalsAt (nanos now) + (p.tolerance + 1) ≤ bound) : (p.checkNIn tat n now).2 ≤ bound := by
  unfold checkNIn
  split
  · exact held
  · split
    · exact held
    · simp only
      split
      · rename_i newTat swapped
        simp only [attempt] at swapped
        split at swapped
        · rename_i fits
          simp only [GcraAttempt.swap.injEq] at swapped
          simp only [satAdd] at fits swapped
          omega
        · cases swapped
      · exact held

namespace Gcra

variable {quota : Quota} {g : Gcra} {last now : ℕ}

/-- Readings in order take the arrival time at most a burst past the interval of the last of them. -/
theorem tat_le_of_reached (reached : KeyState.Reached quota last g) (order : last ≤ now) :
    g.tat ≤ (GcraParams.new quota).intervalsAt (nanos now) + quota.burst := by
  induction reached with
  | create made =>
      obtain ⟨-, rfl⟩ := Option.ite_some_none_eq_some.1 made
      exact Nat.zero_le _
  | @acquire last g n later reached before inductionHypothesis =>
      have under : g.Under quota := reached.under
      have mono := GcraParams.intervalsAt_nanos_mono under.isOpen order
      have burst := under.burst
      show (g.params.checkNIn g.tat n later).2 ≤ _
      rw [under.params]
      exact GcraParams.checkNIn_le _ (inductionHypothesis (before.trans order)) (by omega)
  | @peek last g later reached before inductionHypothesis => exact inductionHypothesis (before.trans order)

/-- A bucket that its own rate refills in time. -/
theorem resetAfter_le (reached : KeyState.Reached quota last g) (order : last ≤ now) :
    (g.peekAt now).resetAfter ≤
      min (tickStart (GcraParams.new quota).limit (GcraParams.new quota).periodNs quota.burst) u64Max := by
  have under : g.Under quota := reached.under
  have hp := under.isOpen
  have arrival := tat_le_of_reached reached order
  have start : max g.tat ((GcraParams.new quota).intervalsAt (nanos now)) ≤
      ticksAt (GcraParams.new quota).limit (GcraParams.new quota).periodNs (nanos now) + quota.burst := by
    rw [← GcraParams.intervalsAt_eq hp (nanos_le now)]
    omega
  have begun := (tickStart_mono hp.limit_pos hp.period_pos start).trans
    (tickStart_ticksAt_add_le hp.limit_pos hp.period_pos (nanos now) quota.burst)
  rw [under.peekAt_eq, Snapshot.new_resetAfter, GcraParams.nanosAt_eq]
  split
  · exact Nat.zero_le _
  · omega

/-- The whole burst taken from a fresh bucket at once: it waits for the refill of all of it. -/
theorem resetAfter_of_whole_burst (admits : admitsAnything .leakyBucket quota = true) :
    (((Gcra.new quota).checkNAt quota.burst 0).2.peekAt 0).resetAfter =
      min (tickStart (GcraParams.new quota).limit (GcraParams.new quota).periodNs quota.burst) u64Max := by
  have hp := GcraParams.new_isOpen_of_admits admits
  have burst := GcraParams.tolerance_add_one hp.not_closed
  have small := quota.burst_le
  have zero : (GcraParams.new quota).intervalsAt (nanos 0) = 0 := by
    rw [GcraParams.intervalsAt_eq hp (nanos_le 0)]
    simp [ticksAt, nanos]
  have spent : ((Gcra.new quota).checkNAt quota.burst 0).2.tat = quota.burst := by
    have fits : (GcraParams.new quota).Unsaturated 0 := by
      rw [GcraParams.Unsaturated, zero]
      exact (by omega : 0 + ((GcraParams.new quota).tolerance + 1) ≤ u32Max).trans (by decide)
    have allowed : ((GcraParams.new quota).checkNIn 0 quota.burst 0).1 = .allow := by
      rw [GcraParams.checkNIn_allow_iff hp (by omega) (by omega), zero]
      simp only [satAdd]
      omega
    show ((GcraParams.new quota).checkNIn 0 quota.burst 0).2 = quota.burst
    rcases GcraParams.checkNIn_cases 0 quota.burst fits with ⟨none, -⟩ | ⟨-, wait, denied⟩ | ⟨-, taken, -⟩
    · omega
    · rw [denied] at allowed
      cases allowed
    · rw [taken, zero]
      omega
  have under : ((Gcra.new quota).checkNAt quota.burst 0).2.Under quota := ⟨rfl, admits⟩
  rw [under.peekAt_eq, Snapshot.new_resetAfter, spent, zero, GcraParams.nanosAt_eq, if_neg (by omega)]
  simp [nanos]

/-- The recovery time covers a bucket exactly when the clamp of its limit does not slow the refill of its burst
    down. -/
theorem recoversInTime_iff (admits : admitsAnything .leakyBucket quota = true) :
    RecoversInTime Gcra quota ↔
      quota.limit ≤ quota.period ∨ quota.burst ≤ (quota.burst * quota.period) ⌈/⌉ quota.limit := by
  have worst : RecoversInTime Gcra quota ↔
      min (tickStart (GcraParams.new quota).limit (GcraParams.new quota).periodNs quota.burst) u64Max ≤
        refillTime quota := by
    obtain ⟨limit, period, -⟩ := admitsAnything_leakyBucket.1 admits
    have floor : Algorithm.leakyBucket.recoveryTime quota = refillTime quota := if_neg (by omega)
    rw [← floor]
    constructor
    · intro covers
      rw [← resetAfter_of_whole_burst admits]
      have made : KeyState.create quota 0 = some (Gcra.new quota) := if_pos admits
      exact covers 0 0 _ (.acquire quota.burst (.create made) le_rfl) le_rfl (Nat.zero_le _)
    · intro covers last now g reached order _
      exact (resetAfter_le reached order).trans covers
  have limitSmall := quota.limit_le
  have burstSmall := quota.burst_le
  have words : u32Max ≤ u64Max := by decide
  have periodPos : 0 < (GcraParams.new quota).periodNs := (GcraParams.new_isOpen_of_admits admits).period_pos
  have periodNs : (GcraParams.new quota).periodNs = min quota.period u64Max := rfl
  rw [worst, refillTime, tickStart]
  rcases Nat.lt_or_ge quota.period quota.limit with clamped | unclamped
  · -- one unit per nanosecond: a burst takes as many nanoseconds as it has units
    have limit : (GcraParams.new quota).limit = (GcraParams.new quota).periodNs := by
      show min quota.limit (GcraParams.new quota).periodNs = _
      omega
    have refill : (quota.burst * (GcraParams.new quota).periodNs) ⌈/⌉ (GcraParams.new quota).periodNs =
        quota.burst := by
      rw [mul_comm, ← smul_eq_mul, smul_ceilDiv periodPos]
    rw [limit, refill]
    omega
  · have limit : (GcraParams.new quota).limit = quota.limit := by
      show min quota.limit (GcraParams.new quota).periodNs = _
      omega
    have positive : 0 < quota.limit := limit ▸ (GcraParams.new_isOpen_of_admits admits).limit_pos
    have sooner : (quota.burst * (GcraParams.new quota).periodNs) ⌈/⌉ quota.limit ≤
        (quota.burst * quota.period) ⌈/⌉ quota.limit :=
      (gc_smul_ceilDiv positive).monotone_l (Nat.mul_le_mul_left _ (by omega))
    rw [limit]
    exact iff_of_true (min_le_min_right _ sooner) (Or.inl unclamped)

end Gcra

/-!
### The windows
-/

/-- What is left of the window `now` lies in is at most the period. -/
theorem toEnd_le (now period : ℕ) : satMul (satAdd (now / period) 1) period - now ≤ period := by
  have begun := Nat.div_mul_le_self now period
  have sum : satMul (satAdd (now / period) 1) period ≤ now / period * period + period := by
    rw [← Nat.succ_mul]
    exact (min_le_left _ _).trans (Nat.mul_le_mul_right _ (min_le_left _ _))
  omega

/-- A window algorithm's quota with a limit and a period. -/
theorem not_closed_of_pos {quota : Quota} (limit : 0 < quota.limit) (period : 0 < nanos quota.period) :
    ¬ (quota.limit = 0 ∨ quota.period = 0) := by
  have whole : nanos quota.period ≤ quota.period := min_le_left _ _
  omega

theorem FixedWindow.recoversInTime (quota : Quota) : RecoversInTime FixedWindow quota := by
  intro last now fw reached order _
  have under : fw.Under quota := reached.under
  have latest := latest_le_of_reached reached
  have window : fw.windowAt now = nanos now / nanos quota.period := by
    have mono : nanos last / nanos quota.period ≤ nanos now / nanos quota.period :=
      Nat.div_le_div_right (nanos_mono order)
    rw [windowAt, windowOf, under.period]
    exact max_eq_left (latest.trans mono)
  have floor : Algorithm.fixedWindow.recoveryTime quota = quota.period :=
    if_neg (not_closed_of_pos under.limit_pos under.period_pos)
  show (fw.peek now).resetAfter ≤ Algorithm.fixedWindow.recoveryTime quota
  rw [floor, peek_eq under, Snapshot.new_resetAfter]
  split
  · exact Nat.zero_le _
  · rw [window, untilEndOf, under.period]
    exact (toEnd_le _ _).trans (min_le_left _ _)

theorem SlidingLog.recoversInTime (quota : Quota) : RecoversInTime SlidingLog quota := by
  intro last now sl reached order _
  have under : sl.Under quota := reached.under
  have recorded : ∀ run ∈ (sl.aged now).log.runs, run.atNs ≤ nanos now := by
    have aged : KeyState.Reached quota now (KeyState.peek sl now).2 := .peek reached order
    have same : (KeyState.peek sl now).2 = sl.aged now := congrArg Prod.snd (peek_eq under now)
    exact runs_le_of_reached (same ▸ aged)
  have floor : Algorithm.slidingWindowLog.recoveryTime quota = quota.period :=
    if_neg (not_closed_of_pos under.limit_pos under.period_pos)
  show (sl.peek now).1.resetAfter ≤ Algorithm.slidingWindowLog.recoveryTime quota
  rw [floor, peek_eq under, Snapshot.new_resetAfter]
  cases newest : (sl.aged now).log.runs.getLast? with
  | none => exact Nat.zero_le _
  | some run =>
      have before := recorded run (List.mem_of_getLast? newest)
      have whole : nanos quota.period ≤ quota.period := min_le_left _ _
      simp only [Option.elim_some, satAdd]
      omega

theorem SlidingCounter.recoversInTime (quota : Quota) : RecoversInTime SlidingCounter quota := by
  intro last now sc reached order _
  have under : sc.Under quota := reached.under
  have rolled : sc.window ≤ nanos now / nanos quota.period :=
    (window_le_of_reached reached).trans (Nat.div_le_div_right (nanos_mono order))
  have whole : nanos quota.period ≤ quota.period := min_le_left _ _
  have word := nanos_le quota.period
  have far := u64Max_lt_durationMax
  have floor : Algorithm.slidingWindowCounter.recoveryTime quota = min (quota.period * 2) durationMax :=
    if_neg (not_closed_of_pos under.limit_pos under.period_pos)
  show (sc.peek now).1.resetAfter ≤ Algorithm.slidingWindowCounter.recoveryTime quota
  rw [floor, peek_eq under, Snapshot.new_resetAfter, resetAfter, (under.windowAt_eq rolled).2, under.period]
  -- a reading in order is not late, and two periods are the most either window takes to fade
  simp only [Nat.sub_self, satAdd]
  split_ifs <;> omega

/-!
### The floor
-/

/-- The recovery time covers the wait of every state of all four algorithms exactly when the quota is not one of a
    leaky bucket whose configured rate, above one unit per nanosecond, is clamped and refills its burst later
    than configured. -/
theorem recovery_time_covers_iff (quota : Quota) :
    (RecoversInTime Gcra quota ∧ RecoversInTime FixedWindow quota ∧ RecoversInTime SlidingLog quota ∧
        RecoversInTime SlidingCounter quota) ↔
      (admitsAnything .leakyBucket quota = true →
        quota.limit ≤ quota.period ∨ quota.burst ≤ (quota.burst * quota.period) ⌈/⌉ quota.limit) := by
  constructor
  · intro covered admits
    exact (Gcra.recoversInTime_iff admits).1 covered.1
  · intro unclamped
    refine ⟨?_, FixedWindow.recoversInTime quota, SlidingLog.recoversInTime quota,
      SlidingCounter.recoversInTime quota⟩
    intro last now g reached
    have under : g.Under quota := reached.under
    exact (Gcra.recoversInTime_iff under.admits).2 (unclamped under.admits) last now g reached

/-- Three per second is covered: a bucket with its whole burst spent waits one second. -/
theorem recovery_time_covers_three_per_second :
    (((Gcra.new (.perSecond 3 (by decide))).checkNAt 3 0).2.peekAt 0).resetAfter = 1000000000 ∧
      Algorithm.leakyBucket.recoveryTime (.perSecond 3 (by decide)) = 1000000000 ∧
      RecoversInTime Gcra (.perSecond 3 (by decide)) :=
  ⟨by decide +kernel, by decide +kernel,
    ((recovery_time_covers_iff (.perSecond 3 (by decide))).2 fun _ => Or.inl (by decide)).1⟩

theorem two_le_u32Max : 2 ≤ u32Max := by decide

/-- Two units per nanosecond, in a burst of two. -/
def twoPerNano : Quota :=
  { unitPerNano with limit := 2, burst := 2, limit_le := two_le_u32Max, burst_le := two_le_u32Max }

/-- Both units of two per nanosecond spent at once: the bucket waits two nanoseconds, the floor is one. -/
theorem clamped_bucket_outlasts_recovery_time :
    admitsAnything .leakyBucket twoPerNano = true ∧
      KeyState.Reached twoPerNano 0 ((Gcra.new twoPerNano).checkNAt 2 0).2 ∧
      (((Gcra.new twoPerNano).checkNAt 2 0).2.peekAt 0).resetAfter = 2 ∧
      Algorithm.leakyBucket.recoveryTime twoPerNano = 1 :=
  ⟨by decide +kernel, .acquire 2 (@KeyState.Reached.create _ _ _ 0 _ (by decide +kernel)) le_rfl,
    by decide +kernel, by decide +kernel⟩

end RateNet
