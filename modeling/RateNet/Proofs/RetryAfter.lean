/-
Module: RateNet.Proofs.RetryAfter
Purpose: The wait a denial reports is exact: with no traffic in between the same request is admitted after
  it and refused at every instant before. For the leaky bucket this is the adjunction of the two rounded
  conversions; for the sliding log it is the expiry of the one record whose running total reaches the
  units that must leave; for the sliding counter it is a floor division in this window or the next,
  whose result may fall on the boundary after it.
Trusted boundary: none
Main exports: RetriesExactly, leaky_bucket_retry_is_exact, sliding_log_retry_is_exact,
  sliding_counter_retry_is_exact
-/
import RateNet.Proofs.Snapshots

namespace RateNet

/-- From state `s`, the units refused at `now` are admitted `wait` later and refused until then. -/
def RetriesExactly {S : Type} [KeyState S] (s : S) (n now wait : ℕ) : Prop :=
  (KeyState.acquire s n (now + wait)).1 = .allow ∧
    ∀ t, now ≤ t → t < now + wait → (KeyState.acquire s n t).1.isDeny = true

theorem Decision.isDeny_of_ne_allow {decision : Decision} (refused : decision ≠ .allow) :
    decision.isDeny = true := by
  cases decision with
  | allow => exact absurd rfl refused
  | deny _ => rfl

/-!
### The leaky bucket
-/

namespace GcraParams

/-- The interval a denied check of `n` units waits for. -/
def readyIv (p : GcraParams) (tat n now : ℕ) : ℕ :=
  satAdd (max tat (p.intervalsAt (nanos now))) (n - 1) - p.tolerance

variable {p : GcraParams} {tat n now : ℕ}

/-- What a refused check reports. -/
theorem checkNIn_of_refused (hp : p.IsOpen) (asked : 1 ≤ n) (possible : n ≤ p.tolerance + 1)
    (refused : (p.checkNIn tat n now).1 ≠ .allow) :
    p.checkNIn tat n now = (.deny (max (p.nanosAt (p.readyIv tat n now) - nanos now) 1), tat) := by
  have full := mt (checkNIn_allow_iff hp asked possible).2 refused
  have guard : ¬ (p.closed = true ∨ n - 1 > p.tolerance) := by
    rw [hp.not_closed]
    simp only [Bool.false_eq_true, false_or]
    omega
  rw [checkNIn, if_neg (by omega), if_neg guard]
  simp only [attempt, if_neg full]
  rfl

/-- Units refused at `now` fit from the ready interval on. -/
theorem checkNIn_allow_iff_ready (hp : p.IsOpen) (asked : 1 ≤ n) (possible : n ≤ p.tolerance + 1)
    (refused : (p.checkNIn tat n now).1 ≠ .allow) {t : ℕ} (later : now ≤ t) :
    (p.checkNIn tat n t).1 = .allow ↔ p.readyIv tat n now ≤ p.intervalsAt (nanos t) := by
  have full := mt (checkNIn_allow_iff hp asked possible).2 refused
  have intervals := intervalsAt_nanos_mono hp later
  have small := hp.tolerance_lt
  rw [checkNIn_allow_iff hp asked possible, readyIv]
  simp only [satAdd, u32Max, u64Max] at full small ⊢
  omega

end GcraParams

/-- The leaky bucket's retry time is exact, also where the arrival time itself saturates. -/
theorem leaky_bucket_retry_is_exact (quota : Quota) (tat n now wait word : ℕ)
    (opened : (GcraParams.new quota).closed = false) (asked : 1 ≤ n) (possible : n ≤ quota.burst)
    (denied : (GcraParams.new quota).checkNIn tat n now = (.deny wait, word))
    (unsaturated : ((GcraParams.new quota).readyIv tat n now * (GcraParams.new quota).periodNs) ⌈/⌉
      (GcraParams.new quota).limit ≤ u64Max) :
    0 < wait ∧ word = tat ∧ ((GcraParams.new quota).checkNIn tat n (now + wait)).1 = .allow ∧
      ∀ t, now ≤ t → t < now + wait → ((GcraParams.new quota).checkNIn tat n t).1.isDeny = true := by
  have hp := GcraParams.new_isOpen opened
  have burst := GcraParams.tolerance_add_one opened
  generalize GcraParams.new quota = p at *
  have possible' : n ≤ p.tolerance + 1 := by omega
  have refused : (p.checkNIn tat n now).1 ≠ .allow := by
    rw [denied]
    exact Decision.noConfusion
  have allow_iff := fun {t : ℕ} => @GcraParams.checkNIn_allow_iff_ready p tat n now hp asked possible' refused t
  have reports := GcraParams.checkNIn_of_refused hp asked possible' refused
  rw [denied, Prod.mk.injEq, Decision.deny.injEq] at reports
  obtain ⟨rfl, rfl⟩ := reports
  have start : p.nanosAt (p.readyIv word n now) =
      RateConversion.tickStart p.limit p.periodNs (p.readyIv word n now) := min_eq_left unsaturated
  change RateConversion.tickStart p.limit p.periodNs _ ≤ u64Max at unsaturated
  -- an interval has begun by `t` exactly from its start on
  have begun : ∀ t, p.readyIv word n now ≤ p.intervalsAt (nanos t) ↔
      RateConversion.tickStart p.limit p.periodNs (p.readyIv word n now) ≤ nanos t := by
    intro t
    rw [GcraParams.intervalsAt_eq hp (nanos_le t)]
    exact (RateConversion.tickStart_le_iff hp.limit_pos hp.period_pos).symm
  have ahead : nanos now < RateConversion.tickStart p.limit p.periodNs (p.readyIv word n now) := by
    rw [← Nat.not_le, ← begun, ← allow_iff le_rfl]
    exact refused
  generalize RateConversion.tickStart p.limit p.periodNs (p.readyIv word n now) = due at *
  have reading : nanos now = now := by
    simp only [nanos] at ahead ⊢
    omega
  have waits : now + max (p.nanosAt (p.readyIv word n now) - nanos now) 1 = due := by
    rw [start, reading]
    omega
  rw [waits]
  refine ⟨by omega, rfl, ?_, ?_⟩
  · rw [allow_iff (by omega), begun, nanos_eq unsaturated]
  · intro t later earlier
    apply Decision.isDeny_of_ne_allow
    rw [Ne, allow_iff later, begun, nanos_eq (by omega)]
    omega

/-- Three per second, spent at 0: the next unit is refused for 333 333 334 ns and not longer. -/
theorem leaky_bucket_retry_is_exact_of_three_spent :
    (GcraParams.new (.perSecond 3 (by decide))).checkNIn 3 1 0 = (.deny 333333334, 3) ∧
      ((GcraParams.new (.perSecond 3 (by decide))).checkNIn 3 1 (0 + 333333334)).1 = .allow ∧
      ∀ t, 0 ≤ t → t < 0 + 333333334 →
        ((GcraParams.new (.perSecond 3 (by decide))).checkNIn 3 1 t).1.isDeny = true := by
  have denied : (GcraParams.new (.perSecond 3 (by decide))).checkNIn 3 1 0 = (.deny 333333334, 3) := by
    decide +kernel
  obtain ⟨-, -, exact_⟩ := leaky_bucket_retry_is_exact (.perSecond 3 (by decide)) 3 1 0 333333334 3
    (by decide +kernel) (by decide) (by decide) denied (by decide +kernel)
  exact ⟨denied, exact_⟩

/-!
### The sliding log
-/

namespace Log

variable {log : Log} {nowNs periodNs target : ℕ}

/-- What is left after ageing is still in the window. -/
theorem live_of_expire (runs : List Run) (times : runs.Pairwise fun a b => a.atNs < b.atNs)
    (expiredTotal : ℕ) :
    ∀ run ∈ (expire nowNs periodNs runs expiredTotal).runs, nowNs < satAdd run.atNs periodNs := by
  induction runs generalizing expiredTotal with
  | nil => exact fun run member => by cases member
  | cons front rest inductionHypothesis =>
      obtain ⟨newer, times'⟩ := List.pairwise_cons.1 times
      rw [expire]
      split
      · rename_i live
        intro run member
        rcases List.mem_cons.1 member with rfl | later
        · exact live
        · have after := newer run later
          simp only [satAdd] at live ⊢
          omega
      · exact inductionHypothesis times' front.total

/-- Ageing past no record that reaches the target does not reach it. -/
theorem expiredTotal_expire_lt (runs : List Run) (expiredTotal : ℕ) (below : expiredTotal < target)
    (gone : ∀ run ∈ runs, satAdd run.atNs periodNs ≤ nowNs → run.total < target) :
    (expire nowNs periodNs runs expiredTotal).expiredTotal < target := by
  induction runs generalizing expiredTotal with
  | nil => exact below
  | cons front rest inductionHypothesis =>
      rw [expire]
      split
      · exact below
      · rename_i dropped
        exact inductionHypothesis front.total (gone front List.mem_cons_self (Nat.le_of_not_lt dropped))
          fun run member => gone run (List.mem_cons_of_mem _ member)

/-- Ageing past a record reaches its running total. -/
theorem Sorted.le_expiredTotal_expire (sorted : log.Sorted) {run : Run} (member : run ∈ log.runs)
    (gone : satAdd run.atNs periodNs ≤ nowNs) :
    run.total ≤ (Log.expire nowNs periodNs log.runs log.expiredTotal).expiredTotal := by
  obtain ⟨runs, expiredTotal⟩ := log
  induction runs generalizing expiredTotal with
  | nil => cases member
  | cons front rest inductionHypothesis =>
      simp only [Log.expire]
      split
      · rename_i live
        have reach : front.atNs ≤ run.atNs := by
          rcases List.mem_cons.1 member with rfl | later
          · exact le_rfl
          · exact ((List.pairwise_cons.1 sorted.times).1 run later).le
        simp only [satAdd] at live gone
        omega
      · rcases List.mem_cons.1 member with rfl | later
        · exact (sorted.tail.expire nowNs periodNs).2
        · exact inductionHypothesis front.total sorted.tail later

end Log

namespace SlidingLog

variable {quota : Quota} {sl : SlidingLog} {n now : ℕ}

/-- The partition point of a refused check: the index of the record whose expiry frees enough units. -/
def releasing (sl : SlidingLog) (n : ℕ) : ℕ :=
  sl.log.runs.findIdx fun run =>
    !decide (run.total < sl.log.expiredTotal + (sl.log.inWindow + n - sl.limit))

/-- What a refused check reports. -/
theorem acquire_refused (under : sl.Under quota) (possible : n ≤ quota.limit)
    (full : quota.limit < sl.usedAt now + n) :
    sl.acquire n now = (.deny (((sl.aged now).log.runs[(sl.aged now).releasing n]?.elim
      (sl.log.instant (nanos now)) fun run => satAdd run.atNs sl.periodNs) - nanos now), sl.aged now) := by
  have used := under.usedAt_le now
  have no_room : ¬ (sl.log.expireAt (nanos now) sl.periodNs).inWindow + n ≤ sl.limit := by
    rw [under.limit]
    exact Nat.not_le_of_lt full
  rw [acquire, if_neg (by omega), if_neg (under.guard possible)]
  simp only [if_neg no_room]
  rfl

/-- The record a refused check waits for: it reaches the units that must leave, no older record does, and
    it is still in the window. -/
theorem exists_releasing (under : sl.Under quota) (possible : n ≤ quota.limit)
    (full : quota.limit < sl.usedAt now + n) :
    ∃ run, (sl.aged now).log.runs[(sl.aged now).releasing n]? = some run ∧
      (sl.aged now).log.total ≤ run.total + (quota.limit - n) ∧
      sl.log.instant (nanos now) < satAdd run.atNs (nanos quota.period) ∧
      ∀ older ∈ (sl.aged now).log.runs, older.atNs < run.atNs →
        older.total + (quota.limit - n) < (sl.aged now).log.total := by
  have aged := under.aged now
  have live := @Log.live_of_expire (sl.log.instant (nanos now)) sl.periodNs sl.log.runs under.sorted.times
    sl.log.expiredTotal
  change ∀ run ∈ (sl.aged now).log.runs, _ at live
  have used : sl.usedAt now = (sl.aged now).log.inWindow := rfl
  have window : (sl.aged now).log.inWindow = (sl.aged now).log.total - (sl.aged now).log.expiredTotal := rfl
  have limit := aged.limit
  have floor := aged.sorted.expiredTotal_le_total
  -- the newest record reaches the target
  have reached : ∃ run ∈ (sl.aged now).log.runs, (!decide (run.total < (sl.aged now).log.expiredTotal +
      ((sl.aged now).log.inWindow + n - (sl.aged now).limit))) = true := by
    cases newest : (sl.aged now).log.runs.getLast? with
    | none =>
        have total : (sl.aged now).log.total = (sl.aged now).log.expiredTotal := by
          rw [Log.total, newest, Option.elim_none]
        omega
    | some back =>
        have total : (sl.aged now).log.total = back.total := by
          rw [Log.total, newest, Option.elim_some]
        refine ⟨back, List.mem_of_getLast? newest, ?_⟩
        rw [Bool.not_eq_true', decide_eq_false_iff_not]
        omega
  have inside := List.findIdx_lt_length_of_exists reached
  change (sl.aged now).releasing n < _ at inside
  have held := List.getElem?_eq_getElem inside
  refine ⟨_, held, ?_, ?_, ?_⟩
  · have reaches := List.findIdx_getElem (w := inside)
    change (!decide ((sl.aged now).log.runs[(sl.aged now).releasing n].total < _)) = true at reaches
    rw [Bool.not_eq_true', decide_eq_false_iff_not] at reaches
    omega
  · rw [← under.period]
    exact live _ (List.getElem_mem inside)
  · intro older member before
    obtain ⟨k, there⟩ := List.getElem?_of_mem member
    obtain ⟨bound, rfl⟩ := List.getElem?_eq_some_iff.1 there
    have position : k < (sl.aged now).releasing n := by
      by_contra later
      rcases Nat.eq_or_lt_of_le (Nat.le_of_not_lt later) with same | after
      · simp only [← same, lt_irrefl] at before
      · have times := List.pairwise_iff_getElem.1 aged.sorted.times _ k inside bound after
        omega
    have short := List.not_of_lt_findIdx position
    rw [Bool.not_eq_false', decide_eq_true_iff] at short
    omega

/-- Units refused at `now` fit from the expiry of the record they wait for on. -/
theorem fits_iff_released (under : sl.Under quota) (possible : n ≤ quota.limit)
    (full : quota.limit < sl.usedAt now + n) {run : Run}
    (held : (sl.aged now).log.runs[(sl.aged now).releasing n]? = some run) {t : ℕ} (later : now ≤ t) :
    sl.usedAt t + n ≤ quota.limit ↔ satAdd run.atNs (nanos quota.period) ≤ nanos t := by
  have aged := under.aged now
  obtain ⟨found, held', reaches, live, short⟩ := exists_releasing under possible full
  obtain rfl : found = run := Option.some.inj (held'.symm.trans held)
  have member := List.mem_of_getElem? held
  have again : sl.usedAt t = ((sl.aged now).aged t).log.inWindow := by
    rw [usedAt, aged_aged, max_eq_right later]
  have total : ((sl.aged now).aged t).log.total = (sl.aged now).log.total := Log.total_expireAt _ _ _
  have floor := (aged.aged t).sorted.expiredTotal_le_total
  have instant_le := aged.sorted.le_instant member 0
  rw [again, Log.inWindow, total]
  rw [total] at floor
  constructor
  · intro fits
    by_contra early
    -- no record that reaches the target has expired
    have below : ((sl.aged now).aged t).log.expiredTotal + (quota.limit - n) < (sl.aged now).log.total := by
      have used : sl.usedAt now = (sl.aged now).log.total - (sl.aged now).log.expiredTotal := rfl
      have instant : (sl.aged now).log.instant (nanos t) < satAdd found.atNs (nanos quota.period) := by
        have newest : (sl.aged now).log.instant (nanos t) ≤ max (sl.log.instant (nanos now)) (nanos t) := by
          cases last : (sl.aged now).log.runs.getLast? with
          | none =>
              rw [Log.instant, last]
              exact le_max_right _ _
          | some back =>
              have kept : (sl.aged now).log.runs <:+ sl.log.runs := Log.runs_expire_suffix _ _
              have reach := under.sorted.le_instant (kept.subset (List.mem_of_getLast? last)) (nanos now)
              rw [Log.instant_of_getLast? last]
              exact max_le_max_right _ reach
        exact lt_of_le_of_lt newest (max_lt live (Nat.lt_of_not_le early))
      have expired := @Log.expiredTotal_expire_lt ((sl.aged now).log.instant (nanos t)) sl.periodNs
        ((sl.aged now).log.total - (quota.limit - n)) (sl.aged now).log.runs
        (sl.aged now).log.expiredTotal (by omega) (by
          intro older there gone
          rw [under.period] at gone
          have before : older.atNs < found.atNs := by
            simp only [satAdd] at gone instant
            omega
          have less := short older there before
          omega)
      change ((sl.aged now).aged t).log.expiredTotal < _ at expired
      omega
    omega
  · intro due
    have reach := (sl.aged now).log.le_instant (nanos t)
    have gone : satAdd found.atNs sl.periodNs ≤ (sl.aged now).log.instant (nanos t) := by
      rw [under.period]
      exact due.trans reach
    have expired := aged.sorted.le_expiredTotal_expire member gone
    change found.total ≤ ((sl.aged now).aged t).log.expiredTotal at expired
    omega

theorem allow_iff_fits (under : sl.Under quota) (asked : 1 ≤ n) (t : ℕ) :
    (sl.acquire n t).1 = .allow ↔ sl.usedAt t + n ≤ quota.limit := by
  have used := under.usedAt_le t
  rw [under.allow_iff, remaining_eq under]
  omega

/-- Between the readings of one log nothing leaves it twice. -/
theorem usedAt_aged_of_le (sl : SlidingLog) {t : ℕ} (later : now ≤ t) :
    (sl.aged now).usedAt t = sl.usedAt t := by
  rw [usedAt, usedAt, aged_aged, max_eq_right later]

/-- A refused log tells exactly when the record it waits for expires. -/
theorem Under.retries_exactly {wait : ℕ} {after : SlidingLog} (under : sl.Under quota) (asked : 1 ≤ n)
    (possible : n ≤ quota.limit) (denied : sl.acquire n now = (.deny wait, after)) :
    (0 < wait ∧ now + wait ≤ u64Max) ∧ after.releasing n < after.log.runs.length ∧
      RetriesExactly sl n now wait ∧ RetriesExactly after n now wait := by
  have full : quota.limit < sl.usedAt now + n := by
    rw [← Nat.not_le, ← SlidingLog.allow_iff_fits under asked, denied]
    exact Decision.noConfusion
  obtain ⟨run, held, -, live, -⟩ := SlidingLog.exists_releasing under possible full
  have reports := SlidingLog.acquire_refused under possible full
  rw [denied, Prod.mk.injEq, Decision.deny.injEq, held, Option.elim_some, under.period] at reports
  obtain ⟨rfl, rfl⟩ := reports
  have reach := sl.log.le_instant (nanos now)
  have word : satAdd run.atNs (nanos quota.period) ≤ u64Max := min_le_right _ _
  have below : nanos now < u64Max := by omega
  have reading : nanos now = now := by
    simp only [nanos] at below ⊢
    omega
  have fits_iff := fun {t : ℕ} => @SlidingLog.fits_iff_released quota sl n now under possible full run held t
  generalize satAdd run.atNs (nanos quota.period) = due at *
  have waits : now + (due - nanos now) = due := by omega
  -- what the log before the refusal decides, the log after it decides
  have exact_ : ∀ log : SlidingLog, log.Under quota →
      (∀ t, now ≤ t → log.usedAt t = sl.usedAt t) → RetriesExactly log n now (due - nanos now) := by
    intro log kept same
    rw [RetriesExactly, waits]
    constructor
    · apply (SlidingLog.allow_iff_fits kept asked due).2
      rw [same due (by omega), fits_iff (by omega), nanos_eq word]
    · intro t later earlier
      apply Decision.isDeny_of_ne_allow
      apply mt (SlidingLog.allow_iff_fits kept asked t).1
      rw [same t later, fits_iff later, nanos_eq (by omega)]
      omega
  refine ⟨by omega, (List.getElem?_eq_some_iff.1 held).1, exact_ sl under fun _ _ => rfl, ?_⟩
  exact exact_ _ (under.aged now) fun t later => sl.usedAt_aged_of_le later

end SlidingLog

/-- The sliding log's retry time is exact, whatever the reading, and also where a record's expiry
    saturates. -/
theorem sliding_log_retry_is_exact (quota : Quota) (sl after : SlidingLog) (n now wait : ℕ)
    (reachable : KeyState.Reachable quota sl) (asked : 1 ≤ n) (possible : n ≤ quota.limit)
    (denied : sl.acquire n now = (.deny wait, after)) :
    0 < wait ∧ after.releasing n < after.log.runs.length ∧
      RetriesExactly sl n now wait ∧ RetriesExactly after n now wait := by
  have under : sl.Under quota := reachable.under
  obtain ⟨⟨positive, -⟩, exactly⟩ := under.retries_exactly asked possible denied
  exact ⟨positive, exactly⟩

/-- Three per second, taken at 0 and 1 ms as one and two units: two more wait for the second record. -/
theorem sliding_log_retry_is_exact_of_two_runs :
    ((((SlidingLog.new (.perSecond 3 (by decide))).acquire 1 0).2.acquire 2 1000000).2.acquire 2 5000000).1 =
        .deny 996000000 ∧
      RetriesExactly (((SlidingLog.new (.perSecond 3 (by decide))).acquire 1 0).2.acquire 2 1000000).2 2
        5000000 996000000 := by
  have reachable : KeyState.Reachable (.perSecond 3 (by decide))
      (((SlidingLog.new (.perSecond 3 (by decide))).acquire 1 0).2.acquire 2 1000000).2 :=
    .acquire 2 1000000 (.acquire 1 0 (@KeyState.Reachable.create _ _ _ 0 _ (by decide +kernel)))
  have denied : (((SlidingLog.new (.perSecond 3 (by decide))).acquire 1 0).2.acquire 2 1000000).2.acquire 2
      5000000 = (.deny 996000000,
        (((SlidingLog.new (.perSecond 3 (by decide))).acquire 1 0).2.acquire 2 1000000).2) := by
    decide +kernel
  refine ⟨congrArg Prod.fst denied, ?_⟩
  exact (sliding_log_retry_is_exact _ _ _ 2 5000000 996000000 reachable (by decide) (by decide) denied).2.2.1

/-!
### The sliding counter

Counted from the window a refused check is judged in, the weighted count at a later instant is one of three:
the previous window's share is still fading, this window's is, or nothing is left.
-/

namespace SlidingCounter

variable {quota : Quota} {sc : SlidingCounter} {n now t : ℕ}

theorem Under.windowAt_eq_div (under : sc.Under quota) (clock : t ≤ u64Max) :
    sc.windowAt t = max sc.window (t / nanos quota.period) := by
  rw [windowAt, nanos_eq clock, under.period]

/-- Before the window ends. -/
theorem Under.load_in_window (under : sc.Under quota) (clock : t ≤ u64Max)
    (inside : t < (sc.window + 1) * nanos quota.period) :
    sc.load t = sc.prev * ((sc.window + 1) * nanos quota.period - max t (sc.window * nanos quota.period)) +
      sc.curr * nanos quota.period := by
  have number : t / nanos quota.period < sc.window + 1 := (Nat.div_lt_iff_lt_mul under.period_pos).2 inside
  have window : sc.windowAt t = sc.window := by
    rw [under.windowAt_eq_div clock]
    omega
  rw [under.load_eq, under.aged_eq, if_pos window, window, under.instant_eq, nanos_eq clock]

/-- In the window after it, this window's count is the fading one. -/
theorem Under.load_in_next (under : sc.Under quota) (clock : t ≤ u64Max)
    (ended : (sc.window + 1) * nanos quota.period ≤ t) (inside : t < (sc.window + 2) * nanos quota.period) :
    sc.load t = sc.curr * ((sc.window + 2) * nanos quota.period - t) := by
  have begun : sc.window + 1 ≤ t / nanos quota.period := (Nat.le_div_iff_mul_le under.period_pos).2 ended
  have number : t / nanos quota.period < sc.window + 2 := (Nat.div_lt_iff_lt_mul under.period_pos).2 inside
  have window : sc.windowAt t = sc.window + 1 := by
    rw [under.windowAt_eq_div clock]
    omega
  have start : sc.window * nanos quota.period ≤ t := (Nat.mul_le_mul_right _ (Nat.le_succ _)).trans ended
  rw [under.load_eq, under.aged_eq, if_neg (by omega), if_pos window, window, under.instant_eq, nanos_eq clock,
    max_eq_left start, Nat.zero_mul, Nat.add_zero]

/-- After that nothing is left. -/
theorem Under.load_gone (under : sc.Under quota) (clock : t ≤ u64Max)
    (ended : (sc.window + 2) * nanos quota.period ≤ t) : sc.load t = 0 := by
  have begun : sc.window + 2 ≤ t / nanos quota.period := (Nat.le_div_iff_mul_le under.period_pos).2 ended
  have window := under.windowAt_eq_div clock
  rw [under.load_eq_zero]
  exact under.aged_of_passed (by omega) (Or.inr (by omega))

theorem allow_iff_load (under : sc.Under quota) (asked : 1 ≤ n) (t : ℕ) :
    (sc.acquire n t).1 = .allow ↔ sc.load t + n * nanos quota.period ≤ quota.limit * nanos quota.period := by
  have some_units : 0 < n * nanos quota.period := Nat.mul_pos asked under.period_pos
  rw [under.allow_iff, remaining_eq under, or_iff_right (by omega), remainingAt,
    under.period, Nat.le_div_iff_mul_le under.period_pos, under.limit]
  omega

/-- The instant, counted from a state whose windows are rolled to `now`, from which `n` units refused at
    `now` fit. -/
def readyAt (sc : SlidingCounter) (n : ℕ) : ℕ :=
  if sc.curr + n ≤ sc.limit then
    (sc.window + 1) * sc.periodNs - (sc.limit - n - sc.curr) * sc.periodNs / sc.prev
  else
    (sc.window + 2) * sc.periodNs - (sc.limit - n) * sc.periodNs / sc.curr

/-- Units that do not fit in the window under way fit exactly from the ready instant on. -/
theorem Under.fits_iff_ready (under : sc.Under quota) (possible : n ≤ quota.limit) {t₀ : ℕ}
    (current : t₀ < (sc.window + 1) * nanos quota.period)
    (full : quota.limit * nanos quota.period < sc.load t₀ + n * nanos quota.period)
    (later : t₀ ≤ t) (clock : t ≤ u64Max) :
    sc.load t + n * nanos quota.period ≤ quota.limit * nanos quota.period ↔ sc.readyAt n ≤ t := by
  have positive := under.period_pos
  have next : (sc.window + 2) * nanos quota.period =
      (sc.window + 1) * nanos quota.period + nanos quota.period := by ring
  have start : (sc.window + 1) * nanos quota.period =
      sc.window * nanos quota.period + nanos quota.period := by ring
  have room : n * nanos quota.period ≤ quota.limit * nanos quota.period := Nat.mul_le_mul_right _ possible
  rw [under.load_in_window (later.trans clock) current] at full
  rw [readyAt, under.limit, under.period]
  by_cases roomy : sc.curr + n ≤ quota.limit
  · -- the previous window's share has to fade, by the end of this window at the latest
    have sum : sc.curr * nanos quota.period + n * nanos quota.period ≤
        quota.limit * nanos quota.period := by
      rw [← Nat.add_mul]
      exact Nat.mul_le_mul_right _ roomy
    have slack : (quota.limit - n - sc.curr) * nanos quota.period =
        quota.limit * nanos quota.period - n * nanos quota.period - sc.curr * nanos quota.period := by
      rw [Nat.sub_mul, Nat.sub_mul]
    have prev : 0 < sc.prev := by
      by_contra none_left
      rw [Nat.eq_zero_of_not_pos none_left, Nat.zero_mul] at full
      omega
    have short : (quota.limit - n - sc.curr) * nanos quota.period / sc.prev <
        (sc.window + 1) * nanos quota.period - max t₀ (sc.window * nanos quota.period) := by
      rw [Nat.div_lt_iff_lt_mul prev, slack, Nat.mul_comm _ sc.prev]
      omega
    rw [if_pos roomy]
    generalize quotient : (quota.limit - n - sc.curr) * nanos quota.period / sc.prev = faded at short ⊢
    rcases Nat.lt_or_ge t ((sc.window + 1) * nanos quota.period) with inside | ended
    · have fades : sc.prev * ((sc.window + 1) * nanos quota.period - max t (sc.window * nanos quota.period)) ≤
            quota.limit * nanos quota.period - n * nanos quota.period - sc.curr * nanos quota.period ↔
          (sc.window + 1) * nanos quota.period - max t (sc.window * nanos quota.period) ≤ faded := by
        rw [← slack, ← quotient, Nat.le_div_iff_mul_le prev, Nat.mul_comm]
      rw [under.load_in_window clock inside]
      omega
    · have faded : sc.load t ≤ sc.curr * nanos quota.period := by
        rcases Nat.lt_or_ge t ((sc.window + 2) * nanos quota.period) with inside | gone
        · rw [under.load_in_next clock ended inside]
          exact Nat.mul_le_mul_left _ (by omega)
        · rw [under.load_gone clock gone]
          exact Nat.zero_le _
      omega
  · -- this window's own count has to fade, over the next one
    have more : quota.limit * nanos quota.period <
        sc.curr * nanos quota.period + n * nanos quota.period := by
      rw [← Nat.add_mul]
      exact Nat.mul_lt_mul_of_pos_right (Nat.lt_of_not_le roomy) positive
    have slack : (quota.limit - n) * nanos quota.period =
        quota.limit * nanos quota.period - n * nanos quota.period := Nat.sub_mul _ _ _
    have curr : 0 < sc.curr := by omega
    have short : (quota.limit - n) * nanos quota.period / sc.curr < nanos quota.period := by
      rw [Nat.div_lt_iff_lt_mul curr, slack, Nat.mul_comm (nanos quota.period)]
      omega
    rw [if_neg roomy]
    generalize quotient : (quota.limit - n) * nanos quota.period / sc.curr = faded at short ⊢
    rcases Nat.lt_or_ge t ((sc.window + 1) * nanos quota.period) with inside | ended
    · rw [under.load_in_window clock inside]
      omega
    · rcases Nat.lt_or_ge t ((sc.window + 2) * nanos quota.period) with inside | gone
      · have fades : sc.curr * ((sc.window + 2) * nanos quota.period - t) ≤
              quota.limit * nanos quota.period - n * nanos quota.period ↔
            (sc.window + 2) * nanos quota.period - t ≤ faded := by
          rw [← slack, ← quotient, Nat.le_div_iff_mul_le curr, Nat.mul_comm]
        rw [under.load_in_next clock ended inside]
        omega
      · rw [under.load_gone clock gone]
        omega

/-- The wait of a refused check, counted from the instant it is judged at, ends at the ready instant. -/
theorem Under.earliestFit_eq (under : sc.Under quota) (possible : n ≤ quota.limit) {instant : ℕ}
    (begun : sc.window * nanos quota.period ≤ instant)
    (current : instant < (sc.window + 1) * nanos quota.period) (clock : instant ≤ u64Max)
    (full : quota.limit * nanos quota.period < sc.load instant + n * nanos quota.period)
    (unsaturated : sc.earliestFit (instant % nanos quota.period) n < u64Max) :
    instant + sc.earliestFit (instant % nanos quota.period) n = sc.readyAt n := by
  have positive := under.period_pos
  have word := nanos_le quota.period
  have next : (sc.window + 2) * nanos quota.period =
      (sc.window + 1) * nanos quota.period + nanos quota.period := by ring
  have start : (sc.window + 1) * nanos quota.period =
      sc.window * nanos quota.period + nanos quota.period := by ring
  have offset : instant % nanos quota.period = instant - sc.window * nanos quota.period := by
    have number : instant / nanos quota.period = sc.window :=
      Nat.div_eq_of_lt_le begun current
    have split := Nat.div_add_mod instant (nanos quota.period)
    rw [number, Nat.mul_comm] at split
    omega
  -- the units do not fit yet, so the ready instant is ahead
  have ahead : instant < sc.readyAt n := by
    rw [← Nat.not_le, ← under.fits_iff_ready possible current full le_rfl clock]
    omega
  have prev : sc.curr + n ≤ quota.limit → 0 < sc.prev := by
    intro roomy
    by_contra none_left
    have sum := Nat.mul_le_mul_right (nanos quota.period) roomy
    rw [under.load_in_window clock current, Nat.eq_zero_of_not_pos none_left, Nat.zero_mul] at full
    rw [Nat.add_mul] at sum
    omega
  rw [readyAt, under.limit, under.period] at ahead ⊢
  rw [earliestFit, under.limit, under.period, offset] at unsaturated ⊢
  by_cases roomy : sc.curr + n ≤ quota.limit
  · rw [if_pos ⟨roomy, prev roomy⟩]
    rw [if_pos roomy] at ahead ⊢
    dsimp only
    generalize (quota.limit - n - sc.curr) * nanos quota.period / sc.prev = faded at ahead ⊢
    omega
  · have both : ¬ (sc.curr + n ≤ quota.limit ∧ sc.prev > 0) := fun h => roomy h.1
    have curr : ¬ sc.curr = 0 := by omega
    have short : (quota.limit - n) * nanos quota.period / sc.curr ≤ nanos quota.period := by
      apply Nat.div_le_of_le_mul
      exact Nat.mul_le_mul_right _ (by omega)
    rw [if_neg both, if_neg curr] at unsaturated ⊢
    rw [if_neg roomy]
    simp only [satAdd] at unsaturated ⊢
    generalize (quota.limit - n) * nanos quota.period / sc.curr = faded at short unsaturated ⊢
    omega

/-- What a refused check reports. -/
theorem acquire_refused (under : sc.Under quota) (possible : n ≤ quota.limit)
    (full : sc.remainingAt now < n) :
    sc.acquire n now = (.deny (max (satAdd
      ((sc.aged now).earliestFit (sc.instant (nanos now) % sc.periodNs) n)
      (sc.instant (nanos now) - nanos now)) 1), sc.aged now) := by
  have no_room := mt (under.fits_iff (by omega) now).1 (Nat.not_le_of_lt full)
  rw [acquire, if_neg (by omega), if_neg (under.guard possible)]
  simp only [roll_eq, if_neg no_room]

/-- A refused counter tells exactly when enough of its counts has faded. -/
theorem Under.retries_exactly {wait : ℕ} {after : SlidingCounter} (under : sc.Under quota) (asked : 1 ≤ n)
    (possible : n ≤ quota.limit) (denied : sc.acquire n now = (.deny wait, after)) (clock : now + wait < u64Max) :
    0 < wait ∧ RetriesExactly sc n now wait ∧ RetriesExactly after n now wait := by
  have aged := under.aged now
  have refused : sc.remainingAt now < n := by
    by_contra fits
    rw [(SlidingCounter.acquire_fits under asked (Nat.le_of_not_lt fits)).1] at denied
    cases denied
  have reading : nanos now = now := nanos_eq (by omega)
  have reports := SlidingCounter.acquire_refused under possible refused
  rw [denied, Prod.mk.injEq, Decision.deny.injEq, under.period, reading] at reports
  obtain ⟨rfl, rfl⟩ := reports
  -- the instant the check is judged at lies in the window the state is rolled to
  have window := under.aged_window now
  have begun := under.windowAt_mul_le now
  have current : sc.instant (nanos now) < (sc.windowAt now + 1) * nanos quota.period := by
    rw [← under.instant_div]
    exact Nat.lt_mul_of_div_lt (Nat.lt_succ_self _) under.period_pos
  have word := under.instant_le now
  have ahead := under.le_instant now
  rw [reading] at begun current word ahead
  rw [← window] at begun current
  have inside : now < ((sc.aged now).window + 1) * nanos quota.period := by omega
  have rolled := under.load_aged_of_reached (le_refl (sc.windowAt now))
  have refusedNow : quota.limit * nanos quota.period <
      (sc.aged now).load now + n * nanos quota.period := by
    rw [rolled, ← Nat.not_le, ← SlidingCounter.allow_iff_load under asked, denied]
    exact Decision.noConfusion
  have instants : (sc.aged now).load (sc.instant now) = (sc.aged now).load now := by
    rw [aged.load_in_window word current, aged.load_in_window (by omega) inside]
    have judged := under.instant_aged (le_refl (sc.windowAt now))
    rw [aged.instant_eq, reading] at judged
    rw [judged, max_eq_left begun]
  have full : quota.limit * nanos quota.period <
      (sc.aged now).load (sc.instant now) + n * nanos quota.period := by
    rw [instants]
    exact refusedNow
  generalize earliest : (sc.aged now).earliestFit (sc.instant now % nanos quota.period) n = wait at *
  have unsaturated : wait < u64Max := by
    simp only [satAdd] at clock
    omega
  have ready := aged.earliestFit_eq possible begun current word full (by rwa [earliest])
  rw [earliest] at ready
  have early := aged.fits_iff_ready possible current full le_rfl word
  have waits : now + max (satAdd wait (sc.instant now - now)) 1 = (sc.aged now).readyAt n := by
    simp only [satAdd] at clock ⊢
    omega
  rw [waits] at clock
  -- what the counter before the refusal decides, the counter after it decides
  have exact_ : ∀ counter : SlidingCounter, counter.Under quota →
      (∀ t, now ≤ t → counter.load t = (sc.aged now).load t) →
      RetriesExactly counter n now (max (satAdd wait (sc.instant now - now)) 1) := by
    intro counter kept same
    have allow_iff : ∀ t, now ≤ t → t ≤ u64Max →
        ((counter.acquire n t).1 = .allow ↔ (sc.aged now).readyAt n ≤ t) := by
      intro t later below
      rw [SlidingCounter.allow_iff_load kept asked, same t later]
      exact aged.fits_iff_ready possible inside refusedNow later below
    rw [RetriesExactly, waits]
    refine ⟨(allow_iff _ (by omega) clock.le).2 le_rfl, ?_⟩
    intro t later earlier
    apply Decision.isDeny_of_ne_allow
    apply mt (allow_iff t later (by omega)).1
    omega
  refine ⟨by omega, ?_, ?_⟩
  · exact exact_ sc under fun t later =>
      (under.load_aged_of_reached (SlidingCounter.Under.windowAt_mono sc later)).symm
  · exact exact_ _ aged fun _ _ => rfl

end SlidingCounter

/-- The sliding counter's retry time is exact, whatever the reading. -/
theorem sliding_counter_retry_is_exact (quota : Quota) (sc after : SlidingCounter) (n now wait : ℕ)
    (reachable : KeyState.Reachable quota sc) (asked : 1 ≤ n) (possible : n ≤ quota.limit)
    (denied : sc.acquire n now = (.deny wait, after)) (clock : now + wait < u64Max) :
    0 < wait ∧ RetriesExactly sc n now wait ∧ RetriesExactly after n now wait :=
  have under : sc.Under quota := reachable.under
  under.retries_exactly asked possible denied clock

/-- Two per second, both taken at 0: half a second later one more waits until the two have half faded, in
    the next window. -/
theorem sliding_counter_retry_is_exact_of_two_spent :
    (((SlidingCounter.new (.perSecond 2 (by decide)) 0).acquire 2 0).2.acquire 1 500000000).1 =
        .deny 1000000000 ∧
      RetriesExactly ((SlidingCounter.new (.perSecond 2 (by decide)) 0).acquire 2 0).2 1 500000000
        1000000000 := by
  have reachable : KeyState.Reachable (.perSecond 2 (by decide))
      ((SlidingCounter.new (.perSecond 2 (by decide)) 0).acquire 2 0).2 :=
    .acquire 2 0 (@KeyState.Reachable.create _ _ _ 0 _ (by decide +kernel))
  have denied : ((SlidingCounter.new (.perSecond 2 (by decide)) 0).acquire 2 0).2.acquire 1 500000000 =
      (.deny 1000000000, ((SlidingCounter.new (.perSecond 2 (by decide)) 0).acquire 2 0).2) := by
    decide +kernel
  refine ⟨congrArg Prod.fst denied, ?_⟩
  exact (sliding_counter_retry_is_exact _ _ _ 1 500000000 1000000000 reachable (by decide) (by decide) denied
    (by decide)).2.1

end RateNet
