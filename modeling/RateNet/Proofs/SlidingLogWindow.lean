/-
Module: RateNet.Proofs.SlidingLogWindow
Purpose: What the sliding log's records say. A log tells a history of admitted units, as of a clock, when
  every running total is the units admitted up to its record's instant, and the expired total the units
  that have left the window by the clock. Ageing a log moves its clock and recording extends its
  history, so with readings in order the log decides exactly as the history would. A late call is
  judged at the newest record, which need not be the latest instant the log was aged to: where it is,
  the limit holds at effective times, and a run where it is not breaks it.
Trusted boundary: none
Main exports: Log.Tells, LogCall, LogRun, sliding_log_exact, LateCall, LateRun,
  sliding_log_bounds_effective_times
-/
import RateNet.Lib.Runs
import RateNet.Lib.TimedUnits
import RateNet.Algo.SlidingLog

namespace RateNet

open TimedUnits

/-- The log tells the units admitted in `history`, as of the instant `clock` it was last aged to, with
    running totals that started at `base`. -/
structure Log.Tells (periodNs base clock : ℕ) (history : List (ℕ × ℕ)) (log : Log) : Prop where
  totals : ∀ run ∈ log.runs, run.total = base + units history (· ≤ run.atNs)
  expired : log.expiredTotal = base + units history (· + periodNs ≤ clock)
  whole : log.total = base + units history fun _ => True
  /-- Units still in the window have a record. -/
  held : ∀ event ∈ history, 1 ≤ event.2 → clock < event.1 + periodNs → ∃ run ∈ log.runs, run.atNs = event.1
  /-- A record holds at least one unit, still in the window. -/
  live : ∀ run ∈ log.runs, clock < run.atNs + periodNs ∧ ∃ event ∈ history, event.1 = run.atNs ∧ 1 ≤ event.2
  past : ∀ event ∈ history, 1 ≤ event.2 → event.1 ≤ clock

namespace Log.Tells

variable {periodNs base clock nowNs : ℕ} {history : List (ℕ × ℕ)} {log : Log}

/-- The units in the window are the admitted units that have not left it. -/
theorem inWindow_eq (tells : log.Tells periodNs base clock history) :
    log.inWindow = units history (clock < · + periodNs) := by
  have split := units_add_not history (· + periodNs ≤ clock)
  have same : (units history fun t => ¬ t + periodNs ≤ clock) = units history (clock < · + periodNs) :=
    units_congr fun event _ _ => Nat.not_le
  rw [Log.inWindow, tells.whole, tells.expired]
  omega

theorem run_le_clock (tells : log.Tells periodNs base clock history) {run : Run} (member : run ∈ log.runs) :
    run.atNs ≤ clock := by
  obtain ⟨-, event, there, same, some_here⟩ := tells.live run member
  rw [← same]
  exact tells.past event there some_here

/-- No unit leaves the window between two instants that the same records outlive. -/
theorem quiet (tells : log.Tells periodNs base clock history) (h : clock ≤ nowNs)
    (outlive : ∀ run ∈ log.runs, nowNs < run.atNs + periodNs) :
    log.Tells periodNs base nowNs history := by
  have still : ∀ event ∈ history, 1 ≤ event.2 → clock < event.1 + periodNs → nowNs < event.1 + periodNs := by
    intro event member some_here ahead
    obtain ⟨run, there, same⟩ := tells.held event member some_here ahead
    rw [← same]
    exact outlive run there
  refine { tells with expired := ?_, held := ?_, live := ?_, past := ?_ }
  · rw [tells.expired, Nat.add_left_cancel_iff]
    apply units_congr
    intro event member some_here
    have kept := still event member some_here
    omega
  · intro event member some_here ahead
    exact tells.held event member some_here (by omega)
  · intro run member
    exact ⟨outlive run member, (tells.live run member).2⟩
  · intro event member some_here
    exact (tells.past event member some_here).trans h

/-- The oldest record leaves the window at the end of its own. -/
theorem pop {front : Run} {rest : List Run} {expiredTotal : ℕ}
    (tells : (Log.mk (front :: rest) expiredTotal).Tells periodNs base clock history)
    (sorted : (Log.mk (front :: rest) expiredTotal).Sorted) :
    (Log.mk rest front.total).Tells periodNs base (front.atNs + periodNs) history := by
  obtain ⟨ahead, -⟩ := tells.live front List.mem_cons_self
  have newer := (List.pairwise_cons.1 sorted.times).1
  refine ⟨?_, ?_, ?_, ?_, ?_, ?_⟩
  · intro run member
    exact tells.totals run (List.mem_cons_of_mem _ member)
  · rw [tells.totals front List.mem_cons_self, Nat.add_left_cancel_iff]
    apply units_congr
    intro event _ _
    omega
  · rw [← Log.total_cons front rest expiredTotal]
    exact tells.whole
  · intro event member some_here later
    obtain ⟨run, there, same⟩ := tells.held event member some_here (by omega)
    rcases List.mem_cons.1 there with rfl | there
    · omega
    · exact ⟨run, there, same⟩
  · intro run member
    have after := newer run member
    exact ⟨by omega, (tells.live run (List.mem_cons_of_mem _ member)).2⟩
  · intro event member some_here
    exact (tells.past event member some_here).trans ahead.le

/-- Ageing a log moves its clock. -/
theorem expire (tells : log.Tells periodNs base clock history) (sorted : log.Sorted) (h : clock ≤ nowNs)
    (word : nowNs + periodNs ≤ u64Max) :
    (Log.expire nowNs periodNs log.runs log.expiredTotal).Tells periodNs base nowNs history := by
  obtain ⟨runs, expiredTotal⟩ := log
  -- the clock moves record by record, so that it is the induction's own
  induction runs generalizing expiredTotal clock with
  | nil => exact tells.quiet h fun run member => by cases member
  | cons front rest inductionHypothesis =>
      have reach := tells.run_le_clock List.mem_cons_self
      have unsaturated : satAdd front.atNs periodNs = front.atNs + periodNs := satAdd_eq (by omega)
      rw [Log.expire, unsaturated]
      split
      · rename_i ahead
        apply tells.quiet h
        intro run member
        rcases List.mem_cons.1 member with rfl | later
        · exact ahead
        · have newer := (List.pairwise_cons.1 sorted.times).1 run later
          omega
      · rename_i gone
        exact inductionHypothesis (by omega) front.total (tells.pop sorted) sorted.tail

/-- Recording units at the clock extends the history. -/
theorem record (tells : log.Tells periodNs base clock history) (sorted : log.Sorted) (period : 0 < periodNs)
    {n : ℕ} (asked : 1 ≤ n) (word : log.total + n ≤ u64Max) :
    (log.record n clock).Tells periodNs base clock (history ++ [(clock, n)]) := by
  have latest : ∀ run ∈ log.runs, run.atNs ≤ clock := fun run member => tells.run_le_clock member
  obtain ⟨older, kept, before, covered, runs⟩ := sorted.runs_record n latest
  have total : satAdd log.total n = log.total + n := satAdd_eq word
  refine ⟨?_, ?_, ?_, ?_, ?_, ?_⟩
  · intro run member
    rw [runs] at member
    rw [units_append]
    rcases List.mem_append.1 member with old | new
    · rw [if_neg (Nat.not_le_of_lt (before run old)), Nat.add_zero]
      exact tells.totals run (kept.subset old)
    · have everything : units history (· ≤ clock) = units history fun _ => True :=
        units_congr fun event there some_here => iff_of_true (tells.past event there some_here) trivial
      rw [List.mem_singleton.1 new, if_pos le_rfl, everything]
      show satAdd log.total n = _
      rw [total, tells.whole, Nat.add_assoc]
  · rw [Log.expiredTotal_record, tells.expired, units_append, if_neg (by omega), Nat.add_zero]
  · rw [Log.total_record, total, tells.whole, units_append, if_pos trivial, Nat.add_assoc]
  · intro event member some_here ahead
    rw [runs]
    rcases List.mem_append.1 member with old | new
    · obtain ⟨run, there, same⟩ := tells.held event old some_here ahead
      rcases covered run there with still | now
      · exact ⟨run, List.mem_append_left _ still, same⟩
      · exact ⟨_, List.mem_append_right _ (List.mem_singleton.2 rfl), now.symm.trans same⟩
    · rw [List.mem_singleton.1 new]
      exact ⟨_, List.mem_append_right _ (List.mem_singleton.2 rfl), rfl⟩
  · intro run member
    rw [runs] at member
    rcases List.mem_append.1 member with old | new
    · obtain ⟨ahead, event, there, same, some_here⟩ := tells.live run (kept.subset old)
      exact ⟨ahead, event, List.mem_append_left _ there, same, some_here⟩
    · rw [List.mem_singleton.1 new]
      exact ⟨by simp only; omega, _, List.mem_append_right _ (List.mem_singleton.2 rfl), rfl, asked⟩
  · intro event member some_here
    rcases List.mem_append.1 member with old | new
    · exact tells.past event old some_here
    · rw [List.mem_singleton.1 new]

/-- Admitting no units says nothing. -/
theorem append_zero (tells : log.Tells periodNs base clock history) (instant : ℕ) :
    log.Tells periodNs base clock (history ++ [(instant, 0)]) where
  totals := by
    intro run member
    rw [units_append, ite_self, Nat.add_zero]
    exact tells.totals run member
  expired := by
    rw [units_append, ite_self, Nat.add_zero]
    exact tells.expired
  whole := by
    rw [units_append, ite_self, Nat.add_zero]
    exact tells.whole
  held := by
    intro event member some_here
    rcases List.mem_append.1 member with old | new
    · exact tells.held event old some_here
    · rw [List.mem_singleton.1 new] at some_here
      cases some_here
  live := by
    intro run member
    obtain ⟨ahead, event, there, here⟩ := tells.live run member
    exact ⟨ahead, event, List.mem_append_left _ there, here⟩
  past := by
    intro event member some_here
    rcases List.mem_append.1 member with old | new
    · exact tells.past event old some_here
    · rw [List.mem_singleton.1 new] at some_here
      cases some_here

/-- Running totals increase strictly from record to record. -/
theorem strict (tells : log.Tells periodNs base clock history) (sorted : log.Sorted) :
    log.runs.Pairwise fun a b => a.total < b.total := by
  apply sorted.times.imp_of_mem
  intro a b first second before
  obtain ⟨-, event, there, same, some_here⟩ := tells.live b second
  rw [tells.totals a first, tells.totals b second, Nat.add_lt_add_iff_left]
  exact units_lt (fun _ _ _ early => early.trans before.le) there some_here (by omega) same.le

/-- A log has no more records than units in its window. -/
theorem length_le (tells : log.Tells periodNs base clock history) (sorted : log.Sorted) :
    log.runs.length ≤ log.inWindow := by
  apply length_le_of_strict Run.total (tells.strict sorted)
  · intro run member
    obtain ⟨ahead, event, there, same, some_here⟩ := tells.live run member
    rw [tells.expired, tells.totals run member, Nat.add_lt_add_iff_left]
    exact units_lt (fun _ _ _ gone => by omega) there some_here (by omega) same.le
  · intro run member
    exact sorted.le_total member

end Log.Tells

/-!
### States that tell a history
-/

/-- A state kept under `quota` whose log tells a history within the limit: in no half-open interval of
    one period does the history have more units. -/
structure SlidingLog.Tells (quota : Quota) (base clock : ℕ) (history : List (ℕ × ℕ)) (sl : SlidingLog) :
    Prop where
  under : sl.Under quota
  log : sl.log.Tells (nanos quota.period) base clock history
  within : ∀ a, units history (fun t => a ≤ t ∧ t < a + nanos quota.period) ≤ quota.limit

namespace SlidingLog.Tells

variable {quota : Quota} {base clock now t n : ℕ} {history : List (ℕ × ℕ)} {sl : SlidingLog}

/-- Reading a state moves its clock to the instant of the reading. -/
theorem aged (tells : sl.Tells quota base clock history) (instant : sl.log.instant (nanos now) = t)
    (later : clock ≤ t) (word : t + nanos quota.period ≤ u64Max) :
    (sl.aged now).Tells quota base t history := by
  refine { tells with under := tells.under.aged now, log := ?_ }
  have moved := tells.log.expire tells.under.sorted later word
  rw [← instant, ← tells.under.period] at moved ⊢
  exact moved

theorem usedAt_eq (tells : sl.Tells quota base clock history) (instant : sl.log.instant (nanos now) = t)
    (later : clock ≤ t) (word : t + nanos quota.period ≤ u64Max) :
    sl.usedAt now = units history (t < · + nanos quota.period) :=
  (tells.aged instant later word).log.inWindow_eq

/-- Units that fit beside those the history has in the window are admitted, and the history extended. -/
theorem fits (tells : sl.Tells quota base clock history) (instant : sl.log.instant (nanos now) = t)
    (later : clock ≤ t) (word : t + nanos quota.period ≤ u64Max) (asked : 1 ≤ n)
    (room : units history (t < · + nanos quota.period) + n ≤ quota.limit)
    (total : sl.log.total + n ≤ u64Max) :
    (sl.acquire n now).1 = .allow ∧ (sl.acquire n now).2.Tells quota base t (history ++ [(t, n)]) := by
  have aged := tells.aged instant later word
  have free : sl.usedAt now + n ≤ quota.limit := by
    rw [tells.usedAt_eq instant later word]
    exact room
  have kept := tells.under.acquire n now
  rw [acquire_fits tells.under asked free] at kept ⊢
  refine ⟨rfl, kept, ?_, ?_⟩
  · rw [instant]
    apply aged.log.record aged.under.sorted tells.under.period_pos asked
    rw [SlidingLog.aged, Log.total_expireAt]
    exact total
  · intro a
    rw [units_append]
    split
    · rename_i inside
      have counted : units history (fun s => a ≤ s ∧ s < a + nanos quota.period) ≤
          units history (t < · + nanos quota.period) := units_mono fun event _ _ there => by omega
      omega
    · exact tells.within a

/-- Units that do not fit are denied. -/
theorem full (tells : sl.Tells quota base clock history) (instant : sl.log.instant (nanos now) = t)
    (later : clock ≤ t) (word : t + nanos quota.period ≤ u64Max) (possible : n ≤ quota.limit)
    (no_room : quota.limit < units history (t < · + nanos quota.period) + n) :
    (sl.acquire n now).1 ≠ .allow ∧ (sl.acquire n now).2.Tells quota base t history := by
  rw [← tells.usedAt_eq instant later word] at no_room
  obtain ⟨wait, denied⟩ := acquire_full tells.under possible no_room
  rw [denied]
  exact ⟨by simp, tells.aged instant later word⟩

end SlidingLog.Tells

/-!
### Readings in order
-/

/-- A call on one sliding log. -/
inductive LogCall where
  | acquire (n now : ℕ)
  | peek (now : ℕ)
  | reset
deriving DecidableEq, Repr

/-- The clock reading a call carries. -/
def LogCall.reading : LogCall → Option ℕ
  | .acquire _ now => some now
  | .peek now => some now
  | .reset => none

/-- A sliding log along a run of calls, with what has been admitted. -/
structure LogRun where
  state : SlidingLog
  /-- The reading of the last call that looked at the log. -/
  clock : ℕ
  /-- The units admitted since the last reset, with the readings they were admitted at. -/
  sinceReset : List (ℕ × ℕ)
  /-- The units ever admitted. -/
  ever : List (ℕ × ℕ)

namespace LogRun

/-- A fresh log. -/
def start (quota : Quota) : LogRun := { state := .new quota, clock := 0, sinceReset := [], ever := [] }

def step (run : LogRun) : LogCall → LogRun
  | .acquire n now =>
    let admitted := if (run.state.acquire n now).1 = .allow then [(now, n)] else []
    { state := (run.state.acquire n now).2
      -- a request for nothing, or for more than can ever fit, is answered without the log
      clock := if 1 ≤ n ∧ n ≤ run.state.limit then now else run.clock
      sinceReset := run.sinceReset ++ admitted
      ever := run.ever ++ admitted }
  | .peek now => { run with state := (run.state.peek now).2, clock := now }
  | .reset => { run with state := run.state.reset, sinceReset := [] }

/-- The run of `calls` on a fresh log. -/
def after (quota : Quota) (calls : List LogCall) : LogRun := calls.foldl step (start quota)

theorem after_snoc (quota : Quota) (calls : List LogCall) (call : LogCall) :
    after quota (calls ++ [call]) = (after quota calls).step call := by
  rw [after, List.foldl_append]
  rfl

/-- Units once admitted stay admitted. -/
theorem units_ever_mono (run : LogRun) (calls : List LogCall) :
    units run.ever (fun _ => True) ≤ units (calls.foldl step run).ever fun _ => True := by
  induction calls generalizing run with
  | nil => exact le_rfl
  | cons call rest inductionHypothesis =>
      apply le_trans _ (inductionHypothesis (run.step call))
      cases call with
      | acquire n now =>
          simp only [step]
          split
          · rw [units_append]
            exact Nat.le_add_right _ _
          · rw [List.append_nil]
      | peek now => exact le_rfl
      | reset => exact le_rfl

/-- The log tells the units admitted since the last reset, and its running total all ever admitted. -/
def Exact (quota : Quota) (run : LogRun) : Prop :=
  run.state.log.total = units run.ever (fun _ => True) ∧
    ∃ base, run.state.Tells quota base run.clock run.sinceReset

variable {quota : Quota} {run : LogRun}

/-- With readings in order every call is judged at its own reading. -/
theorem Exact.instant {base : ℕ} (tells : run.state.Tells quota base run.clock run.sinceReset) {now : ℕ}
    (later : run.clock ≤ now) (word : now ≤ u64Max) : run.state.log.instant (nanos now) = now := by
  rw [nanos_eq word]
  cases newest : run.state.log.runs.getLast? with
  | none =>
      rw [Log.instant, newest]
      rfl
  | some back =>
      have reach := tells.log.run_le_clock (List.mem_of_getLast? newest)
      rw [Log.instant_of_getLast? newest, max_eq_right (reach.trans later)]

/-- What an acquire of possible units decides. -/
theorem Exact.decides (exact_ : run.Exact quota) {n now : ℕ} (later : run.clock ≤ now)
    (word : now + nanos quota.period ≤ u64Max) :
    (run.state.acquire n now).1 = .allow ↔ n = 0 ∨ 1 ≤ n ∧ n ≤ quota.limit ∧
      n + units run.sinceReset (fun t => now < t + nanos quota.period) ≤ quota.limit := by
  obtain ⟨-, base, tells⟩ := exact_
  have instant := Exact.instant tells later (by omega)
  rcases Nat.eq_zero_or_pos n with rfl | asked
  · simp [SlidingLog.acquire_zero]
  rcases Nat.lt_or_ge quota.limit n with impossible | possible
  · rw [SlidingLog.acquire_impossible tells.under impossible]
    simp only [reduceCtorEq, false_iff]
    omega
  rcases Nat.lt_or_ge quota.limit (units run.sinceReset (now < · + nanos quota.period) + n) with full | room
  · have denied := (tells.full instant later word possible full).1
    simp only [denied, false_iff]
    omega
  · rw [← tells.usedAt_eq instant later word] at room
    rw [SlidingLog.acquire_fits tells.under asked room]
    rw [tells.usedAt_eq instant later word] at room
    simp only [true_iff]
    omega

/-- A log that has admitted nothing tells an empty history. -/
theorem tells_nil {sl : SlidingLog} (under : sl.Under quota) (empty : sl.log.runs = []) (clock : ℕ) :
    sl.Tells quota sl.log.expiredTotal clock [] := by
  have total : sl.log.total = sl.log.expiredTotal := by
    rw [Log.total, empty]
    rfl
  refine ⟨under, ⟨?_, rfl, total, ?_, ?_, ?_⟩, fun _ => Nat.zero_le _⟩
  · intro run member
    rw [empty] at member
    cases member
  · intro event member
    cases member
  · intro run member
    rw [empty] at member
    cases member
  · intro event member
    cases member

/-- One acquire keeps the log exact. -/
theorem Exact.acquire (exact_ : run.Exact quota) {n now : ℕ} (later : run.clock ≤ now)
    (word : now + nanos quota.period ≤ u64Max)
    (fits : units (run.step (.acquire n now)).ever (fun _ => True) ≤ u64Max) :
    (run.step (.acquire n now)).Exact quota := by
  obtain ⟨total, base, tells⟩ := exact_
  have instant := Exact.instant tells later (by omega)
  have limit := tells.under.limit
  simp only [LogRun.step] at fits ⊢
  rcases Nat.eq_zero_or_pos n with rfl | asked
  · rw [SlidingLog.acquire_zero, if_pos rfl, if_neg (by omega)]
    refine ⟨?_, base, tells.under, tells.log.append_zero now, ?_⟩
    · rw [units_append, ite_self]
      exact total
    · intro a
      rw [units_append, ite_self]
      exact tells.within a
  rcases Nat.lt_or_ge quota.limit n with impossible | possible
  · rw [SlidingLog.acquire_impossible tells.under impossible, if_neg (by omega), if_neg (by simp),
      List.append_nil, List.append_nil]
    exact ⟨total, base, tells⟩
  rw [if_pos ⟨asked, by omega⟩]
  rcases Nat.lt_or_ge quota.limit (units run.sinceReset (now < · + nanos quota.period) + n) with full | room
  · obtain ⟨denied, after⟩ := tells.full instant later word possible full
    rw [if_neg denied, List.append_nil, List.append_nil]
    refine ⟨?_, base, after⟩
    rw [← total, after.log.whole, tells.log.whole]
  · have allowed : (run.state.acquire n now).1 = .allow := by
      rw [← tells.usedAt_eq instant later word] at room
      rw [SlidingLog.acquire_fits tells.under asked room]
    rw [if_pos allowed] at fits ⊢
    rw [units_append, if_pos trivial, ← total] at fits
    obtain ⟨-, after⟩ := tells.fits instant later word asked room fits
    refine ⟨?_, base, after⟩
    rw [after.log.whole, units_append, if_pos trivial, units_append, if_pos trivial, ← total,
      tells.log.whole, Nat.add_assoc]

/-- One call keeps the log exact. -/
theorem Exact.step (exact_ : run.Exact quota) (call : LogCall)
    (reading : ∀ now ∈ call.reading, run.clock ≤ now ∧ now + nanos quota.period ≤ u64Max)
    (fits : units (run.step call).ever (fun _ => True) ≤ u64Max) : (run.step call).Exact quota := by
  cases call with
  | acquire n now =>
      obtain ⟨later, word⟩ := reading now rfl
      exact exact_.acquire later word fits
  | peek now =>
      obtain ⟨later, word⟩ := reading now rfl
      obtain ⟨total, base, tells⟩ := exact_
      have after := tells.aged (Exact.instant tells later (by omega)) later word
      simp only [LogRun.step, SlidingLog.peek_eq tells.under]
      refine ⟨?_, base, after⟩
      rw [← total, after.log.whole, tells.log.whole]
  | reset =>
      obtain ⟨total, base, tells⟩ := exact_
      exact ⟨total, _, tells_nil tells.under.reset rfl run.clock⟩

/-- The clock is the reading of one of the calls. -/
theorem clock_le (quota : Quota) {calls : List LogCall} {bound : ℕ}
    (below : ∀ now ∈ calls.filterMap LogCall.reading, now ≤ bound) : (after quota calls).clock ≤ bound := by
  induction calls using List.reverseRecOn with
  | nil => exact Nat.zero_le _
  | append_singleton calls call inductionHypothesis =>
      rw [List.filterMap_append] at below
      have before := inductionHypothesis fun now member => below now (List.mem_append_left _ member)
      have last : ∀ now ∈ call.reading, now ≤ bound := by
        intro now here
        apply below now
        rw [List.mem_append, List.mem_filterMap, List.mem_filterMap]
        exact Or.inr ⟨call, List.mem_singleton.2 rfl, here⟩
      rw [after_snoc]
      cases call with
      | acquire n now =>
          simp only [LogRun.step]
          split
          · exact last now rfl
          · exact before
      | peek now => exact last now rfl
      | reset => exact before

/-- Units are admitted at the readings of calls. -/
theorem mem_sinceReset (quota : Quota) {calls : List LogCall} {event : ℕ × ℕ}
    (member : event ∈ (after quota calls).sinceReset) : event.1 ∈ calls.filterMap LogCall.reading := by
  induction calls using List.reverseRecOn with
  | nil => cases member
  | append_singleton calls call inductionHypothesis =>
      rw [List.filterMap_append, List.mem_append]
      rw [after_snoc] at member
      cases call with
      | acquire n now =>
          simp only [LogRun.step] at member
          apply (List.mem_append.1 member).imp inductionHypothesis
          intro new
          split at new
          · rw [List.mem_singleton.1 new]
            exact List.mem_singleton.2 rfl
          · cases new
      | peek now => exact Or.inl (inductionHypothesis member)
      | reset => cases member

/-- A run with readings in order keeps the log exact. -/
theorem exact_after (limit : 1 ≤ quota.limit) (period : 1 ≤ quota.period) (calls : List LogCall)
    (ordered : (calls.filterMap LogCall.reading).Pairwise (· ≤ ·))
    (readings : ∀ now ∈ calls.filterMap LogCall.reading, now + quota.period < 2 ^ 64)
    (fits : units (after quota calls).ever (fun _ => True) < 2 ^ 64) : (after quota calls).Exact quota := by
  induction calls using List.reverseRecOn with
  | nil =>
      have admits : admitsAnything .slidingWindowLog quota = true :=
        (admitsAnything_window (Or.inr (Or.inl rfl))).2 ⟨limit, period⟩
      exact ⟨rfl, _, tells_nil (SlidingLog.new_under admits) rfl 0⟩
  | append_singleton calls call inductionHypothesis =>
      rw [List.filterMap_append, List.pairwise_append] at ordered
      rw [List.filterMap_append] at readings
      rw [after_snoc] at fits ⊢
      have before := inductionHypothesis ordered.1
        (fun now member => readings now (List.mem_append_left _ member))
        (lt_of_le_of_lt (units_ever_mono (after quota calls) [call]) fits)
      apply before.step call
      · intro now here
        have member : now ∈ [call].filterMap LogCall.reading :=
          List.mem_filterMap.2 ⟨call, List.mem_singleton.2 rfl, here⟩
        refine ⟨clock_le quota fun earlier there => ordered.2.2 earlier there now member, ?_⟩
        have word := readings now (List.mem_append_right _ member)
        have clamped := nanos_le_self quota.period
        simp only [u64Max]
        omega
      · simp only [u64Max]
        omega

/-- A period past the clock's range admits no reading, so no admitted unit meets the clamp. -/
theorem nanos_period {calls : List LogCall}
    (readings : ∀ now ∈ calls.filterMap LogCall.reading, now + quota.period < 2 ^ 64) {event : ℕ × ℕ}
    (member : event ∈ (after quota calls).sinceReset) : nanos quota.period = quota.period := by
  have word := readings event.1 (mem_sinceReset quota member)
  apply nanos_eq
  simp only [u64Max]
  omega

/-- An exact log has admitted at most its limit, since the last reset, in any half-open interval of one period. -/
theorem Exact.interval_le {calls : List LogCall} (exact_ : (after quota calls).Exact quota)
    (readings : ∀ now ∈ calls.filterMap LogCall.reading, now + quota.period < 2 ^ 64) (a : ℕ) :
    units (after quota calls).sinceReset (fun t => a ≤ t ∧ t < a + quota.period) ≤ quota.limit := by
  obtain ⟨-, base, tells⟩ := exact_
  apply le_trans _ (tells.within a)
  apply units_mono
  intro event member _ inside
  rw [nanos_period readings member]
  exact inside

end LogRun

/-- With readings in order the log is exact: an acquire is admitted exactly when its units fit beside
    those admitted since the last reset in the trailing period, so no half-open interval of one period
    admits more than the limit between resets; and the records of every state reached increase strictly
    in time and total, are at most as many as the limit, and count what they hold. -/
theorem sliding_log_exact (quota : Quota) (limit : 1 ≤ quota.limit) (period : 1 ≤ quota.period)
    (calls : List LogCall) (ordered : (calls.filterMap LogCall.reading).Pairwise (· ≤ ·))
    (readings : ∀ now ∈ calls.filterMap LogCall.reading, now + quota.period < 2 ^ 64)
    (fits : units (LogRun.after quota calls).ever (fun _ => True) < 2 ^ 64) :
    (∀ before n now rest, calls = before ++ .acquire n now :: rest →
      (((LogRun.after quota before).state.acquire n now).1 = .allow ↔
        n = 0 ∨ 1 ≤ n ∧ n ≤ quota.limit ∧
          n + units (LogRun.after quota before).sinceReset
            (fun t => now < t + quota.period ∧ t ≤ now) ≤ quota.limit)) ∧
    ∀ before rest, calls = before ++ rest →
      (∀ a, units (LogRun.after quota before).sinceReset (fun t => a ≤ t ∧ t < a + quota.period) ≤
        quota.limit) ∧
      (LogRun.after quota before).state.log.runs.Pairwise (fun a b => a.atNs < b.atNs) ∧
      (LogRun.after quota before).state.log.runs.Pairwise (fun a b => a.total < b.total) ∧
      (LogRun.after quota before).state.log.runs.length ≤ quota.limit ∧
      (LogRun.after quota before).state.log.inWindow = units (LogRun.after quota before).sinceReset
        (fun t => (LogRun.after quota before).clock < t + quota.period ∧
          t ≤ (LogRun.after quota before).clock) := by
  have exact_ : ∀ before rest, calls = before ++ rest → (LogRun.after quota before).Exact quota := by
    rintro before rest rfl
    rw [List.filterMap_append] at ordered readings
    apply LogRun.exact_after limit period before (List.pairwise_append.1 ordered).1
    · exact fun now member => readings now (List.mem_append_left _ member)
    · rw [LogRun.after, List.foldl_append] at fits
      exact lt_of_le_of_lt (LogRun.units_ever_mono _ rest) fits
  have known_readings : ∀ before rest, calls = before ++ rest →
      ∀ now ∈ before.filterMap LogCall.reading, now + quota.period < 2 ^ 64 := by
    rintro before rest rfl now member
    rw [List.filterMap_append] at readings
    exact readings now (List.mem_append_left _ member)
  constructor
  · rintro before n now rest rfl
    have here : now ∈ (before ++ LogCall.acquire n now :: rest).filterMap LogCall.reading := by
      rw [List.filterMap_append, List.mem_append]
      exact Or.inr List.mem_cons_self
    have word := readings now here
    have same : nanos quota.period = quota.period := nanos_eq (by simp only [u64Max]; omega)
    have later : (LogRun.after quota before).clock ≤ now := by
      rw [List.filterMap_append, List.pairwise_append] at ordered
      exact LogRun.clock_le quota fun earlier there => ordered.2.2 earlier there now List.mem_cons_self
    have known := exact_ before _ rfl
    obtain ⟨-, base, tells⟩ := id known
    have trailing : units (LogRun.after quota before).sinceReset (fun t => now < t + quota.period) =
        units (LogRun.after quota before).sinceReset (fun t => now < t + quota.period ∧ t ≤ now) := by
      apply units_congr
      intro event member some_here
      have reach := tells.log.past event member some_here
      simp only [iff_self_and]
      omega
    rw [known.decides later (by simp only [u64Max]; omega), same, trailing]
  · intro before rest split
    have inside := known_readings before rest split
    obtain ⟨-, base, tells⟩ := id (exact_ before rest split)
    have sorted := tells.under.sorted
    refine ⟨(exact_ before rest split).interval_le inside, sorted.times, tells.log.strict sorted, ?_, ?_⟩
    · exact (tells.log.length_le sorted).trans tells.under.within
    · rw [tells.log.inWindow_eq]
      apply units_congr
      intro event member some_here
      have reach := tells.log.past event member some_here
      rw [LogRun.nanos_period inside member]
      simp only [iff_self_and]
      exact fun _ => reach

/-- Two units per second: a third within the second is denied, and admitted after it. -/
theorem sliding_log_exact_at_three_readings :
    let quota := Quota.perSecond 2 (by decide)
    let calls : List LogCall := [.acquire 2 0, .peek 10, .acquire 1 999999999, .acquire 1 1000000000]
    units (LogRun.after quota calls).sinceReset (fun t => 0 ≤ t ∧ t < 0 + quota.period) ≤ 2 ∧
      (LogRun.after quota calls).state.log.inWindow = 1 := by
  intro quota calls
  have bound := (sliding_log_exact quota (by decide) (by decide) calls (by decide) (by decide)
    (by decide +kernel)).2 calls [] (List.append_nil calls).symm
  exact ⟨bound.1 0, by decide +kernel⟩

/-- A reset in between lets an interval of one period admit the limit twice. -/
theorem sliding_log_reset_admits_again :
    let quota := Quota.perSecond 1 (by decide)
    let calls : List LogCall := [.acquire 1 0, .reset, .acquire 1 0]
    quota.limit < units (LogRun.after quota calls).ever (fun t => 0 ≤ t ∧ t < 0 + quota.period) := by
  decide +kernel

/-!
### Readings out of order
-/

/-- A call on one sliding log that is never reset. -/
inductive LateCall where
  | acquire (n now : ℕ)
  | peek (now : ℕ)
deriving DecidableEq, Repr

def LateCall.reading : LateCall → ℕ
  | .acquire _ now => now
  | .peek now => now

/-- A sliding log along a run of calls with readings in any order. -/
structure LateRun where
  state : SlidingLog
  /-- The largest reading of any call so far. -/
  largest : ℕ
  /-- The units admitted, each at the largest reading of any call up to its own. -/
  admitted : List (ℕ × ℕ)

namespace LateRun

def start (quota : Quota) : LateRun := { state := .new quota, largest := 0, admitted := [] }

def step (run : LateRun) : LateCall → LateRun
  | .acquire n now =>
    { state := (run.state.acquire n now).2
      largest := max run.largest now
      admitted := run.admitted ++
        if (run.state.acquire n now).1 = .allow then [(max run.largest now, n)] else [] }
  | .peek now => { run with state := (run.state.peek now).2, largest := max run.largest now }

/-- The run of `calls` on a fresh log. -/
def after (quota : Quota) (calls : List LateCall) : LateRun := calls.foldl step (start quota)

/-- A late acquire finds the newest record at the largest reading so far. -/
def Ready (run : LateRun) : LateCall → Prop
  | .acquire _ now =>
    run.largest ≤ now ∨ run.state.log.runs.getLast?.map Run.atNs = some run.largest
  | .peek _ => True

instance (run : LateRun) (call : LateCall) : Decidable (run.Ready call) := by
  cases call with
  | acquire n now => exact inferInstanceAs (Decidable (_ ∨ _))
  | peek now => exact inferInstanceAs (Decidable True)

theorem after_snoc (quota : Quota) (calls : List LateCall) (call : LateCall) :
    after quota (calls ++ [call]) = (after quota calls).step call := by
  rw [after, List.foldl_append]
  rfl

variable {quota : Quota} {run : LateRun}

/-- A record no older than the clock, or a reading no older than it, fixes the instant of a call. -/
theorem instant_of_ready (tells : run.state.Tells quota 0 run.largest run.admitted) {now : ℕ}
    (word : now ≤ u64Max)
    (ready : run.largest ≤ now ∨ run.state.log.runs.getLast?.map Run.atNs = some run.largest) :
    run.state.log.instant (nanos now) = max run.largest now := by
  rw [nanos_eq word]
  cases newest : run.state.log.runs.getLast? with
  | none =>
      rw [newest] at ready
      rw [Log.instant, newest, max_eq_right (ready.resolve_right (by simp))]
      rfl
  | some back =>
      have reach := tells.log.run_le_clock (List.mem_of_getLast? newest)
      rw [newest, Option.map_some, Option.some.injEq] at ready
      rw [Log.instant_of_getLast? newest]
      omega

/-- An instant the clock has passed ages nothing. -/
theorem aged_of_late (tells : run.state.Tells quota 0 run.largest run.admitted) {now : ℕ}
    (late : now ≤ run.largest) (word : run.largest + nanos quota.period ≤ u64Max) :
    run.state.aged now = run.state := by
  have instant : run.state.log.instant (nanos now) ≤ run.largest := by
    rw [Log.instant]
    cases newest : run.state.log.runs.getLast? with
    | none => exact (nanos_le_self now).trans late
    | some back =>
        have reach := tells.log.run_le_clock (List.mem_of_getLast? newest)
        exact max_le reach ((nanos_le_self now).trans late)
  have still : run.state.log.expireAt (nanos now) run.state.periodNs = run.state.log := by
    rw [Log.expireAt]
    have live := tells.log.live
    have reach := fun r (member : r ∈ run.state.log.runs) => tells.log.run_le_clock member
    rw [tells.under.period]
    generalize run.state.log = log at live reach instant ⊢
    obtain ⟨runs, expiredTotal⟩ := log
    cases runs with
    | nil => rfl
    | cons front rest =>
        obtain ⟨ahead, -⟩ := live front List.mem_cons_self
        have early := reach front List.mem_cons_self
        have unsaturated : satAdd front.atNs (nanos quota.period) = front.atNs + nanos quota.period :=
          satAdd_eq (by omega)
        rw [Log.expire, if_pos]
        rw [unsaturated]
        omega
  rw [SlidingLog.aged, still]

/-- A step that meets the condition keeps the log telling the effective times. -/
theorem step_tells (tells : run.state.Tells quota 0 run.largest run.admitted) (call : LateCall)
    (reading : max run.largest call.reading + nanos quota.period ≤ u64Max)
    (asked : ∀ n now, call = .acquire n now → 1 ≤ n ∧ n ≤ quota.limit) (ready : run.Ready call)
    (fits : units (run.step call).admitted (fun _ => True) ≤ u64Max) :
    (run.step call).state.Tells quota 0 (run.step call).largest (run.step call).admitted := by
  cases call with
  | acquire n now =>
      simp only [LateCall.reading] at reading
      obtain ⟨some_units, possible⟩ := asked n now rfl
      have instant := instant_of_ready tells (by omega) ready
      have later : run.largest ≤ max run.largest now := le_max_left _ _
      simp only [LateRun.step] at fits ⊢
      rcases Nat.lt_or_ge quota.limit
        (units run.admitted (max run.largest now < · + nanos quota.period) + n) with full | room
      · obtain ⟨denied, after⟩ := tells.full instant later reading possible full
        rw [if_neg denied, List.append_nil]
        exact after
      · have allowed : (run.state.acquire n now).1 = .allow := by
          rw [← tells.usedAt_eq instant later reading] at room
          rw [SlidingLog.acquire_fits tells.under some_units room]
        rw [if_pos allowed] at fits ⊢
        apply (tells.fits instant later reading some_units room _).2
        rw [units_append, if_pos trivial] at fits
        rw [tells.log.whole]
        omega
  | peek now =>
      simp only [LateCall.reading] at reading
      simp only [LateRun.step, SlidingLog.peek_eq tells.under]
      rcases Nat.le_total run.largest now with later | late
      · rw [max_eq_right later] at reading ⊢
        have instant := instant_of_ready tells (by omega) (Or.inl later)
        rw [max_eq_right later] at instant
        exact tells.aged instant later reading
      · rw [max_eq_left late] at reading ⊢
        rw [aged_of_late tells late reading]
        exact tells

theorem units_admitted_mono (run : LateRun) (call : LateCall) :
    units run.admitted (fun _ => True) ≤ units (run.step call).admitted fun _ => True := by
  cases call with
  | acquire n now =>
      simp only [LateRun.step]
      split
      · rw [units_append]
        exact Nat.le_add_right _ _
      · rw [List.append_nil]
  | peek now => exact le_rfl

/-- A run whose calls all meet the condition keeps the log telling the effective times. -/
theorem tells_after (limit : 1 ≤ quota.limit) (period : 1 ≤ quota.period) (calls : List LateCall)
    (asked : ∀ n now, LateCall.acquire n now ∈ calls → 1 ≤ n ∧ n ≤ quota.limit)
    (readings : ∀ call ∈ calls, call.reading + quota.period < 2 ^ 64)
    (ready : Runs.Along (fun before call => (after quota before).Ready call) calls)
    (fits : units (after quota calls).admitted (fun _ => True) < 2 ^ 64) :
    (after quota calls).largest + nanos quota.period ≤ u64Max ∧
      (after quota calls).state.Tells quota 0 (after quota calls).largest (after quota calls).admitted := by
  induction calls using List.reverseRecOn with
  | nil =>
      have admits : admitsAnything .slidingWindowLog quota = true :=
        (admitsAnything_window (Or.inr (Or.inl rfl))).2 ⟨limit, period⟩
      refine ⟨?_, LogRun.tells_nil (SlidingLog.new_under admits) rfl 0⟩
      show 0 + nanos quota.period ≤ u64Max
      rw [Nat.zero_add]
      exact nanos_le _
  | append_singleton calls call inductionHypothesis =>
      have last : call ∈ calls ++ [call] := List.mem_append_right _ (List.mem_singleton.2 rfl)
      rw [after_snoc] at fits ⊢
      rw [Runs.along_snoc] at ready
      obtain ⟨word, tells⟩ := inductionHypothesis
        (fun n now member => asked n now (List.mem_append_left _ member))
        (fun call member => readings call (List.mem_append_left _ member))
        ready.1 (lt_of_le_of_lt (units_admitted_mono _ call) fits)
      have reading := readings call last
      have clamped := nanos_le_self quota.period
      have reach : max (after quota calls).largest call.reading + nanos quota.period ≤ u64Max := by
        simp only [u64Max] at word ⊢
        omega
      refine ⟨?_, ?_⟩
      · cases call with
        | acquire n now => exact reach
        | peek now => exact reach
      · apply step_tells tells call reach
        · rintro n now rfl
          exact asked n now last
        · exact ready.2
        · simp only [u64Max]
          omega

end LateRun

/-- Readings out of order do not over-fill the log as long as every late acquire finds the newest record
    at the largest reading so far: the units admitted at effective times in any half-open interval of
    one period are at most the limit. -/
theorem sliding_log_bounds_effective_times (quota : Quota) (limit : 1 ≤ quota.limit)
    (period : 1 ≤ quota.period) (calls : List LateCall)
    (asked : ∀ n now, LateCall.acquire n now ∈ calls → 1 ≤ n ∧ n ≤ quota.limit)
    (readings : ∀ call ∈ calls, call.reading + quota.period < 2 ^ 64)
    (fits : units (LateRun.after quota calls).admitted (fun _ => True) < 2 ^ 64)
    (ready : Runs.Along (fun before call => (LateRun.after quota before).Ready call) calls) (a : ℕ) :
    units (LateRun.after quota calls).admitted (fun t => a ≤ t ∧ t < a + quota.period) ≤ quota.limit := by
  obtain ⟨-, tells⟩ := LateRun.tells_after limit period calls asked readings ready fits
  cases calls with
  | nil => exact Nat.zero_le _
  | cons first rest =>
      have word := readings first List.mem_cons_self
      have same : nanos quota.period = quota.period := by
        apply nanos_eq
        simp only [u64Max]
        omega
      have within := tells.within a
      rw [same] at within
      exact within

/-- A late acquire that finds the newest record at the largest reading counts there. -/
theorem sliding_log_bounds_effective_times_of_late_acquire :
    let quota := Quota.perSecond 2 (by decide)
    let calls : List LateCall := [.acquire 1 5, .acquire 1 3, .peek 4, .acquire 1 6]
    (LateRun.after quota calls).admitted = [(5, 1), (5, 1)] ∧
      units (LateRun.after quota calls).admitted (fun t => 5 ≤ t ∧ t < 5 + quota.period) ≤ 2 := by
  intro quota calls
  refine ⟨by decide +kernel, ?_⟩
  exact sliding_log_bounds_effective_times quota (by decide) (by decide) calls
    (by
      intro n now member
      simp [calls] at member
      rcases member with ⟨rfl, rfl⟩ | ⟨rfl, rfl⟩ | ⟨rfl, rfl⟩ <;> decide)
    (by decide) (by decide +kernel) (by decide +kernel) 5

/-- A read at 15 has aged the only record out, so an acquire that read the clock at 2 is judged, and
    recorded, at 2; at 12 that record is gone too.  Both units are admitted while the largest reading is
    15, under a limit of one per 10 ns. -/
theorem sliding_log_overfilled_after_read :
    let quota : Quota :=
      { limit := 1, period := 10, burst := 1, limit_le := by decide, burst_le := by decide
        period_le := by decide }
    let calls : List LateCall := [.acquire 1 0, .peek 15, .acquire 1 2, .acquire 1 12]
    quota.limit < units (LateRun.after quota calls).admitted (fun t => 15 ≤ t ∧ t < 15 + quota.period) := by
  decide +kernel

end RateNet
