/-
Module: RateNet.Algo.SlidingLog
Layer: Algo
Purpose: The sliding window log. Units admitted at one instant share a record of the instant and the
  running total of all units ever admitted; `expiredTotal` is the running total at the newest record
  already aged out, so the units in the window are one subtraction. Every check and every read first
  drops the records that have aged out, so a read leaves a changed log behind.
Imports: RateNet.Core.KeyState
Trusted boundary: `VecDeque` is a list, oldest record first
Main exports: Run, Log, Log.expire, Log.record, SlidingLog, SlidingLog.acquire, SlidingLog.peek,
  SlidingLog.reset, Log.Sorted, Log.total_expire, Log.expireAt_expireAt
-/
import RateNet.Core.KeyState

namespace RateNet

/-- One coalesced record: every unit admitted at `atNs`, and the running total of units ever admitted up
    to and including them. -/
structure Run where
  atNs : ℕ
  total : ℕ
deriving DecidableEq, Repr

/-- The log: live records oldest first, plus the running total at the end of the newest record already
    aged out. -/
structure Log where
  runs : List Run
  expiredTotal : ℕ
deriving DecidableEq, Repr

namespace Log

/-- The running total at the newest record, or at the last expiry when the log is empty. -/
def total (log : Log) : ℕ := log.runs.getLast?.elim log.expiredTotal Run.total

/-- Units currently inside the window. -/
def inWindow (log : Log) : ℕ := log.total - log.expiredTotal

/-- Drops every record at least `periodNs` old as of `nowNs`. -/
def expire (nowNs periodNs : ℕ) : List Run → ℕ → Log
  | [], expiredTotal => { runs := [], expiredTotal }
  | front :: rest, expiredTotal =>
    if satAdd front.atNs periodNs > nowNs then { runs := front :: rest, expiredTotal }
    else expire nowNs periodNs rest front.total

/-- Records `n` units admitted at `nowNs`, coalescing with the newest record when it carries the same
    timestamp. -/
def record (log : Log) (n nowNs : ℕ) : Log :=
  let total := satAdd log.total n
  match log.runs.getLast? with
  | some back =>
    if back.atNs = nowNs then { log with runs := log.runs.dropLast ++ [{ back with total }] }
    else { log with runs := log.runs ++ [{ atNs := nowNs, total }] }
  | none => { log with runs := log.runs ++ [{ atNs := nowNs, total }] }

/-- The instant a call at `realNowNs` is judged at: a late call arrives with the newest record. -/
def instant (log : Log) (realNowNs : ℕ) : ℕ :=
  log.runs.getLast?.elim realNowNs fun back => max back.atNs realNowNs

/-- The log as of `realNowNs`. -/
def expireAt (log : Log) (realNowNs periodNs : ℕ) : Log :=
  expire (log.instant realNowNs) periodNs log.runs log.expiredTotal

end Log

/-- Sliding-log state for one key. -/
structure SlidingLog where
  log : Log
  periodNs : ℕ
  limit : ℕ
deriving DecidableEq, Repr

namespace SlidingLog

def new (quota : Quota) : SlidingLog :=
  { log := { runs := [], expiredTotal := 0 }, periodNs := nanos quota.period, limit := quota.limit }

/-- Checks `n` units as of `now`. -/
def acquire (sl : SlidingLog) (n now : ℕ) : Decision × SlidingLog :=
  if n = 0 then
    (.allow, sl)
  else if sl.limit = 0 ∨ sl.periodNs = 0 ∨ n > sl.limit then
    (.deny durationMax, sl)
  else
    let realNowNs := nanos now
    let nowNs := sl.log.instant realNowNs
    let log := sl.log.expireAt realNowNs sl.periodNs
    let inWindow := log.inWindow
    if inWindow + n ≤ sl.limit then
      (.allow, { sl with log := log.record n nowNs })
    else
      -- the oldest units must age out first: up to the record whose running total reaches the target
      let target := log.expiredTotal + (inWindow + n - sl.limit)
      let index := log.runs.findIdx fun run => !decide (run.total < target)
      let expireAt := log.runs[index]?.elim nowNs fun run => satAdd run.atNs sl.periodNs
      (.deny (expireAt - realNowNs), { sl with log })

/-- Units still admissible right now, and the wait until every record has aged out. -/
def peek (sl : SlidingLog) (now : ℕ) : Snapshot × SlidingLog :=
  if sl.limit = 0 ∨ sl.periodNs = 0 then
    (.closed, sl)
  else
    let realNowNs := nanos now
    let log := sl.log.expireAt realNowNs sl.periodNs
    let used := min log.inWindow u32Max
    let resetAfter := log.runs.getLast?.elim 0 fun newest => satAdd newest.atNs sl.periodNs - realNowNs
    (.new sl.limit (sl.limit - used) resetAfter, { sl with log })

/-- Forgets every record. -/
def reset (sl : SlidingLog) : SlidingLog :=
  { sl with log := { runs := [], expiredTotal := sl.log.total } }

end SlidingLog

instance : KeyState SlidingLog where
  create quota _ := if admitsAnything .slidingWindowLog quota then some (.new quota) else none
  acquire sl n now := sl.acquire n now
  peek sl now := sl.peek now
  reset sl _ := sl.reset

/-!
### Ageing
-/

namespace Log

variable {log : Log} {nowNs nowNs' periodNs : ℕ}

/-- Record times increase, and running totals never decrease, starting from the last expired one. -/
structure Sorted (log : Log) : Prop where
  times : log.runs.Pairwise fun a b => a.atNs < b.atNs
  totals : log.runs.Pairwise fun a b => a.total ≤ b.total
  expired : ∀ run ∈ log.runs, log.expiredTotal ≤ run.total
  /-- The running total is a machine word. -/
  word : log.total ≤ u64Max

theorem total_cons (front : Run) (rest : List Run) (expiredTotal : ℕ) :
    (Log.mk (front :: rest) expiredTotal).total = (Log.mk rest front.total).total := by
  cases rest with
  | nil => rfl
  | cons next rest => rfl

/-- Ageing forgets records, not the running total. -/
theorem total_expire (runs : List Run) (expiredTotal : ℕ) :
    (expire nowNs periodNs runs expiredTotal).total = (Log.mk runs expiredTotal).total := by
  induction runs generalizing expiredTotal with
  | nil => rfl
  | cons front rest inductionHypothesis =>
      rw [expire]
      split
      · rfl
      · rw [inductionHypothesis, total_cons]

/-- Ageing keeps the newest records. -/
theorem runs_expire_suffix (runs : List Run) (expiredTotal : ℕ) :
    (expire nowNs periodNs runs expiredTotal).runs <:+ runs := by
  induction runs generalizing expiredTotal with
  | nil => exact List.suffix_rfl
  | cons front rest inductionHypothesis =>
      rw [expire]
      split
      · exact List.suffix_rfl
      · exact (inductionHypothesis front.total).trans (List.suffix_cons front rest)

/-- Ageing twice is ageing to the later instant. -/
theorem expire_expire (h : nowNs ≤ nowNs') (runs : List Run) (expiredTotal : ℕ) :
    expire nowNs' periodNs (expire nowNs periodNs runs expiredTotal).runs
        (expire nowNs periodNs runs expiredTotal).expiredTotal =
      expire nowNs' periodNs runs expiredTotal := by
  induction runs generalizing expiredTotal with
  | nil => rfl
  | cons front rest inductionHypothesis =>
      by_cases live : satAdd front.atNs periodNs > nowNs
      · simp only [expire, if_pos live]
      · have later : ¬ satAdd front.atNs periodNs > nowNs' := by omega
        simp only [expire, if_neg live, if_neg later]
        exact inductionHypothesis front.total

/-- A log that has aged is not aged by an earlier instant. -/
theorem expire_expire_of_le (h : nowNs' ≤ nowNs) (runs : List Run) (expiredTotal : ℕ) :
    expire nowNs' periodNs (expire nowNs periodNs runs expiredTotal).runs
        (expire nowNs periodNs runs expiredTotal).expiredTotal =
      expire nowNs periodNs runs expiredTotal := by
  induction runs generalizing expiredTotal with
  | nil => rfl
  | cons front rest inductionHypothesis =>
      by_cases live : satAdd front.atNs periodNs > nowNs
      · have earlier : satAdd front.atNs periodNs > nowNs' := by omega
        simp only [expire, if_pos live, if_pos earlier]
      · simp only [expire, if_neg live]
        exact inductionHypothesis front.total

theorem Sorted.tail {front : Run} {rest : List Run} {expiredTotal : ℕ}
    (sorted : (Log.mk (front :: rest) expiredTotal).Sorted) : (Log.mk rest front.total).Sorted where
  times := (List.pairwise_cons.1 sorted.times).2
  totals := (List.pairwise_cons.1 sorted.totals).2
  expired := (List.pairwise_cons.1 sorted.totals).1
  word := by
    rw [← total_cons front rest expiredTotal]
    exact sorted.word

/-- Ageing past every record empties the window. -/
theorem inWindow_expire_of_gone (runs : List Run) (expiredTotal : ℕ)
    (gone : ∀ run ∈ runs, satAdd run.atNs periodNs ≤ nowNs) :
    (expire nowNs periodNs runs expiredTotal).inWindow = 0 := by
  induction runs generalizing expiredTotal with
  | nil =>
      show expiredTotal - expiredTotal = 0
      omega
  | cons front rest inductionHypothesis =>
      rw [expire, if_neg (Nat.not_lt.2 (gone front List.mem_cons_self))]
      exact inductionHypothesis front.total fun run member => gone run (List.mem_cons_of_mem _ member)

theorem Sorted.expire (sorted : log.Sorted) (nowNs periodNs : ℕ) :
    (Log.expire nowNs periodNs log.runs log.expiredTotal).Sorted ∧
      log.expiredTotal ≤ (Log.expire nowNs periodNs log.runs log.expiredTotal).expiredTotal := by
  obtain ⟨runs, expiredTotal⟩ := log
  induction runs generalizing expiredTotal with
  | nil => exact ⟨sorted, le_rfl⟩
  | cons front rest inductionHypothesis =>
      simp only [Log.expire]
      split
      · exact ⟨sorted, le_rfl⟩
      · obtain ⟨kept, further⟩ := inductionHypothesis front.total sorted.tail
        exact ⟨kept, (sorted.expired front List.mem_cons_self).trans further⟩

/-- The newest record of a log, if it has one. -/
theorem instant_of_getLast? {back : Run} (newest : log.runs.getLast? = some back) (realNowNs : ℕ) :
    log.instant realNowNs = max back.atNs realNowNs := by
  rw [instant, newest]
  rfl

theorem instant_mono (log : Log) {a b : ℕ} (h : a ≤ b) : log.instant a ≤ log.instant b := by
  rw [instant, instant]
  cases log.runs.getLast? with
  | none => exact h
  | some back => exact max_le_max_left _ h

theorem le_instant (log : Log) (realNowNs : ℕ) : realNowNs ≤ log.instant realNowNs := by
  rw [instant]
  cases log.runs.getLast? with
  | none => exact le_rfl
  | some back => exact le_max_right _ _

/-- A call no later than `bound`, on records no later than it, is judged no later than it. -/
theorem instant_le {bound realNowNs : ℕ} (records : ∀ run ∈ log.runs, run.atNs ≤ bound)
    (reading : realNowNs ≤ bound) : log.instant realNowNs ≤ bound := by
  rw [instant]
  cases newest : log.runs.getLast? with
  | none => exact reading
  | some back => exact max_le (records back (List.mem_of_getLast? newest)) reading

theorem Sorted.expireAt (sorted : log.Sorted) (realNowNs periodNs : ℕ) :
    (log.expireAt realNowNs periodNs).Sorted :=
  (sorted.expire _ _).1

theorem total_expireAt (log : Log) (realNowNs periodNs : ℕ) :
    (log.expireAt realNowNs periodNs).total = log.total :=
  total_expire _ _

/-- A log with records left has kept its newest one. -/
theorem getLast?_expireAt (log : Log) (realNowNs periodNs : ℕ) :
    (log.expireAt realNowNs periodNs).runs = [] ∨
      (log.expireAt realNowNs periodNs).runs.getLast? = log.runs.getLast? := by
  have kept : (log.expireAt realNowNs periodNs).runs <:+ log.runs := runs_expire_suffix _ _
  obtain ⟨dropped, split⟩ := kept
  rw [or_iff_not_imp_left]
  intro some_left
  rw [← split, List.getLast?_append_of_ne_nil _ some_left]

/-- Reading a log twice leaves it as of the later reading. -/
theorem expireAt_expireAt (log : Log) (a b periodNs : ℕ) :
    (log.expireAt a periodNs).expireAt b periodNs = log.expireAt (max a b) periodNs := by
  have later := @expire_expire _ _ periodNs (log.instant_mono (le_max_left a b)) log.runs log.expiredTotal
  rcases log.getLast?_expireAt a periodNs with empty | same
  · change Log.expire _ _ (log.expireAt a periodNs).runs (log.expireAt a periodNs).expiredTotal = _ at later
    rw [empty] at later
    rw [expireAt, empty]
    exact later
  · have instant_eq : (log.expireAt a periodNs).instant b = log.instant b := by
      rw [instant, same]
      rfl
    rw [expireAt, instant_eq]
    rcases Nat.le_total a b with h | h
    · rw [max_eq_right h] at later ⊢
      exact later
    · rw [max_eq_left h]
      exact expire_expire_of_le (log.instant_mono h) log.runs log.expiredTotal

/-- A later reading finds no more units in the window. -/
theorem inWindow_expireAt_anti (sorted : log.Sorted) {a b : ℕ} (h : a ≤ b) (periodNs : ℕ) :
    (log.expireAt b periodNs).inWindow ≤ (log.expireAt a periodNs).inWindow := by
  have further := ((sorted.expireAt a periodNs).expire ((log.expireAt a periodNs).instant b) periodNs).2
  change _ ≤ ((log.expireAt a periodNs).expireAt b periodNs).expiredTotal at further
  rw [expireAt_expireAt, max_eq_right h] at further
  rw [inWindow, inWindow, total_expireAt, total_expireAt]
  omega

/-!
### Recording
-/

theorem total_record (log : Log) (n nowNs : ℕ) : (log.record n nowNs).total = satAdd log.total n := by
  rw [record]
  cases newest : log.runs.getLast? with
  | none => simp [total, newest]
  | some back =>
      by_cases same : back.atNs = nowNs
      · simp [total, newest, same]
      · simp [total, newest, same]

theorem expiredTotal_record (log : Log) (n nowNs : ℕ) :
    (log.record n nowNs).expiredTotal = log.expiredTotal := by
  rw [record]
  split
  · split
    · rfl
    · rfl
  · rfl

/-- The log a recorded unit leaves: its records, the newest raised or a new one added. -/
theorem runs_record (log : Log) (n nowNs : ℕ) :
    (∃ back, log.runs = log.runs.dropLast ++ [back] ∧ back.atNs = nowNs ∧
      (log.record n nowNs).runs = log.runs.dropLast ++ [⟨nowNs, satAdd log.total n⟩]) ∨
    (∀ back ∈ log.runs.getLast?, back.atNs ≠ nowNs) ∧
      (log.record n nowNs).runs = log.runs ++ [⟨nowNs, satAdd log.total n⟩] := by
  rw [record]
  cases newest : log.runs.getLast? with
  | none =>
      right
      exact ⟨fun _ none_held => by simp at none_held, rfl⟩
  | some back =>
      by_cases same : back.atNs = nowNs
      · left
        refine ⟨back, (List.dropLast_append_getLast? back newest).symm, same, ?_⟩
        simp only [if_pos same]
        rw [← same]
      · right
        refine ⟨?_, by simp only [if_neg same]⟩
        rintro _ ⟨⟩
        exact same

theorem Sorted.le_total (sorted : log.Sorted) {run : Run} (member : run ∈ log.runs) :
    run.total ≤ log.total := by
  cases newest : log.runs.getLast? with
  | none =>
      rw [List.getLast?_eq_none_iff.1 newest] at member
      cases member
  | some back =>
      rw [total, newest, Option.elim_some]
      have split := List.dropLast_append_getLast? back newest
      have ordered := sorted.totals
      rw [← split] at member ordered
      rcases List.mem_append.1 member with earlier | last
      · exact (List.pairwise_append.1 ordered).2.2 run earlier back (List.mem_singleton.2 rfl)
      · rw [List.mem_singleton.1 last]

theorem Sorted.expiredTotal_le_total (sorted : log.Sorted) : log.expiredTotal ≤ log.total := by
  cases newest : log.runs.getLast? with
  | none =>
      rw [total, newest]
      rfl
  | some back =>
      have member := List.mem_of_getLast? newest
      exact (sorted.expired back member).trans (sorted.le_total member)

theorem Sorted.le_instant (sorted : log.Sorted) {run : Run} (member : run ∈ log.runs) (realNowNs : ℕ) :
    run.atNs ≤ log.instant realNowNs := by
  cases newest : log.runs.getLast? with
  | none =>
      rw [List.getLast?_eq_none_iff.1 newest] at member
      cases member
  | some back =>
      rw [instant_of_getLast? newest]
      have split := List.dropLast_append_getLast? back newest
      have ordered := sorted.times
      rw [← split] at member ordered
      rcases List.mem_append.1 member with earlier | last
      · have before := (List.pairwise_append.1 ordered).2.2 run earlier back (List.mem_singleton.2 rfl)
        exact before.le.trans (le_max_left _ _)
      · rw [List.mem_singleton.1 last]
        exact le_max_left _ _

/-- The records of a log after `n` units at `nowNs`, no earlier than any of them: those before `nowNs`,
    and one at `nowNs` with the new running total. -/
theorem Sorted.runs_record (sorted : log.Sorted) (n : ℕ) (latest : ∀ run ∈ log.runs, run.atNs ≤ nowNs) :
    ∃ older, older.Sublist log.runs ∧ (∀ run ∈ older, run.atNs < nowNs) ∧
      (∀ run ∈ log.runs, run ∈ older ∨ run.atNs = nowNs) ∧
      (log.record n nowNs).runs = older ++ [⟨nowNs, satAdd log.total n⟩] := by
  rcases log.runs_record n nowNs with ⟨back, split, same, runs⟩ | ⟨different, runs⟩
  · have times := sorted.times
    rw [split, List.pairwise_append] at times
    refine ⟨_, List.dropLast_sublist _, ?_, ?_, runs⟩
    · intro run member
      rw [← same]
      exact times.2.2 run member back (List.mem_singleton.2 rfl)
    · intro run member
      rw [split] at member
      apply (List.mem_append.1 member).imp_right
      intro last
      rw [List.mem_singleton.1 last, same]
  · refine ⟨log.runs, List.Sublist.refl _, ?_, fun run member => Or.inl member, runs⟩
    intro run member
    cases newest : log.runs.getLast? with
    | none =>
        rw [List.getLast?_eq_none_iff.1 newest] at member
        cases member
    | some back =>
        have there := List.mem_of_getLast? newest
        have strict : back.atNs < nowNs := lt_of_le_of_ne (latest back there) (different back newest)
        have reach := sorted.le_instant member 0
        rw [instant_of_getLast? newest, Nat.max_zero] at reach
        exact lt_of_le_of_lt reach strict

/-- Recording units no earlier than the newest record keeps a log sorted. -/
theorem Sorted.record (sorted : log.Sorted) (n : ℕ) (latest : ∀ run ∈ log.runs, run.atNs ≤ nowNs) :
    (log.record n nowNs).Sorted := by
  have raised : log.total ≤ satAdd log.total n := le_min (Nat.le_add_right _ _) sorted.word
  obtain ⟨older, kept, before, -, runs⟩ := sorted.runs_record n latest
  refine ⟨?_, ?_, ?_, ?_⟩
  · rw [runs, List.pairwise_append]
    refine ⟨sorted.times.sublist kept, List.pairwise_singleton _ _, ?_⟩
    intro run member last here
    rw [List.mem_singleton.1 here]
    exact before run member
  · rw [runs, List.pairwise_append]
    refine ⟨sorted.totals.sublist kept, List.pairwise_singleton _ _, ?_⟩
    intro run member last here
    rw [List.mem_singleton.1 here]
    exact (sorted.le_total (kept.subset member)).trans raised
  · rw [runs, expiredTotal_record]
    intro run member
    rcases List.mem_append.1 member with earlier | last
    · exact sorted.expired run (kept.subset earlier)
    · rw [List.mem_singleton.1 last]
      exact sorted.expiredTotal_le_total.trans raised
  · rw [total_record]
    exact min_le_right _ _

end Log

/-!
### States
-/

namespace SlidingLog

variable {quota : Quota} {sl : SlidingLog}

/-- A state kept under `quota`: its log is sorted and never holds more than the limit. -/
structure Under (quota : Quota) (sl : SlidingLog) : Prop where
  period : sl.periodNs = nanos quota.period
  limit : sl.limit = quota.limit
  period_pos : 0 < nanos quota.period
  limit_pos : 0 < quota.limit
  sorted : sl.log.Sorted
  within : sl.log.inWindow ≤ quota.limit

/-- The same state with its log aged to `now`. -/
def aged (sl : SlidingLog) (now : ℕ) : SlidingLog :=
  { sl with log := sl.log.expireAt (nanos now) sl.periodNs }

/-- Units in the window as of `now`. -/
def usedAt (sl : SlidingLog) (now : ℕ) : ℕ := (sl.aged now).log.inWindow

namespace Under

theorem not_closed (under : sl.Under quota) : ¬ (sl.limit = 0 ∨ sl.periodNs = 0) := by
  rw [under.limit, under.period, not_or]
  exact ⟨under.limit_pos.ne', under.period_pos.ne'⟩

theorem aged (under : sl.Under quota) (now : ℕ) : (sl.aged now).Under quota := by
  refine { under with sorted := under.sorted.expireAt _ _, within := ?_ }
  have further := (under.sorted.expire (sl.log.instant (nanos now)) sl.periodNs).2
  have within := under.within
  show (sl.log.expireAt (nanos now) sl.periodNs).inWindow ≤ _
  simp only [Log.inWindow, Log.total_expireAt] at within ⊢
  exact (Nat.sub_le_sub_left further _).trans within

theorem usedAt_le (under : sl.Under quota) (now : ℕ) : sl.usedAt now ≤ quota.limit :=
  (under.aged now).within

/-- A later reading finds no more units in the window. -/
theorem usedAt_anti (under : sl.Under quota) {a b : ℕ} (h : a ≤ b) : sl.usedAt b ≤ sl.usedAt a :=
  Log.inWindow_expireAt_anti under.sorted (nanos_mono h) sl.periodNs

end Under

theorem aged_aged (sl : SlidingLog) (a b : ℕ) : (sl.aged a).aged b = sl.aged (max a b) := by
  simp only [aged, Log.expireAt_expireAt, nanos]
  congr 2
  omega

theorem new_under (admits : admitsAnything .slidingWindowLog quota = true) :
    (SlidingLog.new quota).Under quota := by
  obtain ⟨limit, period⟩ := (admitsAnything_window (Or.inr (Or.inl rfl))).1 admits
  refine ⟨rfl, rfl, ?_, limit, ⟨List.Pairwise.nil, List.Pairwise.nil, fun _ member => ?_, ?_⟩, ?_⟩
  · simp only [nanos, u64Max]
    omega
  · cases member
  · exact Nat.zero_le _
  · exact Nat.zero_le _

theorem Under.guard (under : sl.Under quota) {n : ℕ} (possible : n ≤ quota.limit) :
    ¬ (sl.limit = 0 ∨ sl.periodNs = 0 ∨ n > sl.limit) := by
  have opened := under.not_closed
  have bound := under.limit
  omega

/-- Units that fit beside those in the window are admitted and recorded. -/
theorem acquire_fits (under : sl.Under quota) {n now : ℕ} (asked : 1 ≤ n)
    (fits : sl.usedAt now + n ≤ quota.limit) :
    sl.acquire n now = (.allow,
      { sl with log := (sl.aged now).log.record n (sl.log.instant (nanos now)) }) := by
  have room : (sl.log.expireAt (nanos now) sl.periodNs).inWindow + n ≤ sl.limit := by
    rw [under.limit]
    exact fits
  rw [acquire, if_neg (by omega), if_neg (under.guard (by omega))]
  simp only [if_pos room]
  rfl

/-- Units that do not fit are denied, and the log is aged. -/
theorem acquire_full (under : sl.Under quota) {n now : ℕ} (possible : n ≤ quota.limit)
    (full : quota.limit < sl.usedAt now + n) : ∃ wait, sl.acquire n now = (.deny wait, sl.aged now) := by
  have used := under.usedAt_le now
  have no_room : ¬ (sl.log.expireAt (nanos now) sl.periodNs).inWindow + n ≤ sl.limit := by
    rw [under.limit]
    exact Nat.not_le_of_lt full
  rw [acquire, if_neg (by omega), if_neg (under.guard possible)]
  simp only [if_neg no_room]
  exact ⟨_, rfl⟩

theorem acquire_zero (sl : SlidingLog) (now : ℕ) : sl.acquire 0 now = (.allow, sl) := by
  rw [acquire, if_pos rfl]

theorem acquire_impossible (under : sl.Under quota) {n : ℕ} (h : quota.limit < n) (now : ℕ) :
    sl.acquire n now = (.deny durationMax, sl) := by
  have bound := under.limit
  rw [acquire, if_neg (by omega), if_pos (by omega)]

/-- What a read does. -/
theorem peek_eq (under : sl.Under quota) (now : ℕ) :
    sl.peek now = (.new quota.limit (quota.limit - sl.usedAt now)
      ((sl.aged now).log.runs.getLast?.elim 0 fun newest =>
        satAdd newest.atNs (nanos quota.period) - nanos now), sl.aged now) := by
  have used : min (sl.log.expireAt (nanos now) sl.periodNs).inWindow u32Max = sl.usedAt now :=
    min_eq_left ((under.usedAt_le now).trans quota.limit_le)
  rw [← under.limit, ← under.period, peek, if_neg under.not_closed]
  simp only [used]
  rfl

/-- A check leaves a state kept under its quota. -/
theorem Under.acquire (under : sl.Under quota) (n now : ℕ) : (sl.acquire n now).2.Under quota := by
  rcases Nat.eq_zero_or_pos n with rfl | asked
  · rw [acquire_zero]
    exact under
  rcases Nat.lt_or_ge quota.limit n with impossible | possible
  · rw [acquire_impossible under impossible]
    exact under
  rcases Nat.lt_or_ge quota.limit (sl.usedAt now + n) with full | fits
  · obtain ⟨wait, denied⟩ := acquire_full under possible full
    rw [denied]
    exact under.aged now
  · rw [acquire_fits under asked fits]
    have aged := under.aged now
    refine { under with sorted := ?_, within := ?_ }
    · apply aged.sorted.record
      intro run member
      have kept : (sl.log.expireAt (nanos now) sl.periodNs).runs <:+ sl.log.runs :=
        Log.runs_expire_suffix _ _
      exact under.sorted.le_instant (kept.subset member) _
    · show (Log.record _ _ _).inWindow ≤ _
      rw [Log.inWindow, Log.total_record, Log.expiredTotal_record]
      have sum := satAdd_le (sl.aged now).log.total n
      have used : sl.usedAt now = (sl.aged now).log.total - (sl.aged now).log.expiredTotal := rfl
      omega

theorem Under.peek (under : sl.Under quota) (now : ℕ) : (sl.peek now).2.Under quota := by
  rw [peek_eq under]
  exact under.aged now

theorem Under.reset (under : sl.Under quota) : sl.reset.Under quota := by
  refine { under with sorted := ⟨List.Pairwise.nil, List.Pairwise.nil, ?_, under.sorted.word⟩, within := ?_ }
  · intro run member
    cases member
  · show sl.log.total - sl.log.total ≤ _
    omega

theorem remaining_eq (under : sl.Under quota) (now : ℕ) :
    (sl.peek now).1.remaining = quota.limit - sl.usedAt now := by
  rw [peek_eq under, Snapshot.new_remaining]
  omega

/-- The decision agrees with the snapshot. -/
theorem Under.allow_iff (under : sl.Under quota) {n now : ℕ} :
    (sl.acquire n now).1 = .allow ↔ n = 0 ∨ n ≤ (sl.peek now).1.remaining := by
  have used := under.usedAt_le now
  rw [remaining_eq under]
  rcases Nat.eq_zero_or_pos n with rfl | asked
  · simp [acquire_zero]
  rcases Nat.lt_or_ge quota.limit n with impossible | possible
  · rw [acquire_impossible under impossible]
    simp only [reduceCtorEq, false_iff]
    omega
  rcases Nat.lt_or_ge quota.limit (sl.usedAt now + n) with full | fits
  · obtain ⟨wait, denied⟩ := acquire_full under possible full
    rw [denied]
    simp only [reduceCtorEq, false_iff]
    omega
  · rw [acquire_fits under asked fits]
    simp only [true_iff]
    omega

/-- Reading at any instant does not tighten a log. -/
theorem Under.usedAt_aged (under : sl.Under quota) (read now : ℕ) :
    (sl.aged read).usedAt now ≤ sl.usedAt now := by
  rw [usedAt, aged_aged]
  exact under.usedAt_anti (le_max_right read now)

/-- A log without records has nothing in its window. -/
theorem usedAt_of_empty (empty : sl.log.runs = []) (now : ℕ) : sl.usedAt now = 0 := by
  rw [usedAt, aged, Log.expireAt, empty]
  show sl.log.expiredTotal - sl.log.expiredTotal = 0
  omega

/-- Every record has aged out by the deadline a snapshot reports. -/
theorem Under.usedAt_of_due (under : sl.Under quota) {now later : ℕ}
    (due : now + (sl.peek now).1.resetAfter ≤ later) (clock : later < u64Max) : sl.usedAt later = 0 := by
  have order : now ≤ later := (Nat.le_add_right _ _).trans due
  have aged := under.aged now
  have again : sl.usedAt later = (sl.aged now).usedAt later := by
    rw [usedAt, usedAt, aged_aged, max_eq_right order]
  rw [peek_eq under, Snapshot.new_resetAfter] at due
  rw [again]
  generalize sl.aged now = sl' at aged due ⊢
  cases newest : sl'.log.runs.getLast? with
  | none =>
      exact usedAt_of_empty (List.getLast?_eq_none_iff.1 newest) later
  | some back =>
      rw [newest, Option.elim_some, nanos_eq (by omega : now ≤ u64Max)] at due
      have gone : ∀ run ∈ sl'.log.runs, satAdd run.atNs sl'.periodNs ≤ sl'.log.instant (nanos later) := by
        intro run member
        have older := aged.sorted.le_instant member 0
        rw [Log.instant_of_getLast? newest, Nat.max_zero] at older
        have reach := sl'.log.le_instant (nanos later)
        rw [nanos_eq clock.le] at reach ⊢
        rw [aged.period]
        simp only [satAdd] at due ⊢
        omega
      exact Log.inWindow_expire_of_gone _ _ gone

/-- Units charged to a fresh log are in its window until they are a period old. -/
theorem usedAt_acquire_new (admits : admitsAnything .slidingWindowLog quota = true) {n now later : ℕ}
    (asked : 1 ≤ n) (possible : n ≤ quota.limit) (order : now ≤ later) :
    ((SlidingLog.new quota).acquire n now).2.usedAt later =
      if satAdd (nanos now) (nanos quota.period) > nanos later then n else 0 := by
  have under := new_under admits
  have used : (SlidingLog.new quota).usedAt now = 0 := usedAt_of_empty rfl now
  have small : satAdd 0 n = n := by
    have limit := quota.limit_le
    rw [satAdd_eq, Nat.zero_add]
    simp only [u32Max] at limit
    simp only [u64Max]
    omega
  rw [acquire_fits under asked (by omega)]
  show (Log.expire (max (nanos now) (nanos later)) (nanos quota.period) [⟨nanos now, satAdd 0 n⟩] 0).inWindow = _
  rw [small, max_eq_right (nanos_mono order), Log.expire]
  split
  · rfl
  · show n - n = 0
    omega

end SlidingLog

end RateNet
