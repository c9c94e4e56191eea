/-
Module: RateNet.Proofs.SlidingCounterWindows
Purpose: The sliding counter counts exactly what it admitted. Every call is charged to the largest window
  number of any call so far, and takes effect at its reading or, if that is older, at the start of that
  window. The two counts are then the units charged to the newest window and to the one before it,
  however lazily the windows were rolled, so every window is charged at most the limit and any interval
  of one period, which meets two windows at most, twice the limit.
Trusted boundary: none
Main exports: CounterCall, CounterRun, CounterRun.Counts, sliding_counter_counts_what_it_admits
-/
import RateNet.Lib.TimedUnits
import RateNet.Algo.SlidingCounter

namespace RateNet

open TimedUnits

/-- A call on a counter. -/
inductive CounterCall where
  | acquire (n now : ℕ)
  | peek (now : ℕ)
deriving DecidableEq

namespace CounterCall

def reading : CounterCall → ℕ
  | .acquire _ now => now
  | .peek now => now

/-- The units asked for are at least one and at most the limit. -/
def Possible (limit : ℕ) : CounterCall → Prop
  | .acquire n _ => 1 ≤ n ∧ n ≤ limit
  | .peek _ => True

end CounterCall

/-- A counter and what has been asked of it. -/
structure CounterRun where
  state : SlidingCounter
  /-- The largest window number of any call so far, the one that created the counter included. -/
  newest : ℕ
  /-- The units each call was admitted, by the window it was charged to. -/
  charged : List (ℕ × ℕ)
  /-- The same units, by the instant the call took effect. -/
  admitted : List (ℕ × ℕ)

namespace CounterRun

/-- A counter created at the reading `made`. -/
def start (quota : Quota) (made : ℕ) : CounterRun :=
  { state := .new quota made, newest := nanos made / nanos quota.period, charged := [], admitted := [] }

/-- The largest window number once `call` is made. -/
def newestAfter (quota : Quota) (run : CounterRun) (call : CounterCall) : ℕ :=
  max run.newest (nanos call.reading / nanos quota.period)

/-- When `call` takes effect: at its reading, or at the start of the newest window. -/
def effective (quota : Quota) (run : CounterRun) (call : CounterCall) : ℕ :=
  max (nanos call.reading) (run.newestAfter quota call * nanos quota.period)

/-- The units `call` is admitted, and the state it leaves. -/
def outcome (run : CounterRun) : CounterCall → ℕ × SlidingCounter
  | .acquire n now =>
    let (decision, state) := run.state.acquire n now
    (if decision.isAllow then n else 0, state)
  | .peek now => (0, (run.state.peek now).2)

def step (quota : Quota) (run : CounterRun) (call : CounterCall) : CounterRun :=
  let (granted, state) := run.outcome call
  { state
    newest := run.newestAfter quota call
    charged := run.charged ++ [(run.newestAfter quota call, granted)]
    admitted := run.admitted ++ [(run.effective quota call, granted)] }

def after (quota : Quota) (made : ℕ) (calls : List CounterCall) : CounterRun :=
  calls.foldl (step quota) (start quota made)

theorem after_snoc (quota : Quota) (made : ℕ) (calls : List CounterCall) (call : CounterCall) :
    after quota made (calls ++ [call]) = (after quota made calls).step quota call := by
  rw [after, List.foldl_append]
  rfl

/-- The counts are those of the charges. -/
structure Counts (quota : Quota) (run : CounterRun) : Prop where
  under : run.state.Under quota
  window : run.state.window = run.newest
  curr : run.state.curr = units run.charged (· = run.newest)
  prev : run.state.prev = units run.charged (· + 1 = run.newest)
  past : ∀ charge ∈ run.charged, charge.1 ≤ run.newest
  within : ∀ window, units run.charged (· = window) ≤ quota.limit
  /-- A call takes effect in the window it is charged to. -/
  effect : run.charged = run.admitted.map fun event => (event.1 / nanos quota.period, event.2)

variable {quota : Quota} {run : CounterRun} {call : CounterCall}

theorem Counts.windowAt (counts : run.Counts quota) (call : CounterCall) :
    run.state.windowAt call.reading = run.newestAfter quota call := by
  rw [SlidingCounter.windowAt, counts.window, counts.under.period, newestAfter]

/-- Where the state judges a call is where the call takes effect. -/
theorem Counts.instant (counts : run.Counts quota) (call : CounterCall) :
    run.state.instant (nanos call.reading) = run.effective quota call := by
  have inside := counts.under.windowAt_mul_le call.reading
  have start : run.state.window ≤ run.newestAfter quota call := by
    rw [counts.window]
    exact le_max_left _ _
  have starts := Nat.mul_le_mul_right (nanos quota.period) start
  rw [counts.windowAt, counts.under.instant_eq] at inside
  rw [counts.under.instant_eq, effective]
  omega

theorem Counts.effective_div (counts : run.Counts quota) (call : CounterCall) :
    run.effective quota call / nanos quota.period = run.newestAfter quota call := by
  rw [← counts.instant, counts.under.instant_div, counts.windowAt]

/-- Rolling the windows forward moves the counts with the charges. -/
theorem Counts.aged (counts : run.Counts quota) (call : CounterCall) :
    (run.state.aged call.reading).window = run.newestAfter quota call ∧
      (run.state.aged call.reading).curr = units run.charged (· = run.newestAfter quota call) ∧
      (run.state.aged call.reading).prev = units run.charged (· + 1 = run.newestAfter quota call) := by
  have later : run.newest ≤ run.newestAfter quota call := le_max_left _ _
  have window := counts.under.aged_window call.reading
  rw [counts.windowAt] at window
  refine ⟨window, ?_⟩
  rw [counts.under.aged_eq, counts.windowAt, counts.window]
  generalize run.newestAfter quota call = newest at later ⊢
  by_cases same : newest = run.newest
  · rw [if_pos same, same]
    exact ⟨counts.curr, counts.prev⟩
  · rw [if_neg same]
    refine ⟨(units_eq_zero ?_).symm, ?_⟩
    · intro charge member _ here
      have before := counts.past charge member
      omega
    · show (if newest = run.newest + 1 then run.state.curr else 0) = _
      split
      · rename_i next
        rw [counts.curr]
        apply units_congr
        intro charge _ _
        omega
      · rename_i skipped
        refine (units_eq_zero ?_).symm
        intro charge member _ here
        have before := counts.past charge member
        omega

/-- A call that rolls the windows to its own and adds the units it admits to the current count. -/
theorem Counts.charge (counts : run.Counts quota) (call : CounterCall) {granted : ℕ} {state : SlidingCounter}
    (outcome : run.outcome call = (granted, state))
    (rolled : state = { run.state.aged call.reading with curr := (run.state.aged call.reading).curr + granted })
    (fits : (run.state.aged call.reading).curr + granted ≤ quota.limit) :
    (run.step quota call).Counts quota := by
  obtain ⟨window, curr, prev⟩ := counts.aged call
  have later : run.newest ≤ run.newestAfter quota call := le_max_left _ _
  have stepped : run.step quota call =
      { state
        newest := run.newestAfter quota call
        charged := run.charged ++ [(run.newestAfter quota call, granted)]
        admitted := run.admitted ++ [(run.effective quota call, granted)] } := by
    rw [step, outcome]
  rw [stepped]
  subst rolled
  refine ⟨{ counts.under.aged call.reading with curr_le := fits }, window, ?_, ?_, ?_, ?_, ?_⟩
  · show (run.state.aged call.reading).curr + granted = _
    rw [units_append, if_pos rfl, curr]
  · show (run.state.aged call.reading).prev = _
    rw [units_append, if_neg (Nat.succ_ne_self _), Nat.add_zero, prev]
  · intro charge member
    rcases List.mem_append.1 member with old | new
    · exact (counts.past charge old).trans later
    · rw [List.mem_singleton.1 new]
  · intro chosen
    rw [units_append]
    split
    · rename_i here
      rw [← here, ← curr]
      exact fits
    · exact counts.within chosen
  · rw [List.map_append, ← counts.effect, List.map_singleton, counts.effective_div]

/-- Every call keeps the counts those of the charges. -/
theorem Counts.step (counts : run.Counts quota) (possible : call.Possible quota.limit) :
    (run.step quota call).Counts quota := by
  have aged := counts.under.aged call.reading
  cases call with
  | peek now =>
      refine counts.charge (.peek now) rfl ?_ aged.curr_le
      rw [SlidingCounter.peek_eq counts.under]
      rfl
  | acquire n now =>
      obtain ⟨asked, possible⟩ := possible
      rcases Nat.lt_or_ge (run.state.remainingAt now) n with full | fits
      · obtain ⟨wait, denied⟩ := SlidingCounter.acquire_full counts.under possible full
        have outcome : run.outcome (.acquire n now) = (0, run.state.aged now) := by
          rw [CounterRun.outcome, denied]
          rfl
        exact counts.charge (.acquire n now) outcome rfl aged.curr_le
      · obtain ⟨allowed, sum⟩ := SlidingCounter.acquire_fits counts.under asked fits
        have outcome : run.outcome (.acquire n now) =
            (n, { run.state.aged now with curr := (run.state.aged now).curr + n }) := by
          rw [CounterRun.outcome, allowed]
          rfl
        exact counts.charge (.acquire n now) outcome rfl sum

theorem counts_start (admits : admitsAnything .slidingWindowCounter quota = true) (made : ℕ) :
    (start quota made).Counts quota where
  under := SlidingCounter.new_under admits made
  window := rfl
  curr := rfl
  prev := rfl
  past _ member := by cases member
  within _ := Nat.zero_le _
  effect := rfl

theorem counts_after (admits : admitsAnything .slidingWindowCounter quota = true) (made : ℕ)
    (calls : List CounterCall) (possible : ∀ call ∈ calls, call.Possible quota.limit) :
    (after quota made calls).Counts quota := by
  induction calls using List.reverseRecOn with
  | nil => exact counts_start admits made
  | append_singleton calls call inductionHypothesis =>
      rw [after_snoc]
      have before := inductionHypothesis fun earlier member => possible earlier (List.mem_append_left _ member)
      exact before.step (possible call (List.mem_append_right _ (List.mem_singleton.2 rfl)))

/-- An interval of one period meets at most two windows. -/
theorem Counts.interval_le (counts : run.Counts quota) (start : ℕ) :
    units run.admitted (fun t => start ≤ t ∧ t < start + nanos quota.period) ≤ 2 * quota.limit := by
  have positive := counts.under.period_pos
  have windows : ∀ window, units run.admitted (fun t => t / nanos quota.period = window) ≤ quota.limit := by
    intro window
    have within := counts.within window
    rw [counts.effect, units_map run.admitted (· / nanos quota.period) (· = window)] at within
    exact within
  have met : ∀ t, start ≤ t → t < start + nanos quota.period →
      t / nanos quota.period = start / nanos quota.period ∨
        t / nanos quota.period = start / nanos quota.period + 1 := by
    intro t from_start to_end
    have low := Nat.div_le_div_right (c := nanos quota.period) from_start
    have high : t / nanos quota.period ≤ (start + nanos quota.period) / nanos quota.period :=
      Nat.div_le_div_right to_end.le
    rw [Nat.add_div_right _ positive] at high
    omega
  calc units run.admitted (fun t => start ≤ t ∧ t < start + nanos quota.period)
      ≤ units run.admitted (fun t => t / nanos quota.period = start / nanos quota.period ∨
          t / nanos quota.period = start / nanos quota.period + 1) :=
        units_mono fun event _ _ inside => met event.1 inside.1 inside.2
    _ ≤ _ := units_or_le _ _ _
    _ ≤ quota.limit + quota.limit := Nat.add_le_add (windows _) (windows _)
    _ = 2 * quota.limit := (Nat.two_mul _).symm

end CounterRun

/-- The sliding counter counts exactly what it admitted: after every run of possible calls at any readings
    its window is the largest number so far and its counts are the units charged to it and to the window
    before it; an admission stays within the limit at the offset it takes effect at; no window is charged
    more than the limit, and no interval of one period more than twice. -/
theorem sliding_counter_counts_what_it_admits (quota : Quota) (made : ℕ) (calls : List CounterCall)
    (admits : admitsAnything .slidingWindowCounter quota = true)
    (possible : ∀ call ∈ calls, call.Possible quota.limit) :
    let run := CounterRun.after quota made calls
    run.state.window = run.newest ∧
      run.state.curr = units run.charged (· = run.newest) ∧
      run.state.prev = units run.charged (· + 1 = run.newest) ∧
      (∀ n now, 1 ≤ n → (run.state.acquire n now).1 = .allow →
        (run.state.acquire n now).2.prev * (nanos quota.period -
            run.effective quota (.acquire n now) % nanos quota.period) +
          (run.state.acquire n now).2.curr * nanos quota.period ≤ quota.limit * nanos quota.period) ∧
      (∀ window, units run.charged (· = window) ≤ quota.limit) ∧
      ∀ start, units run.admitted (fun t => start ≤ t ∧ t < start + nanos quota.period) ≤
        2 * quota.limit := by
  intro run
  have counts : run.Counts quota := CounterRun.counts_after admits made calls possible
  refine ⟨counts.window, counts.curr, counts.prev, ?_, counts.within, counts.interval_le⟩
  intro n now asked allowed
  have fits := counts.under.allow_iff.1 allowed
  rw [SlidingCounter.remaining_eq counts.under] at fits
  have enough : n ≤ run.state.remainingAt now := by omega
  have room := (counts.under.fits_iff asked now).2 enough
  have instant := counts.instant (.acquire n now)
  change run.state.instant (nanos now) = _ at instant
  rw [SlidingCounter.fits, decide_eq_true_iff, SlidingCounter.weighted, instant, counts.under.period,
    (counts.under.aged now).period, (counts.under.aged now).limit] at room
  rw [(SlidingCounter.acquire_fits counts.under asked enough).1]
  show _ * _ + ((run.state.aged now).curr + n) * nanos quota.period ≤ _
  rw [Nat.add_mul, ← Nat.add_assoc]
  exact room

/-- Two per second: two units at 1.2 s, a read at 3.1 s that skips a window, one unit at a late reading of
    0.5 s, charged to the window of the read, and a refused one. -/
theorem sliding_counter_counts_what_it_admits_to_a_late_call :
    (CounterRun.after (.perSecond 2 (by decide)) 0
        [.acquire 2 1200000000, .peek 3100000000, .acquire 1 500000000, .acquire 2 3200000000]).charged =
        [(1, 2), (3, 0), (3, 1), (3, 0)] ∧
      (CounterRun.after (.perSecond 2 (by decide)) 0
        [.acquire 2 1200000000, .peek 3100000000, .acquire 1 500000000, .acquire 2 3200000000]).state.curr =
        units (CounterRun.after (.perSecond 2 (by decide)) 0 [.acquire 2 1200000000, .peek 3100000000,
          .acquire 1 500000000, .acquire 2 3200000000]).charged (· = (CounterRun.after
          (.perSecond 2 (by decide)) 0 [.acquire 2 1200000000, .peek 3100000000, .acquire 1 500000000,
          .acquire 2 3200000000]).newest) := by
  refine ⟨by decide +kernel, ?_⟩
  refine (sliding_counter_counts_what_it_admits (.perSecond 2 (by decide)) 0 [.acquire 2 1200000000,
    .peek 3100000000, .acquire 1 500000000, .acquire 2 3200000000] (by decide +kernel) ?_).2.1
  simp [CounterCall.Possible, Quota.perSecond]

end RateNet
