/-
Module: RateNet.Proofs.SaturatedLog
Purpose: The sliding log at the ceiling of its running total. As long as no acquire takes the total past its
  word the limit holds in every half-open interval of one period, however many calls there have been. The
  sum that would pass it saturates instead, records then stop differing from what has expired, and the log
  admits without bound.
Trusted boundary: none
Main exports: acquires, sliding_log_safe_below_ceiling, saturated_log_admits_twice
-/
import RateNet.Proofs.SlidingLogWindow
import RateNet.Proofs.Snapshots

namespace RateNet

open TimedUnits

/-- Acquires of `n` units at `now`, for each pair `(n, now)`. -/
def acquires (calls : List (ℕ × ℕ)) : List LogCall := calls.map fun call => .acquire call.1 call.2

theorem acquires_snoc (calls : List (ℕ × ℕ)) (call : ℕ × ℕ) :
    acquires (calls ++ [call]) = acquires calls ++ [.acquire call.1 call.2] := by
  rw [acquires, List.map_append]
  rfl

theorem reading_acquires (calls : List (ℕ × ℕ)) :
    (acquires calls).filterMap LogCall.reading = calls.map Prod.snd := by
  induction calls with
  | nil => rfl
  | cons call rest inductionHypothesis =>
      rw [List.map_cons, ← inductionHypothesis]
      rfl

namespace LogRun

variable {quota : Quota}

/-- Without resets, what has been admitted since the last one is everything. -/
theorem sinceReset_acquires (calls : List (ℕ × ℕ)) :
    (after quota (acquires calls)).sinceReset = (after quota (acquires calls)).ever := by
  induction calls using List.reverseRecOn with
  | nil => rfl
  | append_singleton calls call inductionHypothesis =>
      rw [acquires_snoc, after_snoc]
      exact congrArg (· ++ _) inductionHypothesis

/-- An acquire adds at most the units it asks for. -/
theorem units_ever_acquire (run : LogRun) (n now : ℕ) :
    units (run.step (.acquire n now)).ever (fun _ => True) ≤ units run.ever (fun _ => True) + n := by
  simp only [step]
  split
  · rw [units_append, if_pos trivial]
  · rw [List.append_nil]
    exact Nat.le_add_right _ _

/-- Acquires that leave room in the running total keep it below its ceiling, and the log exact. -/
theorem exact_of_below (limit : 1 ≤ quota.limit) (period : 1 ≤ quota.period) {calls : List (ℕ × ℕ)}
    (ordered : calls.Pairwise fun earlier later => earlier.2 ≤ later.2)
    (readings : ∀ call ∈ calls, call.2 + quota.period < 2 ^ 64)
    (below : Runs.Along (fun before call =>
      (after quota (acquires before)).state.log.total + call.1 < 2 ^ 64) calls) :
    units (after quota (acquires calls)).ever (fun _ => True) < 2 ^ 64 ∧
      (after quota (acquires calls)).Exact quota := by
  induction calls using List.reverseRecOn with
  | nil =>
      have fits : units (after quota (acquires [])).ever (fun _ => True) < 2 ^ 64 := Nat.two_pow_pos 64
      refine ⟨fits, exact_after limit period [] List.Pairwise.nil (fun _ member => ?_) fits⟩
      cases member
  | append_singleton calls call inductionHypothesis =>
      obtain ⟨along, room⟩ := Runs.along_snoc.1 below
      obtain ⟨-, known⟩ := inductionHypothesis (List.pairwise_append.1 ordered).1
        (fun call member => readings call (List.mem_append_left _ member)) along
      -- the running total is what has been admitted, so this call does not take that past the ceiling
      rw [known.1] at room
      have fits : units (after quota (acquires (calls ++ [call]))).ever (fun _ => True) < 2 ^ 64 := by
        rw [acquires_snoc, after_snoc]
        exact lt_of_le_of_lt (units_ever_acquire _ call.1 call.2) room
      refine ⟨fits, exact_after limit period _ ?_ ?_ fits⟩
      · rw [reading_acquires]
        exact List.pairwise_map.2 ordered
      · rw [reading_acquires]
        intro now member
        obtain ⟨event, there, rfl⟩ := List.mem_map.1 member
        exact readings event there

end LogRun

/-- Acquires with readings in order, none of which takes the running total past its word, admit at most the limit in
    any half-open interval of one period. -/
theorem sliding_log_safe_below_ceiling (quota : Quota) (limit : 1 ≤ quota.limit) (period : 1 ≤ quota.period)
    (calls : List (ℕ × ℕ)) (ordered : calls.Pairwise fun earlier later => earlier.2 ≤ later.2)
    (readings : ∀ call ∈ calls, call.2 + quota.period < 2 ^ 64)
    (below : Runs.Along (fun before call =>
      (LogRun.after quota (acquires before)).state.log.total + call.1 < 2 ^ 64) calls) (a : ℕ) :
    units (LogRun.after quota (acquires calls)).ever (fun t => a ≤ t ∧ t < a + quota.period) ≤ quota.limit := by
  obtain ⟨-, known⟩ := LogRun.exact_of_below limit period ordered readings below
  rw [← LogRun.sinceReset_acquires]
  apply known.interval_le
  rw [reading_acquires]
  intro now member
  obtain ⟨event, there, rfl⟩ := List.mem_map.1 member
  exact readings event there

theorem sliding_log_safe_below_ceiling_at_two_per_second :
    units (LogRun.after (.perSecond 2 (by decide)) (acquires [(2, 0), (1, 500000000), (1, 1000000000)])).ever
      (fun t => 500000000 ≤ t ∧ t < 500000000 + 1000000000) ≤ 2 :=
  sliding_log_safe_below_ceiling (.perSecond 2 (by decide)) (by decide) (by decide)
    [(2, 0), (1, 500000000), (1, 1000000000)] (by decide) (by decide) (by decide +kernel) 500000000

/-!
### Past the ceiling
-/

/-- The whole of `u32::MAX` units at each of the readings `0 .. last`. -/
def filling (last : ℕ) : List (ℕ × ℕ) := (List.range (last + 1)).map fun now => (u32Max, now)

theorem filling_succ (last : ℕ) : filling (last + 1) = filling last ++ [(u32Max, last + 1)] := by
  rw [filling, List.range_succ, List.map_append]
  rfl

theorem filling_ordered (last : ℕ) : (filling last).Pairwise fun earlier later => earlier.2 ≤ later.2 := by
  rw [filling, List.pairwise_map]
  exact List.pairwise_lt_range.imp Nat.le_of_lt

theorem mem_filling {last : ℕ} {call : ℕ × ℕ} (member : call ∈ filling last) : call.2 ≤ last := by
  obtain ⟨now, there, rfl⟩ := List.mem_map.1 member
  exact Nat.le_of_lt_succ (List.mem_range.1 there)

theorem after_filling {last : ℕ} (clock : last < u64Max) :
    (LogRun.after maxPerNano (acquires (filling last))).state = drained last := by
  induction last with
  | zero => exact drained_zero
  | succ last inductionHypothesis =>
      rw [filling_succ, acquires_snoc, LogRun.after_snoc]
      show ((LogRun.after maxPerNano (acquires (filling last))).state.acquire u32Max (last + 1)).2 = _
      rw [inductionHypothesis (by omega)]
      exact drained_succ clock.le (drained_reachable (by omega)).under

/-- Two acquires admitted at one instant. -/
theorem units_of_twice {run : LogRun} {n t period : ℕ} (wide : 1 ≤ period)
    (first : (run.state.acquire n t).1 = .allow)
    (second : ((run.state.acquire n t).2.acquire n t).1 = .allow) :
    n + n ≤ units ((run.step (.acquire n t)).step (.acquire n t)).ever
      (fun instant => t ≤ instant ∧ instant < t + period) := by
  have here : t ≤ t ∧ t < t + period := ⟨le_rfl, by omega⟩
  simp only [LogRun.step, if_pos first, if_pos second]
  rw [units_append, units_append, if_pos here]
  omega

/-- A log filled to its ceiling admits its limit twice at one instant.  The running total is `2^64 - 1` after the
    readings `0 .. 2^32`, and the next record's total is no larger than what has expired. -/
theorem saturated_log_admits_twice :
    List.Pairwise (fun earlier later : ℕ × ℕ => earlier.2 ≤ later.2)
      (filling 4294967297 ++ [(u32Max, 4294967297)]) ∧
    (∀ call ∈ filling 4294967297 ++ [(u32Max, 4294967297)], call.2 + maxPerNano.period < 2 ^ 64) ∧
    maxPerNano.limit < units
      (LogRun.after maxPerNano (acquires (filling 4294967297 ++ [(u32Max, 4294967297)]))).ever
      (fun t => 4294967297 ≤ t ∧ t < 4294967297 + maxPerNano.period) := by
  have last : ∀ call ∈ filling 4294967297, call.2 ≤ 4294967297 := fun call member => mem_filling member
  refine ⟨?_, ?_, ?_⟩
  · rw [List.pairwise_append]
    refine ⟨filling_ordered _, List.pairwise_singleton _ _, fun earlier there later new => ?_⟩
    rw [List.mem_singleton.1 new]
    exact last earlier there
  · intro call member
    have bound : call.2 ≤ 4294967297 := by
      rcases List.mem_append.1 member with there | new
      · exact last call there
      · rw [List.mem_singleton.1 new]
    have period : maxPerNano.period = 1 := rfl
    omega
  · have filled := @after_filling 4294967296 (by decide)
    have again : filling 4294967297 = filling 4294967296 ++ [(u32Max, 4294967297)] := filling_succ 4294967296
    have twice := @units_of_twice (LogRun.after maxPerNano (acquires (filling 4294967296))) u32Max 4294967297
      maxPerNano.period (by decide) (by rw [filled]; decide +kernel) (by rw [filled]; decide +kernel)
    rw [acquires_snoc, LogRun.after_snoc, again, acquires_snoc, LogRun.after_snoc]
    exact lt_of_lt_of_le (by decide) twice

end RateNet
