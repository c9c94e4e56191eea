/-
Module: RateNet.Proofs.RecoveredKeys
Purpose: A state that owes nothing is as good as a fresh one: created at any later reading, a fresh state gives
  every later check the same decision, the wait of a denial included. The states of the two differ all
  the same (an old window number, an arrival time that has passed, a running total), so each algorithm has
  a relation between them that every check keeps. The sliding log's relation is a shift of its running
  totals, which holds as long as no total reaches its ceiling.
Trusted boundary: none
Main exports: decisions, FreshAgrees, Log.shift, SlidingLog.Room, restored_and_recovered_keys,
  saturated_log_outlives_fresh_one
-/
import RateNet.Proofs.RestoredKeys
import RateNet.Lib.Runs

namespace RateNet

section Decisions

variable {S : Type} [KeyState S]

/-- The decisions of checks `(n, now)`, in order. -/
def decisions (s : S) (calls : List (ℕ × ℕ)) : List Decision :=
  Runs.outputs (fun s call => KeyState.acquire s call.1 call.2) s calls

/-- The units those checks admit. -/
def admittedUnits (s : S) : List (ℕ × ℕ) → ℕ
  | [] => 0
  | (n, now) :: calls =>
    (if (KeyState.acquire s n now).1 = .allow then n else 0) + admittedUnits (KeyState.acquire s n now).2 calls

/-- A state evicted when it owed nothing, and a state created under its quota no earlier: every sequence of checks from then on,
    in any order, has the same decisions.  `Room` is what the evicted state has to meet for the checks. -/
def FreshAgrees (S : Type) [KeyState S] (Room : S → List (ℕ × ℕ) → Prop) (quota : Quota) : Prop :=
  ∀ (last evicted returned : ℕ) (s fresh : S) (calls : List (ℕ × ℕ)),
    KeyState.Reached quota last s → last ≤ evicted → (KeyState.debt s evicted).1 = none →
    evicted ≤ returned → KeyState.create quota returned = some fresh → (∀ call ∈ calls, returned ≤ call.2) →
    Room (KeyState.debt s evicted).2 calls → decisions fresh calls = decisions (KeyState.debt s evicted).2 calls

/-- Idle states that decide alike, and are then the same or still idle, decide every later check alike. -/
theorem decisions_of_idle {Idle : S → Prop} {returned : ℕ}
    (alike : ∀ {s s' : S} {now : ℕ} (n : ℕ), Idle s → Idle s' → returned ≤ now →
      (KeyState.acquire s n now).1 = (KeyState.acquire s' n now).1 ∧
        ((KeyState.acquire s n now).2 = (KeyState.acquire s' n now).2 ∨
          (KeyState.acquire s n now).2 = s ∧ (KeyState.acquire s' n now).2 = s'))
    {s s' : S} (idle : Idle s) (idle' : Idle s') {calls : List (ℕ × ℕ)} (onward : ∀ call ∈ calls, returned ≤ call.2) :
    decisions s calls = decisions s' calls := by
  refine Runs.outputs_eq (fun calls s s' => (s = s' ∨ Idle s ∧ Idle s') ∧ ∀ call ∈ calls, returned ≤ call.2) ?_
    ⟨Or.inr ⟨idle, idle'⟩, onward⟩
  rintro ⟨n, now⟩ calls s s' ⟨rfl | ⟨idle, idle'⟩, times⟩
  · exact ⟨rfl, Or.inl rfl, (List.forall_mem_cons.1 times).2⟩
  · obtain ⟨here, rest⟩ := List.forall_mem_cons.1 times
    obtain ⟨decision, same | ⟨kept, kept'⟩⟩ := alike n idle idle' here
    · exact ⟨decision, Or.inl same, rest⟩
    · refine ⟨decision, Or.inr ?_, rest⟩
      rw [kept, kept']
      exact ⟨idle, idle'⟩

end Decisions

/-- Every state has room. -/
def AlwaysRoom {S : Type} (_ : S) (_ : List (ℕ × ℕ)) : Prop := True

/-!
### The leaky bucket
-/

theorem GcraParams.attempt_congr {p : GcraParams} {n nowNs nowIv tat tat' : ℕ}
    (same : max tat nowIv = max tat' nowIv) :
    p.attempt n nowNs nowIv tat = p.attempt n nowNs nowIv tat' := by
  simp only [attempt, same]

namespace Gcra

variable {quota : Quota} {g g' : Gcra} {floor n now : ℕ}

/-- Arrival times that have both passed at `floor`, or are one, make one decision from then on. -/
theorem checkNAt_congr (under : g.Under quota) (under' : g'.Under quota)
    (reached : floor ≤ (GcraParams.new quota).intervalsAt (nanos now)) (same : max g.tat floor = max g'.tat floor) :
    (g.checkNAt n now).1 = (g'.checkNAt n now).1 ∧
      max (g.checkNAt n now).2.tat floor = max (g'.checkNAt n now).2.tat floor := by
  have attempts := @GcraParams.attempt_congr (GcraParams.new quota) n (nanos now)
    ((GcraParams.new quota).intervalsAt (nanos now)) g.tat g'.tat (by omega)
  simp only [Gcra.checkNAt, under.params, under'.params, GcraParams.checkNIn]
  split
  · exact ⟨rfl, same⟩
  · split
    · exact ⟨rfl, same⟩
    · rw [attempts]
      split
      · exact ⟨rfl, rfl⟩
      · exact ⟨rfl, same⟩

theorem freshAgrees (quota : Quota) : FreshAgrees Gcra AlwaysRoom quota := by
  intro last evicted returned g fresh calls reached before none_owed after made onward _
  have under : g.Under quota := reached.under
  obtain ⟨admits, rfl⟩ := Option.ite_some_none_eq_some.1 made
  have hp := under.isOpen
  have whole : (g.peekAt evicted).remaining = (g.peekAt evicted).limit := Snapshot.debt_eq_none.1 none_owed
  have passed : g.tat ≤ (GcraParams.new quota).intervalsAt (nanos evicted) := by
    have burst := under.burst
    rw [under.remaining_eq, under.peekAt_eq, Snapshot.new_limit] at whole
    simp only [satAdd] at whole
    omega
  have floor := passed.trans (GcraParams.intervalsAt_nanos_mono hp after)
  refine Runs.outputs_eq (fun calls g g' => g.Under quota ∧ g'.Under quota ∧
    max g.tat ((GcraParams.new quota).intervalsAt (nanos returned)) =
      max g'.tat ((GcraParams.new quota).intervalsAt (nanos returned)) ∧
    ∀ call ∈ calls, returned ≤ call.2) ?_ ⟨⟨rfl, admits⟩, under, ?_, onward⟩
  · rintro ⟨n, now⟩ calls g g' ⟨kept, kept', same, times⟩
    obtain ⟨here, rest⟩ := List.forall_mem_cons.1 times
    obtain ⟨decision, next⟩ := checkNAt_congr kept kept' (GcraParams.intervalsAt_nanos_mono hp here) same
    exact ⟨decision, kept.checkNAt n now, kept'.checkNAt n now, next, rest⟩
  · show max 0 _ = max g.tat _
    omega

end Gcra

/-!
### The fixed window
-/

namespace FixedWindow

variable {quota : Quota} {fw fw' : FixedWindow} {n now returned : ℕ}

/-- Kept under `quota`, with no window open after `returned` and nothing counted from then on. -/
structure Idle (quota : Quota) (returned : ℕ) (fw : FixedWindow) : Prop where
  under : fw.Under quota
  window : ∀ t, returned ≤ t → fw.windowAt t = nanos t / nanos quota.period
  nothing : ∀ t, returned ≤ t → fw.usedAt t = 0

theorem Idle.of_used (under : fw.Under quota) (newest : fw.latest ≤ nanos returned / nanos quota.period)
    (nothing : fw.usedAt returned = 0) : fw.Idle quota returned := by
  refine ⟨under, fun t later => ?_, fun t later => ?_⟩
  · have windows : nanos returned / nanos quota.period ≤ nanos t / nanos quota.period :=
      Nat.div_le_div_right (nanos_mono later)
    rw [windowAt, windowOf, under.period]
    exact max_eq_left (newest.trans windows)
  · have anti := under.usedAt_anti later
    omega

/-- Two idle windows make one decision, and are idle or the same after it. -/
theorem acquire_idle (idle : fw.Idle quota returned) (idle' : fw'.Idle quota returned) (later : returned ≤ now) :
    (fw.acquire n now).1 = (fw'.acquire n now).1 ∧
      ((fw.acquire n now).2 = (fw'.acquire n now).2 ∨
        (fw.acquire n now).2 = fw ∧ (fw'.acquire n now).2 = fw') := by
  rcases Nat.eq_zero_or_pos n with rfl | asked
  · rw [acquire_zero, acquire_zero]
    exact ⟨rfl, Or.inr ⟨rfl, rfl⟩⟩
  rcases Nat.lt_or_ge quota.limit n with impossible | possible
  · rw [acquire_impossible idle.under impossible, acquire_impossible idle'.under impossible]
    exact ⟨rfl, Or.inr ⟨rfl, rfl⟩⟩
  have used := idle.nothing now later
  have used' := idle'.nothing now later
  rw [acquire_fits idle.under asked (by omega), acquire_fits idle'.under asked (by omega), used, used',
    idle.window now later, idle'.window now later]
  refine ⟨rfl, Or.inl ?_⟩
  simp only [FixedWindow.mk.injEq, true_and]
  exact ⟨idle.under.period.trans idle'.under.period.symm, idle.under.limit.trans idle'.under.limit.symm,
    idle.under.opened.trans idle'.under.opened.symm⟩

theorem freshAgrees (quota : Quota) : FreshAgrees FixedWindow AlwaysRoom quota := by
  intro last evicted returned fw fresh calls reached before none_owed after made onward _
  have under : fw.Under quota := reached.under
  obtain ⟨admits, rfl⟩ := Option.ite_some_none_eq_some.1 made
  have newest := latest_le_of_reached reached
  have whole : (fw.peek evicted).remaining = (fw.peek evicted).limit := Snapshot.debt_eq_none.1 none_owed
  rw [remaining_eq under, peek_eq under, Snapshot.new_limit] at whole
  have idle : fw.Idle quota returned := by
    have windows : nanos last / nanos quota.period ≤ nanos returned / nanos quota.period :=
      Nat.div_le_div_right (nanos_mono (before.trans after))
    have anti := under.usedAt_anti after
    have bound := under.usedAt_le evicted
    exact .of_used under (newest.trans windows) (by omega)
  have fresh_idle : (FixedWindow.new quota returned).Idle quota returned :=
    .of_used (new_under admits returned) le_rfl (usedAt_new quota returned returned)
  exact decisions_of_idle (fun _ => acquire_idle) fresh_idle idle onward

end FixedWindow

/-!
### The sliding counter
-/

namespace SlidingCounter

variable {quota : Quota} {sc sc' : SlidingCounter} {n now returned : ℕ}

/-- Counters that roll to one state make one decision, and are the same or unchanged after it. -/
theorem acquire_congr (limit : sc.limit = sc'.limit) (period : sc.periodNs = sc'.periodNs)
    (rolls : sc.roll (nanos now) = sc'.roll (nanos now)) :
    (sc.acquire n now).1 = (sc'.acquire n now).1 ∧
      ((sc.acquire n now).2 = (sc'.acquire n now).2 ∨
        (sc.acquire n now).2 = sc ∧ (sc'.acquire n now).2 = sc') := by
  simp only [acquire, limit, period, rolls]
  split
  · exact ⟨rfl, Or.inr ⟨rfl, rfl⟩⟩
  · split
    · exact ⟨rfl, Or.inr ⟨rfl, rfl⟩⟩
    · exact ⟨rfl, Or.inl rfl⟩

/-- Kept under `quota`, and empty in the window of every reading from `returned` on. -/
structure Idle (quota : Quota) (returned : ℕ) (sc : SlidingCounter) : Prop where
  under : sc.Under quota
  window : ∀ t, returned ≤ t → sc.windowAt t = nanos t / nanos quota.period
  prev : ∀ t, returned ≤ t → (sc.aged t).prev = 0
  curr : ∀ t, returned ≤ t → (sc.aged t).curr = 0

theorem Idle.of_load (under : sc.Under quota) (rolled : sc.window ≤ nanos returned / nanos quota.period)
    (nothing : sc.load returned = 0) : sc.Idle quota returned := by
  have empty : ∀ t, returned ≤ t → (sc.aged t).prev = 0 ∧ (sc.aged t).curr = 0 := by
    intro t later
    have anti := under.load_anti later
    exact (under.load_eq_zero t).1 (by omega)
  refine ⟨under, fun t later => ?_, fun t later => (empty t later).1, fun t later => (empty t later).2⟩
  exact (under.windowAt_eq (rolled.trans (Nat.div_le_div_right (nanos_mono later)))).1

theorem roll_idle (idle : sc.Idle quota returned) (idle' : sc'.Idle quota returned) (later : returned ≤ now) :
    sc.roll (nanos now) = sc'.roll (nanos now) := by
  have instants : sc.instant (nanos now) = sc'.instant (nanos now) := by
    have window := idle.window now later
    have window' := idle'.window now later
    rw [windowAt, idle.under.period] at window
    rw [windowAt, idle'.under.period] at window'
    rw [(idle.under.windowAt_eq (by omega)).2, (idle'.under.windowAt_eq (by omega)).2]
  have states : sc.aged now = sc'.aged now := by
    have aged := idle.under.aged now
    have aged' := idle'.under.aged now
    have window : (sc.aged now).window = (sc'.aged now).window := by
      rw [idle.under.aged_window, idle'.under.aged_window, idle.window now later, idle'.window now later]
    have prev := (idle.prev now later).trans (idle'.prev now later).symm
    have curr := (idle.curr now later).trans (idle'.curr now later).symm
    have period := aged.period.trans aged'.period.symm
    have limit := aged.limit.trans aged'.limit.symm
    generalize sc.aged now = a at *
    generalize sc'.aged now = b at *
    cases a
    cases b
    simp only at window prev curr period limit
    rw [window, prev, curr, period, limit]
  rw [roll_eq, roll_eq, instants, states, idle.under.period, idle'.under.period]

theorem freshAgrees (quota : Quota) : FreshAgrees SlidingCounter AlwaysRoom quota := by
  intro last evicted returned sc fresh calls reached before none_owed after made onward _
  have under : sc.Under quota := reached.under
  obtain ⟨admits, rfl⟩ := Option.ite_some_none_eq_some.1 made
  have opened := new_under admits returned
  have whole : (sc.peek evicted).1.remaining = (sc.peek evicted).1.limit := Snapshot.debt_eq_none.1 none_owed
  rw [remaining_eq under, peek_eq under, Snapshot.new_limit, remainingAt_eq_limit under] at whole
  have idle : (sc.aged evicted).Idle quota returned := by
    have aged := under.aged evicted
    refine .of_load aged ?_ ?_
    · have rolled := window_le_of_reached reached
      rw [under.aged_window, windowAt, under.period]
      exact max_le (rolled.trans (Nat.div_le_div_right (nanos_mono (before.trans after))))
        (Nat.div_le_div_right (nanos_mono after))
    · have less := under.load_aged evicted returned
      have anti := under.load_anti after
      omega
  have fresh_idle : (SlidingCounter.new quota returned).Idle quota returned :=
    .of_load opened le_rfl (opened.load_of_empty rfl rfl returned)
  have state : (KeyState.debt sc evicted).2 = sc.aged evicted := by
    show (sc.peek evicted).2 = _
    rw [peek_eq under]
  rw [state]
  refine decisions_of_idle (fun _ idle idle' here => ?_) fresh_idle idle onward
  exact acquire_congr (idle.under.limit.trans idle'.under.limit.symm)
    (idle.under.period.trans idle'.under.period.symm) (roll_idle idle idle' here)

end SlidingCounter

/-!
### The sliding log
-/

/-- The record with its running total raised by `base`. -/
def Run.shift (base : ℕ) (run : Run) : Run := { run with total := run.total + base }

namespace Log

variable {log : Log} {base n nowNs periodNs : ℕ}

/-- The log with every running total raised by `base`. -/
def shift (base : ℕ) (log : Log) : Log :=
  { runs := log.runs.map (Run.shift base), expiredTotal := log.expiredTotal + base }

theorem total_shift (base : ℕ) (log : Log) : (log.shift base).total = log.total + base := by
  rw [total, total, shift, List.getLast?_map]
  cases log.runs.getLast? with
  | none => rfl
  | some back => rfl

theorem inWindow_shift (base : ℕ) (log : Log) : (log.shift base).inWindow = log.inWindow := by
  rw [inWindow, inWindow, total_shift]
  exact Nat.add_sub_add_right _ _ _

theorem instant_shift (base : ℕ) (log : Log) (realNowNs : ℕ) :
    (log.shift base).instant realNowNs = log.instant realNowNs := by
  rw [instant, instant, shift, List.getLast?_map]
  cases log.runs.getLast? with
  | none => rfl
  | some back => rfl

theorem expire_shift (base : ℕ) (runs : List Run) (expiredTotal : ℕ) :
    expire nowNs periodNs (runs.map (Run.shift base)) (expiredTotal + base) =
      (expire nowNs periodNs runs expiredTotal).shift base := by
  induction runs generalizing expiredTotal with
  | nil => rfl
  | cons front rest inductionHypothesis =>
      rw [List.map_cons, expire, expire]
      show (if satAdd front.atNs periodNs > nowNs then _ else _) = _
      split
      · rfl
      · exact inductionHypothesis front.total

theorem expireAt_shift (base : ℕ) (log : Log) (realNowNs periodNs : ℕ) :
    (log.shift base).expireAt realNowNs periodNs = (log.expireAt realNowNs periodNs).shift base := by
  rw [expireAt, expireAt, instant_shift]
  exact expire_shift base log.runs log.expiredTotal

/-- Recording units below the ceiling shifts with the log. -/
theorem record_shift (room : log.total + base + n ≤ u64Max) :
    (log.shift base).record n nowNs = (log.record n nowNs).shift base := by
  have sum : satAdd (log.total + base) n = satAdd log.total n + base := by
    rw [satAdd_eq room, satAdd_eq (by omega)]
    omega
  rw [record, record, total_shift, sum]
  simp only [shift, List.getLast?_map]
  cases log.runs.getLast? with
  | none => simp [Run.shift]
  | some back =>
      simp only [Option.map_some]
      show (if back.atNs = nowNs then _ else _) = _
      split
      · simp [Run.shift, List.map_dropLast]
      · simp [Run.shift]

/-- The record whose running total reaches a target is the same one of a log and its target shifted. -/
theorem reaches_shift (base : ℕ) (log : Log) (excess : ℕ) :
    (log.shift base).runs[(log.shift base).runs.findIdx fun run =>
        !decide (run.total < (log.shift base).expiredTotal + excess)]? =
      (log.runs[log.runs.findIdx fun run => !decide (run.total < log.expiredTotal + excess)]?).map
        (Run.shift base) := by
  have same : ∀ run : Run, (Run.shift base run).total < log.expiredTotal + base + excess ↔
      run.total < log.expiredTotal + excess := by
    intro run
    show run.total + base < _ ↔ _
    omega
  simp only [shift, List.findIdx_map, List.getElem?_map, Function.comp_def, same]

end Log

namespace SlidingLog

variable {quota : Quota} {sl : SlidingLog} {base n now returned : ℕ}

/-- The state with every running total raised by `base`. -/
def shift (base : ℕ) (sl : SlidingLog) : SlidingLog := { sl with log := sl.log.shift base }

/-- A check of a shifted log makes the decision of the log it was shifted from, and leaves it shifted where the
    units it admits stay below the ceiling. -/
theorem acquire_shift (sl : SlidingLog) (base n now : ℕ) :
    ((sl.shift base).acquire n now).1 = (sl.acquire n now).1 ∧
      (((sl.acquire n now).1 = .allow → sl.log.total + base + n ≤ u64Max) →
        ((sl.shift base).acquire n now).2 = (sl.acquire n now).2.shift base) := by
  have same : (sl.log.expireAt (nanos now) sl.periodNs).total = sl.log.total := Log.total_expireAt _ _ _
  simp only [acquire, shift, Log.expireAt_shift, Log.instant_shift, Log.inWindow_shift]
  generalize sl.log.expireAt (nanos now) sl.periodNs = log at same ⊢
  by_cases none_asked : n = 0
  · simp only [if_pos none_asked, implies_true, and_self]
  by_cases impossible : sl.limit = 0 ∨ sl.periodNs = 0 ∨ n > sl.limit
  · simp only [if_neg none_asked, if_pos impossible, implies_true, and_self]
  by_cases fits : log.inWindow + n ≤ sl.limit
  · simp only [if_neg none_asked, if_neg impossible, if_pos fits, forall_const, true_and]
    intro room
    rw [Log.record_shift (by omega)]
  · simp only [if_neg none_asked, if_neg impossible, if_neg fits, Log.reaches_shift, implies_true, and_true]
    cases log.runs[log.runs.findIdx fun run =>
        !decide (run.total < log.expiredTotal + (log.inWindow + n - sl.limit))]? with
    | none => rfl
    | some run => rfl

/-- The running total counts the units admitted, below its ceiling. -/
theorem total_acquire (sl : SlidingLog) (n now : ℕ)
    (room : sl.log.total + (if (sl.acquire n now).1 = .allow then n else 0) ≤ u64Max) :
    (sl.acquire n now).2.log.total = sl.log.total + if (sl.acquire n now).1 = .allow then n else 0 := by
  have same : (sl.log.expireAt (nanos now) sl.periodNs).total = sl.log.total := Log.total_expireAt _ _ _
  simp only [acquire] at room ⊢
  generalize sl.log.expireAt (nanos now) sl.periodNs = log at same room ⊢
  by_cases none_asked : n = 0
  · simp only [if_true, none_asked, Nat.add_zero]
  by_cases impossible : sl.limit = 0 ∨ sl.periodNs = 0 ∨ n > sl.limit
  · simp only [if_neg none_asked, if_pos impossible, reduceCtorEq, if_false, Nat.add_zero]
  by_cases fits : log.inWindow + n ≤ sl.limit
  · simp only [if_neg none_asked, if_neg impossible, if_pos fits, if_true] at room ⊢
    rw [Log.total_record, same, satAdd_eq room]
  · simp only [if_neg none_asked, if_neg impossible, if_neg fits, reduceCtorEq, if_false, Nat.add_zero, same]

/-- The checks still to come keep the running total within its word. -/
def Room (sl : SlidingLog) (calls : List (ℕ × ℕ)) : Prop := sl.log.total + admittedUnits sl calls ≤ u64Max

theorem Room.cons {calls : List (ℕ × ℕ)} (room : sl.Room ((n, now) :: calls)) :
    sl.log.total + (if (sl.acquire n now).1 = .allow then n else 0) ≤ u64Max ∧
      (sl.acquire n now).2.Room calls := by
  have sum : sl.log.total + ((if (sl.acquire n now).1 = .allow then n else 0) +
    admittedUnits (sl.acquire n now).2 calls) ≤ u64Max := room
  refine ⟨by omega, ?_⟩
  rw [Room, total_acquire sl n now (by omega)]
  omega

/-- A state shifted from a fresh one with room for the checks, or one at its ceiling that has no room for any check
    it would admit. -/
inductive Outlives (quota : Quota) (returned : ℕ) : List (ℕ × ℕ) → SlidingLog → SlidingLog → Prop where
  | shifted {calls : List (ℕ × ℕ)} {fresh : SlidingLog} (base : ℕ) : (fresh.shift base).Room calls →
      Outlives quota returned calls fresh (fresh.shift base)
  | ceiling {calls : List (ℕ × ℕ)} {fresh sl : SlidingLog} : fresh.Under quota → sl.Under quota →
      sl.log.total = u64Max → (∀ t, returned ≤ t → sl.usedAt t = 0) → sl.Room calls →
      Outlives quota returned calls fresh sl

theorem Outlives.acquire {calls : List (ℕ × ℕ)} {fresh : SlidingLog} (later : returned ≤ now)
    (outlives : Outlives quota returned ((n, now) :: calls) fresh sl) :
    (fresh.acquire n now).1 = (sl.acquire n now).1 ∧
      Outlives quota returned calls (fresh.acquire n now).2 (sl.acquire n now).2 := by
  cases outlives with
  | shifted base room =>
      obtain ⟨here, rest⟩ := room.cons
      obtain ⟨decision, state⟩ := acquire_shift fresh base n now
      rw [decision] at here
      have raised : (fresh.shift base).log.total = fresh.log.total + base := Log.total_shift base fresh.log
      have moved := state fun allowed => by
        rw [if_pos allowed] at here
        omega
      rw [moved] at rest ⊢
      exact ⟨decision.symm, .shifted base rest⟩
  | ceiling opened under full nothing room =>
      obtain ⟨here, rest⟩ := room.cons
      rcases Nat.eq_zero_or_pos n with rfl | asked
      · rw [acquire_zero] at rest ⊢
        rw [acquire_zero]
        exact ⟨rfl, .ceiling opened under full nothing rest⟩
      rcases Nat.lt_or_ge quota.limit n with impossible | possible
      · rw [acquire_impossible under impossible] at rest ⊢
        rw [acquire_impossible opened impossible]
        exact ⟨rfl, .ceiling opened under full nothing rest⟩
      -- units that fit would be admitted past the ceiling
      · have used := nothing now later
        rw [acquire_fits under asked (by omega), if_pos rfl] at here
        omega

theorem freshAgrees (quota : Quota) : FreshAgrees SlidingLog Room quota := by
  intro last evicted returned sl fresh calls reached before none_owed after made onward room
  have under : sl.Under quota := reached.under
  obtain ⟨admits, rfl⟩ := Option.ite_some_none_eq_some.1 made
  have state : (KeyState.debt sl evicted).2 = sl.aged evicted := by
    show (sl.peek evicted).2 = _
    rw [peek_eq under]
  rw [state] at room ⊢
  have whole : (sl.peek evicted).1.remaining = (sl.peek evicted).1.limit := Snapshot.debt_eq_none.1 none_owed
  rw [remaining_eq under, peek_eq under, Snapshot.new_limit] at whole
  have used := under.usedAt_le evicted
  have empty : (sl.aged evicted).log.inWindow = 0 := by
    have window : sl.usedAt evicted = 0 := by omega
    exact window
  have start : Outlives quota returned calls (SlidingLog.new quota) (sl.aged evicted) := by
    rcases Nat.lt_or_ge (sl.aged evicted).log.total u64Max with below | above
    · -- below the ceiling an empty window holds no record, and the state is a fresh one shifted
      have strict : (sl.aged evicted).log.Strict := (strict_of_reachable reached.reachable).expireAt _ _
      have runs : (sl.aged evicted).log.runs = [] := by
        by_contra some_left
        have held := strict.inWindow_pos below some_left
        omega
      have fresh : sl.aged evicted = (SlidingLog.new quota).shift (sl.aged evicted).log.expiredTotal := by
        have aged := under.aged evicted
        have period := aged.period
        have limit := aged.limit
        generalize sl.aged evicted = sl' at runs period limit ⊢
        obtain ⟨⟨records, expiredTotal⟩, periodNs, most⟩ := sl'
        simp only at runs period limit
        rw [runs, period, limit]
        simp only [shift, Log.shift, new, List.map_nil, Nat.zero_add]
      rw [fresh] at room ⊢
      exact .shifted _ room
    · refine .ceiling (new_under admits) (under.aged evicted) ?_ ?_ room
      · exact le_antisymm (under.aged evicted).sorted.word above
      · intro t later
        have less := under.usedAt_aged evicted t
        have anti := under.usedAt_anti (after.trans later)
        omega
  refine Runs.outputs_eq (fun calls fresh sl => Outlives quota returned calls fresh sl ∧
    ∀ call ∈ calls, returned ≤ call.2) ?_ ⟨start, onward⟩
  rintro ⟨n, now⟩ calls fresh sl ⟨outlives, times⟩
  obtain ⟨here, rest⟩ := List.forall_mem_cons.1 times
  obtain ⟨decision, next⟩ := outlives.acquire here
  exact ⟨decision, next, rest⟩

end SlidingLog

/-!
### Both halves
-/

/-- For every algorithm and quota and every state reached at readings that do not decrease.  A key restored from what
    it owed, or more, is never looser than the evicted one, where neither the clock nor a bucket's interval number
    reaches its end; and a state that owes nothing gives every later sequence of checks the decisions of a fresh one,
    the sliding log as long as its running total stays within its word. -/
theorem restored_and_recovered_keys (quota : Quota) :
    (NeverLooser Gcra IntervalFits quota ∧ NeverLooser FixedWindow Always quota ∧
        NeverLooser SlidingLog Always quota ∧ NeverLooser SlidingCounter Always quota) ∧
      FreshAgrees Gcra AlwaysRoom quota ∧ FreshAgrees FixedWindow AlwaysRoom quota ∧
        FreshAgrees SlidingLog SlidingLog.Room quota ∧ FreshAgrees SlidingCounter AlwaysRoom quota :=
  ⟨⟨Gcra.neverLooser quota, FixedWindow.neverLooser quota, SlidingLog.neverLooser quota,
      SlidingCounter.neverLooser quota⟩,
    Gcra.freshAgrees quota, FixedWindow.freshAgrees quota, SlidingLog.freshAgrees quota,
    SlidingCounter.freshAgrees quota⟩

/-- A bucket of three per second, evicted with one unit spent and restored a nanosecond later: still two units left
    after another. -/
theorem restored_and_recovered_keys_after_one_unit :
    let spent := ((Gcra.new (.perSecond 3 (by decide))).checkNAt 1 0).2
    (KeyState.debt spent 0).1 = some ⟨1, 333333334⟩ ∧
      (KeyState.peek (KeyState.restore (Gcra.new (.perSecond 3 (by decide))) ⟨1, 333333334⟩ 1) 2).1.remaining ≤
        (KeyState.peek spent 2).1.remaining := by
  intro spent
  have reached : KeyState.Reached (.perSecond 3 (by decide)) 0 spent :=
    .acquire 1 (@KeyState.Reached.create _ _ _ 0 _ (by decide +kernel)) le_rfl
  have owed : (KeyState.debt spent 0).1 = some ⟨1, 333333334⟩ := by decide +kernel
  exact ⟨owed, (restored_and_recovered_keys _).1.1 0 0 1 2 spent _ _ ⟨1, 333333334⟩ reached le_rfl owed
    (by decide) le_rfl le_rfl (by decide) (by decide +kernel) (by decide) (by decide) (by decide +kernel)⟩

/-!
### A log at its ceiling
-/

theorem drained_reached {last : ℕ} (clock : last < u64Max) : KeyState.Reached maxPerNano last (drained last) := by
  induction last with
  | zero =>
      rw [← drained_zero]
      exact .acquire u32Max (@KeyState.Reached.create _ _ _ 0 _ (by decide +kernel)) le_rfl
  | succ last inductionHypothesis =>
      have reached := inductionHypothesis (by omega)
      rw [← drained_succ clock.le reached.under]
      exact .acquire u32Max reached (Nat.le_succ last)

/-- After `2^64 - 1` units a log that owes nothing admits at one reading twice what a fresh log does. -/
theorem saturated_log_outlives_fresh_one :
    KeyState.Reached maxPerNano 4294967296 (drained 4294967296) ∧
      (KeyState.debt (drained 4294967296) 4294967297).1 = none ∧
      KeyState.create maxPerNano 4294967297 = some (SlidingLog.new maxPerNano) ∧
      decisions (SlidingLog.new maxPerNano) [(u32Max, 4294967297), (u32Max, 4294967297)] = [.allow, .deny 1] ∧
      decisions (KeyState.debt (drained 4294967296) 4294967297).2
        [(u32Max, 4294967297), (u32Max, 4294967297)] = [.allow, .allow] :=
  ⟨drained_reached (by decide), by decide +kernel, by decide +kernel, by decide +kernel, by decide +kernel⟩

end RateNet
