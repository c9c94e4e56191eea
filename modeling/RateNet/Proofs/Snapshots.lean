/-
Module: RateNet.Proofs.Snapshots
Purpose: What a snapshot says about the decisions that follow it, from every state a key can reach. A
  check agrees with the units a snapshot reports and the reported wait is the least one after which the
  allowance is whole, where neither the clock nor a log's running total reaches its ceiling. A reading
  older than others can only make a decision stricter.
Trusted boundary: none
Main exports: KeyState.Reachable, snapshots_tell_the_truth, stale_reading_is_stricter
-/
import RateNet.Algo.Lawful
import Mathlib.Order.Bounds.Defs

namespace RateNet

/-- A state reached from a created one by checks, reads and resets at any readings. -/
inductive KeyState.Reachable {S : Type} [KeyState S] (quota : Quota) : S → Prop where
  | create {now : ℕ} {s : S} : KeyState.create quota now = some s → Reachable quota s
  | acquire {s : S} (n now : ℕ) : Reachable quota s → Reachable quota (KeyState.acquire s n now).2
  | peek {s : S} (now : ℕ) : Reachable quota s → Reachable quota (KeyState.peek s now).2
  | reset {s : S} (now : ℕ) : Reachable quota s → Reachable quota (KeyState.reset s now)

theorem KeyState.Reachable.under {S : Type} [KeyState S] [LawfulKeyState S] {quota : Quota} {s : S}
    (reachable : KeyState.Reachable quota s) : LawfulKeyState.Under quota s := by
  induction reachable with
  | create made => exact LawfulKeyState.create_under made
  | acquire n now _ under => exact LawfulKeyState.acquire_under n now under
  | peek now _ under => exact LawfulKeyState.peek_under now under
  | reset now _ under => exact LawfulKeyState.reset_under now under

/-!
### Stale readings
-/

/-- Units a bucket admits at one reading it admits at every later one, also where the interval number
    saturates. -/
theorem Gcra.Under.allow_later {quota : Quota} {g : Gcra} (under : g.Under quota) {n t₁ t₂ : ℕ}
    (order : t₁ ≤ t₂) (allowed : (g.checkNAt n t₁).1 = .allow) : (g.checkNAt n t₂).1 = .allow := by
  have burst := under.burst
  have decided : ∀ t, (g.checkNAt n t).1 = ((GcraParams.new quota).checkNIn g.tat n t).1 := by
    intro t
    rw [Gcra.checkNAt, under.params]
  rw [decided] at allowed ⊢
  rcases Nat.eq_zero_or_pos n with rfl | asked
  · rw [GcraParams.checkNIn, if_pos rfl]
  rcases Nat.lt_or_ge quota.burst n with impossible | possible
  · rw [GcraParams.checkNIn_impossible (by omega)] at allowed
    cases allowed
  · have intervals := GcraParams.intervalsAt_nanos_mono under.isOpen order
    rw [GcraParams.checkNIn_allow_iff under.isOpen asked (by omega)] at allowed ⊢
    simp only [satAdd] at allowed ⊢
    omega

section Stale

variable {S : Type} [KeyState S] [LawfulKeyState S] {quota : Quota} {s : S}

/-- Units admitted at one reading are admitted at every later one. -/
theorem LawfulKeyState.allow_later (under : LawfulKeyState.Under quota s) {n t₁ t₂ : ℕ} (order : t₁ ≤ t₂)
    (first : LawfulKeyState.Fits S quota t₁) (second : LawfulKeyState.Fits S quota t₂)
    (allowed : (KeyState.acquire s n t₁).1 = .allow) : (KeyState.acquire s n t₂).1 = .allow := by
  rw [LawfulKeyState.allow_iff under first] at allowed
  rw [LawfulKeyState.allow_iff under second]
  exact allowed.imp_right fun enough => enough.trans (LawfulKeyState.remaining_mono under order second)

end Stale

/-- From every reachable state, what an earlier reading admits a later one admits, and a later reading
    reports no fewer units.  `Fits` is what the later reading has to meet for the second half. -/
def StaleIsStricter (S : Type) [KeyState S] (Fits : Quota → ℕ → Prop) : Prop :=
  ∀ (quota : Quota) (s : S) (t₁ t₂ : ℕ), KeyState.Reachable quota s → t₁ ≤ t₂ →
    (∀ n, (KeyState.acquire s n t₁).1 = .allow → (KeyState.acquire s n t₂).1 = .allow) ∧
    (Fits quota t₂ → (KeyState.peek s t₁).1.remaining ≤ (KeyState.peek s t₂).1.remaining)

/-- Every reading fits. -/
def Always (_ : Quota) (_ : ℕ) : Prop := True

/-- The interval number of a reading plus the burst fits a word. -/
def IntervalFits (quota : Quota) (now : ℕ) : Prop :=
  (GcraParams.new quota).intervalsAt (nanos now) + quota.burst ≤ u64Max

instance (quota : Quota) (now : ℕ) : Decidable (IntervalFits quota now) :=
  inferInstanceAs (Decidable (_ ≤ _))

/-- A stale reading can only make a decision stricter.  Only the units a bucket reports need the interval
    number of the later reading to stay a burst below its ceiling. -/
theorem stale_reading_is_stricter :
    StaleIsStricter Gcra IntervalFits ∧ StaleIsStricter FixedWindow Always ∧
      StaleIsStricter SlidingLog Always ∧ StaleIsStricter SlidingCounter Always := by
  refine ⟨?_, ?_, ?_, ?_⟩
  · intro quota g t₁ t₂ reachable order
    exact ⟨fun n => Gcra.Under.allow_later reachable.under order,
      fun fits => LawfulKeyState.remaining_mono reachable.under order fits⟩
  · intro quota fw t₁ t₂ reachable order
    exact ⟨fun n => LawfulKeyState.allow_later reachable.under order trivial trivial,
      fun fits => LawfulKeyState.remaining_mono reachable.under order fits⟩
  · intro quota sl t₁ t₂ reachable order
    exact ⟨fun n => LawfulKeyState.allow_later reachable.under order trivial trivial,
      fun fits => LawfulKeyState.remaining_mono reachable.under order fits⟩
  · intro quota sc t₁ t₂ reachable order
    exact ⟨fun n => LawfulKeyState.allow_later reachable.under order trivial trivial,
      fun fits => LawfulKeyState.remaining_mono reachable.under order fits⟩

/-- A bucket of three per second, one unit spent: the later reading reports the unit back. -/
theorem stale_reading_is_stricter_of_one_spent :
    ((Gcra.new (.perSecond 3 (by decide))).checkNAt 1 0).2.peekAt 0 =
        Snapshot.new 3 2 333333334 ∧
      (((Gcra.new (.perSecond 3 (by decide))).checkNAt 1 0).2.peekAt 0).remaining ≤
        (((Gcra.new (.perSecond 3 (by decide))).checkNAt 1 0).2.peekAt 400000000).remaining := by
  refine ⟨by decide +kernel, ?_⟩
  have reachable : KeyState.Reachable (.perSecond 3 (by decide))
      ((Gcra.new (.perSecond 3 (by decide))).checkNAt 1 0).2 :=
    .acquire 1 0 (@KeyState.Reachable.create _ _ _ 0 _ (by decide +kernel))
  exact (stale_reading_is_stricter.1 _ _ 0 400000000 reachable (by decide)).2 (by decide +kernel)

/-- Once the interval number saturates, a later reading of an untouched bucket reports nothing left. -/
theorem saturated_reading_reports_less :
    KeyState.Reachable unitPerNano (Gcra.new unitPerNano) ∧
      ((Gcra.new unitPerNano).peekAt 0).remaining = 1 ∧
      ((Gcra.new unitPerNano).peekAt u64Max).remaining = 0 := by
  exact ⟨@KeyState.Reachable.create _ _ _ 0 _ (by decide +kernel), by decide +kernel, by decide +kernel⟩

/-!
### The least wait

Before the deadline a snapshot reports, some of the allowance is still missing.
-/

theorem Gcra.Under.missing_before_due {quota : Quota} {g : Gcra} (under : g.Under quota) {now wait : ℕ}
    (early : wait < (g.peekAt now).resetAfter) (clock : now + (g.peekAt now).resetAfter < u64Max) :
    (g.peekAt (now + wait)).remaining < quota.burst := by
  have hp := under.isOpen
  have positive := under.burst
  rw [under.peekAt_eq, Snapshot.new_resetAfter] at early clock
  split at early
  · omega
  · rename_i ahead
    rw [if_neg ahead] at clock
    have arrival : max g.tat ((GcraParams.new quota).intervalsAt (nanos now)) = g.tat := by omega
    rw [arrival, nanos_eq (by omega : now ≤ u64Max)] at early clock
    -- the arrival time has not begun by then
    have pending : (GcraParams.new quota).intervalsAt (nanos (now + wait)) < g.tat := by
      by_contra reached
      rw [nanos_eq (by omega : now + wait ≤ u64Max), GcraParams.intervalsAt_eq hp (by omega)] at reached
      have begun := (RateConversion.tickStart_le_iff hp.limit_pos hp.period_pos).2 (Nat.le_of_not_lt reached)
      have start := (GcraParams.nanosAt_eq (GcraParams.new quota) g.tat).le.trans (min_le_left _ _)
      omega
    rw [under.remaining_eq, max_eq_left pending.le]
    have sum := satAdd_le ((GcraParams.new quota).intervalsAt (nanos (now + wait))) quota.burst
    omega

theorem FixedWindow.Under.missing_before_due {quota : Quota} {fw : FixedWindow} (under : fw.Under quota)
    {now wait : ℕ} (early : wait < (fw.peek now).resetAfter)
    (clock : now + (fw.peek now).resetAfter < u64Max) :
    (fw.peek (now + wait)).remaining < quota.limit := by
  have positive := under.limit_pos
  obtain ⟨held, -, -, used⟩ := under.usedAt_eq
  rw [FixedWindow.peek_eq under, Snapshot.new_resetAfter] at early clock
  split at early
  · omega
  · rename_i some_used
    rw [if_neg some_used] at clock
    have current : fw.windowAt now = fw.latest := by
      by_contra moved
      rw [used, if_neg moved] at some_used
      exact some_used rfl
    rw [current, untilEndOf, under.period, nanos_eq (by omega : now ≤ u64Max)] at early clock
    have closes : now + wait < (fw.latest + 1) * nanos quota.period := by
      have product := min_le_left (satAdd fw.latest 1 * nanos quota.period) u64Max
      have sum := Nat.mul_le_mul_right (nanos quota.period) (satAdd_le fw.latest 1)
      rw [satMul] at early
      omega
    -- the newest window is still the one a reading is judged in
    have still : fw.windowAt (now + wait) = fw.latest := by
      have inside : fw.windowOf (nanos (now + wait)) < fw.latest + 1 := by
        rw [windowOf, under.period, Nat.div_lt_iff_lt_mul under.period_pos]
        exact lt_of_le_of_lt (nanos_le_self _) closes
      rw [windowAt]
      omega
    rw [used, if_pos current] at some_used
    rw [FixedWindow.remaining_eq under, used, if_pos still]
    omega

namespace Log

/-- The running totals, from the last expired one. -/
def levels (log : Log) : List ℕ := log.expiredTotal :: log.runs.map Run.total

/-- Every record holds units, as long as the running total is below its ceiling. -/
def Strict (log : Log) : Prop := log.total < u64Max → log.levels.Pairwise (· < ·)

variable {log : Log} {nowNs periodNs : ℕ}

theorem levels_expire (runs : List Run) (expiredTotal : ℕ) :
    (expire nowNs periodNs runs expiredTotal).levels <:+ (Log.mk runs expiredTotal).levels := by
  induction runs generalizing expiredTotal with
  | nil => exact List.suffix_rfl
  | cons front rest inductionHypothesis =>
      rw [expire]
      split
      · exact List.suffix_rfl
      · exact (inductionHypothesis front.total).trans (List.suffix_cons _ _)

theorem Strict.expireAt (strict : log.Strict) (realNowNs periodNs : ℕ) :
    (log.expireAt realNowNs periodNs).Strict := by
  intro below
  rw [total_expireAt] at below
  exact (strict below).sublist (levels_expire _ _).sublist

/-- Recording units raises the running total past every earlier one. -/
theorem Strict.record (strict : log.Strict) (sorted : log.Sorted) {n : ℕ} (asked : 1 ≤ n) (nowNs : ℕ) :
    (log.record n nowNs).Strict := by
  intro below
  rw [total_record] at below
  have sum := satAdd_eq_of_lt below
  have ordered := strict (by omega)
  have raised : ∀ level ∈ log.levels, level < satAdd log.total n := by
    intro level member
    rcases List.mem_cons.1 member with rfl | member
    · have bound := sorted.expiredTotal_le_total
      omega
    · obtain ⟨run, held, rfl⟩ := List.mem_map.1 member
      have bound := sorted.le_total held
      omega
  rcases log.runs_record n nowNs with ⟨back, split, -, runs⟩ | ⟨-, runs⟩
  · have kept : List.Sublist (log.expiredTotal :: log.runs.dropLast.map Run.total) log.levels :=
      ((List.dropLast_sublist _).map _).cons_cons _
    rw [levels, expiredTotal_record, runs, List.map_append, ← List.cons_append, List.pairwise_append]
    refine ⟨ordered.sublist kept, List.pairwise_singleton _ _, ?_⟩
    intro level member last here
    rw [List.mem_singleton.1 here]
    exact raised level (kept.subset member)
  · rw [levels, expiredTotal_record, runs, List.map_append, ← List.cons_append, List.pairwise_append]
    refine ⟨ordered, List.pairwise_singleton _ _, ?_⟩
    intro level member last here
    rw [List.mem_singleton.1 here]
    exact raised level member

/-- A record left in a log holds units of the window. -/
theorem Strict.inWindow_pos (strict : log.Strict) (below : log.total < u64Max) (some_left : log.runs ≠ []) :
    0 < log.inWindow := by
  obtain ⟨back, newest⟩ := Option.ne_none_iff_exists'.1 (mt List.getLast?_eq_none_iff.1 some_left)
  have total : log.total = back.total := by
    rw [Log.total, newest]
    rfl
  have more := (List.pairwise_cons.1 (strict below)).1 back.total
    (List.mem_map_of_mem (List.mem_of_getLast? newest))
  rw [inWindow]
  omega

/-- A log whose newest record is live keeps it. -/
theorem expire_ne_nil {runs : List Run} {back : Run} (newest : runs.getLast? = some back)
    (live : satAdd back.atNs periodNs > nowNs) (expiredTotal : ℕ) :
    (expire nowNs periodNs runs expiredTotal).runs ≠ [] := by
  induction runs generalizing expiredTotal with
  | nil => cases newest
  | cons front rest inductionHypothesis =>
      rw [expire]
      split
      · exact List.cons_ne_nil _ _
      · rename_i gone
        cases rest with
        | nil =>
            cases newest
            exact absurd live gone
        | cons next rest => exact inductionHypothesis newest front.total

end Log

/-- Every reachable log is strict. -/
theorem SlidingLog.strict_of_reachable {quota : Quota} {sl : SlidingLog}
    (reachable : KeyState.Reachable quota sl) : sl.log.Strict := by
  induction reachable with
  | create made =>
      obtain ⟨-, rfl⟩ := Option.ite_some_none_eq_some.1 made
      exact fun _ => List.pairwise_singleton _ _
  | @acquire sl n now reached strict =>
      have under : sl.Under quota := reached.under
      have aged : (sl.aged now).log.Strict := strict.expireAt _ _
      show (sl.acquire n now).2.log.Strict
      rcases Nat.eq_zero_or_pos n with rfl | asked
      · rw [acquire_zero]
        exact strict
      rcases Nat.lt_or_ge quota.limit n with impossible | possible
      · rw [acquire_impossible under impossible]
        exact strict
      rcases Nat.lt_or_ge quota.limit (sl.usedAt now + n) with full | fits
      · obtain ⟨wait, denied⟩ := acquire_full under possible full
        rw [denied]
        exact aged
      · rw [acquire_fits under asked fits]
        exact aged.record (under.aged now).sorted asked _
  | @peek sl now reached strict =>
      show (sl.peek now).2.log.Strict
      rw [peek_eq reached.under]
      exact strict.expireAt _ _
  | reset now _ _ => exact fun _ => List.pairwise_singleton _ _

theorem SlidingLog.Under.missing_before_due {quota : Quota} {sl : SlidingLog} (under : sl.Under quota)
    (strict : sl.log.Strict) (below : sl.log.total < u64Max) {now wait : ℕ}
    (early : wait < (sl.peek now).1.resetAfter) (clock : now + (sl.peek now).1.resetAfter < u64Max) :
    (sl.peek (now + wait)).1.remaining < quota.limit := by
  have positive := under.limit_pos
  have aged := under.aged now
  have again : sl.usedAt (now + wait) = (sl.aged now).usedAt (now + wait) := by
    rw [usedAt, usedAt, aged_aged, max_eq_right (Nat.le_add_right now wait)]
  have total : (sl.aged now).log.total < u64Max := by
    rw [SlidingLog.aged, Log.total_expireAt]
    exact below
  have strict' : (sl.aged now).log.Strict := strict.expireAt _ _
  rw [peek_eq under, Snapshot.new_resetAfter] at early clock
  rw [SlidingLog.remaining_eq under, again]
  generalize sl.aged now = sl' at aged total strict' early clock ⊢
  cases newest : sl'.log.runs.getLast? with
  | none =>
      rw [newest] at early
      exact absurd early (Nat.not_lt_zero _)
  | some back =>
      rw [newest, Option.elim_some, nanos_eq (by omega : now ≤ u64Max)] at early clock
      have live : satAdd back.atNs sl'.periodNs > sl'.log.instant (nanos (now + wait)) := by
        have period := under.period_pos
        rw [Log.instant_of_getLast? newest, aged.period, nanos_eq (by omega : now + wait ≤ u64Max)]
        have sum : satAdd back.atNs (nanos quota.period) = back.atNs + nanos quota.period :=
          satAdd_eq_of_lt (by omega)
        omega
      have held : 0 < sl'.usedAt (now + wait) := by
        apply (strict'.expireAt (nanos (now + wait)) sl'.periodNs).inWindow_pos
        · rw [Log.total_expireAt]
          exact total
        · exact Log.expire_ne_nil newest live _
      omega

theorem SlidingCounter.Under.missing_before_due {quota : Quota} {sc : SlidingCounter}
    (under : sc.Under quota) {now wait : ℕ} (early : wait < (sc.peek now).1.resetAfter)
    (clock : now + (sc.peek now).1.resetAfter < u64Max) :
    (sc.peek (now + wait)).1.remaining < quota.limit := by
  have aged := under.aged now
  have again : sc.aged (now + wait) = (sc.aged now).aged (now + wait) := by
    rw [under.aged_aged, max_eq_right (Nat.le_add_right now wait)]
  have window := under.aged_window now
  have bound := remainingAt_le under (now + wait)
  have ahead := under.le_instant now
  have offset := Nat.mod_lt (sc.instant (nanos now)) under.period_pos
  have split := under.instant_split now
  rw [peek_eq under, Snapshot.new_resetAfter, resetAfter, under.period] at early clock
  rw [nanos_eq (by omega : now ≤ u64Max)] at early clock ahead offset split
  -- a reading before the end of the window after next is judged no later than in the next one
  have reached : ∀ count, now + wait < (sc.windowAt now + 1 + count) * nanos quota.period →
      (sc.aged now).windowAt (now + wait) ≤ sc.windowAt now + count := by
    intro count before
    have inside : nanos (now + wait) / nanos quota.period < sc.windowAt now + 1 + count := by
      rw [Nat.div_lt_iff_lt_mul under.period_pos]
      exact lt_of_le_of_lt (nanos_le_self _) before
    rw [windowAt, window, aged.period]
    omega
  have start : sc.windowAt now ≤ (sc.aged now).windowAt (now + wait) := window.ge.trans (le_max_left _ _)
  rw [SlidingCounter.remaining_eq under]
  apply lt_of_le_of_ne bound
  rw [ne_eq, remainingAt_eq_limit under, under.load_eq_zero, again]
  rintro ⟨prev, curr⟩
  rw [aged.aged_eq] at prev curr
  by_cases current : (sc.aged now).curr > 0
  · simp only [if_pos current] at early clock
    have waits : satAdd (nanos quota.period - sc.instant now % nanos quota.period) (nanos quota.period) ≠
        0 := by
      simp only [satAdd, u64Max]
      omega
    rw [if_neg waits] at early clock
    have end_ := reached 1 (by
      simp only [satAdd] at early
      rw [Nat.add_mul, Nat.add_mul]
      omega)
    by_cases same : (sc.aged now).windowAt (now + wait) = (sc.aged now).window
    · rw [if_pos same] at curr
      omega
    · rw [if_neg same] at prev
      simp only at prev
      rw [if_pos (by omega)] at prev
      omega
  · by_cases previous : (sc.aged now).prev > 0
    · simp only [if_neg current, if_pos previous] at early clock
      rw [if_neg (by omega)] at early
      have end_ := reached 0 (by
        simp only [satAdd] at early
        rw [Nat.add_mul, Nat.add_mul]
        omega)
      rw [if_pos (by omega)] at prev
      omega
    · simp only [if_neg current, if_neg previous, if_true] at early
      omega

section Truth

variable {S : Type} [KeyState S] [LawfulKeyState S] {quota : Quota} {s : S} {now : ℕ}

/-- The reported wait is the least one, where the allowance is not whole any earlier. -/
theorem LawfulKeyState.isLeast_resetAfter (under : LawfulKeyState.Under quota s)
    (clock : now + (KeyState.peek s now).1.resetAfter < u64Max)
    (fits : LawfulKeyState.Fits S quota (now + (KeyState.peek s now).1.resetAfter))
    (missing : ∀ wait < (KeyState.peek s now).1.resetAfter,
      (KeyState.peek s (now + wait)).1.remaining < capacity (LawfulKeyState.algorithm S) quota) :
    IsLeast {wait | (KeyState.peek s (now + wait)).1.remaining = (KeyState.peek s now).1.limit}
      (KeyState.peek s now).1.resetAfter := by
  have limit := LawfulKeyState.peek_limit now under
  constructor
  · show _ = _
    rw [limit]
    exact LawfulKeyState.whole_of_due under le_rfl clock fits
  · intro wait whole
    by_contra early
    have short := missing wait (Nat.lt_of_not_le early)
    change _ = _ at whole
    omega

end Truth

/-- From every state reachable under `quota`, at the reading `now`, where the clock stays below its ceiling until
    the reported deadline: a check is admitted exactly when it asks for no more than the snapshot reports, and
    the reported wait is the least one after which the allowance is whole.  `Counts` is what the state has
    to meet for the second half. -/
def SnapshotTellsTruth (S : Type) [KeyState S] (Fits : Quota → ℕ → Prop) (Counts : S → Prop) (quota : Quota)
    (now : ℕ) : Prop :=
  ∀ s : S, KeyState.Reachable quota s → now + (KeyState.peek s now).1.resetAfter < u64Max →
    Fits quota (now + (KeyState.peek s now).1.resetAfter) →
    (∀ n, 1 ≤ n → n ≤ (KeyState.peek s now).1.limit →
      ((KeyState.acquire s n now).1 = .allow ↔ n ≤ (KeyState.peek s now).1.remaining)) ∧
    (Counts s → IsLeast {wait | (KeyState.peek s (now + wait)).1.remaining = (KeyState.peek s now).1.limit}
      (KeyState.peek s now).1.resetAfter)

theorem IntervalFits.earlier {quota : Quota} (admits : admitsAnything .leakyBucket quota = true) {a b : ℕ}
    (fits : IntervalFits quota b) (h : a ≤ b) : IntervalFits quota a := by
  have intervals := GcraParams.intervalsAt_nanos_mono (GcraParams.new_isOpen_of_admits admits) h
  rw [IntervalFits] at fits ⊢
  omega

/-- Snapshots tell the truth.  The least wait of a sliding log needs its running total to be below the
    ceiling of a word. -/
theorem snapshots_tell_the_truth (quota : Quota) (now : ℕ) :
    SnapshotTellsTruth Gcra IntervalFits (fun _ => True) quota now ∧
      SnapshotTellsTruth FixedWindow Always (fun _ => True) quota now ∧
      SnapshotTellsTruth SlidingLog Always (fun sl => sl.log.total < u64Max) quota now ∧
      SnapshotTellsTruth SlidingCounter Always (fun _ => True) quota now := by
  refine ⟨?_, ?_, ?_, ?_⟩
  · intro g reachable clock fits
    have under : g.Under quota := reachable.under
    have early := fits.earlier under.admits (Nat.le_add_right _ _)
    refine ⟨fun n asked _ => (under.allow_iff early).trans (or_iff_right (Nat.pos_iff_ne_zero.1 asked)), ?_⟩
    intro _
    exact LawfulKeyState.isLeast_resetAfter reachable.under clock fits
      fun wait early => under.missing_before_due early clock
  · intro fw reachable clock fits
    have under : fw.Under quota := reachable.under
    refine ⟨fun n asked _ => under.allow_iff.trans (or_iff_right (Nat.pos_iff_ne_zero.1 asked)), ?_⟩
    intro _
    exact LawfulKeyState.isLeast_resetAfter reachable.under clock fits
      fun wait early => under.missing_before_due early clock
  · intro sl reachable clock fits
    have under : sl.Under quota := reachable.under
    refine ⟨fun n asked _ => under.allow_iff.trans (or_iff_right (Nat.pos_iff_ne_zero.1 asked)), ?_⟩
    intro below
    exact LawfulKeyState.isLeast_resetAfter reachable.under clock fits fun wait early =>
      under.missing_before_due (SlidingLog.strict_of_reachable reachable) below early clock
  · intro sc reachable clock fits
    have under : sc.Under quota := reachable.under
    refine ⟨fun n asked _ => under.allow_iff.trans (or_iff_right (Nat.pos_iff_ne_zero.1 asked)), ?_⟩
    intro _
    exact LawfulKeyState.isLeast_resetAfter reachable.under clock fits
      fun wait early => under.missing_before_due early clock

/-- A log of two per second with one unit recorded: its snapshot is truthful, and waits the whole period. -/
theorem snapshots_tell_the_truth_of_one_recorded :
    ((SlidingLog.new (.perSecond 2 (by decide))).acquire 1 0).2.peek 1 =
        (.new 2 1 999999999, ((SlidingLog.new (.perSecond 2 (by decide))).acquire 1 0).2) ∧
      IsLeast {wait | (((SlidingLog.new (.perSecond 2 (by decide))).acquire 1 0).2.peek
        (1 + wait)).1.remaining = 2} 999999999 := by
  have reachable : KeyState.Reachable (.perSecond 2 (by decide))
      ((SlidingLog.new (.perSecond 2 (by decide))).acquire 1 0).2 :=
    .acquire 1 0 (@KeyState.Reachable.create _ _ _ 0 _ (by decide +kernel))
  refine ⟨by decide +kernel, ?_⟩
  exact ((snapshots_tell_the_truth _ 1).2.2.1 _ reachable (by decide +kernel) trivial).2 (by decide +kernel)

/-!
### A saturated log

A limit of `u32::MAX` units per nanosecond, all of them taken at each of the readings 0, 1, 2, … .  Each
record has aged out by the next reading, and the running total reaches its ceiling after `2^32 + 1` of them.
-/

/-- `u32::MAX` units per nanosecond. -/
def maxPerNano : Quota :=
  { unitPerNano with limit := u32Max, burst := u32Max, limit_le := le_rfl, burst_le := le_rfl }

/-- A log with one record, made at `last`. -/
def lone (last total expiredTotal : ℕ) : SlidingLog :=
  { log := { runs := [⟨last, total⟩], expiredTotal }, periodNs := 1, limit := u32Max }

/-- The record ages out at the next reading, and the whole limit fits again. -/
theorem lone_acquire {last total expiredTotal : ℕ} (clock : last + 1 ≤ u64Max)
    (under : (lone last total expiredTotal).Under maxPerNano) :
    ((lone last total expiredTotal).acquire u32Max (last + 1)).2 =
      lone (last + 1) (satAdd total u32Max) total := by
  have instant : max last (nanos (last + 1)) = last + 1 := by
    rw [nanos_eq clock]
    omega
  have aged : ((lone last total expiredTotal).aged (last + 1)).log = ⟨[], total⟩ := by
    have gone : ¬ satAdd last 1 > last + 1 := Nat.not_lt.2 (satAdd_le last 1)
    show Log.expire (max last (nanos (last + 1))) 1 [⟨last, total⟩] expiredTotal = _
    rw [instant, Log.expire, if_neg gone, Log.expire]
  have used : (lone last total expiredTotal).usedAt (last + 1) = 0 := by
    rw [SlidingLog.usedAt, aged]
    exact Nat.sub_self _
  have fits : (lone last total expiredTotal).usedAt (last + 1) + u32Max ≤ maxPerNano.limit := by
    rw [used, Nat.zero_add]
    exact le_rfl
  rw [SlidingLog.acquire_fits under (by decide) fits, aged]
  show lone (max last (nanos (last + 1))) (satAdd total u32Max) total = _
  rw [instant]

/-- The log after the readings up to `last`. -/
def drained (last : ℕ) : SlidingLog :=
  lone last (min ((last + 1) * u32Max) u64Max) (min (last * u32Max) u64Max)

theorem drained_zero : ((SlidingLog.new maxPerNano).acquire u32Max 0).2 = drained 0 := by decide +kernel

theorem drained_succ {last : ℕ} (clock : last + 1 ≤ u64Max) (under : (drained last).Under maxPerNano) :
    ((drained last).acquire u32Max (last + 1)).2 = drained (last + 1) := by
  have sum : satAdd (min ((last + 1) * u32Max) u64Max) u32Max = min ((last + 1 + 1) * u32Max) u64Max := by
    rw [satAdd, Nat.add_mul (last + 1) 1, Nat.one_mul]
    omega
  rw [drained, lone_acquire clock under, sum, drained]

theorem drained_reachable {last : ℕ} (clock : last < u64Max) :
    KeyState.Reachable maxPerNano (drained last) := by
  induction last with
  | zero =>
      rw [← drained_zero]
      exact .acquire u32Max 0 (@KeyState.Reachable.create _ _ _ 0 _ (by decide +kernel))
  | succ last inductionHypothesis =>
      have reached := inductionHypothesis (by omega)
      rw [← drained_succ clock.le reached.under]
      exact .acquire u32Max (last + 1) reached

/-- Once the running total has stopped at its ceiling, a log reports its whole limit together with a
    wait. -/
theorem saturated_log_waits_when_whole :
    KeyState.Reachable maxPerNano (drained 4294967297) ∧
      (drained 4294967297).peek 4294967297 = (.new u32Max u32Max 1, drained 4294967297) ∧
      ¬ IsLeast {wait | ((drained 4294967297).peek (4294967297 + wait)).1.remaining = u32Max} 1 := by
  refine ⟨drained_reachable (by decide), by decide +kernel, ?_⟩
  rintro ⟨-, least⟩
  have whole : ((drained 4294967297).peek (4294967297 + 0)).1.remaining = u32Max := by decide +kernel
  exact absurd (least whole) (by decide)

end RateNet
