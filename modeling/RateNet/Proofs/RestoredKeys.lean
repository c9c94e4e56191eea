/-
Module: RateNet.Proofs.RestoredKeys
Purpose: A key restored from what it owed when it was evicted, or from any larger debt, is never looser than
  the evicted state: at every later reading it has no more units left. The buckets resume at the
  deadline; the windows charge the units at the return, in a window no earlier than any the evicted
  state counted in, and everything the evicted state held has gone by the time the charge has.
Trusted boundary: none
Main exports: KeyState.Reached, KeyState.ReadBy, NeverLooser, Gcra.neverLooser, FixedWindow.neverLooser,
  SlidingLog.neverLooser, SlidingCounter.neverLooser
-/
import RateNet.Algo.Lawful
import RateNet.Proofs.Snapshots

namespace RateNet

open RateConversion

/-- A state reached from a created one by checks and reads at readings that do not decrease, the last of them
    at the given one. -/
inductive KeyState.Reached {S : Type} [KeyState S] (quota : Quota) : ℕ → S → Prop where
  | create {now : ℕ} {s : S} : KeyState.create quota now = some s → Reached quota now s
  | acquire {last : ℕ} {s : S} (n : ℕ) {now : ℕ} : Reached quota last s → last ≤ now →
      Reached quota now (KeyState.acquire s n now).2
  | peek {last : ℕ} {s : S} {now : ℕ} : Reached quota last s → last ≤ now →
      Reached quota now (KeyState.peek s now).2

/-- A state reached under `quota` by `evicted` and evicted there, what it owed, and a larger debt restored into a fresh state at
    `returned`: the restored state has no more units left than the evicted one at any later reading, where neither
    the deadline nor the readings reach the clock's end. -/
def NeverLooser (S : Type) [KeyState S] (Fits : Quota → ℕ → Prop) (quota : Quota) : Prop :=
  ∀ (last evicted returned t : ℕ) (s fresh : S) (owed debt : Debt),
    KeyState.Reached quota last s → last ≤ evicted → (KeyState.debt s evicted).1 = some owed →
    owed.until < u64Max → owed.spent ≤ debt.spent → owed.until ≤ debt.until → evicted ≤ returned →
    KeyState.create quota returned = some fresh → returned ≤ t → t < u64Max → Fits quota t →
    (KeyState.peek (KeyState.restore fresh debt returned) t).1.remaining ≤
      (KeyState.peek (KeyState.debt s evicted).2 t).1.remaining

theorem KeyState.Reached.reachable {S : Type} [KeyState S] {quota : Quota} {last : ℕ} {s : S}
    (reached : KeyState.Reached quota last s) : KeyState.Reachable quota s := by
  induction reached with
  | create made => exact .create made
  | acquire n _ _ earlier => exact .acquire n _ earlier
  | peek _ _ earlier => exact .peek _ earlier

section ReadBy

variable {S : Type} [KeyState S] {quota : Quota} {now later : ℕ} {s : S}

/-- Reached by readings no later than `now`. -/
def KeyState.ReadBy (quota : Quota) (now : ℕ) (s : S) : Prop := ∃ last ≤ now, KeyState.Reached quota last s

theorem KeyState.ReadBy.of_le (read : KeyState.ReadBy quota now s) (order : now ≤ later) :
    KeyState.ReadBy quota later s := by
  obtain ⟨last, before, reached⟩ := read
  exact ⟨last, before.trans order, reached⟩

theorem KeyState.ReadBy.acquire (read : KeyState.ReadBy quota now s) (n : ℕ) :
    KeyState.ReadBy quota now (KeyState.acquire s n now).2 := by
  obtain ⟨last, before, reached⟩ := read
  exact ⟨now, le_rfl, reached.acquire n before⟩

theorem KeyState.ReadBy.peek (read : KeyState.ReadBy quota now s) :
    KeyState.ReadBy quota now (KeyState.peek s now).2 := by
  obtain ⟨last, before, reached⟩ := read
  exact ⟨now, le_rfl, reached.peek before⟩

end ReadBy

section Lawful

variable {S : Type} [KeyState S] [LawfulKeyState S] {quota : Quota} {s : S}

theorem KeyState.Reached.under {last : ℕ} (reached : KeyState.Reached quota last s) :
    LawfulKeyState.Under quota s :=
  reached.reachable.under

theorem KeyState.ReadBy.under {now : ℕ} (read : KeyState.ReadBy quota now s) : LawfulKeyState.Under quota s := by
  obtain ⟨last, -, reached⟩ := read
  exact reached.under

/-- A state whose deadline has passed has its whole allowance again, also after the read at the eviction. -/
theorem whole_after_deadline (under : LawfulKeyState.Under quota s) {evicted t : ℕ} {owed : Debt}
    (owes : (KeyState.debt s evicted).1 = some owed) (passed : owed.until ≤ t) (clock : t < u64Max)
    (fits : LawfulKeyState.Fits S quota t) :
    (KeyState.peek (KeyState.debt s evicted).2 t).1.remaining =
      capacity (LawfulKeyState.algorithm S) quota := by
  rw [LawfulKeyState.debt_eq] at owes ⊢
  obtain ⟨-, -, deadline⟩ := Snapshot.debt_eq_some.1 owes
  have due : evicted + (KeyState.peek s evicted).1.resetAfter ≤ t := by
    have far := u64Max_lt_durationMax
    rw [deadline, durationAdd] at passed
    omega
  have whole := LawfulKeyState.whole_of_due under due clock fits
  have aged := LawfulKeyState.remaining_aged evicted t under
  have bound := (KeyState.peek (KeyState.peek s evicted).2 t).1.remaining_le
  rw [LawfulKeyState.peek_limit t (LawfulKeyState.peek_under evicted under)] at bound
  exact le_antisymm bound (whole ▸ aged)

/-- The windows: never looser as soon as a charge at the return leaves no more than the evicted state has. -/
theorem neverLooser_of_charge {Fits : Quota → ℕ → Prop} {quota : Quota}
    (fits : ∀ {t}, Fits quota t → LawfulKeyState.Fits S quota t)
    (default : ∀ (fresh : S) debt now, KeyState.restore fresh debt now = defaultRestore fresh debt now)
    (charged : ∀ {last evicted returned t units} {s fresh : S}, KeyState.Reached quota last s →
      last ≤ evicted → evicted ≤ returned → returned ≤ t → KeyState.create quota returned = some fresh →
      1 ≤ units → units ≤ capacity (LawfulKeyState.algorithm S) quota →
      capacity (LawfulKeyState.algorithm S) quota ≤ (KeyState.peek s evicted).1.remaining + units →
      (KeyState.peek (charge fresh units returned) t).1.remaining ≤ (KeyState.peek s t).1.remaining) :
    NeverLooser S Fits quota := by
  intro last evicted returned t s fresh owed debt reached before owes deadline spent later after made
    onward clock fits'
  have under := reached.under
  have opened := LawfulKeyState.create_under made
  have limit := LawfulKeyState.peek_limit returned opened
  rcases Nat.lt_or_ge returned debt.until with owing | passed
  · rw [LawfulKeyState.debt_eq] at owes ⊢
    obtain ⟨missing, units, -⟩ := Snapshot.debt_eq_some.1 owes
    rw [LawfulKeyState.peek_limit evicted under] at missing units
    rw [default, defaultRestore_eq limit (by omega), if_neg (by omega)]
    refine le_trans ?_ (LawfulKeyState.remaining_aged evicted t under)
    exact charged reached before after onward made (by omega) (min_le_right _ _) (by omega)
  · -- the debt is repaid by the return, so the evicted state is whole
    rw [whole_after_deadline under owes (later.trans (passed.trans onward)) clock (fits fits')]
    have bound := (KeyState.peek (KeyState.restore fresh debt returned) t).1.remaining_le
    rw [LawfulKeyState.peek_limit t (LawfulKeyState.restore_under debt returned opened)] at bound
    exact bound

end Lawful

/-!
### The leaky bucket
-/

theorem Gcra.neverLooser (quota : Quota) : NeverLooser Gcra IntervalFits quota := by
  intro last evicted returned t g fresh owed debt reached before owes deadline spent later after made
    onward clock fits
  have under : g.Under quota := reached.under
  obtain ⟨admits, rfl⟩ := Option.ite_some_none_eq_some.1 made
  rcases Nat.lt_or_ge returned debt.until with owing | passed
  · have hp := under.isOpen
    obtain ⟨-, -, until_eq⟩ := Snapshot.debt_eq_some.1 owes
    change owed.until = durationAdd evicted (g.peekAt evicted).resetAfter at until_eq
    have reading : evicted < u64Max := by
      have far := u64Max_lt_durationMax
      rw [until_eq, durationAdd] at deadline
      omega
    rw [under.deadline_eq reading] at until_eq
    have start : (GcraParams.new quota).nanosAt g.tat = tickStart (GcraParams.new quota).limit
        (GcraParams.new quota).periodNs g.tat := by
      rw [GcraParams.nanosAt_eq] at until_eq ⊢
      omega
    -- the restored arrival time is no earlier than the evicted one
    have arrival : g.tat ≤ (GcraParams.new quota).restoreUntilIn 0 debt.until :=
      GcraParams.le_restoreUntilIn hp (by omega) (by omega)
    have restored : KeyState.restore (Gcra.new quota) debt returned =
        ⟨(GcraParams.new quota).restoreUntilIn 0 debt.until, .new quota⟩ := if_pos owing
    have kept : Gcra.Under quota ⟨(GcraParams.new quota).restoreUntilIn 0 debt.until, .new quota⟩ := ⟨rfl, admits⟩
    rw [restored]
    show (Gcra.peekAt _ t).remaining ≤ (g.peekAt t).remaining
    rw [kept.remaining_eq, under.remaining_eq]
    exact min_le_min_right _ (Nat.sub_le_sub_left (max_le_max_right _ arrival) _)
  · have kept := LawfulKeyState.restore_under debt returned (LawfulKeyState.create_under made)
    rw [whole_after_deadline under owes (later.trans (passed.trans onward)) clock fits]
    have bound := (KeyState.peek (KeyState.restore (Gcra.new quota) debt returned) t).1.remaining_le
    rw [LawfulKeyState.peek_limit t kept] at bound
    exact bound

/-!
### The fixed window
-/

namespace FixedWindow

variable {quota : Quota} {fw : FixedWindow} {last : ℕ}

/-- Readings that do not decrease open no window ahead of the last of them. -/
theorem latest_le_of_reached (reached : KeyState.Reached quota last fw) :
    fw.latest ≤ nanos last / nanos quota.period := by
  induction reached with
  | create made =>
      obtain ⟨-, rfl⟩ := Option.ite_some_none_eq_some.1 made
      exact le_rfl
  | @acquire last fw n now reached before inductionHypothesis =>
      have under : fw.Under quota := reached.under
      have mono : nanos last / nanos quota.period ≤ nanos now / nanos quota.period :=
        Nat.div_le_div_right (nanos_mono before)
      show (fw.acquire n now).2.latest ≤ _
      rcases Nat.eq_zero_or_pos n with rfl | asked
      · rw [acquire_zero]
        exact inductionHypothesis.trans mono
      rcases Nat.lt_or_ge quota.limit n with impossible | possible
      · rw [acquire_impossible under impossible]
        exact inductionHypothesis.trans mono
      rcases Nat.lt_or_ge quota.limit (fw.usedAt now + n) with full | fits
      · rw [acquire_full under possible full]
        exact inductionHypothesis.trans mono
      · rw [acquire_fits under asked fits]
        show max (nanos now / fw.periodNs) fw.latest ≤ _
        rw [under.period]
        exact max_le le_rfl (inductionHypothesis.trans mono)
  | peek _ before inductionHypothesis =>
      exact inductionHypothesis.trans (Nat.div_le_div_right (nanos_mono before))

theorem neverLooser (quota : Quota) : NeverLooser FixedWindow Always quota := by
  refine neverLooser_of_charge (fun _ => trivial) (fun _ _ _ => rfl) ?_
  intro last evicted returned t units fw fresh reached before after onward made asked possible covers
  have under : fw.Under quota := reached.under
  obtain ⟨admits, rfl⟩ := Option.ite_some_none_eq_some.1 made
  have opened := new_under admits returned
  have newest := latest_le_of_reached reached
  change quota.limit ≤ (fw.peek evicted).remaining + units at covers
  change units ≤ quota.limit at possible
  show (((FixedWindow.new quota returned).acquire units returned).2.peek t).remaining ≤ (fw.peek t).remaining
  rw [remaining_eq (opened.acquire units returned), remaining_eq under]
  rw [remaining_eq under] at covers
  have used := under.usedAt_le evicted
  have windows : nanos returned / nanos quota.period ≤ nanos t / nanos quota.period :=
    Nat.div_le_div_right (nanos_mono onward)
  have starts : nanos last / nanos quota.period ≤ nanos returned / nanos quota.period :=
    Nat.div_le_div_right (nanos_mono (before.trans after))
  apply Nat.sub_le_sub_left
  have first : (FixedWindow.new quota returned).windowAt returned = nanos returned / nanos quota.period :=
    max_self _
  have charged : ((FixedWindow.new quota returned).acquire units returned).2.usedAt t =
      if nanos t / nanos quota.period = nanos returned / nanos quota.period then units else 0 := by
    have empty := usedAt_new quota returned returned
    rw [acquire_fits opened asked (by omega), empty, Nat.zero_add, first]
    rw [usedAt_of_word rfl (possible.trans quota.limit_le)]
    show (if max (nanos t / nanos quota.period) (nanos returned / nanos quota.period) = _ then _ else _) = _
    rw [max_eq_left windows]
  rw [charged]
  split
  · exact (under.usedAt_anti (after.trans onward)).trans (by omega)
  · -- in a later window the evicted state counts nothing either
    obtain ⟨held, -, -, counts⟩ := under.usedAt_eq
    rw [counts, if_neg]
    · rw [windowAt, windowOf, under.period]
      omega

end FixedWindow

/-!
### The sliding log
-/

namespace SlidingLog

variable {quota : Quota} {sl : SlidingLog} {last : ℕ}

/-- Readings that do not decrease leave no record ahead of the last of them. -/
theorem runs_le_of_reached (reached : KeyState.Reached quota last sl) :
    ∀ run ∈ sl.log.runs, run.atNs ≤ nanos last := by
  induction reached with
  | create made =>
      obtain ⟨-, rfl⟩ := Option.ite_some_none_eq_some.1 made
      intro run member
      cases member
  | @acquire last sl n now reached before inductionHypothesis =>
      have under : sl.Under quota := reached.under
      have still : ∀ run ∈ sl.log.runs, run.atNs ≤ nanos now :=
        fun run member => (inductionHypothesis run member).trans (nanos_mono before)
      have aged : ∀ run ∈ (sl.aged now).log.runs, run.atNs ≤ nanos now :=
        fun run member => still run ((Log.runs_expire_suffix _ _).subset member)
      show ∀ run ∈ (sl.acquire n now).2.log.runs, run.atNs ≤ nanos now
      rcases Nat.eq_zero_or_pos n with rfl | asked
      · rw [acquire_zero]
        exact still
      rcases Nat.lt_or_ge quota.limit n with impossible | possible
      · rw [acquire_impossible under impossible]
        exact still
      rcases Nat.lt_or_ge quota.limit (sl.usedAt now + n) with full | fits
      · obtain ⟨wait, denied⟩ := acquire_full under possible full
        rw [denied]
        exact aged
      · rw [acquire_fits under asked fits]
        intro run member
        change run ∈ ((sl.aged now).log.record n (sl.log.instant (nanos now))).runs at member
        have here := Log.instant_le still le_rfl
        rcases Log.runs_record (sl.aged now).log n (sl.log.instant (nanos now)) with
          ⟨back, -, -, runs⟩ | ⟨-, runs⟩
        · rw [runs] at member
          rcases List.mem_append.1 member with earlier | newest
          · exact aged run (List.dropLast_subset _ earlier)
          · rw [List.mem_singleton.1 newest]
            exact here
        · rw [runs] at member
          rcases List.mem_append.1 member with earlier | newest
          · exact aged run earlier
          · rw [List.mem_singleton.1 newest]
            exact here
  | @peek last sl now reached before inductionHypothesis =>
      have under : sl.Under quota := reached.under
      show ∀ run ∈ (sl.peek now).2.log.runs, run.atNs ≤ nanos now
      rw [peek_eq under]
      intro run member
      exact (inductionHypothesis run ((Log.runs_expire_suffix _ _).subset member)).trans (nanos_mono before)

theorem neverLooser (quota : Quota) : NeverLooser SlidingLog Always quota := by
  refine neverLooser_of_charge (fun _ => trivial) (fun _ _ _ => rfl) ?_
  intro last evicted returned t units sl fresh reached before after onward made asked possible covers
  have under : sl.Under quota := reached.under
  obtain ⟨admits, rfl⟩ := Option.ite_some_none_eq_some.1 made
  have opened := new_under admits
  have records := runs_le_of_reached reached
  change quota.limit ≤ (sl.peek evicted).1.remaining + units at covers
  change units ≤ quota.limit at possible
  have unread : (KeyState.peek (SlidingLog.new quota) returned).2 = SlidingLog.new quota := by
    show ((SlidingLog.new quota).peek returned).2 = _
    rw [peek_eq opened]
    rfl
  rw [charge, unread]
  show (((SlidingLog.new quota).acquire units returned).2.peek t).1.remaining ≤ (sl.peek t).1.remaining
  rw [remaining_eq (opened.acquire units returned), remaining_eq under,
    usedAt_acquire_new admits asked possible onward]
  rw [remaining_eq under] at covers
  have used := under.usedAt_le evicted
  apply Nat.sub_le_sub_left
  split
  · exact (under.usedAt_anti (after.trans onward)).trans (by omega)
  · -- every record of the evicted state is at least as old as the charge
    rename_i gone
    have first : ∀ run ∈ sl.log.runs, satAdd run.atNs sl.periodNs ≤ sl.log.instant (nanos t) := by
      intro run member
      have older := (records run member).trans (nanos_mono (before.trans after))
      have reach := sl.log.le_instant (nanos t)
      rw [under.period]
      simp only [satAdd] at gone ⊢
      omega
    exact (Log.inWindow_expire_of_gone _ _ first).le

end SlidingLog

/-!
### The sliding counter
-/

namespace SlidingCounter

variable {quota : Quota} {sc : SlidingCounter} {last : ℕ}

/-- Readings that do not decrease roll to no window ahead of the last of them. -/
theorem window_le_of_reached (reached : KeyState.Reached quota last sc) :
    sc.window ≤ nanos last / nanos quota.period := by
  induction reached with
  | create made =>
      obtain ⟨-, rfl⟩ := Option.ite_some_none_eq_some.1 made
      exact le_rfl
  | @acquire last sc n now reached before inductionHypothesis =>
      have under : sc.Under quota := reached.under
      have mono : nanos last / nanos quota.period ≤ nanos now / nanos quota.period :=
        Nat.div_le_div_right (nanos_mono before)
      have aged : (sc.aged now).window ≤ nanos now / nanos quota.period := by
        rw [under.aged_window, windowAt, under.period]
        exact max_le (inductionHypothesis.trans mono) le_rfl
      show (sc.acquire n now).2.window ≤ _
      rcases Nat.eq_zero_or_pos n with rfl | asked
      · rw [acquire_zero]
        exact inductionHypothesis.trans mono
      rcases Nat.lt_or_ge quota.limit n with impossible | possible
      · rw [acquire_impossible under impossible]
        exact inductionHypothesis.trans mono
      rcases Nat.lt_or_ge (sc.remainingAt now) n with full | fits
      · obtain ⟨wait, denied⟩ := acquire_full under possible full
        rw [denied]
        exact aged
      · rw [(acquire_fits under asked fits).1]
        exact aged
  | @peek last sc now reached before inductionHypothesis =>
      have under : sc.Under quota := reached.under
      have mono : nanos last / nanos quota.period ≤ nanos now / nanos quota.period :=
        Nat.div_le_div_right (nanos_mono before)
      show (sc.peek now).2.window ≤ _
      rw [peek_eq under, under.aged_window, windowAt, under.period]
      exact max_le (inductionHypothesis.trans mono) le_rfl

/-- A charge to a fresh counter is all it counts. -/
theorem acquire_new (admits : admitsAnything .slidingWindowCounter quota = true) {n : ℕ} (asked : 1 ≤ n)
    (possible : n ≤ quota.limit) (now : ℕ) :
    ((SlidingCounter.new quota now).acquire n now).2 = { SlidingCounter.new quota now with curr := n } := by
  have under := new_under admits now
  have whole := (remainingAt_eq_limit under now).2 (under.load_of_empty rfl rfl now)
  have unmoved : (SlidingCounter.new quota now).windowAt now = (SlidingCounter.new quota now).window := max_self _
  rw [(acquire_fits under asked (by omega)).1, under.aged_eq, if_pos unmoved]
  simp only [SlidingCounter.new, Nat.zero_add]

namespace Under

variable {charged : SlidingCounter} {now returned t units : ℕ}

/-- The units a counter is missing are no fewer than its current window counts. -/
theorem curr_le_of_covers (under : sc.Under quota) (covers : quota.limit ≤ sc.remainingAt now + units) :
    (sc.aged now).curr ≤ units := by
  have counted : (sc.aged now).curr ≤ quota.limit := (under.aged now).curr_le
  have left : sc.remainingAt now ≤ quota.limit - (sc.aged now).curr := by
    rw [remainingAt, under.limit, under.period, under.load_eq]
    refine (Nat.div_le_div_right (Nat.sub_le_sub_left (Nat.le_add_left _ _) _)).trans ?_
    rw [← Nat.sub_mul, Nat.mul_div_cancel _ under.period_pos]
  omega

/-- At a reading whose window is not before the counter's, that window and the reading itself judge. -/
theorem windowAt_eq (under : sc.Under quota) (rolled : sc.window ≤ nanos t / nanos quota.period) :
    sc.windowAt t = nanos t / nanos quota.period ∧ sc.instant (nanos t) = nanos t := by
  refine ⟨?_, ?_⟩
  · rw [windowAt, under.period]
    exact max_eq_right rolled
  · rw [under.instant_eq]
    exact max_eq_left ((Nat.le_div_iff_mul_le under.period_pos).1 rolled)

/-- In its own window a lone charge counts in full. -/
theorem remainingAt_of_lone (under : charged.Under quota) (prev : charged.prev = 0)
    (same : charged.windowAt t = charged.window) : charged.remainingAt t = quota.limit - charged.curr := by
  rw [remainingAt, under.limit, under.period, under.load_eq, under.aged_eq, if_pos same, prev, Nat.zero_mul,
    Nat.zero_add, ← Nat.sub_mul, Nat.mul_div_cancel _ under.period_pos]

/-- In the next window the counts of both fade at one speed. -/
theorem load_le_of_next (under : sc.Under quota) (kept : charged.Under quota)
    (later : sc.windowAt now < sc.windowAt t) (covers : (sc.aged now).curr ≤ charged.curr)
    (next : charged.windowAt t = charged.window + 1) (windows : sc.windowAt t = charged.windowAt t)
    (instants : sc.instant (nanos t) = charged.instant (nanos t)) : sc.load t ≤ charged.load t := by
  obtain ⟨curr, prev⟩ := under.aged_of_later later
  have moved : ¬ charged.windowAt t = charged.window := by omega
  rw [under.load_eq, kept.load_eq, windows, instants, curr, kept.aged_eq, if_neg moved, Nat.zero_mul]
  simp only [if_pos next]
  exact Nat.add_le_add_right (Nat.mul_le_mul_right _ (prev.trans covers)) _

end Under

theorem neverLooser (quota : Quota) : NeverLooser SlidingCounter Always quota := by
  refine neverLooser_of_charge (fun _ => trivial) (fun _ _ _ => rfl) ?_
  intro last evicted returned t units sc fresh reached before after onward made asked possible covers
  have under : sc.Under quota := reached.under
  obtain ⟨admits, rfl⟩ := Option.ite_some_none_eq_some.1 made
  have opened := new_under admits returned
  have rolled := window_le_of_reached reached
  change quota.limit ≤ (sc.peek evicted).1.remaining + units at covers
  change units ≤ quota.limit at possible
  have unread : (KeyState.peek (SlidingCounter.new quota returned) returned).2 =
      SlidingCounter.new quota returned := by
    show ((SlidingCounter.new quota returned).peek returned).2 = _
    rw [peek_eq opened, opened.aged_eq, if_pos]
    exact max_self _
  rw [charge, unread]
  show (((SlidingCounter.new quota returned).acquire units returned).2.peek t).1.remaining ≤
    (sc.peek t).1.remaining
  rw [acquire_new admits asked possible]
  have kept : ({ SlidingCounter.new quota returned with curr := units } : SlidingCounter).Under quota :=
    { opened with curr_le := possible }
  have counted : ({ SlidingCounter.new quota returned with curr := units } : SlidingCounter).curr = units := rfl
  have quiet : ({ SlidingCounter.new quota returned with curr := units } : SlidingCounter).prev = 0 := rfl
  have start : ({ SlidingCounter.new quota returned with curr := units } : SlidingCounter).window =
    nanos returned / nanos quota.period := rfl
  generalize ({ SlidingCounter.new quota returned with curr := units } : SlidingCounter) = charged at *
  rw [remaining_eq kept, remaining_eq under]
  rw [remaining_eq under] at covers
  have starts : nanos last / nanos quota.period ≤ nanos evicted / nanos quota.period :=
    Nat.div_le_div_right (nanos_mono before)
  have middles : nanos evicted / nanos quota.period ≤ nanos returned / nanos quota.period :=
    Nat.div_le_div_right (nanos_mono after)
  have ends : nanos returned / nanos quota.period ≤ nanos t / nanos quota.period :=
    Nat.div_le_div_right (nanos_mono onward)
  obtain ⟨window, instant⟩ := under.windowAt_eq (by omega : sc.window ≤ nanos t / nanos quota.period)
  obtain ⟨window', instant'⟩ := kept.windowAt_eq (by omega : charged.window ≤ nanos t / nanos quota.period)
  obtain ⟨first, -⟩ := under.windowAt_eq (by omega : sc.window ≤ nanos evicted / nanos quota.period)
  rcases Nat.lt_or_ge (nanos t / nanos quota.period) (nanos returned / nanos quota.period + 1) with here | beyond
  · have more := remainingAt_mono under (after.trans onward)
    rw [kept.remainingAt_of_lone quiet (by omega)]
    omega
  rcases Nat.lt_or_ge (nanos t / nanos quota.period) (nanos returned / nanos quota.period + 2) with next | past
  · have load := under.load_le_of_next kept (by omega : sc.windowAt evicted < sc.windowAt t)
      (counted ▸ under.curr_le_of_covers covers) (by omega) (by omega) (by omega)
    rw [remainingAt, remainingAt, kept.limit, kept.period, under.limit, under.period]
    exact Nat.div_le_div_right (Nat.sub_le_sub_left load _)
  · -- two windows on nothing is left of the evicted counts
    have faded : sc.load t = 0 := by
      rw [under.load_eq_zero]
      exact under.aged_of_passed (by omega) (Or.inr (by omega))
    rw [(remainingAt_eq_limit under t).2 faded]
    exact remainingAt_le kept t

end SlidingCounter

end RateNet
