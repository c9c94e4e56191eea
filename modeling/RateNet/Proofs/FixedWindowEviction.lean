/-
Module: RateNet.Proofs.FixedWindowEviction
Purpose: When eviction keeps a fixed-window limit. A key's history is valued by the largest window any of
  its checks fell in and the units admitted there; a stored state is tight when it counts at least as
  much in that very window. An evicted key loses the number of the newest window it had opened, and is
  rebuilt in the window of the reading it returns with: a return with a reading from an older window
  loses the count. Where the readings of checks that find their key missing are in order, and none is
  from a window its key has already left, the limit holds in every window.
Trusted boundary: none
Main exports: windowUnits, fixedMeter, OrderedReturns, fixed_window_survives_ordered_returns,
  fixed_window_reset_by_stale_return
-/
import RateNet.Algo.Lawful
import RateNet.Proofs.EvictionMeter

namespace RateNet

/-!
### Units by the largest window so far
-/

/-- The window of a reading under `quota`. -/
def windowAt (quota : Quota) (now : ℕ) : ℕ := nanos now / nanos quota.period

/-- The largest window of the checks of a history, starting from `largest`. -/
def largestWindow (quota : Quota) (largest : ℕ) (history : List Event) : ℕ :=
  history.foldl (fun largest event => max largest (windowAt quota event.now)) largest

/-- The units admitted by the checks at which the largest window of any check so far is `window`. -/
def windowUnits (quota : Quota) (window : ℕ) : ℕ → List Event → ℕ
  | _, [] => 0
  | largest, event :: rest =>
    let largest := max largest (windowAt quota event.now)
    (if event.decision = .allow ∧ largest = window then event.n else 0) +
      windowUnits quota window largest rest

variable {quota : Quota}

theorem largestWindow_snoc (largest : ℕ) (history : List Event) (event : Event) :
    largestWindow quota largest (history ++ [event]) =
      max (largestWindow quota largest history) (windowAt quota event.now) := by
  rw [largestWindow, List.foldl_append]
  rfl

theorem windowUnits_snoc (window largest : ℕ) (history : List Event) (event : Event) :
    windowUnits quota window largest (history ++ [event]) = windowUnits quota window largest history +
      if event.decision = .allow ∧
          max (largestWindow quota largest history) (windowAt quota event.now) = window
        then event.n else 0 := by
  induction history generalizing largest with
  | nil =>
      rw [List.nil_append, windowUnits, windowUnits, windowUnits, Nat.add_zero, Nat.zero_add]
      rfl
  | cons first rest inductionHypothesis =>
      rw [List.cons_append, windowUnits, inductionHypothesis, windowUnits, Nat.add_assoc]
      rfl

theorem le_largestWindow (largest : ℕ) (history : List Event) :
    largest ≤ largestWindow quota largest history := by
  induction history generalizing largest with
  | nil => exact le_rfl
  | cons first rest inductionHypothesis =>
      exact (le_max_left _ _).trans (inductionHypothesis (max largest (windowAt quota first.now)))

/-- Nothing has been admitted yet in a window past the largest. -/
theorem windowUnits_eq_zero {window largest : ℕ} {history : List Event}
    (h : largestWindow quota largest history < window) : windowUnits quota window largest history = 0 := by
  induction history generalizing largest with
  | nil => rfl
  | cons first rest inductionHypothesis =>
      have reached := @le_largestWindow quota (max largest (windowAt quota first.now)) rest
      have later : largestWindow quota (max largest (windowAt quota first.now)) rest < window := h
      rw [windowUnits, inductionHypothesis later, if_neg]
      rintro ⟨-, same⟩
      omega

theorem largestWindow_le {window largest : ℕ} {history : List Event} (start : largest ≤ window)
    (below : ∀ event ∈ history, windowAt quota event.now ≤ window) :
    largestWindow quota largest history ≤ window := by
  induction history generalizing largest with
  | nil => exact start
  | cons first rest inductionHypothesis =>
      apply inductionHypothesis (max_le start (below first List.mem_cons_self))
      exact fun event member => below event (List.mem_cons_of_mem _ member)

/-!
### What a window owes
-/

/-- The state counts at least `count` units in window `window`, the newest it has opened, and the end of
    that window is a deadline the recovery table can hold. -/
structure FixedTight (quota : Quota) (window count : ℕ) (fw : FixedWindow) : Prop where
  positive : 0 < nanos quota.period
  period : fw.periodNs = nanos quota.period
  limit : fw.limit = quota.limit
  opened : fw.denyAll = false
  latest : fw.latest = window
  word : ∃ held, fw.state = FixedWindow.packed window held ∧ count ≤ held ∧ held ≤ quota.limit
  ends : (window + 1) * nanos quota.period ≤ fromMillis untilMax

namespace FixedTight

variable {window count : ℕ} {fw : FixedWindow}

theorem weaken {count' : ℕ} (tight : FixedTight quota window count fw) (h : count' ≤ count) :
    FixedTight quota window count' fw where
  positive := tight.positive
  period := tight.period
  limit := tight.limit
  opened := tight.opened
  latest := tight.latest
  word := by
    obtain ⟨held, word, enough, fits⟩ := tight.word
    exact ⟨held, word, h.trans enough, fits⟩
  ends := tight.ends

theorem count_le (tight : FixedTight quota window count fw) : count ≤ quota.limit := by
  obtain ⟨held, -, enough, fits⟩ := tight.word
  exact enough.trans fits

/-- The count of the newest window, and of any later one. -/
theorem countIn_eq (tight : FixedTight quota window count fw) :
    ∃ held, count ≤ held ∧ held ≤ quota.limit ∧
      ∀ now, FixedWindow.countIn (max window (windowAt quota now)) fw.state fw.latest =
        if windowAt quota now ≤ window then held else 0 := by
  obtain ⟨held, word, enough, fits⟩ := tight.word
  refine ⟨held, enough, fits, ?_⟩
  intro now
  rw [tight.latest, word]
  split
  · rename_i current
    rw [max_eq_left current, FixedWindow.countIn_packed]
    exact min_eq_left (fits.trans quota.limit_le)
  · rename_i later
    rw [FixedWindow.countIn, if_neg]
    rintro ⟨same, -⟩
    omega

theorem windowOf_eq (tight : FixedTight quota window count fw) (now : ℕ) :
    fw.windowOf (nanos now) = windowAt quota now := by
  rw [FixedWindow.windowOf, tight.period, windowAt]

/-- A check of between one unit and the limit counts in the later of its own window and the newest. -/
theorem acquire (tight : FixedTight quota window count fw) {n now : ℕ} (asked : 1 ≤ n)
    (within : n ≤ quota.limit)
    (ends : (windowAt quota now + 1) * nanos quota.period ≤ fromMillis untilMax) :
    FixedTight quota (max window (windowAt quota now))
      ((if windowAt quota now ≤ window then count else 0) +
        if (fw.acquire n now).1 = .allow then n else 0) (fw.acquire n now).2 := by
  obtain ⟨held, enough, fits, counted⟩ := tight.countIn_eq
  have guard : ¬ (fw.denyAll = true ∨ n > fw.limit) := by
    rw [tight.opened, tight.limit]
    rintro (closed | more)
    · cases closed
    · omega
  have target : max (windowAt quota now) fw.latest = max window (windowAt quota now) := by
    rw [tight.latest, max_comm]
  have base : (if windowAt quota now ≤ window then count else 0) ≤
      if windowAt quota now ≤ window then held else 0 := by
    split
    · exact enough
    · exact le_rfl
  have ends' : (max window (windowAt quota now) + 1) * nanos quota.period ≤ fromMillis untilMax := by
    rcases max_choice window (windowAt quota now) with same | same
    · rw [same]
      exact tight.ends
    · rw [same]
      exact ends
  rw [FixedWindow.acquire, if_neg (Nat.ne_of_gt asked), if_neg guard]
  simp only [FixedWindow.attempt, tight.windowOf_eq, reduceCtorEq, if_false, counted, tight.limit, target]
  by_cases full : (if windowAt quota now ≤ window then held else 0) + n > quota.limit
  · -- only a window with something in it can refuse, and that is the newest
    have current : windowAt quota now ≤ window := by
      by_contra later
      rw [if_neg later] at full
      omega
    rw [if_pos full, if_pos current, max_eq_left current]
    exact tight.weaken (by simp)
  · rw [if_neg full]
    simp only [if_true]
    refine ⟨tight.positive, tight.period, rfl, tight.opened, ?_, ⟨_, rfl, ?_, ?_⟩, ends'⟩
    · show max fw.latest (max window (windowAt quota now)) = _
      rw [tight.latest, max_eq_right (le_max_left _ _)]
    · exact Nat.add_le_add_right base n
    · exact Nat.le_of_not_lt full

/-- What a tight state owes: nothing once its window is over, else its count until the window ends. -/
theorem debt (tight : FixedTight quota window count fw) (now : ℕ) :
    ∃ held, count ≤ held ∧
      ((KeyState.debt fw now).1 = none → held = 0 ∨ window < windowAt quota now) ∧
      ∀ owed, (KeyState.debt fw now).1 = some owed → windowAt quota now ≤ window ∧ owed.spent = held ∧
        owed.until = durationAdd now ((window + 1) * nanos quota.period - nanos now) := by
  obtain ⟨held, enough, fits, counted⟩ := tight.countIn_eq
  refine ⟨held, enough, ?_⟩
  have target : max (fw.windowOf (nanos now)) fw.latest = max window (windowAt quota now) := by
    rw [tight.windowOf_eq, tight.latest, max_comm]
  have wide : (window + 1) * nanos quota.period ≤ u64Max := tight.ends.trans (by decide)
  have peeked : fw.peek now = Snapshot.new quota.limit
      (quota.limit - min (if windowAt quota now ≤ window then held else 0) quota.limit)
      (if min (if windowAt quota now ≤ window then held else 0) quota.limit = 0 then 0
        else fw.untilEndOf (max window (windowAt quota now)) (nanos now)) := by
    simp only [FixedWindow.peek, tight.opened, Bool.false_eq_true, if_false, target, counted, tight.limit]
  have debt_eq : (KeyState.debt fw now).1 = (fw.peek now).debt now := rfl
  rw [debt_eq]
  constructor
  · intro whole
    rw [Snapshot.debt_eq_none, peeked] at whole
    by_cases current : windowAt quota now ≤ window
    · simp only [Snapshot.new, if_pos current] at whole
      omega
    · exact Or.inr (Nat.lt_of_not_le current)
  · intro owed owes
    obtain ⟨less, spent, deadline⟩ := Snapshot.debt_eq_some.1 owes
    rw [peeked] at less spent deadline
    have current : windowAt quota now ≤ window := by
      by_contra later
      simp only [Snapshot.new, if_neg later] at less
      omega
    simp only [Snapshot.new, if_pos current, max_eq_left current] at less spent deadline
    refine ⟨current, by omega, ?_⟩
    have some_held : ¬ min held quota.limit = 0 := by omega
    have next : satAdd window 1 = window + 1 :=
      satAdd_eq ((Nat.le_mul_of_pos_right (window + 1) tight.positive).trans wide)
    rw [deadline, if_neg some_held, FixedWindow.untilEndOf, tight.period, next, satMul_eq wide]

/-- A fresh state counts nothing in the window it is created in. -/
theorem new (admits : admitsAnything .fixedWindow quota = true) {now : ℕ}
    (ends : (windowAt quota now + 1) * nanos quota.period ≤ fromMillis untilMax) :
    FixedTight quota (windowAt quota now) 0 (FixedWindow.new quota now) := by
  obtain ⟨limit, period⟩ := (admitsAnything_window (Or.inl rfl)).1 admits
  have positive : 0 < nanos quota.period := by
    simp only [nanos, u64Max]
    omega
  refine ⟨positive, rfl, rfl, ?_, rfl, ⟨0, rfl, le_rfl, Nat.zero_le _⟩, ends⟩
  simp only [FixedWindow.new, Bool.or_eq_false_iff, beq_eq_false_iff_ne]
  exact ⟨limit.ne', positive.ne'⟩

/-- A check that fits beside what the state counts is admitted. -/
theorem acquire_allow (tight : FixedTight quota window count fw) {n now : ℕ} (asked : 1 ≤ n)
    (within : n ≤ quota.limit) (empty : fw.state = FixedWindow.packed window 0) :
    (fw.acquire n now).1 = .allow := by
  have guard : ¬ (fw.denyAll = true ∨ n > fw.limit) := by
    rw [tight.opened, tight.limit]
    rintro (closed | more)
    · cases closed
    · omega
  have counted : FixedWindow.countIn (max (windowAt quota now) window) (FixedWindow.packed window 0) window =
      0 := by
    rw [FixedWindow.countIn]
    split
    · rw [FixedWindow.unpack_packed]
      rfl
    · rfl
  rw [FixedWindow.acquire, if_neg (Nat.ne_of_gt asked), if_neg guard]
  simp only [FixedWindow.attempt, tight.windowOf_eq, reduceCtorEq, if_false, tight.limit, tight.latest,
    empty, counted, Nat.zero_add, if_neg (Nat.not_lt.2 within)]

/-- A newcomer charged from the table counts in the window of its return what the table held. -/
theorem restored (admits : admitsAnything .fixedWindow quota = true) {now : ℕ} (charge : Option Debt)
    (ends : (windowAt quota now + 1) * nanos quota.period ≤ fromMillis untilMax)
    (within : count ≤ quota.limit) (uncharged : charge = none → count = 0)
    (charged : ∀ debt, charge = some debt → count = 0 ∨ now < debt.until ∧ count ≤ debt.spent) :
    FixedTight quota (windowAt quota now) count
      (charge.elim (FixedWindow.new quota now) (KeyState.restore (FixedWindow.new quota now) · now)) := by
  have fresh := FixedTight.new admits ends
  cases charge with
  | none =>
      rw [uncharged rfl]
      exact fresh
  | some debt =>
      have peeked : ((FixedWindow.new quota now).peek now).limit = quota.limit := by
        simp only [FixedWindow.peek, fresh.opened, Bool.false_eq_true, if_false, fresh.limit, Snapshot.new]
      have restore_eq : KeyState.restore (FixedWindow.new quota now) debt now =
          if debt.until ≤ now ∨ debt.spent = 0 then FixedWindow.new quota now
          else if 0 < min debt.spent quota.limit then
            ((FixedWindow.new quota now).acquire (min debt.spent quota.limit) now).2
          else FixedWindow.new quota now := by
        rw [← peeked]
        rfl
      rw [Option.elim_some, restore_eq]
      have owing : count = 0 ∨ ¬ (debt.until ≤ now ∨ debt.spent = 0) ∧ count ≤ debt.spent := by
        rcases charged debt rfl with none_owed | ⟨later, enough⟩ <;> omega
      split
      · rename_i whole
        rw [owing.resolve_right fun owes => owes.1 whole]
        exact fresh
      · split
        · rename_i some_units
          have units := fresh.acquire some_units (min_le_right _ _) ends
          rw [max_self, if_pos le_rfl, if_pos (fresh.acquire_allow some_units (min_le_right _ _) rfl)] at units
          apply units.weaken
          omega
        · rename_i no_units
          have zero : count = 0 := by omega
          rw [zero]
          exact fresh

end FixedTight

/-!
### The meter
-/

theorem windowAt_mono (quota : Quota) {a b : ℕ} (h : a ≤ b) : windowAt quota a ≤ windowAt quota b :=
  Nat.div_le_div_right (nanos_mono h)

/-- The units of the largest window so far, after one more check. -/
theorem windowUnits_largest (history : List Event) (event : Event) :
    windowUnits quota (max (largestWindow quota 0 history) (windowAt quota event.now)) 0
        (history ++ [event]) =
      (if windowAt quota event.now ≤ largestWindow quota 0 history
        then windowUnits quota (largestWindow quota 0 history) 0 history else 0) +
      if event.decision = .allow then event.n else 0 := by
  rw [windowUnits_snoc]
  simp only [and_true]
  congr 1
  split
  · rename_i current
    rw [max_eq_left current]
  · rename_i later
    exact windowUnits_eq_zero (lt_of_lt_of_le (Nat.lt_of_not_le later) (le_max_right _ _))

/-- One more check of a history that is within the limit in every window leaves it so, if it is within
    the limit in the largest. -/
theorem windowUnits_le_snoc {history : List Event} {event : Event}
    (within : ∀ window, windowUnits quota window 0 history ≤ quota.limit)
    (newest : windowUnits quota (max (largestWindow quota 0 history) (windowAt quota event.now)) 0
      (history ++ [event]) ≤ quota.limit) (window : ℕ) :
    windowUnits quota window 0 (history ++ [event]) ≤ quota.limit := by
  by_cases same : max (largestWindow quota 0 history) (windowAt quota event.now) = window
  · rw [← same]
    exact newest
  · rw [windowUnits_snoc, if_neg fun admitted => same admitted.2, Nat.add_zero]
    exact within window

/-- The accounts a fixed window keeps: the newest window of a key's checks and what it admitted there. -/
structure WindowAccount (quota : Quota) (history : List Event) (value : ℕ × ℕ) : Prop where
  newest : value.1 = largestWindow quota 0 history
  units : value.2 = windowUnits quota value.1 0 history
  within : ∀ window, windowUnits quota window 0 history ≤ quota.limit

/-- An account stays one when a check is added, if the new count is within the limit. -/
theorem WindowAccount.snoc {history : List Event} {value : ℕ × ℕ} (account : WindowAccount quota history value)
    (event : Event)
    (fits : (if windowAt quota event.now ≤ value.1 then value.2 else 0) +
      (if event.decision = .allow then event.n else 0) ≤ quota.limit) :
    WindowAccount quota (history ++ [event]) (max value.1 (windowAt quota event.now),
      (if windowAt quota event.now ≤ value.1 then value.2 else 0) +
        if event.decision = .allow then event.n else 0) := by
  have units := @windowUnits_largest quota history event
  rw [← account.newest, ← account.units] at units
  refine ⟨?_, units.symm, ?_⟩
  · rw [largestWindow_snoc, account.newest]
  · apply windowUnits_le_snoc account.within
    rw [← account.newest, units]
    exact fits

/-- The account of a key that has not been checked since its window ended, or is checked in it. -/
theorem WindowAccount.at_return {history : List Event} {value : ℕ × ℕ} {t : ℕ}
    (account : WindowAccount quota history value)
    (latest : ∀ event ∈ history, windowAt quota event.now ≤ windowAt quota t) :
    value.1 ≤ windowAt quota t := by
  rw [account.newest]
  exact largestWindow_le (Nat.zero_le _) latest

/-- A window whose rounded end has passed is over. -/
theorem window_over_of_due (admits : admitsAnything .fixedWindow quota = true) {window t : ℕ}
    (fits : ceilMillis ((window + 1) * nanos quota.period) ≤ untilMax)
    (due : ceilMillis ((window + 1) * nanos quota.period) ≤ millis t) : window < windowAt quota t := by
  have early : ceilMillis ((window + 1) * nanos quota.period) < u64Max := lt_of_le_of_lt fits (by decide)
  have ended := le_of_ceilMillis_le_millis early due
  have small : (window + 1) * nanos quota.period ≤ u64Max :=
    (le_fromMillis_ceilMillis early).trans ((fromMillis_mono fits).trans (by decide))
  obtain ⟨-, period⟩ := (admitsAnything_window (Or.inl rfl)).1 admits
  have positive : 0 < nanos quota.period := by
    simp only [nanos, u64Max]
    omega
  exact (Nat.le_div_iff_mul_le positive).2 (le_min ended small)

/-- A state that owes nothing has counted nothing, or its window is over. -/
theorem FixedTight.void {window count : ℕ} {fw : FixedWindow} (tight : FixedTight quota window count fw)
    {t : ℕ} (whole : (KeyState.debt fw t).1 = none) : count = 0 ∨ window < windowAt quota t := by
  obtain ⟨held, enough, nothing, -⟩ := tight.debt t
  rcases nothing whole with zero | later
  · exact Or.inl (by omega)
  · exact Or.inr later

/-- What a state owes covers what its window counted, until the window ends. -/
theorem FixedTight.owes {window count : ℕ} {fw : FixedWindow} (tight : FixedTight quota window count fw)
    {t : ℕ} {d : Debt} (owed : (KeyState.debt fw t).1 = some d) :
    count ≤ u32Max ∧ ceilMillis ((window + 1) * nanos quota.period) ≤ untilMax ∧ count ≤ d.spent ∧
      ceilMillis ((window + 1) * nanos quota.period) ≤ ceilMillis d.until := by
  obtain ⟨held, enough, -, owes⟩ := tight.debt t
  obtain ⟨current, spent, deadline⟩ := owes d owed
  refine ⟨tight.count_le.trans quota.limit_le, ceilMillis_le_of_le_fromMillis tight.ends, ?_, ?_⟩
  · rw [spent]
    exact enough
  · apply ceilMillis_mono
    -- the window has not ended, so the reading is below the clamp
    have before : nanos t < (window + 1) * nanos quota.period :=
      Nat.lt_mul_of_div_lt (Nat.lt_succ_of_le current) tight.positive
    have ceiling : (window + 1) * nanos quota.period ≤ u64Max := tight.ends.trans (by decide)
    have below : nanos t < u64Max := lt_of_lt_of_le before ceiling
    have unclamped : nanos t = t := by
      simp only [nanos] at below ⊢
      omega
    have sum : t + ((window + 1) * nanos quota.period - t) = (window + 1) * nanos quota.period := by
      rw [unclamped] at before
      omega
    rw [deadline, unclamped, durationAdd_eq, sum]
    rw [sum]
    exact ceiling.trans (by decide)

/-- A newcomer charged what the table holds for it keeps its account. -/
theorem WindowAccount.stored (admits : admitsAnything .fixedWindow quota = true) {history : List Event}
    {v : ℕ × ℕ} {t n : ℕ} (backs : WindowAccount quota history v) (charge : Option Debt) (asked : 1 ≤ n)
    (within : n ≤ quota.limit) (ends : (windowAt quota t + 1) * nanos quota.period ≤ fromMillis untilMax)
    (latest : ∀ event ∈ history, windowAt quota event.now ≤ windowAt quota t)
    (nothing : charge = none → v.2 = 0 ∨ v.1 < windowAt quota t)
    (charged : ∀ d, charge = some d → (v.2 = 0 ∨ v.1 < windowAt quota t) ∨
      ceilMillis ((v.1 + 1) * nanos quota.period) ≤ untilMax ∧
        millis t < ceilMillis ((v.1 + 1) * nanos quota.period) ∧ v.2 ≤ d.spent ∧
        fromMillis (ceilMillis ((v.1 + 1) * nanos quota.period)) ≤ d.until) :
    let held := charge.elim (FixedWindow.new quota t) (KeyState.restore (FixedWindow.new quota t) · t)
    ∃ v', WindowAccount quota (history ++ [⟨n, t, (held.acquire n t).1⟩]) v' ∧
      FixedTight quota v'.1 v'.2 (held.acquire n t).2 ∧
      (charge = none → n = 0 ∨ (held.acquire n t).1.isDeny = true → v'.2 = 0 ∨ v'.1 < windowAt quota t) := by
  have reached := backs.at_return latest
  have counted : (if windowAt quota t ≤ v.1 then v.2 else 0) ≤ v.2 := by
    split
    · exact le_rfl
    · exact Nat.zero_le _
  have voided : v.2 = 0 ∨ v.1 < windowAt quota t → (if windowAt quota t ≤ v.1 then v.2 else 0) = 0 := by
    rintro (zero | later)
    · omega
    · exact if_neg (Nat.not_le_of_lt later)
  have base := @FixedTight.restored quota (if windowAt quota t ≤ v.1 then v.2 else 0) admits t charge ends
    (counted.trans (backs.units ▸ backs.within v.1)) (fun none_held => voided (nothing none_held)) (by
      intro debt held
      rcases charged debt held with gone | ⟨fits, due, enough, late⟩
      · exact Or.inl (voided gone)
      · right
        refine ⟨lt_of_lt_of_le ?_ late, counted.trans enough⟩
        exact lt_fromMillis_of_millis_lt (fits.trans (by decide)) due)
  intro held
  change FixedTight quota (windowAt quota t) _ held at base
  have after := base.acquire asked within ends
  rw [max_self, if_pos le_rfl] at after
  have account := backs.snoc ⟨n, t, (held.acquire n t).1⟩ after.count_le
  rw [max_eq_right reached] at account
  refine ⟨_, account, after, ?_⟩
  intro none_held quiet
  left
  have zero := voided (nothing none_held)
  show (if windowAt quota t ≤ v.1 then v.2 else 0) + (if (held.acquire n t).1 = .allow then n else 0) = 0
  rw [zero, if_neg, Nat.add_zero]
  intro allowed
  rcases quiet with no_units | denied
  · omega
  · have denied' : (held.acquire n t).1.isDeny = true := denied
    rw [allowed] at denied'
    cases denied'

/-- A newcomer turned away keeps its account, or its account is void. -/
theorem WindowAccount.refused {history : List Event} {v : ℕ × ℕ} {t n wait : ℕ}
    (backs : WindowAccount quota history v)
    (latest : ∀ event ∈ history, windowAt quota event.now ≤ windowAt quota t) :
    ∃ v', WindowAccount quota (history ++ [⟨n, t, .deny wait⟩]) v' ∧
      (v' = v ∨ v'.2 = 0 ∨ v'.1 < windowAt quota t) := by
  have reached := backs.at_return latest
  have account := backs.snoc ⟨n, t, .deny wait⟩ (by
    simp only [reduceCtorEq, if_false, Nat.add_zero]
    split
    · exact backs.units ▸ backs.within v.1
    · exact Nat.zero_le _)
  simp only [reduceCtorEq, if_false, Nat.add_zero, max_eq_right reached] at account
  refine ⟨_, account, ?_⟩
  by_cases same : v.1 = windowAt quota t
  · left
    rw [if_pos same.ge, ← same]
  · right
    left
    exact if_neg (by omega)

theorem FixedWindow.isFull_snd (fw : FixedWindow) (t : ℕ) : (KeyState.isFull fw t).2 = fw := rfl

theorem FixedWindow.recoversAt_eq (fw : FixedWindow) (t : ℕ) :
    KeyState.recoversAt fw t = ((KeyState.debt fw t).1.map Debt.until, fw) := rfl

/-- The meter of the fixed window: a value is the newest window of a key's checks and the units admitted
    there, void once the window has ended, and carried until then by the end of the window. -/
def fixedMeter (quota : Quota) (admits : admitsAnything .fixedWindow quota = true) :
    Meter FixedWindow quota where
  Value := ℕ × ℕ
  Backs := WindowAccount quota
  Tight _ v fw := FixedTight quota v.1 v.2 fw
  Void v t := v.2 = 0 ∨ v.1 < windowAt quota t
  spent v := v.2
  dueMs v := ceilMillis ((v.1 + 1) * nanos quota.period)
  Sound _ _ := True
  Ok _ n now := 1 ≤ n ∧ n ≤ quota.limit ∧
    (windowAt quota now + 1) * nanos quota.period ≤ fromMillis untilMax
  OkNew history t n := 1 ≤ n ∧ n ≤ quota.limit ∧
    (windowAt quota t + 1) * nanos quota.period ≤ fromMillis untilMax ∧
    ∀ event ∈ history, windowAt quota event.now ≤ windowAt quota t
  start := ⟨(0, 0), ⟨rfl, rfl, fun _ => Nat.zero_le _⟩, fun _ => Or.inl rfl⟩
  void_later h gone := gone.imp_right fun over_ => lt_of_lt_of_le over_ (windowAt_mono quota h)
  tight_later _ tight := tight
  sound_later _ _ := trivial
  void_of_due fits due := Or.inr (window_over_of_due admits fits due)
  isFull_snd := FixedWindow.isFull_snd
  recoversAt_eq := FixedWindow.recoversAt_eq
  whole tight whole := tight.void whole
  owes tight _ owed := Or.inr (tight.owes owed)
  full tight _ full := tight.void (Option.isNone_iff_eq_none.1 full)
  acquire := by
    rintro h v fw t n now backs tight ⟨asked, within, ends⟩
    have after := tight.acquire asked within ends
    exact ⟨_, backs.snoc ⟨n, now, (fw.acquire n now).1⟩ after.count_le, after⟩
  stored := by
    rintro h v fw t n charge made ⟨asked, within, ends, latest⟩ backs nothing charged
    have made' : some (FixedWindow.new quota t) = some fw := (if_pos admits).symm.trans made
    obtain rfl := Option.some.inj made'
    exact backs.stored admits charge asked within ends latest nothing charged
  refused := by
    rintro h v t n wait ⟨-, -, -, latest⟩ backs
    exact backs.refused latest

/-!
### Runs
-/

section Runs

variable {K : Type} [DecidableEq K] {config : StoreConfig K}

/-- The store does not track the key of `check` when it comes after `before`. -/
def FindsNothing (config : StoreConfig K) (quota : Quota) (before : List (Check K)) (check : Check K) :
    Prop :=
  (Store.after quota (Store.new : Store config FixedWindow) before).tracks check.key = false

/-- The window of every reading ends by the last deadline the recovery table holds; and a check that
    finds its key missing has a reading from no window its key has left, and no earlier than that of
    any previous check that found its key missing in the same shard. -/
def OrderedReturns (config : StoreConfig K) (quota : Quota) (checks : List (Check K)) : Prop :=
  ∀ before check rest, checks = before ++ check :: rest →
    (windowAt quota check.now + 1) * nanos quota.period ≤ fromMillis untilMax ∧
    (FindsNothing config quota before check →
      (∀ earlier ∈ before, earlier.key = check.key → windowAt quota earlier.now ≤ windowAt quota check.now) ∧
      ∀ start earlier between, before = start ++ earlier :: between →
        FindsNothing config quota start earlier →
        config.shardFor earlier.key = config.shardFor check.key → earlier.now ≤ check.now)

instance (config : StoreConfig K) (quota : Quota) (before : List (Check K)) (check : Check K) :
    Decidable (FindsNothing config quota before check) :=
  inferInstanceAs (Decidable (_ = false))

/-- Ordered returns, position by position. -/
theorem orderedReturns_iff {quota : Quota} {checks : List (Check K)} :
    OrderedReturns config quota checks ↔ ∀ k < checks.length, ∀ check ∈ checks[k]?,
      (windowAt quota check.now + 1) * nanos quota.period ≤ fromMillis untilMax ∧
      (FindsNothing config quota (checks.take k) check →
        (∀ earlier ∈ checks.take k, earlier.key = check.key →
          windowAt quota earlier.now ≤ windowAt quota check.now) ∧
        ∀ j < k, ∀ earlier ∈ checks[j]?, FindsNothing config quota (checks.take j) earlier →
          config.shardFor earlier.key = config.shardFor check.key → earlier.now ≤ check.now) := by
  have cut : ∀ {list : List (Check K)} {k : ℕ} {check : Check K}, list[k]? = some check →
      list = list.take k ++ check :: list.drop (k + 1) := by
    intro list k check held
    obtain ⟨inside, rfl⟩ := List.getElem?_eq_some_iff.1 held
    rw [← List.drop_eq_getElem_cons inside, List.take_append_drop]
  constructor
  · intro ordered k inside check held
    obtain ⟨ends, returns⟩ := ordered _ _ _ (cut held)
    refine ⟨ends, fun missing => ⟨(returns missing).1, ?_⟩⟩
    intro j before earlier held' missing'
    have there : (checks.take k)[j]? = some earlier := by
      rw [List.getElem?_take_of_lt before]
      exact held'
    apply (returns missing).2 _ _ _ (cut there)
    rw [List.take_take, min_eq_left before.le]
    exact missing'
  · rintro ordered before check rest rfl
    have held : (before ++ check :: rest)[before.length]? = some check := by simp
    obtain ⟨ends, returns⟩ := ordered before.length (by simp) check held
    rw [List.take_left] at returns
    refine ⟨ends, fun missing => ⟨(returns missing).1, ?_⟩⟩
    rintro start earlier between rfl missing'
    apply (returns missing).2 start.length (by simp) earlier
    · simp
    · simp only [List.append_assoc, List.take_left]
      exact missing'

instance (config : StoreConfig K) (quota : Quota) (checks : List (Check K)) :
    Decidable (OrderedReturns config quota checks) :=
  decidable_of_iff' _ orderedReturns_iff

/-- After such a run every shard is metered, at the reading of its last check that found its key
    missing. -/
theorem fixed_run_metered {quota : Quota} (admits : admitsAnything .fixedWindow quota = true)
    (keep : config.table.forget = false) {keys : K → Prop} (separate : Separate config keys)
    (checks : List (Check K)) (tracked : ∀ check ∈ checks, keys check.key)
    (asked : ∀ check ∈ checks, 1 ≤ check.n ∧ check.n ≤ quota.limit)
    (ordered : OrderedReturns config quota checks) :
    ∃ clock : Fin config.shardCount → ℕ,
      (∀ i bound, (∀ start earlier between, checks = start ++ earlier :: between →
        FindsNothing config quota start earlier → config.shardFor earlier.key = i → earlier.now ≤ bound) →
        clock i ≤ bound) ∧
      ∀ i, ShardMetered (fixedMeter quota admits) keys i (clock i)
        (historyOf (Store.decisions quota (Store.new : Store config FixedWindow) checks))
        (Store.after quota (Store.new : Store config FixedWindow) checks i) := by
  induction checks using List.reverseRecOn with
  | nil => exact ⟨fun _ => 0, fun _ _ _ => Nat.zero_le _, fun i => .new _ keys i 0⟩
  | append_singleton checks check inductionHypothesis =>
      obtain ⟨clock, earliest, metered⟩ := inductionHypothesis
        (fun check member => tracked check (List.mem_append_left _ member))
        (fun check member => asked check (List.mem_append_left _ member))
        (by
          intro before check' rest split
          apply ordered before check' (rest ++ [check])
          rw [split, List.append_assoc, List.cons_append])
      have last : check ∈ checks ++ [check] := List.mem_append_right _ (List.mem_singleton.2 rfl)
      obtain ⟨ends, returns⟩ := ordered checks check [] rfl
      have made : KeyState.create quota check.now = some (FixedWindow.new quota check.now) := if_pos admits
      have units := asked check last
      -- a stored key leaves its shard's clock where it is, a missing one moves it to its own reading
      obtain ⟨t, later, moved, stays⟩ : ∃ t, clock (config.shardFor check.key) ≤ t ∧
          (FindsNothing config quota checks check → check.now = t) ∧
          (¬ FindsNothing config quota checks check → clock (config.shardFor check.key) = t) := by
        by_cases missing : FindsNothing config quota checks check
        · refine ⟨check.now, ?_, fun _ => rfl, fun present => absurd missing present⟩
          exact earliest _ _ (returns missing).2
        · exact ⟨_, le_rfl, fun missing' => absurd missing' missing, fun _ => rfl⟩
      have after := check_metered keep separate metered check (tracked check last) later made
        (fun _ => ⟨units.1, units.2, ends⟩)
        (by
          intro missing
          obtain rfl := moved missing
          refine ⟨rfl, units.1, units.2, ends, ?_⟩
          intro event member
          obtain ⟨earlier, there, same, reading⟩ := mem_historyOf member
          rw [← reading]
          exact (returns missing).1 earlier there same)
        (fun _ _ => trivial)
      refine ⟨Function.update clock (config.shardFor check.key) t, ?_, ?_⟩
      · intro i bound below
        have before : clock i ≤ bound := by
          apply earliest
          intro start earlier between split
          apply below start earlier (between ++ [check])
          rw [split, List.append_assoc, List.cons_append]
        by_cases same : i = config.shardFor check.key
        · subst same
          rw [Function.update_self]
          by_cases missing : FindsNothing config quota checks check
          · rw [← moved missing]
            exact below checks check [] rfl missing rfl
          · rw [← stays missing]
            exact before
        · rw [Function.update_of_ne same]
          exact before
      · rw [Store.decisions_snoc, historyOf_snoc, Store.after_snoc]
        exact after

end Runs

/-- A quota that admits nothing admits nothing in any window. -/
theorem windowUnits_closed {K : Type} [DecidableEq K] {config : StoreConfig K} {quota : Quota}
    (closed : admitsAnything .fixedWindow quota = false) (checks : List (Check K))
    (asked : ∀ check ∈ checks, 1 ≤ check.n) (key : K) (window largest : ℕ) :
    windowUnits quota window largest
      (historyOf (Store.decisions quota (Store.new : Store config FixedWindow) checks) key) = 0 := by
  rw [Store.decisions_unmade (create_of_shut (S := FixedWindow) closed)]
  have denied : ∀ event ∈ historyOf (checks.map fun check => (check, RateNet.closed check.n)) key,
      event.decision ≠ .allow := by
    intro event member
    obtain ⟨entry, kept, rfl⟩ := List.mem_map.1 member
    obtain ⟨check, there, rfl⟩ := List.mem_map.1 (List.mem_filter.1 kept).1
    have some_units := asked check there
    show RateNet.closed check.n ≠ .allow
    rw [RateNet.closed, if_neg (by omega)]
    simp
  generalize historyOf (checks.map fun check => (check, RateNet.closed check.n)) key = history at denied
  induction history generalizing largest with
  | nil => rfl
  | cons first rest inductionHypothesis =>
      rw [windowUnits, inductionHypothesis _ fun event member => denied event (List.mem_cons_of_mem _ member),
        if_neg fun admitted => denied first List.mem_cons_self admitted.1]

/-- Eviction does not reset a fixed-window limit as long as returns are ordered: whatever the capacity
    and the idle TTL of a store that forgets no debt, the units admitted for a key while `window` is the
    largest window of its checks are at most the limit. -/
theorem fixed_window_survives_ordered_returns {K : Type} [DecidableEq K] (hasher : K → ℕ) (shards : ℕ)
    {eviction : Eviction} (failClosed : eviction.overflow = .failClosed) (minIdle : ℕ) (quota : Quota)
    (checks : List (Check K)) (asked : ∀ check ∈ checks, 1 ≤ check.n ∧ check.n ≤ quota.limit)
    (separate : ∀ check ∈ checks, ∀ other ∈ checks, check.key ≠ other.key →
      (StoreConfig.new hasher shards eviction minIdle).shardFor check.key =
        (StoreConfig.new hasher shards eviction minIdle).shardFor other.key →
      ¬ SameDebtor (StoreConfig.new hasher shards eviction minIdle).table (hasher check.key)
        (hasher other.key))
    (ordered : OrderedReturns (StoreConfig.new hasher shards eviction minIdle) quota checks)
    (key : K) (window : ℕ) :
    windowUnits quota window 0 (historyOf (Store.decisions quota
      (Store.new : Store (StoreConfig.new hasher shards eviction minIdle) FixedWindow) checks) key) ≤
      quota.limit := by
  cases admits : admitsAnything .fixedWindow quota with
  | false =>
      rw [windowUnits_closed admits checks fun check member => (asked check member).1]
      exact Nat.zero_le _
  | true =>
      have keep := StoreConfig.new_forget failClosed hasher shards minIdle
      let keys : K → Prop := fun key => ∃ check ∈ checks, check.key = key
      have apart : Separate (StoreConfig.new hasher shards eviction minIdle) keys := .of_checks separate
      obtain ⟨clock, -, metered⟩ := fixed_run_metered admits keep apart checks
        (fun check member => ⟨check, member, rfl⟩) asked ordered
      by_cases known : keys key
      · obtain ⟨v, account⟩ := (metered _).backs known
        exact account.within window
      · rw [historyOf_eq_nil fun check member same => known ⟨check, member, same⟩]
        exact Nat.zero_le _

/-- One unit per second in a store of one key.  The first key spends its unit, the second evicts it, and
    when the first returns in the same window it is denied. -/
theorem fixed_window_survives_ordered_returns_of_two_keys :
    let quota := Quota.perSecond 1 (by decide)
    let eviction : Eviction := { maxKeys := some 1, idleTtl := none, overflow := .failClosed }
    let store : Store (StoreConfig.new (id : ℕ → ℕ) 1 eviction 0) FixedWindow := Store.new
    let checks : List (Check ℕ) := [⟨1, 1, 1500000000⟩, ⟨2, 1, 1600000000⟩, ⟨1, 1, 1700000000⟩]
    (Store.decisions quota store checks).map (fun entry => entry.2.isAllow) = [true, true, false] ∧
      windowUnits quota 1 0 (historyOf (Store.decisions quota store checks) 1) ≤ 1 := by
  intro quota eviction store checks
  refine ⟨by decide +kernel, ?_⟩
  exact fixed_window_survives_ordered_returns id 1 (rfl : eviction.overflow = .failClosed) 0 quota checks
    (by decide) (by decide +kernel) (by decide +kernel) 1 1

/-- The return that resets it.  The first key spends its unit in window 1 and is evicted; a thread that
    read the clock in window 0 brings it back, charged in window 0; its next check, in window 1 again,
    opens window 1 afresh and is admitted. -/
theorem fixed_window_reset_by_stale_return :
    let quota := Quota.perSecond 1 (by decide)
    let eviction : Eviction := { maxKeys := some 1, idleTtl := none, overflow := .failClosed }
    let store : Store (StoreConfig.new (id : ℕ → ℕ) 1 eviction 0) FixedWindow := Store.new
    let checks : List (Check ℕ) :=
      [⟨1, 1, 1500000000⟩, ⟨2, 1, 1600000000⟩, ⟨1, 1, 500000000⟩, ⟨1, 1, 1700000000⟩]
    (∀ check ∈ checks, 1 ≤ check.n ∧ check.n ≤ quota.limit) ∧
    ¬ SameDebtor (StoreConfig.new (id : ℕ → ℕ) 1 eviction 0).table 1 2 ∧
      quota.limit < windowUnits quota 1 0 (historyOf (Store.decisions quota store checks) 1) := by
  decide +kernel

end RateNet
