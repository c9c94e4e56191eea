/-
Module: RateNet.Proofs.HonestRetries
Purpose: The retry time of a refused check is worth waiting for. Under each algorithm a refusal tells a
  positive time, and the units it refused are admitted when that time is over, if nothing was granted
  meanwhile. Readings are below the end of the 64-bit time line.
Trusted boundary: none
Main exports: HonestDenials, gcra_honest, fixedWindow_honest, slidingLog_honest, slidingCounter_honest
-/
import RateNet.Algo.Lawful
import RateNet.Proofs.RetryAfter

namespace RateNet

/-- Refusals up to `horizon` tell a positive time to wait, unending only for units that can never be admitted,
    and after that time the same units are admitted. -/
structure HonestDenials (S : Type) [KeyState S] [LawfulKeyState S] (quota : Quota) (horizon : ℕ) : Prop where
  timely : ∀ {s : S} {n now wait : ℕ}, LawfulKeyState.Under quota s → now ≤ horizon →
    (KeyState.acquire s n now).1 = .deny wait →
    0 < wait ∧ wait ≤ durationMax ∧ (wait = durationMax → capacity (LawfulKeyState.algorithm S) quota < n)
  honest : ∀ {s : S} {n now wait : ℕ}, LawfulKeyState.Under quota s →
    n ≤ capacity (LawfulKeyState.algorithm S) quota → (KeyState.acquire s n now).1 = .deny wait →
    now + wait ≤ horizon → (KeyState.acquire (KeyState.acquire s n now).2 n (now + wait)).1 = .allow

section Split

variable {S : Type} [KeyState S] [LawfulKeyState S] {quota : Quota} {s : S} {n now wait : ℕ}

theorem pos_of_denied (denied : (KeyState.acquire s n now).1 = .deny wait) : 1 ≤ n := by
  by_contra zero
  obtain rfl : n = 0 := by omega
  rw [LawfulKeyState.acquire_zero] at denied
  cases denied

/-- An impossible request is refused for ever; of the others it is left to show that the wait is a word. -/
theorem timely_of_possible (under : LawfulKeyState.Under quota s)
    (possible : n ≤ capacity (LawfulKeyState.algorithm S) quota → 0 < wait ∧ wait ≤ u64Max)
    (denied : (KeyState.acquire s n now).1 = .deny wait) :
    0 < wait ∧ wait ≤ durationMax ∧ (wait = durationMax → capacity (LawfulKeyState.algorithm S) quota < n) := by
  have small := u64Max_lt_durationMax
  rcases Nat.lt_or_ge (capacity (LawfulKeyState.algorithm S) quota) n with more | fits
  · rw [LawfulKeyState.acquire_impossible now under more, Decision.deny.injEq] at denied
    exact ⟨by omega, by omega, fun _ => more⟩
  · obtain ⟨positive, word⟩ := possible fits
    exact ⟨positive, by omega, by omega⟩

end Split

theorem gcra_honest (quota : Quota) {horizon : ℕ} (clock : horizon < u64Max) :
    HonestDenials Gcra quota horizon := by
  have refused {g : Gcra} {n now wait : ℕ} (under : g.Under quota) (possible : n ≤ quota.burst)
      (denied : (g.checkNAt n now).1 = .deny wait) :
      1 ≤ n ∧ n ≤ g.params.tolerance + 1 ∧ g.params.IsOpen ∧ (g.params.checkNIn g.tat n now).1 ≠ .allow ∧
        wait = max (g.params.nanosAt (g.params.readyIv g.tat n now) - nanos now) 1 := by
    have asked : 1 ≤ n := pos_of_denied (S := Gcra) denied
    have fits : n ≤ g.params.tolerance + 1 := by
      rw [under.params, under.burst]
      exact possible
    have opened : g.params.IsOpen := by
      rw [under.params]
      exact under.isOpen
    change (g.params.checkNIn g.tat n now).1 = .deny wait at denied
    have no : (g.params.checkNIn g.tat n now).1 ≠ .allow := by
      rw [denied]
      exact Decision.noConfusion
    rw [GcraParams.checkNIn_of_refused opened asked fits no, Decision.deny.injEq] at denied
    exact ⟨asked, fits, opened, no, denied.symm⟩
  constructor
  · intro g n now wait under _ denied
    refine timely_of_possible under (fun possible => ?_) denied
    obtain ⟨-, -, -, -, rfl⟩ := refused under possible denied
    have word : g.params.nanosAt (g.params.readyIv g.tat n now) ≤ u64Max := min_le_right _ _
    have one : 1 ≤ u64Max := by decide
    omega
  · intro g n now wait under possible denied due
    obtain ⟨asked, fits, opened, no, rfl⟩ := refused under possible denied
    have same : (g.checkNAt n now).2 = g := by
      show ({ g with tat := (g.params.checkNIn g.tat n now).2 } : Gcra) = g
      rw [GcraParams.checkNIn_of_refused opened asked fits no]
    show ((g.checkNAt n now).2.checkNAt n _).1 = .allow
    rw [same]
    apply (GcraParams.checkNIn_allow_iff_ready opened asked fits no (by omega)).2
    rw [nanos_eq (show now ≤ u64Max by omega)] at due ⊢
    rw [nanos_eq (show now + _ ≤ u64Max by omega)]
    exact GcraParams.le_intervalsAt_of_nanosAt_le opened (by omega) (by omega)

/-- A window under way ends after the reading it is judged at, if the clock is not at its end. -/
theorem FixedWindow.Under.reading_lt_end {quota : Quota} {fw : FixedWindow} (under : fw.Under quota) {now : ℕ}
    (clock : now < u64Max) : nanos now < satMul (satAdd (fw.windowAt now) 1) fw.periodNs := by
  have positive := under.period_pos
  rw [← under.period] at positive
  have reading : nanos now = now := nanos_eq clock.le
  have window : nanos now / fw.periodNs ≤ fw.windowAt now := le_max_left _ _
  have inside : nanos now < (fw.windowAt now + 1) * fw.periodNs :=
    Nat.lt_mul_of_div_lt (Nat.lt_succ_of_le window) positive
  rcases Nat.lt_or_ge u64Max (fw.windowAt now + 1) with past | fits
  · have full : u64Max ≤ u64Max * fw.periodNs := Nat.le_mul_of_pos_right _ positive
    rw [satAdd, min_eq_right past.le, satMul, min_eq_right full]
    omega
  · rw [satAdd_eq fits, satMul]
    omega

theorem fixedWindow_honest (quota : Quota) {horizon : ℕ} (clock : horizon < u64Max) :
    HonestDenials FixedWindow quota horizon := by
  have refused {fw : FixedWindow} {n now wait : ℕ} (under : fw.Under quota) (possible : n ≤ quota.limit)
      (denied : (fw.acquire n now).1 = .deny wait) :
      1 ≤ n ∧ (fw.acquire n now).2 = fw ∧ wait = fw.untilEndOf (fw.windowAt now) (nanos now) := by
    have asked : 1 ≤ n := pos_of_denied (S := FixedWindow) denied
    have full : quota.limit < fw.usedAt now + n := by
      by_contra fits
      rw [FixedWindow.acquire_fits under asked (Nat.le_of_not_lt fits)] at denied
      cases denied
    have reports := FixedWindow.acquire_full under possible full
    rw [reports, Decision.deny.injEq] at denied
    exact ⟨asked, congrArg Prod.snd reports, denied.symm⟩
  constructor
  · intro fw n now wait under below denied
    refine timely_of_possible under (fun possible => ?_) denied
    obtain ⟨-, -, rfl⟩ := refused under possible denied
    have ahead := under.reading_lt_end (lt_of_le_of_lt below clock)
    have word : satMul (satAdd (fw.windowAt now) 1) fw.periodNs ≤ u64Max := min_le_right _ _
    rw [FixedWindow.untilEndOf]
    omega
  · intro fw n now wait under possible denied due
    obtain ⟨asked, same, rfl⟩ := refused under possible denied
    show ((fw.acquire n now).2.acquire n _).1 = .allow
    rw [same]
    have reading : nanos now = now := nanos_eq (by omega)
    have ahead := under.reading_lt_end (show now < u64Max by omega)
    have waits : now + fw.untilEndOf (fw.windowAt now) (nanos now) =
        satMul (satAdd (fw.windowAt now) 1) fw.periodNs := by
      rw [FixedWindow.untilEndOf]
      omega
    rw [waits] at due ⊢
    -- below the end of the time line nothing saturated, and the next window has begun
    have positive : 0 < fw.periodNs := by
      rw [under.period]
      exact under.period_pos
    have ends : satMul (satAdd (fw.windowAt now) 1) fw.periodNs = (fw.windowAt now + 1) * fw.periodNs := by
      have product := satMul_eq_of_lt (lt_of_le_of_lt due clock)
      have factor := Nat.le_mul_of_pos_right (satAdd (fw.windowAt now) 1) positive
      rw [product, satAdd_eq_of_lt (by omega)]
    rw [ends] at due ⊢
    have next : fw.latest < fw.windowAt ((fw.windowAt now + 1) * fw.periodNs) := by
      have held : fw.latest ≤ fw.windowAt now := le_max_right _ _
      have begun : nanos ((fw.windowAt now + 1) * fw.periodNs) / fw.periodNs = fw.windowAt now + 1 := by
        rw [nanos_eq (by omega), Nat.mul_div_cancel _ positive]
      have reached : nanos ((fw.windowAt now + 1) * fw.periodNs) / fw.periodNs ≤
          fw.windowAt ((fw.windowAt now + 1) * fw.periodNs) := le_max_left _ _
      omega
    obtain ⟨held, -, -, used⟩ := under.usedAt_eq
    rw [FixedWindow.acquire_fits under asked]
    rw [used, if_neg next.ne', Nat.zero_add]
    exact possible

theorem slidingLog_honest (quota : Quota) (horizon : ℕ) : HonestDenials SlidingLog quota horizon := by
  constructor
  · intro sl n now wait under _ denied
    refine timely_of_possible under (fun possible => ?_) denied
    obtain ⟨told, -⟩ := SlidingLog.Under.retries_exactly under (pos_of_denied denied) possible (Prod.ext denied rfl)
    omega
  · intro sl n now wait under possible denied _
    obtain ⟨-, -, -, later⟩ :=
      SlidingLog.Under.retries_exactly under (pos_of_denied denied) possible (Prod.ext denied rfl)
    exact later.1

theorem slidingCounter_honest (quota : Quota) {horizon : ℕ} (clock : horizon < u64Max) :
    HonestDenials SlidingCounter quota horizon := by
  constructor
  · intro sc n now wait under _ denied
    refine timely_of_possible under (fun possible => ?_) denied
    have asked : 1 ≤ n := pos_of_denied denied
    change (sc.acquire n now).1 = .deny wait at denied
    have full : sc.remainingAt now < n := by
      by_contra fits
      rw [(SlidingCounter.acquire_fits under asked (Nat.le_of_not_lt fits)).1] at denied
      cases denied
    rw [SlidingCounter.acquire_refused under possible full, Decision.deny.injEq] at denied
    simp only [satAdd] at denied
    have one : 1 ≤ u64Max := by decide
    omega
  · intro sc n now wait under possible denied due
    obtain ⟨-, -, later⟩ := SlidingCounter.Under.retries_exactly under (pos_of_denied denied) possible
      (Prod.ext denied rfl) (due.trans_lt clock)
    exact later.1

end RateNet
