/-
Module: RateNet.Proofs.FrozenClock
Purpose: What checks at one and the same reading admit. As long as a check takes what it admits out of what
  is left at that reading, a sequence of them admits no more than the capacity. The fixed window and the
  sliding counter do so at every reading. The leaky bucket does so where its interval number and the burst
  fit a word; past that its saturated ceiling is never passed. The sliding log does so before the last
  instant of the clock, where a record is a period old as soon as it is written. At the readings left
  out both admit without bound.
Trusted boundary: none
Main exports: admittedAt, FrozenClockBound, frozen_clock_bound_iff, saturated_clock_admits_twice
-/
import RateNet.Algo.Lawful

namespace RateNet

section Sequences

variable {S : Type} [KeyState S] {now : ℕ} {Kept : S → Prop}

/-- The units a sequence of checks at one reading admits. -/
def admittedAt (now : ℕ) : List ℕ → S → ℕ
  | [], _ => 0
  | n :: rest, s =>
      (if (KeyState.acquire s n now).1 = .allow then n else 0) +
        admittedAt now rest (KeyState.acquire s n now).2

/-- States from which checks at `now` take what they admit out of what is left. -/
structure Charges (now : ℕ) (Kept : S → Prop) : Prop where
  keeps : ∀ s n, Kept s → Kept (KeyState.acquire s n now).2
  charges : ∀ s n, Kept s → 1 ≤ n → (KeyState.acquire s n now).1 = .allow →
    (KeyState.peek (KeyState.acquire s n now).2 now).1.remaining + n ≤ (KeyState.peek s now).1.remaining

/-- Nothing is admitted beyond what is left. -/
theorem Charges.admittedAt_le [LawfulKeyState S] {quota : Quota} (charging : Charges now Kept)
    (under : ∀ s, Kept s → LawfulKeyState.Under quota s) (units : List ℕ) (s : S) (kept : Kept s) :
    admittedAt now units s ≤ (KeyState.peek s now).1.remaining := by
  induction units generalizing s with
  | nil => exact Nat.zero_le _
  | cons n rest inductionHypothesis =>
      have later := inductionHypothesis _ (charging.keeps s n kept)
      rw [admittedAt]
      rcases Nat.eq_zero_or_pos n with rfl | asked
      · rw [LawfulKeyState.acquire_zero] at later ⊢
        rw [ite_self, Nat.zero_add]
        exact later
      · split
        · rename_i allowed
          have charged := charging.charges s n kept asked allowed
          omega
        · rename_i denied
          -- a denied check only ages the state
          have same : (KeyState.peek (KeyState.acquire s n now).2 now).1 = (KeyState.peek s now).1 := by
            have refused : (KeyState.acquire s n now).1.isDeny = true := by
              cases decision : (KeyState.acquire s n now).1 with
              | allow => exact absurd decision denied
              | deny wait => rfl
            rcases LawfulKeyState.acquire_denied (under s kept) refused with left | aged
            · rw [left]
            · rw [aged, LawfulKeyState.peek_again now (under s kept)]
          rw [same] at later
          omega

/-- Where a single unit always fits, any number of them is admitted. -/
theorem admittedAt_replicate (admits : ∀ s, Kept s → (KeyState.acquire s 1 now).1 = .allow)
    (keeps : ∀ s, Kept s → Kept (KeyState.acquire s 1 now).2) (count : ℕ) (s : S) (kept : Kept s) :
    admittedAt now (List.replicate count 1) s = count := by
  induction count generalizing s with
  | zero => rfl
  | succ count inductionHypothesis =>
      rw [List.replicate_succ, admittedAt, if_pos (admits s kept), inductionHypothesis _ (keeps s kept)]
      exact Nat.add_comm 1 count

end Sequences

/-- What any checks at `now` admit from a state created at `made` is at most the capacity, exactly if
    `clock` holds. -/
def FrozenClockBound (S : Type) [KeyState S] [LawfulKeyState S] (quota : Quota) (made now : ℕ)
    (clock : Prop) : Prop :=
  ∀ s : S, KeyState.create quota made = some s →
    ((∀ units, admittedAt now units s ≤ capacity (LawfulKeyState.algorithm S) quota) ↔ clock)

section Bounds

variable {S : Type} [KeyState S] [LawfulKeyState S] {quota : Quota} {now : ℕ} {Kept : S → Prop}

theorem Charges.bounded (charging : Charges now Kept) (under : ∀ s, Kept s → LawfulKeyState.Under quota s)
    {s : S} (kept : Kept s) (units : List ℕ) :
    admittedAt now units s ≤ capacity (LawfulKeyState.algorithm S) quota := by
  refine (charging.admittedAt_le under units s kept).trans ?_
  rw [← LawfulKeyState.peek_limit now (under s kept)]
  exact Snapshot.remaining_le _

omit [LawfulKeyState S] in
theorem not_bounded (admits : ∀ s : S, Kept s → (KeyState.acquire s 1 now).1 = .allow)
    (keeps : ∀ s : S, Kept s → Kept (KeyState.acquire s 1 now).2) {s : S} (kept : Kept s) (bound : ℕ) :
    ¬ ∀ units, admittedAt now units s ≤ bound := by
  intro bounded
  have more := bounded (List.replicate (bound + 1) 1)
  rw [admittedAt_replicate admits keeps _ s kept] at more
  omega

end Bounds

/-!
### The leaky bucket
-/

namespace Gcra

variable {quota : Quota} {g : Gcra} {n now : ℕ}

/-- An admitted check moves the arrival time by what it admits. -/
theorem charges_of_fits (fits : (GcraParams.new quota).intervalsAt (nanos now) + quota.burst ≤ u64Max) :
    Charges now (Gcra.Under quota) where
  keeps _ n kept := kept.checkNAt n now
  charges := by
    intro g n under asked allowed
    have after := under.checkNAt n now
    have burst := under.burst
    have unsaturated : (GcraParams.new quota).Unsaturated now := by
      rw [GcraParams.Unsaturated, burst]
      exact fits
    show ((g.checkNAt n now).2.peekAt now).remaining + n ≤ (g.peekAt now).remaining
    rw [after.remaining_eq, under.remaining_eq, satAdd_eq fits]
    change (g.checkNAt n now).1 = .allow at allowed
    have word : (g.checkNAt n now).2.tat = ((GcraParams.new quota).checkNIn g.tat n now).2 := by
      rw [Gcra.checkNAt, under.params]
    rw [Gcra.checkNAt, under.params] at allowed
    rw [word]
    rcases GcraParams.checkNIn_cases g.tat n unsaturated with ⟨none_asked, -⟩ | ⟨-, wait, denied⟩ | ⟨-, charged, room⟩
    · omega
    · rw [denied] at allowed
      cases allowed
    · rw [charged]
      dsimp only
      omega

/-- Once the ceiling saturates, it is never passed. -/
theorem Under.allow_of_saturated (under : g.Under quota)
    (saturated : u64Max < (GcraParams.new quota).intervalsAt (nanos now) + quota.burst) :
    (g.checkNAt 1 now).1 = .allow := by
  have burst := under.burst
  rw [Gcra.checkNAt, under.params, GcraParams.checkNIn_allow_iff under.isOpen le_rfl (by omega)]
  simp only [satAdd]
  omega

end Gcra

/-!
### The windows
-/

theorem FixedWindow.charges (quota : Quota) (now : ℕ) : Charges now (FixedWindow.Under quota) where
  keeps _ n kept := kept.acquire n now
  charges := by
    intro fw n under asked allowed
    have fits := (under.allow_iff.1 allowed).resolve_left (by omega)
    have used := under.usedAt_le now
    rw [FixedWindow.remaining_eq under] at fits
    show ((fw.acquire n now).2.peek now).remaining + n ≤ (fw.peek now).remaining
    rw [FixedWindow.remaining_eq (under.acquire n now), FixedWindow.remaining_eq under,
      FixedWindow.usedAt_acquire under asked (by omega)]
    omega

theorem SlidingCounter.charges (quota : Quota) (now : ℕ) : Charges now (SlidingCounter.Under quota) where
  keeps _ n kept := kept.acquire n now
  charges := by
    intro sc n under asked allowed
    have fits := (under.allow_iff.1 allowed).resolve_left (by omega)
    rw [SlidingCounter.remaining_eq under] at fits
    show ((sc.acquire n now).2.peek now).1.remaining + n ≤ (sc.peek now).1.remaining
    rw [SlidingCounter.remaining_eq (under.acquire n now), SlidingCounter.remaining_eq under,
      SlidingCounter.remainingAt_acquire under asked fits]
    omega

namespace SlidingLog

variable {quota : Quota} {sl : SlidingLog} {n now : ℕ}

/-- A log that has only seen the one reading. -/
structure SinceFresh (quota : Quota) (now : ℕ) (sl : SlidingLog) : Prop where
  under : sl.Under quota
  here : ∀ run ∈ sl.log.runs, run.atNs = nanos now
  nothing_expired : sl.log.expiredTotal = 0

theorem SinceFresh.instant (since : sl.SinceFresh quota now) : sl.log.instant (nanos now) = nanos now := by
  cases newest : sl.log.runs.getLast? with
  | none => rw [Log.instant, newest, Option.elim_none]
  | some back =>
      rw [Log.instant_of_getLast? newest, since.here back (List.mem_of_getLast? newest), max_self]

/-- Before the clock's last instant no record has aged out by the instant it was written at. -/
theorem SinceFresh.aged (since : sl.SinceFresh quota now) (clock : nanos now < u64Max) : sl.aged now = sl := by
  have kept : sl.log.expireAt (nanos now) sl.periodNs = sl.log := by
    have period := since.under.period_pos
    have here := since.here
    rw [Log.expireAt, since.instant, since.under.period]
    obtain ⟨⟨runs, expiredTotal⟩, periodNs, limit⟩ := sl
    cases runs with
    | nil => rfl
    | cons front rest =>
        rw [Log.expire, if_pos]
        rw [here front List.mem_cons_self]
        simp only [satAdd]
        omega
  rw [SlidingLog.aged, kept]

theorem SinceFresh.record (since : sl.SinceFresh quota now) (n : ℕ)
    (under : ({ sl with log := sl.log.record n (nanos now) } : SlidingLog).Under quota) :
    ({ sl with log := sl.log.record n (nanos now) } : SlidingLog).SinceFresh quota now := by
  refine ⟨under, ?_, (sl.log.expiredTotal_record _ _).trans since.nothing_expired⟩
  intro run member
  rcases sl.log.runs_record n (nanos now) with ⟨back, -, -, runs⟩ | ⟨-, runs⟩
  · rw [runs] at member
    rcases List.mem_append.1 member with older | newest
    · exact since.here run (List.mem_of_mem_dropLast older)
    · rw [List.mem_singleton.1 newest]
  · rw [runs] at member
    rcases List.mem_append.1 member with older | newest
    · exact since.here run older
    · rw [List.mem_singleton.1 newest]

theorem SinceFresh.acquire (since : sl.SinceFresh quota now) (clock : nanos now < u64Max) (n : ℕ) :
    (sl.acquire n now).2.SinceFresh quota now := by
  have under := since.under
  have after := under.acquire n now
  have aged := since.aged clock
  rcases Nat.eq_zero_or_pos n with rfl | asked
  · rw [acquire_zero]
    exact since
  rcases Nat.lt_or_ge quota.limit n with impossible | possible
  · rw [acquire_impossible under impossible]
    exact since
  rcases Nat.lt_or_ge quota.limit (sl.usedAt now + n) with full | fits
  · obtain ⟨wait, denied⟩ := acquire_full under possible full
    rw [denied, aged]
    exact since
  · rw [acquire_fits under asked fits, aged, since.instant] at after ⊢
    exact since.record n after

theorem charges_of_clock (quota : Quota) (clock : nanos now < u64Max) :
    Charges now (SlidingLog.SinceFresh quota now) where
  keeps _ n kept := kept.acquire clock n
  charges := by
    intro sl n since asked allowed
    have under := since.under
    have later := since.acquire clock n
    have fits := (under.allow_iff.1 allowed).resolve_left (by omega)
    have counted : sl.usedAt now = sl.log.total := by
      rw [usedAt, since.aged clock, Log.inWindow, since.nothing_expired, Nat.sub_zero]
    have used := under.usedAt_le now
    have small := quota.limit_le
    rw [remaining_eq under] at fits
    have sum : satAdd sl.log.total n = sl.log.total + n := by
      apply satAdd_eq
      simp only [u32Max] at small
      simp only [u64Max]
      omega
    have counts : (sl.acquire n now).2.usedAt now = sl.usedAt now + n := by
      rw [usedAt, later.aged clock, Log.inWindow, later.nothing_expired, Nat.sub_zero,
        acquire_fits under asked (by omega), since.aged clock, counted]
      exact (sl.log.total_record _ _).trans sum
    show ((sl.acquire n now).2.peek now).1.remaining + n ≤ (sl.peek now).1.remaining
    rw [remaining_eq later.under, remaining_eq under, counts]
    omega

/-- At the clock's last instant a record is a period old as soon as it is written. -/
theorem allow_of_last_instant (under : sl.Under quota) (stopped : nanos now = u64Max) :
    (sl.acquire 1 now).1 = .allow := by
  have empty : sl.usedAt now = 0 := by
    apply Log.inWindow_expire_of_gone
    intro run _
    exact (min_le_right _ _).trans (stopped.ge.trans (sl.log.le_instant _))
  have limit := under.limit_pos
  rw [under.allow_iff, remaining_eq under, empty]
  omega

end SlidingLog

/-- For each of the four algorithms, the readings at which a frozen clock admits at most the capacity: all of
    them for the fixed window and the sliding counter; those whose interval number and burst fit a word for
    the leaky bucket; and those before the clock's last instant for the sliding log. -/
theorem frozen_clock_bound_iff (quota : Quota) (made now : ℕ) :
    FrozenClockBound Gcra quota made now
        ((GcraParams.new quota).intervalsAt (nanos now) + quota.burst ≤ u64Max) ∧
      FrozenClockBound FixedWindow quota made now True ∧
      FrozenClockBound SlidingLog quota made now (now < u64Max) ∧
      FrozenClockBound SlidingCounter quota made now True := by
  refine ⟨?_, ?_, ?_, ?_⟩
  · intro g create
    have under : g.Under quota := LawfulKeyState.create_under create
    constructor
    · intro bounded
      by_contra saturated
      exact not_bounded (fun _ kept => kept.allow_of_saturated (Nat.lt_of_not_le saturated))
        (fun _ kept => kept.checkNAt 1 now) under _ bounded
    · intro fits
      exact (Gcra.charges_of_fits fits).bounded (fun _ kept => kept) under
  · intro fw create
    refine iff_of_true ?_ trivial
    exact (FixedWindow.charges quota now).bounded (fun _ kept => kept) (LawfulKeyState.create_under create)
  · intro sl create
    have under : sl.Under quota := LawfulKeyState.create_under create
    constructor
    · intro bounded
      by_contra stopped
      have last : nanos now = u64Max := min_eq_right (Nat.le_of_not_lt stopped)
      exact not_bounded (fun _ kept => SlidingLog.allow_of_last_instant kept last)
        (fun _ kept => kept.acquire 1 now) under _ bounded
    · intro clock
      obtain ⟨admits, rfl⟩ := Option.ite_some_none_eq_some.1 create
      have fresh : (SlidingLog.new quota).SinceFresh quota now :=
        ⟨under, (fun _ member => by cases member), rfl⟩
      exact (SlidingLog.charges_of_clock quota (lt_of_le_of_lt (min_le_left _ _) clock)).bounded
        (fun _ kept => kept.under) fresh
  · intro sc create
    refine iff_of_true ?_ trivial
    exact (SlidingCounter.charges quota now).bounded (fun _ kept => kept) (LawfulKeyState.create_under create)

/-- A burst and a limit of one, at the last instant: a second unit is admitted by the leaky bucket and by
    the sliding log. -/
theorem saturated_clock_admits_twice :
    admittedAt u64Max [1, 1] (Gcra.new unitPerNano) = 2 ∧
      admittedAt u64Max [1, 1] (SlidingLog.new unitPerNano) = 2 := by
  decide +kernel

/-- Ten units per second at the instant five: three checks of four units admit eight. -/
theorem frozen_clock_bound_of_ten_per_second :
    let quota := Quota.perSecond 10 (by decide)
    (KeyState.create quota 5 = some (Gcra.new quota) ∧ admittedAt 5 [4, 4, 4] (Gcra.new quota) ≤ 10) ∧
      (KeyState.create quota 5 = some (SlidingLog.new quota) ∧
        admittedAt 5 [4, 4, 4] (SlidingLog.new quota) ≤ 10) := by
  intro quota
  refine ⟨⟨rfl, ?_⟩, ⟨rfl, ?_⟩⟩
  · exact ((frozen_clock_bound_iff quota 5 5).1 _ rfl).2 (by decide +kernel) [4, 4, 4]
  · exact ((frozen_clock_bound_iff quota 5 5).2.2.1 _ rfl).2 (by decide) [4, 4, 4]

end RateNet
