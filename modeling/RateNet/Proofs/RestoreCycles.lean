/-
Module: RateNet.Proofs.RestoreCycles
Purpose: A leaky-bucket key evicted and restored over and over, with no unit admitted in between. The recovery
  table keeps the deadline in whole milliseconds, rounded up, and a restored arrival time is the first
  interval to start at or after that deadline. One cycle is therefore one rounding up to a millisecond
  followed by one rounding up to an interval, and a further cycle moves the arrival time again unless the
  interval it landed on itself starts on a whole millisecond.
Trusted boundary: none
Main exports: Cycle, Cycle.tatAfter, tatAfterAll, restoreUntilIn_eq, Cycle.tatAfter_eq, CyclesSettle,
  further_cycles_keep_tat_iff
-/
import RateNet.Algo.Lawful
import RateNet.Store.Recovery

namespace RateNet

open RateConversion

/-- A key evicted, and stored again. -/
structure Cycle where
  evictedAt : ℕ
  returnedAt : ℕ

/-- The debt a record gives back: its deadline is a whole millisecond. -/
def Debt.recorded (debt : Debt) : Debt :=
  { debt with «until» := fromMillis (min (ceilMillis debt.until) (inheritedBit - 1)) }

/-- The arrival time after a cycle that began with `tat`: evicted while it owes, stored again and charged before
    the recorded deadline.  `none` if it owes nothing when it is evicted or returns out of time. -/
def Cycle.tatAfter (quota : Quota) (tat : ℕ) (cycle : Cycle) : Option ℕ := do
  let debt ← (KeyState.debt ({ tat, params := .new quota } : Gcra) cycle.evictedAt).1
  let fresh : Gcra ← KeyState.create quota cycle.returnedAt
  if cycle.evictedAt ≤ cycle.returnedAt ∧ cycle.returnedAt < debt.recorded.until then
    some (KeyState.restore fresh debt.recorded cycle.returnedAt).tat
  else none

/-- The arrival time after one cycle upon another. -/
def tatAfterAll (quota : Quota) (tat : ℕ) : List Cycle → Option ℕ
  | [] => some tat
  | cycle :: cycles => do
    let tat ← cycle.tatAfter quota tat
    tatAfterAll quota tat cycles

/-!
### One cycle
-/

namespace GcraParams

variable {p : GcraParams} (hp : p.IsOpen)
include hp

/-- A restored arrival time is the first interval to start at or after the deadline. -/
theorem restoreUntilIn_eq (tat «until» : ℕ) :
    p.restoreUntilIn tat «until» = max tat (nextTick p.limit p.periodNs (nanos «until»)) := by
  have clock := nanos_le «until»
  simp only [restoreUntilIn, hp.not_closed, Bool.false_eq_true, if_false, intervalsAt_eq hp clock]
  generalize nanos «until» = deadline at clock ⊢
  have begun : tickStart p.limit p.periodNs (ticksAt p.limit p.periodNs deadline) ≤ deadline :=
    (tickStart_le_iff hp.limit_pos hp.period_pos).2 le_rfl
  have start : p.nanosAt (ticksAt p.limit p.periodNs deadline) =
      tickStart p.limit p.periodNs (ticksAt p.limit p.periodNs deadline) :=
    min_eq_left (begun.trans clock)
  rw [start, nextTick]
  by_cases whole : deadline ≤ tickStart p.limit p.periodNs (ticksAt p.limit p.periodNs deadline)
  · rw [if_pos whole, if_pos whole]
  · -- a later interval starts within the clock, so its number fits
    have floor := ticksAt_le hp.limit_le deadline
    have number := le_tickStart hp.limit_pos hp.limit_le (ticksAt p.limit p.periodNs deadline)
    have next : ticksAt p.limit p.periodNs deadline + 1 ≤ u64Max := by omega
    rw [if_neg whole, if_neg whole, satAdd_eq next]

/-- The instant a cycle that begins with `tat` rounds the arrival time up to: the recorded deadline, on the
    clock. -/
def landing (p : GcraParams) (tat evictedAt : ℕ) : ℕ :=
  nanos (fromMillis (ceilMillis (max (p.nanosAt tat) evictedAt)))

end GcraParams

section OneCycle

variable {quota : Quota}

theorem ceilMillis_lt_inheritedBit {d : ℕ} (clock : d ≤ u64Max) : ceilMillis d ≤ inheritedBit - 1 :=
  (ceilMillis_mono clock).trans (by decide)

/-- A deadline at or past the clock's end stays there when it is recorded. -/
theorem nanos_recorded_of_late {d : ℕ} (late : u64Max ≤ d) :
    nanos (fromMillis (min (ceilMillis d) (inheritedBit - 1))) = u64Max := by
  refine min_eq_right ?_
  have up : ceilMillis u64Max ≤ min (ceilMillis d) (inheritedBit - 1) :=
    le_min (ceilMillis_mono late) (ceilMillis_lt_inheritedBit le_rfl)
  exact (by decide : u64Max ≤ fromMillis (ceilMillis u64Max)).trans (fromMillis_mono up)

theorem nanos_fromMillis_of_late {d : ℕ} (late : u64Max ≤ d) : nanos (fromMillis (ceilMillis d)) = u64Max :=
  min_eq_right ((by decide : u64Max ≤ fromMillis (ceilMillis u64Max)).trans
    (fromMillis_mono (ceilMillis_mono late)))

/-- The recorded deadline, on the clock. -/
theorem Gcra.Under.nanos_recorded {g : Gcra} (under : g.Under quota) {now : ℕ} {debt : Debt}
    (owed : (KeyState.debt g now).1 = some debt) :
    nanos debt.recorded.until = (GcraParams.new quota).landing g.tat now := by
  obtain ⟨-, -, deadline⟩ := Snapshot.debt_eq_some.1 owed
  change debt.until = durationAdd now (g.peekAt now).resetAfter at deadline
  rw [Debt.recorded, GcraParams.landing, deadline]
  rcases Nat.lt_or_ge now u64Max with clock | late
  · have start_le : (GcraParams.new quota).nanosAt g.tat ≤ u64Max := min_le_right _ _
    rw [under.deadline_eq clock, min_eq_left (ceilMillis_lt_inheritedBit (max_le start_le clock.le))]
  · have passed : u64Max ≤ durationAdd now (g.peekAt now).resetAfter :=
      le_min (late.trans (Nat.le_add_right _ _)) u64Max_lt_durationMax.le
    rw [nanos_recorded_of_late passed, nanos_fromMillis_of_late (late.trans (le_max_right _ _))]

/-- A cycle leaves the first interval to start at or after the recorded deadline. -/
theorem Cycle.tatAfter_eq (admits : admitsAnything .leakyBucket quota = true) {tat after : ℕ} {cycle : Cycle}
    (done : cycle.tatAfter quota tat = some after) :
    after = nextTick (GcraParams.new quota).limit (GcraParams.new quota).periodNs
      ((GcraParams.new quota).landing tat cycle.evictedAt) := by
  have hp := GcraParams.new_isOpen_of_admits admits
  simp only [Cycle.tatAfter, Option.bind_eq_bind, Option.bind_eq_some_iff] at done
  obtain ⟨debt, owed, fresh, made, returned⟩ := done
  have under : Gcra.Under quota { tat, params := .new quota } := ⟨rfl, admits⟩
  simp only [KeyState.create, admits, if_true, Option.some.injEq] at made
  subst made
  split at returned
  · rename_i timely
    simp only [KeyState.restore, if_pos timely.2, Option.some.injEq] at returned
    have restored : (GcraParams.new quota).restoreUntilIn 0 debt.recorded.until = after := returned
    rw [← restored, GcraParams.restoreUntilIn_eq hp, under.nanos_recorded owed, Nat.zero_max]
  · cases returned

end OneCycle

/-!
### Cycle upon cycle
-/

section Cycles

variable {p : GcraParams} {tat : ℕ}

theorem landing_le (p : GcraParams) (tat evictedAt : ℕ) : p.landing tat evictedAt ≤ u64Max := nanos_le _

theorem nanosAt_le_landing (p : GcraParams) (tat evictedAt : ℕ) : p.nanosAt tat ≤ p.landing tat evictedAt := by
  have clock : p.nanosAt tat ≤ u64Max := min_le_right _ _
  have small : ceilMillis (p.nanosAt tat) < u64Max := lt_of_le_of_lt (ceilMillis_mono clock) (by decide)
  refine le_min ?_ clock
  exact (le_fromMillis_ceilMillis small).trans (fromMillis_mono (ceilMillis_mono (le_max_left _ _)))

variable (hp : p.IsOpen) (reach : tat ≤ nextTick p.limit p.periodNs u64Max)
include hp reach

/-- An arrival time the clock can reach is never moved back. -/
theorem le_next_landing (evictedAt : ℕ) :
    tat ≤ nextTick p.limit p.periodNs (p.landing tat evictedAt) := by
  have up := nanosAt_le_landing p tat evictedAt
  rw [GcraParams.nanosAt_eq] at up
  rcases Nat.le_total (tickStart p.limit p.periodNs tat) u64Max with inside | past
  · rw [min_eq_left inside] at up
    exact le_nextTick hp.limit_pos hp.limit_le up
  · rw [min_eq_right past] at up
    rw [le_antisymm (landing_le p tat evictedAt) up]
    exact reach

/-- A cycle keeps the arrival time it begins with exactly when that starts on a whole millisecond, not before the
    eviction, or no earlier than the clock's end. -/
theorem next_landing_eq_iff (evictedAt : ℕ) :
    nextTick p.limit p.periodNs (p.landing tat evictedAt) = tat ↔
      u64Max ≤ tickStart p.limit p.periodNs tat ∨
        nanosPerMilli ∣ tickStart p.limit p.periodNs tat ∧ evictedAt ≤ tickStart p.limit p.periodNs tat := by
  have back : nextTick p.limit p.periodNs (p.landing tat evictedAt) = tat ↔
      p.landing tat evictedAt ≤ tickStart p.limit p.periodNs tat := by
    rw [← nextTick_le_iff hp.limit_pos hp.limit_le]
    exact ⟨fun same => same.le, fun below => le_antisymm below (le_next_landing hp reach evictedAt)⟩
  rw [back, GcraParams.landing, GcraParams.nanosAt_eq]
  generalize tickStart p.limit p.periodNs tat = start
  rcases Nat.lt_or_ge start u64Max with inside | past
  · rw [min_eq_left inside.le, nanos, min_le_iff]
    constructor
    · rintro (rounded | past)
      · -- a deadline rounded up to no more than the start is the start
        have small : ceilMillis (max start evictedAt) < u64Max := by
          simp only [fromMillis, nanosPerMilli] at rounded
          omega
        have up := le_fromMillis_ceilMillis small
        refine Or.inr ⟨⟨ceilMillis (max start evictedAt), ?_⟩, by omega⟩
        rw [fromMillis, Nat.mul_comm] at rounded up
        omega
      · omega
    · rintro (past | ⟨⟨ms, whole⟩, early⟩)
      · omega
      · have same : start = fromMillis ms := by rw [whole, fromMillis, Nat.mul_comm]
        have number : ms ≤ u64Max := by
          simp only [nanosPerMilli] at whole
          omega
        rw [max_eq_left early, same, ceilMillis_fromMillis number]
        exact Or.inl le_rfl
  · exact iff_of_true ((nanos_le _).trans past) (Or.inl past)

end Cycles

variable {quota : Quota}

/-- What further cycles leave of an arrival time the clock can reach. -/
theorem tatAfterAll_eq_iff (admits : admitsAnything .leakyBucket quota = true) {tat last : ℕ} {cycles : List Cycle}
    (reach : tat ≤ nextTick (GcraParams.new quota).limit (GcraParams.new quota).periodNs u64Max)
    (done : tatAfterAll quota tat cycles = some last) :
    tat ≤ last ∧ (last = tat ↔ ∀ cycle ∈ cycles,
      nextTick (GcraParams.new quota).limit (GcraParams.new quota).periodNs
        ((GcraParams.new quota).landing tat cycle.evictedAt) = tat) := by
  have hp := GcraParams.new_isOpen_of_admits admits
  induction cycles generalizing tat with
  | nil =>
      cases done
      exact ⟨le_rfl, iff_of_true rfl fun _ member => by cases member⟩
  | cons cycle cycles inductionHypothesis =>
      simp only [tatAfterAll, Option.bind_eq_bind, Option.bind_eq_some_iff] at done
      obtain ⟨next, first, rest⟩ := done
      have moved := Cycle.tatAfter_eq admits first
      have onward : tat ≤ next := moved ▸ le_next_landing hp reach cycle.evictedAt
      have reach' : next ≤ nextTick (GcraParams.new quota).limit (GcraParams.new quota).periodNs u64Max :=
        moved ▸ nextTick_mono hp.limit_pos hp.limit_le (landing_le _ _ _)
      obtain ⟨further, kept⟩ := inductionHypothesis reach' rest
      refine ⟨onward.trans further, ?_⟩
      rw [List.forall_mem_cons, ← moved]
      constructor
      · intro same
        have unmoved : next = tat := by omega
        rw [unmoved] at kept
        exact ⟨unmoved, kept.1 same⟩
      · rintro ⟨unmoved, fixed⟩
        rw [unmoved] at kept
        exact kept.2 fixed

/-- The first interval to start at or after the first cycle's recorded deadline starts on a whole millisecond, no
    earlier than any later eviction; or it starts no earlier than the clock's end. -/
def CyclesSettle (p : GcraParams) (tat : ℕ) (first : Cycle) (more : List Cycle) : Prop :=
  let start := tickStart p.limit p.periodNs (nextTick p.limit p.periodNs (p.landing tat first.evictedAt))
  u64Max ≤ start ∨ nanosPerMilli ∣ start ∧ ∀ cycle ∈ more, cycle.evictedAt ≤ start

/-- For every accepted quota, arrival time and chain of cycles: the arrival time after all of them is the one after
    the first exactly when there is only one, or the cycles settle. -/
theorem further_cycles_keep_tat_iff {quota : Quota} {p : GcraParams} (accepted : GcraParams.tryNew quota = .ok p)
    (tat : ℕ) (first : Cycle) (more : List Cycle) {once last : ℕ}
    (firstDone : first.tatAfter quota tat = some once) (done : tatAfterAll quota once more = some last) :
    last = once ↔ more = [] ∨ CyclesSettle p tat first more := by
  obtain ⟨rfl, hp⟩ := GcraParams.new_isOpen_of_tryNew accepted
  have admits : admitsAnything .leakyBucket quota = true := GcraParams.admits_of_tryNew accepted
  have landed := Cycle.tatAfter_eq admits firstDone
  have reach : once ≤ nextTick (GcraParams.new quota).limit (GcraParams.new quota).periodNs u64Max :=
    landed ▸ nextTick_mono hp.limit_pos hp.limit_le (landing_le _ _ _)
  rw [(tatAfterAll_eq_iff admits reach done).2, CyclesSettle, ← landed]
  simp only [next_landing_eq_iff hp reach]
  generalize tickStart (GcraParams.new quota).limit (GcraParams.new quota).periodNs once = start
  cases more with
  | nil => exact iff_of_true (fun _ member => by cases member) (Or.inl rfl)
  | cons cycle cycles =>
      constructor
      · intro fixed
        refine Or.inr ?_
        by_cases past : u64Max ≤ start
        · exact Or.inl past
        · have within : ∀ c ∈ cycle :: cycles, nanosPerMilli ∣ start ∧ c.evictedAt ≤ start :=
            fun c member => (fixed c member).resolve_left past
          exact Or.inr ⟨(within cycle List.mem_cons_self).1, fun c member => (within c member).2⟩
      · rintro (none_more | past | ⟨whole, early⟩) c member
        · cases none_more
        · exact Or.inl past
        · exact Or.inr ⟨whole, early c member⟩

/-- At ten units per second every interval starts on a whole millisecond. -/
theorem further_cycles_keep_tat_at_ten_per_second :
    let quota := Quota.perSecond 10 (by decide)
    tatAfterAll quota 1 [⟨0, 0⟩, ⟨0, 0⟩] = some 1 ∧ CyclesSettle (.new quota) 1 ⟨0, 0⟩ [⟨0, 0⟩] := by
  refine ⟨by decide +kernel, ?_⟩
  have settled := @further_cycles_keep_tat_iff (Quota.perSecond 10 (by decide))
    (.new (Quota.perSecond 10 (by decide))) (by decide +kernel) 1 ⟨0, 0⟩ [⟨0, 0⟩] 1 1 (by decide +kernel)
    (by decide +kernel)
  exact (settled.1 rfl).resolve_left (List.cons_ne_nil _ _)

/-- At three units per second the arrival time moves on by an interval with each of the first two cycles, though
    all of them take place at the origin. -/
theorem second_cycle_loses_an_interval :
    let quota := Quota.perSecond 3 (by decide)
    GcraParams.tryNew quota = .ok (.new quota) ∧
      tatAfterAll quota 1 [⟨0, 0⟩] = some 2 ∧ tatAfterAll quota 1 [⟨0, 0⟩, ⟨0, 0⟩] = some 3 := by
  decide +kernel

end RateNet
