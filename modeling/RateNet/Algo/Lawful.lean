/-
Module: RateNet.Algo.Lawful
Layer: Algo
Purpose: What the store may rely on, whichever algorithm it keeps. A lawful key state says which states
  are kept under a quota, that a decision agrees with the snapshot read before it, that reading ages a
  state without tightening it, that allowance only comes back as time passes and is whole at the
  deadline a snapshot reports, and that restoring a larger debt leaves less. The leaky bucket, the fixed
  window, the sliding log and the sliding counter are lawful.
Imports: RateNet.Algo.Gcra, RateNet.Algo.FixedWindow, RateNet.Algo.SlidingLog, RateNet.Algo.SlidingCounter
Trusted boundary: none
Main exports: capacity, LawfulKeyState, defaultRestore_anti
-/
import RateNet.Algo.Gcra
import RateNet.Algo.FixedWindow
import RateNet.Algo.SlidingLog
import RateNet.Algo.SlidingCounter

namespace RateNet

/-- The most units a key can ever have: the burst for the buckets, the limit for the windows. -/
def capacity : Algorithm → Quota → ℕ
  | .tokenBucket, quota | .leakyBucket, quota => quota.burst
  | .fixedWindow, quota | .slidingWindowLog, quota | .slidingWindowCounter, quota => quota.limit

theorem freshSnapshot_eq (algorithm : Algorithm) (quota : Quota) :
    freshSnapshot algorithm quota =
      if quota.limit = 0 ∨ quota.period = 0 then .closed
      else if capacity algorithm quota = 0 then .closed else .full (capacity algorithm quota) := by
  cases algorithm <;> rfl

/-- A quota that admits anything reports its whole capacity for a key not seen before. -/
theorem freshSnapshot_eq_full {algorithm : Algorithm} {quota : Quota}
    (admits : admitsAnything algorithm quota = true) :
    freshSnapshot algorithm quota = .full (capacity algorithm quota) := by
  have shown : 0 < (freshSnapshot algorithm quota).limit := of_decide_eq_true admits
  rw [freshSnapshot_eq] at shown ⊢
  split at shown
  · exact absurd shown (Nat.lt_irrefl 0)
  · rename_i open_
    split at shown
    · exact absurd shown (Nat.lt_irrefl 0)
    · rename_i positive
      rw [if_neg open_, if_neg positive]

theorem freshSnapshot_remaining {algorithm : Algorithm} {quota : Quota}
    (admits : admitsAnything algorithm quota = true) :
    (freshSnapshot algorithm quota).remaining = capacity algorithm quota := by
  rw [freshSnapshot_eq_full admits]
  exact min_self _

/-- A key state the store may rely on.  `Fits` is the readings at which the algorithm's own arithmetic
    does not saturate. -/
class LawfulKeyState (S : Type) [KeyState S] where
  algorithm : Algorithm
  Under : Quota → S → Prop
  Fits : Quota → ℕ → Prop
  create_isSome : ∀ quota now,
    (KeyState.create quota now : Option S).isSome = admitsAnything algorithm quota
  create_under : ∀ {quota now} {s : S}, KeyState.create quota now = some s → Under quota s
  acquire_under : ∀ {quota} {s : S} n now, Under quota s → Under quota (KeyState.acquire s n now).2
  peek_under : ∀ {quota} {s : S} now, Under quota s → Under quota (KeyState.peek s now).2
  reset_under : ∀ {quota} {s : S} now, Under quota s → Under quota (KeyState.reset s now)
  restore_under : ∀ {quota} {s : S} debt now, Under quota s → Under quota (KeyState.restore s debt now)
  peek_limit : ∀ {quota} {s : S} now, Under quota s →
    (KeyState.peek s now).1.limit = capacity algorithm quota
  acquire_zero : ∀ (s : S) now, KeyState.acquire s 0 now = (.allow, s)
  acquire_impossible : ∀ {quota} {s : S} {n} now, Under quota s → capacity algorithm quota < n →
    KeyState.acquire s n now = (.deny durationMax, s)
  /-- A denied check leaves the state, aged or not. -/
  acquire_denied : ∀ {quota} {s : S} {n now}, Under quota s → (KeyState.acquire s n now).1.isDeny = true →
    (KeyState.acquire s n now).2 = s ∨ (KeyState.acquire s n now).2 = (KeyState.peek s now).2
  /-- The decision agrees with the snapshot. -/
  allow_iff : ∀ {quota} {s : S} {n now}, Under quota s → Fits quota now →
    ((KeyState.acquire s n now).1 = .allow ↔ n = 0 ∨ n ≤ (KeyState.peek s now).1.remaining)
  debt_eq : ∀ (s : S) now, KeyState.debt s now = ((KeyState.peek s now).1.debt now, (KeyState.peek s now).2)
  recoversAt_eq : ∀ (s : S) now,
    KeyState.recoversAt s now = ((KeyState.debt s now).1.map Debt.until, (KeyState.peek s now).2)
  isFull_snd : ∀ (s : S) now, (KeyState.isFull s now).2 = (KeyState.peek s now).2
  /-- A state that is full stays whole. -/
  whole_of_full : ∀ {quota} {s : S} {now later}, Under quota s → now ≤ later → Fits quota later →
    (KeyState.isFull s now).1 = true → (KeyState.peek s later).1.remaining = capacity algorithm quota
  remaining_mono : ∀ {quota} {s : S} {now later}, Under quota s → now ≤ later → Fits quota later →
    (KeyState.peek s now).1.remaining ≤ (KeyState.peek s later).1.remaining
  /-- Reading at any instant does not tighten a state. -/
  remaining_aged : ∀ {quota} {s : S} (read now), Under quota s →
    (KeyState.peek s now).1.remaining ≤ (KeyState.peek (KeyState.peek s read).2 now).1.remaining
  /-- Reading twice at one instant is reading once. -/
  peek_again : ∀ {quota} {s : S} (now), Under quota s →
    KeyState.peek (KeyState.peek s now).2 now = KeyState.peek s now
  /-- The allowance is whole by the deadline a snapshot reports. -/
  whole_of_due : ∀ {quota} {s : S} {now later}, Under quota s →
    now + (KeyState.peek s now).1.resetAfter ≤ later → later < u64Max → Fits quota later →
    (KeyState.peek s later).1.remaining = capacity algorithm quota
  whole_of_create : ∀ {quota made now} {s : S}, KeyState.create quota made = some s → Fits quota now →
    (KeyState.peek s now).1.remaining = capacity algorithm quota
  whole_of_reset : ∀ {quota now} {s : S} (reset), Under quota s → Fits quota now →
    (KeyState.peek (KeyState.reset s reset) now).1.remaining = capacity algorithm quota
  /-- Restoring a larger debt into a fresh state leaves less. -/
  restore_anti : ∀ {quota now} {s : S} {debt debt' : Debt}, KeyState.create quota now = some s →
    debt.spent ≤ debt'.spent → debt.until ≤ debt'.until →
    (KeyState.peek (KeyState.restore s debt' now) now).1.remaining ≤
      (KeyState.peek (KeyState.restore s debt now) now).1.remaining

/-- No state is made for a quota that admits nothing. -/
theorem create_of_shut {S : Type} [KeyState S] [LawfulKeyState S] {quota : Quota}
    (shut : admitsAnything (LawfulKeyState.algorithm S) quota = false) (now : ℕ) :
    (KeyState.create quota now : Option S) = none := by
  rw [← Option.isNone_iff_eq_none, ← Option.not_isSome, LawfulKeyState.create_isSome, shut]
  rfl

/-!
### The default methods

The windows take the default `isFull` and `restore`.  The default restore charges the whole debt at the
return, so a larger debt leaves less as soon as a larger charge does.
-/

section Defaults

variable {S : Type} [KeyState S] {s : S} {now later limit : ℕ}

/-- A state that owes nothing is whole, and stays so where allowance only comes back. -/
theorem whole_of_isNone (full : ((KeyState.peek s now).1.debt now).isNone = true)
    (before : (KeyState.peek s now).1.limit = limit) (after : (KeyState.peek s later).1.limit = limit)
    (mono : (KeyState.peek s now).1.remaining ≤ (KeyState.peek s later).1.remaining) :
    (KeyState.peek s later).1.remaining = limit := by
  have whole := Snapshot.debt_eq_none.1 (Option.isNone_iff_eq_none.1 full)
  have bound := (KeyState.peek s later).1.remaining_le
  omega

/-- The trait's own `restore`. -/
def defaultRestore (s : S) (debt : Debt) (now : ℕ) : S :=
  if debt.until ≤ now ∨ debt.spent = 0 then s
  else if 0 < min debt.spent (KeyState.peek s now).1.limit then
    (KeyState.acquire (KeyState.peek s now).2 (min debt.spent (KeyState.peek s now).1.limit) now).2
  else (KeyState.peek s now).2

/-- What a charge of `units` at `now` leaves of a state. -/
def charge (s : S) (units now : ℕ) : S := (KeyState.acquire (KeyState.peek s now).2 units now).2

theorem defaultRestore_eq (peeked : (KeyState.peek s now).1.limit = limit) (positive : 0 < limit)
    (debt : Debt) : defaultRestore s debt now =
      if debt.until ≤ now ∨ debt.spent = 0 then s else charge s (min debt.spent limit) now := by
  rw [defaultRestore, peeked]
  split
  · rfl
  · rw [if_pos (by omega)]
    rfl

theorem defaultRestore_keeps (Kept : S → Prop) (kept : Kept s)
    (peek : ∀ s, Kept s → Kept (KeyState.peek s now).2)
    (acquire : ∀ s n, Kept s → Kept (KeyState.acquire s n now).2) (debt : Debt) :
    Kept (defaultRestore s debt now) := by
  rw [defaultRestore]
  split
  · exact kept
  · split
    · exact acquire _ _ (peek s kept)
    · exact peek s kept

/-- Restoring a larger debt leaves less, where a charge takes the more the larger it is. -/
theorem defaultRestore_anti (peeked : (KeyState.peek s now).1.limit = limit) (positive : 0 < limit)
    (taken : ℕ → ℕ) (mono : Monotone taken) (fresh : (KeyState.peek s now).1.remaining = limit)
    (left : ∀ units, 1 ≤ units → units ≤ limit →
      (KeyState.peek (charge s units now) now).1.remaining = limit - taken units)
    {debt debt' : Debt} (spent : debt.spent ≤ debt'.spent) (deadline : debt.until ≤ debt'.until) :
    (KeyState.peek (defaultRestore s debt' now) now).1.remaining ≤
      (KeyState.peek (defaultRestore s debt now) now).1.remaining := by
  rw [defaultRestore_eq peeked positive, defaultRestore_eq peeked positive]
  by_cases whole : debt'.until ≤ now ∨ debt'.spent = 0
  · rw [if_pos whole, if_pos (by omega)]
  · rw [if_neg whole]
    by_cases whole' : debt.until ≤ now ∨ debt.spent = 0
    · rw [if_pos whole', left _ (by omega) (min_le_right _ _), fresh]
      exact Nat.sub_le _ _
    · rw [if_neg whole', left _ (by omega) (min_le_right _ _), left _ (by omega) (min_le_right _ _)]
      exact Nat.sub_le_sub_left (mono (min_le_min_right _ spent)) _

end Defaults

/-!
### The algorithms
-/

theorem Gcra.Under.remaining_mono {quota : Quota} {g : Gcra} (under : g.Under quota) {now later : ℕ}
    (order : now ≤ later)
    (fits : (GcraParams.new quota).intervalsAt (nanos later) + quota.burst ≤ u64Max) :
    (g.peekAt now).remaining ≤ (g.peekAt later).remaining := by
  have mono := GcraParams.intervalsAt_nanos_mono under.isOpen order
  rw [under.remaining_eq, under.remaining_eq, satAdd_eq fits]
  simp only [satAdd]
  omega

/-- Restoring a larger debt into a fresh state leaves less. -/
theorem Gcra.restore_anti {quota : Quota} (admits : admitsAnything .leakyBucket quota = true) (now : ℕ)
    {debt debt' : Debt} (deadline : debt.until ≤ debt'.until) :
    (KeyState.peek (KeyState.restore (Gcra.new quota) debt' now) now).1.remaining ≤
      (KeyState.peek (KeyState.restore (Gcra.new quota) debt now) now).1.remaining := by
  have under : ∀ tat, Gcra.Under quota ⟨tat, .new quota⟩ := fun _ => ⟨rfl, admits⟩
  have restored : ∀ debt : Debt, KeyState.restore (Gcra.new quota) debt now =
      ⟨if debt.until > now then (GcraParams.new quota).restoreUntilIn 0 debt.until else 0, .new quota⟩ := by
    intro debt
    show (if debt.until > now then (Gcra.new quota).restoreUntil debt.until else Gcra.new quota) = _
    split
    · rfl
    · rfl
  have arrivals : (if debt.until > now then (GcraParams.new quota).restoreUntilIn 0 debt.until else 0) ≤
      if debt'.until > now then (GcraParams.new quota).restoreUntilIn 0 debt'.until else 0 := by
    by_cases owes : debt.until > now
    · rw [if_pos owes, if_pos (by omega)]
      exact GcraParams.restoreUntilIn_mono (under 0).isOpen deadline
    · rw [if_neg owes]
      exact Nat.zero_le _
  rw [restored, restored]
  show (Gcra.peekAt _ now).remaining ≤ (Gcra.peekAt _ now).remaining
  rw [(under _).remaining_eq, (under _).remaining_eq]
  exact min_le_min_right _ (Nat.sub_le_sub_left (max_le_max_right _ arrivals) _)

instance : LawfulKeyState Gcra where
  algorithm := .leakyBucket
  Under quota g := g.Under quota
  Fits quota now := (GcraParams.new quota).intervalsAt (nanos now) + quota.burst ≤ u64Max
  create_isSome quota now := by
    show (if admitsAnything .leakyBucket quota then some (Gcra.new quota) else none).isSome = _
    cases admitsAnything .leakyBucket quota with
    | false => rfl
    | true => rfl
  create_under := by
    intro quota now g made
    obtain ⟨admits, rfl⟩ := Option.ite_some_none_eq_some.1 made
    exact ⟨rfl, admits⟩
  acquire_under n now under := under.checkNAt n now
  peek_under _ under := under
  reset_under _ under := ⟨under.params, under.admits⟩
  restore_under := by
    intro quota g debt now under
    show (if debt.until > now then g.restoreUntil debt.until else g).Under quota
    split
    · exact ⟨under.params, under.admits⟩
    · exact under
  peek_limit now under := by
    show (Gcra.peekAt _ now).limit = _
    rw [under.peekAt_eq]
    rfl
  acquire_zero g now := by
    show g.checkNAt 0 now = _
    simp only [Gcra.checkNAt, GcraParams.checkNIn, if_true]
  acquire_impossible := by
    intro quota g n now under more
    show g.checkNAt n now = _
    have burst := under.burst
    have beyond : g.params.tolerance + 1 < n := by
      rw [under.params, burst]
      exact more
    rw [Gcra.checkNAt, GcraParams.checkNIn_impossible beyond]
  acquire_denied := by
    intro quota g n now _ denied
    left
    have word : (g.params.checkNIn g.tat n now).2 = g.tat := GcraParams.checkNIn_denied denied
    show ({ g with tat := (g.params.checkNIn g.tat n now).2 } : Gcra) = g
    rw [word]
  allow_iff under fits := under.allow_iff fits
  debt_eq _ _ := rfl
  recoversAt_eq _ _ := rfl
  isFull_snd _ _ := rfl
  whole_of_full := by
    intro quota g now later under order fits full
    apply under.remaining_of_reached fits
    have reached : g.tat ≤ (GcraParams.new quota).intervalsAt (nanos now) := by
      have open_ := under.isOpen.not_closed
      have full' : (g.params.closed || decide (g.tat ≤ g.params.intervalsAt (nanos now))) = true := full
      rw [under.params, open_, Bool.false_or, decide_eq_true_iff] at full'
      exact full'
    exact reached.trans (GcraParams.intervalsAt_nanos_mono under.isOpen order)
  remaining_mono under order fits := under.remaining_mono order fits
  remaining_aged _ _ _ := le_rfl
  peek_again _ _ := rfl
  whole_of_due under due clock fits := under.remaining_of_reached fits (under.reached_of_due due clock)
  whole_of_create := by
    intro quota made now g create fits
    obtain ⟨admits, rfl⟩ := Option.ite_some_none_eq_some.1 create
    exact Gcra.Under.remaining_of_reached ⟨rfl, admits⟩ fits (Nat.zero_le _)
  whole_of_reset := by
    intro quota now g reset under fits
    have kept : g.reset.Under quota := ⟨under.params, under.admits⟩
    exact kept.remaining_of_reached fits (Nat.zero_le _)
  restore_anti := by
    intro quota now g debt debt' create spent deadline
    obtain ⟨admits, rfl⟩ := Option.ite_some_none_eq_some.1 create
    exact Gcra.restore_anti admits now deadline

/-- Restoring a larger debt into a fresh state leaves less. -/
theorem FixedWindow.restore_anti {quota : Quota} (admits : admitsAnything .fixedWindow quota = true) (now : ℕ)
    {debt debt' : Debt} (spent : debt.spent ≤ debt'.spent) (deadline : debt.until ≤ debt'.until) :
    (KeyState.peek (KeyState.restore (FixedWindow.new quota now) debt' now) now).1.remaining ≤
      (KeyState.peek (KeyState.restore (FixedWindow.new quota now) debt now) now).1.remaining := by
  have under := FixedWindow.new_under admits now
  have empty := FixedWindow.usedAt_new quota now now
  have limit : ((FixedWindow.new quota now).peek now).limit = quota.limit := by
    rw [FixedWindow.peek_eq under]
    rfl
  have left : ∀ units, 1 ≤ units → units ≤ quota.limit →
      ((charge (FixedWindow.new quota now) units now).peek now).remaining = quota.limit - units := by
    intro units asked possible
    show (((FixedWindow.new quota now).acquire units now).2.peek now).remaining = _
    rw [FixedWindow.remaining_eq (under.acquire units now),
      FixedWindow.usedAt_acquire under asked (by omega), empty, Nat.zero_add]
  have fresh : ((FixedWindow.new quota now).peek now).remaining = quota.limit := by
    rw [FixedWindow.remaining_eq under, empty, Nat.sub_zero]
  exact defaultRestore_anti limit under.limit_pos _ monotone_id fresh left spent deadline

instance : LawfulKeyState FixedWindow where
  algorithm := .fixedWindow
  Under quota fw := fw.Under quota
  Fits _ _ := True
  create_isSome quota now := by
    show (if admitsAnything .fixedWindow quota then some (FixedWindow.new quota now) else none).isSome = _
    cases admitsAnything .fixedWindow quota with
    | false => rfl
    | true => rfl
  create_under := by
    intro quota now fw made
    obtain ⟨admits, rfl⟩ := Option.ite_some_none_eq_some.1 made
    exact FixedWindow.new_under admits now
  acquire_under n now under := under.acquire n now
  peek_under _ under := under
  reset_under _ under := under.reset
  restore_under := by
    intro quota fw debt now under
    exact defaultRestore_keeps (FixedWindow.Under quota) under (fun _ kept => kept)
      (fun _ n kept => kept.acquire n now) debt
  peek_limit now under := by
    show (FixedWindow.peek _ now).limit = _
    rw [FixedWindow.peek_eq under]
    rfl
  acquire_zero fw now := fw.acquire_zero now
  acquire_impossible now under more := FixedWindow.acquire_impossible under more now
  acquire_denied := by
    intro quota fw n now under denied
    left
    rcases Nat.eq_zero_or_pos n with rfl | asked
    · exact congrArg Prod.snd (fw.acquire_zero now)
    rcases Nat.lt_or_ge quota.limit n with impossible | possible
    · exact congrArg Prod.snd (FixedWindow.acquire_impossible under impossible now)
    rcases Nat.lt_or_ge quota.limit (fw.usedAt now + n) with full | fits
    · exact congrArg Prod.snd (FixedWindow.acquire_full under possible full)
    · have denied' : (fw.acquire n now).1.isDeny = true := denied
      rw [FixedWindow.acquire_fits under asked fits] at denied'
      cases denied'
  allow_iff under _ := under.allow_iff
  debt_eq _ _ := rfl
  recoversAt_eq _ _ := rfl
  isFull_snd _ _ := rfl
  whole_of_full := by
    intro quota fw now later under order _ full
    have limit : ∀ t, (fw.peek t).limit = quota.limit := fun t => by rw [FixedWindow.peek_eq under]; rfl
    apply whole_of_isNone full (limit now) (limit later)
    show (fw.peek now).remaining ≤ (fw.peek later).remaining
    rw [FixedWindow.remaining_eq under, FixedWindow.remaining_eq under]
    exact Nat.sub_le_sub_left (under.usedAt_anti order) _
  remaining_mono := by
    intro quota fw now later under order _
    show (fw.peek now).remaining ≤ (fw.peek later).remaining
    rw [FixedWindow.remaining_eq under, FixedWindow.remaining_eq under]
    exact Nat.sub_le_sub_left (under.usedAt_anti order) _
  remaining_aged _ _ _ := le_rfl
  peek_again _ _ := rfl
  whole_of_due := by
    intro quota fw now later under due clock _
    show (fw.peek later).remaining = quota.limit
    rw [FixedWindow.remaining_eq under, under.usedAt_of_due due clock, Nat.sub_zero]
  whole_of_create := by
    intro quota made now fw create _
    obtain ⟨admits, rfl⟩ := Option.ite_some_none_eq_some.1 create
    show (FixedWindow.peek _ now).remaining = quota.limit
    rw [FixedWindow.remaining_eq (FixedWindow.new_under admits made), FixedWindow.usedAt_new, Nat.sub_zero]
  whole_of_reset := by
    intro quota now fw reset under _
    show (fw.reset.peek now).remaining = quota.limit
    rw [FixedWindow.remaining_eq under.reset, FixedWindow.usedAt_reset, Nat.sub_zero]
  restore_anti := by
    intro quota now fw debt debt' create spent deadline
    obtain ⟨admits, rfl⟩ := Option.ite_some_none_eq_some.1 create
    exact FixedWindow.restore_anti admits now spent deadline

/-- Restoring a larger debt into a fresh state leaves less. -/
theorem SlidingLog.restore_anti {quota : Quota} (admits : admitsAnything .slidingWindowLog quota = true) (now : ℕ)
    {debt debt' : Debt} (spent : debt.spent ≤ debt'.spent) (deadline : debt.until ≤ debt'.until) :
    (KeyState.peek (KeyState.restore (SlidingLog.new quota) debt' now) now).1.remaining ≤
      (KeyState.peek (KeyState.restore (SlidingLog.new quota) debt now) now).1.remaining := by
  have under := SlidingLog.new_under admits
  have limit : ((SlidingLog.new quota).peek now).1.limit = quota.limit := by
    rw [SlidingLog.peek_eq under]
    rfl
  have left : ∀ units, 1 ≤ units → units ≤ quota.limit →
      ((charge (SlidingLog.new quota) units now).peek now).1.remaining =
        quota.limit - if satAdd (nanos now) (nanos quota.period) > nanos now then units else 0 := by
    intro units asked possible
    have fresh : (KeyState.peek (SlidingLog.new quota) now).2 = SlidingLog.new quota := by
      show ((SlidingLog.new quota).peek now).2 = _
      rw [SlidingLog.peek_eq under]
      rfl
    rw [charge, fresh]
    show (((SlidingLog.new quota).acquire units now).2.peek now).1.remaining = _
    rw [SlidingLog.remaining_eq (under.acquire units now),
      SlidingLog.usedAt_acquire_new admits asked possible le_rfl]
  have whole : ((SlidingLog.new quota).peek now).1.remaining = quota.limit := by
    rw [SlidingLog.remaining_eq under, SlidingLog.usedAt_of_empty rfl, Nat.sub_zero]
  refine defaultRestore_anti limit under.limit_pos _ (fun units units' more => ?_) whole left spent deadline
  split
  · exact more
  · exact le_rfl

instance : LawfulKeyState SlidingLog where
  algorithm := .slidingWindowLog
  Under quota sl := sl.Under quota
  Fits _ _ := True
  create_isSome quota now := by
    show (if admitsAnything .slidingWindowLog quota then some (SlidingLog.new quota) else none).isSome = _
    cases admitsAnything .slidingWindowLog quota with
    | false => rfl
    | true => rfl
  create_under := by
    intro quota now sl made
    obtain ⟨admits, rfl⟩ := Option.ite_some_none_eq_some.1 made
    exact SlidingLog.new_under admits
  acquire_under n now under := under.acquire n now
  peek_under now under := under.peek now
  reset_under _ under := under.reset
  restore_under := by
    intro quota sl debt now under
    exact defaultRestore_keeps (SlidingLog.Under quota) under (fun _ kept => kept.peek now)
      (fun _ n kept => kept.acquire n now) debt
  peek_limit now under := by
    show (SlidingLog.peek _ now).1.limit = _
    rw [SlidingLog.peek_eq under]
    rfl
  acquire_zero sl now := sl.acquire_zero now
  acquire_impossible now under more := SlidingLog.acquire_impossible under more now
  acquire_denied := by
    intro quota sl n now under denied
    have denied' : (sl.acquire n now).1.isDeny = true := denied
    rcases Nat.eq_zero_or_pos n with rfl | asked
    · exact Or.inl (congrArg Prod.snd (sl.acquire_zero now))
    rcases Nat.lt_or_ge quota.limit n with impossible | possible
    · exact Or.inl (congrArg Prod.snd (SlidingLog.acquire_impossible under impossible now))
    rcases Nat.lt_or_ge quota.limit (sl.usedAt now + n) with full | fits
    · obtain ⟨wait, refused⟩ := SlidingLog.acquire_full under possible full
      right
      show (sl.acquire n now).2 = (sl.peek now).2
      rw [refused, SlidingLog.peek_eq under]
    · rw [SlidingLog.acquire_fits under asked fits] at denied'
      cases denied'
  allow_iff under _ := under.allow_iff
  debt_eq _ _ := rfl
  recoversAt_eq _ _ := rfl
  isFull_snd _ _ := rfl
  whole_of_full := by
    intro quota sl now later under order _ full
    have limit : ∀ t, (sl.peek t).1.limit = quota.limit := fun t => by rw [SlidingLog.peek_eq under]; rfl
    apply whole_of_isNone full (limit now) (limit later)
    show (sl.peek now).1.remaining ≤ (sl.peek later).1.remaining
    rw [SlidingLog.remaining_eq under, SlidingLog.remaining_eq under]
    exact Nat.sub_le_sub_left (under.usedAt_anti order) _
  remaining_mono := by
    intro quota sl now later under order _
    show (sl.peek now).1.remaining ≤ (sl.peek later).1.remaining
    rw [SlidingLog.remaining_eq under, SlidingLog.remaining_eq under]
    exact Nat.sub_le_sub_left (under.usedAt_anti order) _
  remaining_aged := by
    intro quota sl read now under
    show (sl.peek now).1.remaining ≤ ((sl.peek read).2.peek now).1.remaining
    rw [SlidingLog.remaining_eq under, SlidingLog.remaining_eq (under.peek read), SlidingLog.peek_eq under]
    exact Nat.sub_le_sub_left (under.usedAt_aged read now) _
  peek_again := by
    intro quota sl now under
    have again := sl.aged_aged now now
    rw [max_self] at again
    show SlidingLog.peek (sl.peek now).2 now = sl.peek now
    rw [SlidingLog.peek_eq under, SlidingLog.peek_eq (under.aged now), SlidingLog.usedAt, again]
    rfl
  whole_of_due := by
    intro quota sl now later under due clock _
    show (sl.peek later).1.remaining = quota.limit
    rw [SlidingLog.remaining_eq under, under.usedAt_of_due due clock, Nat.sub_zero]
  whole_of_create := by
    intro quota made now sl create _
    obtain ⟨admits, rfl⟩ := Option.ite_some_none_eq_some.1 create
    show (SlidingLog.peek _ now).1.remaining = quota.limit
    rw [SlidingLog.remaining_eq (SlidingLog.new_under admits), SlidingLog.usedAt_of_empty rfl, Nat.sub_zero]
  whole_of_reset := by
    intro quota now sl reset under _
    show (sl.reset.peek now).1.remaining = quota.limit
    rw [SlidingLog.remaining_eq under.reset, SlidingLog.usedAt_of_empty rfl, Nat.sub_zero]
  restore_anti := by
    intro quota now sl debt debt' create spent deadline
    obtain ⟨admits, rfl⟩ := Option.ite_some_none_eq_some.1 create
    exact SlidingLog.restore_anti admits now spent deadline

/-- Restoring a larger debt into a fresh state leaves less. -/
theorem SlidingCounter.restore_anti {quota : Quota} (admits : admitsAnything .slidingWindowCounter quota = true) (now : ℕ)
    {debt debt' : Debt} (spent : debt.spent ≤ debt'.spent) (deadline : debt.until ≤ debt'.until) :
    (KeyState.peek (KeyState.restore (SlidingCounter.new quota now) debt' now) now).1.remaining ≤
      (KeyState.peek (KeyState.restore (SlidingCounter.new quota now) debt now) now).1.remaining := by
  have under := SlidingCounter.new_under admits now
  have whole := (SlidingCounter.remainingAt_eq_limit under now).2 (under.load_of_empty rfl rfl now)
  have limit : ((SlidingCounter.new quota now).peek now).1.limit = quota.limit := by
    rw [SlidingCounter.peek_eq under]
    rfl
  have left : ∀ units, 1 ≤ units → units ≤ quota.limit →
      ((charge (SlidingCounter.new quota now) units now).peek now).1.remaining = quota.limit - units := by
    intro units asked possible
    have fresh : (KeyState.peek (SlidingCounter.new quota now) now).2 = SlidingCounter.new quota now := by
      show ((SlidingCounter.new quota now).peek now).2 = _
      rw [SlidingCounter.peek_eq under, under.aged_eq, if_pos]
      exact max_self _
    rw [charge, fresh]
    show (((SlidingCounter.new quota now).acquire units now).2.peek now).1.remaining = _
    rw [SlidingCounter.remaining_eq (under.acquire units now),
      SlidingCounter.remainingAt_acquire under asked (by omega), whole]
  exact defaultRestore_anti limit under.limit_pos _ monotone_id ((SlidingCounter.remaining_eq under now).trans whole)
    left spent deadline

instance : LawfulKeyState SlidingCounter where
  algorithm := .slidingWindowCounter
  Under quota sc := sc.Under quota
  Fits _ _ := True
  create_isSome quota now := by
    show (if admitsAnything .slidingWindowCounter quota then some (SlidingCounter.new quota now)
      else none).isSome = _
    cases admitsAnything .slidingWindowCounter quota with
    | false => rfl
    | true => rfl
  create_under := by
    intro quota now sc made
    obtain ⟨admits, rfl⟩ := Option.ite_some_none_eq_some.1 made
    exact SlidingCounter.new_under admits now
  acquire_under n now under := under.acquire n now
  peek_under now under := under.peek now
  reset_under _ under := under.reset
  restore_under := by
    intro quota sc debt now under
    exact defaultRestore_keeps (SlidingCounter.Under quota) under (fun _ kept => kept.peek now)
      (fun _ n kept => kept.acquire n now) debt
  peek_limit now under := by
    show (SlidingCounter.peek _ now).1.limit = _
    rw [SlidingCounter.peek_eq under]
    rfl
  acquire_zero sc now := sc.acquire_zero now
  acquire_impossible now under more := SlidingCounter.acquire_impossible under more now
  acquire_denied := by
    intro quota sc n now under denied
    have denied' : (sc.acquire n now).1.isDeny = true := denied
    rcases Nat.eq_zero_or_pos n with rfl | asked
    · exact Or.inl (congrArg Prod.snd (sc.acquire_zero now))
    rcases Nat.lt_or_ge quota.limit n with impossible | possible
    · exact Or.inl (congrArg Prod.snd (SlidingCounter.acquire_impossible under impossible now))
    rcases Nat.lt_or_ge (sc.remainingAt now) n with full | fits
    · obtain ⟨wait, refused⟩ := SlidingCounter.acquire_full under possible full
      right
      show (sc.acquire n now).2 = (sc.peek now).2
      rw [refused, SlidingCounter.peek_eq under]
    · rw [(SlidingCounter.acquire_fits under asked fits).1] at denied'
      cases denied'
  allow_iff under _ := under.allow_iff
  debt_eq _ _ := rfl
  recoversAt_eq _ _ := rfl
  isFull_snd _ _ := rfl
  whole_of_full := by
    intro quota sc now later under order _ full
    have limit : ∀ t, (sc.peek t).1.limit = quota.limit := fun t => by rw [SlidingCounter.peek_eq under]; rfl
    apply whole_of_isNone full (limit now) (limit later)
    show (sc.peek now).1.remaining ≤ (sc.peek later).1.remaining
    rw [SlidingCounter.remaining_eq under, SlidingCounter.remaining_eq under]
    exact SlidingCounter.remainingAt_mono under order
  remaining_mono := by
    intro quota sc now later under order _
    show (sc.peek now).1.remaining ≤ (sc.peek later).1.remaining
    rw [SlidingCounter.remaining_eq under, SlidingCounter.remaining_eq under]
    exact SlidingCounter.remainingAt_mono under order
  remaining_aged := by
    intro quota sc read now under
    show (sc.peek now).1.remaining ≤ ((sc.peek read).2.peek now).1.remaining
    rw [SlidingCounter.remaining_eq under, SlidingCounter.remaining_eq (under.peek read),
      SlidingCounter.peek_eq under, SlidingCounter.remainingAt, SlidingCounter.remainingAt,
      (under.aged read).period, (under.aged read).limit, under.period, under.limit]
    exact Nat.div_le_div_right (Nat.sub_le_sub_left (under.load_aged read now) _)
  peek_again := by
    intro quota sc now under
    show SlidingCounter.peek (sc.peek now).2 now = sc.peek now
    rw [SlidingCounter.peek_eq under]
    exact under.peek_aged now
  whole_of_due := by
    intro quota sc now later under due clock _
    change now + (sc.peek now).1.resetAfter ≤ later at due
    rw [SlidingCounter.peek_eq under, Snapshot.new_resetAfter] at due
    show (sc.peek later).1.remaining = quota.limit
    rw [SlidingCounter.remaining_eq under, SlidingCounter.remainingAt_eq_limit under]
    exact under.load_of_due due clock
  whole_of_create := by
    intro quota made now sc create _
    obtain ⟨admits, rfl⟩ := Option.ite_some_none_eq_some.1 create
    have under := SlidingCounter.new_under admits made
    show (SlidingCounter.peek _ now).1.remaining = quota.limit
    rw [SlidingCounter.remaining_eq under, SlidingCounter.remainingAt_eq_limit under]
    exact under.load_of_empty rfl rfl now
  whole_of_reset := by
    intro quota now sc reset under _
    show (sc.reset.peek now).1.remaining = quota.limit
    rw [SlidingCounter.remaining_eq under.reset, SlidingCounter.remainingAt_eq_limit under.reset]
    exact under.reset.load_of_empty rfl rfl now
  restore_anti := by
    intro quota now sc debt debt' create spent deadline
    obtain ⟨admits, rfl⟩ := Option.ite_some_none_eq_some.1 create
    exact SlidingCounter.restore_anti admits now spent deadline

end RateNet
