/-
Module: RateNet.Proofs.RecoveryHints
Purpose: A key is forgotten without a record only when it owes nothing. A slot caches when its allowance
  is whole again; the cache is written when a key is stored, by a shortcut where one is known, refreshed
  when room is made, and out of use once the key is checked. After every run of calls each slot's hint is
  unusable or comes no earlier than the allowance is whole, so a slot that is found to have recovered
  owes nothing, up to the millisecond in which the nanosecond clock ends. A sliding log is empty at the
  end of the clock, so of it this holds at every reading.
Trusted boundary: none
Main exports: HintTrue, SlotTrue, ShardStep.hintsTrue, ForgottenOwesNothing,
  recovered_keys_owe_nothing
-/
import RateNet.Proofs.ShardSteps
import RateNet.Proofs.Snapshots

namespace RateNet

section Whole

variable {S : Type} [KeyState S] [LawfulKeyState S] {quota : Quota} {s : S} {now t : ℕ}

/-- The whole allowance is there as of `t`. -/
def Whole (quota : Quota) (s : S) (t : ℕ) : Prop :=
  (KeyState.peek s t).1.remaining = capacity (LawfulKeyState.algorithm S) quota

/-- The clock has not passed the millisecond in which it ends at `t`, and the algorithm's own arithmetic has
    stayed below its ceiling. -/
structure Readable (S : Type) [KeyState S] [LawfulKeyState S] (quota : Quota) (t : ℕ) : Prop where
  clock : millis t ≤ millis u64Max
  earlier : ∀ t' ≤ t, LawfulKeyState.Fits S quota t'

theorem Readable.fits (readable : Readable S quota t) : LawfulKeyState.Fits S quota t := readable.earlier t le_rfl

theorem debt_eq_none_iff (under : LawfulKeyState.Under quota s) :
    (KeyState.debt s now).1 = none ↔ Whole quota s now := by
  rw [LawfulKeyState.debt_eq, Snapshot.debt_eq_none, LawfulKeyState.peek_limit now under, Whole]

/-- An allowance that is whole stays whole. -/
theorem Whole.later (under : LawfulKeyState.Under quota s) (whole : Whole quota s now) (h : now ≤ t)
    (fits : LawfulKeyState.Fits S quota t) : Whole quota s t := by
  have bound := (KeyState.peek s t).1.remaining_le
  rw [LawfulKeyState.peek_limit t under] at bound
  exact le_antisymm bound (whole.ge.trans (LawfulKeyState.remaining_mono under h fits))

/-- Reading a state leaves its allowance whole where it was. -/
theorem Whole.read (under : LawfulKeyState.Under quota s) (whole : Whole quota s t) (read : ℕ) :
    Whole quota (KeyState.peek s read).2 t := by
  have bound := (KeyState.peek (KeyState.peek s read).2 t).1.remaining_le
  rw [LawfulKeyState.peek_limit t (LawfulKeyState.peek_under read under)] at bound
  exact le_antisymm bound (whole.ge.trans (LawfulKeyState.remaining_aged read t under))

/-- A hint read from a state comes no earlier than its allowance is whole. -/
theorem whole_of_recoversAt (under : LawfulKeyState.Under quota s) (h : now ≤ t)
    (readable : Readable S quota t) (passed : (recoversAt s now).1 ≤ millis t) : Whole quota s t := by
  rw [recoversAt_fst] at passed
  cases owed : (KeyState.debt s now).1 with
  | none => exact ((debt_eq_none_iff under).1 owed).later under h readable.fits
  | some debt =>
      rw [owed, Option.elim_some] at passed
      rw [LawfulKeyState.debt_eq] at owed
      have deadline := (Snapshot.debt_eq_some.1 owed).2.2
      -- the hint is a whole millisecond that has passed, and the clock does not end on one
      have clock : fromMillis (millis t) < u64Max := lt_of_le_of_lt (fromMillis_mono readable.clock) (by decide)
      have small : millis t < u64Max := lt_of_le_of_lt readable.clock (by decide)
      have begun : fromMillis (millis t) ≤ t := fromMillis_le_of_le_millis le_rfl
      have reached : debt.until ≤ fromMillis (millis t) :=
        (le_fromMillis_ceilMillis (lt_of_le_of_lt passed small)).trans (fromMillis_mono passed)
      have due : now + (KeyState.peek s now).1.resetAfter ≤ fromMillis (millis t) := by
        have ceiling := u64Max_lt_durationMax
        rw [deadline, durationAdd] at reached
        omega
      have whole : Whole quota s (fromMillis (millis t)) :=
        LawfulKeyState.whole_of_due under due clock (readable.earlier _ begun)
      exact whole.later under begun readable.fits

end Whole

section Hints

variable {K S : Type} [KeyState S] [LawfulKeyState S]

/-- The hint is unusable, or comes no earlier than the allowance is whole. -/
def HintTrue (quota : Quota) (t : ℕ) (slot : Slot K S) : Prop :=
  slot.recoversAtMs = unknown ∨ slot.referenced = true ∨
    ∀ t', t ≤ t' → Readable S quota t' → slot.recoversAtMs ≤ millis t' → Whole quota slot.state t'

/-- A slot kept under its key's quota, with a true hint. -/
structure SlotTrue (quotaOf : K → Quota) (t : ℕ) (slot : Slot K S) : Prop where
  under : LawfulKeyState.Under (quotaOf slot.key) slot.state
  hint : HintTrue (quotaOf slot.key) t slot

variable {quotaOf : K → Quota} {t t' now : ℕ} {slot : Slot K S}

theorem SlotTrue.later (kept : SlotTrue quotaOf t slot) (h : t ≤ t') : SlotTrue quotaOf t' slot where
  under := kept.under
  hint := kept.hint.imp_right (Or.imp_right fun valid later after => valid later (h.trans after))

/-- Reading a slot's state keeps its hint true. -/
theorem SlotTrue.read (kept : SlotTrue quotaOf t slot) (read : ℕ) :
    SlotTrue quotaOf t { slot with state := (KeyState.peek slot.state read).2 } where
  under := LawfulKeyState.peek_under read kept.under
  hint := kept.hint.imp_right (Or.imp_right fun valid t' after readable passed =>
    (valid t' after readable passed).read kept.under read)

/-- A reset allowance is whole, whatever the hint says. -/
theorem SlotTrue.reset (kept : SlotTrue quotaOf t slot) (now : ℕ) :
    SlotTrue quotaOf t { slot with state := KeyState.reset slot.state now } where
  under := LawfulKeyState.reset_under now kept.under
  hint := Or.inr (Or.inr fun _ _ readable _ => LawfulKeyState.whole_of_reset now kept.under readable.fits)

/-- Looking at a slot's hint, refreshed if it has to be, keeps it true, and a slot whose hint has passed
    has its whole allowance. -/
theorem SlotTrue.refresh (kept : SlotTrue quotaOf now slot) :
    SlotTrue quotaOf now (slot.recoversAt now (millis now)).2 ∧
      ((slot.recoversAt now (millis now)).1 ≤ millis now → Readable S (quotaOf slot.key) now →
        Whole (quotaOf slot.key) slot.state now) := by
  unfold Slot.recoversAt
  split
  · dsimp only
    rw [recoversAt_snd]
    refine ⟨⟨LawfulKeyState.peek_under now kept.under, Or.inr (Or.inr ?_)⟩, ?_⟩
    · intro t' after readable passed
      exact (whole_of_recoversAt kept.under after readable passed).read kept.under now
    · exact fun passed readable => whole_of_recoversAt kept.under le_rfl readable passed
  · rename_i usable
    rw [not_or] at usable
    have valid := (kept.hint.resolve_left usable.1).resolve_left usable.2
    have still : slot.recoversAtMs ≤ millis now → Readable S (quotaOf slot.key) now →
        Whole (quotaOf slot.key) slot.state now :=
      fun passed readable => valid now le_rfl readable passed
    split
    · have state := LawfulKeyState.isFull_snd slot.state now
      cases hfull : KeyState.isFull slot.state now with
      | mk full state' =>
          rw [hfull] at state
          obtain rfl : state' = (KeyState.peek slot.state now).2 := state
          cases full with
          | true =>
              have full := fun {t} => @LawfulKeyState.whole_of_full S _ _ (quotaOf slot.key) slot.state now t
                kept.under
              have found : (KeyState.isFull slot.state now).1 = true := by rw [hfull]
              refine ⟨⟨LawfulKeyState.peek_under now kept.under, Or.inr (Or.inr ?_)⟩, ?_⟩
              · intro t' after readable _
                exact Whole.read kept.under (full after readable.fits found) now
              · exact fun _ readable => full le_rfl readable.fits found
          | false => exact ⟨kept.read now, still⟩
    · exact ⟨kept, still⟩

/-- The hint of a key being stored. -/
theorem firstHint_true {quota : Quota} {s s' : S} {fresh : Bool} {n : ℕ}
    (made : KeyState.create quota now = some s)
    (restored : fresh = true → s' = s) (under : LawfulKeyState.Under quota s') :
    let checked := KeyState.acquire s' n now
    let hinted := firstHint checked.2 fresh n checked.1 now (millis now)
    LawfulKeyState.Under quota hinted.2 ∧
      (hinted.1 = unknown ∨ ∀ t', now ≤ t' → Readable S quota t' → hinted.1 ≤ millis t' →
        Whole quota hinted.2 t') := by
  have after := LawfulKeyState.acquire_under n now under
  dsimp only
  -- a hint computed from a state the check has left, read or not
  have computed : ∀ state : S, LawfulKeyState.Under quota state →
      LawfulKeyState.Under quota (recoversAt state now).2 ∧
        ((recoversAt state now).1 = unknown ∨ ∀ t', now ≤ t' → Readable S quota t' →
          (recoversAt state now).1 ≤ millis t' → Whole quota (recoversAt state now).2 t') := by
    intro state kept
    rw [recoversAt_snd]
    refine ⟨LawfulKeyState.peek_under now kept, Or.inr ?_⟩
    intro t' after readable passed
    exact (whole_of_recoversAt kept after readable passed).read kept now
  unfold firstHint
  split
  · rename_i spentNothing
    rw [Bool.and_eq_true, Bool.or_eq_true, beq_iff_eq] at spentNothing
    obtain ⟨isFresh, quiet⟩ := spentNothing
    obtain rfl := restored isFresh
    refine ⟨after, Or.inr ?_⟩
    intro t' _ readable _
    have whole : Whole quota s' t' := LawfulKeyState.whole_of_create made readable.fits
    -- nothing was taken: the state is the fresh one, read or not
    have left : (KeyState.acquire s' n now).2 = s' ∨
        (KeyState.acquire s' n now).2 = (KeyState.peek s' now).2 := by
      rcases quiet with rfl | denied
      · exact Or.inl (congrArg Prod.snd (LawfulKeyState.acquire_zero s' now))
      · exact LawfulKeyState.acquire_denied under denied
    rcases left with same | aged
    · rw [same]
      exact whole
    · rw [aged]
      exact whole.read under now
  · dsimp only
    split
    · have state := LawfulKeyState.isFull_snd (KeyState.acquire s' n now).2
        (fromMillis (satAdd (millis now) 1))
      cases hfull : KeyState.isFull (KeyState.acquire s' n now).2 (fromMillis (satAdd (millis now) 1)) with
      | mk full state' =>
          rw [hfull] at state
          obtain rfl : state' = _ := state
          cases full with
          | true =>
              refine ⟨LawfulKeyState.peek_under _ after, Or.inr ?_⟩
              intro t' _ readable passed
              have found : (KeyState.isFull (KeyState.acquire s' n now).2
                  (fromMillis (satAdd (millis now) 1))).1 = true := by rw [hfull]
              exact Whole.read after (LawfulKeyState.whole_of_full after
                (fromMillis_le_of_le_millis passed) readable.fits found) _
          | false => exact computed _ (LawfulKeyState.peek_under _ after)
    · exact computed _ after

/-!
### Shards
-/

variable [DecidableEq K] {config : StoreConfig K} {i : Fin config.shardCount} {map map' : ShardMap K S}
  {handed : List (Handover K)}

/-- Every hint of a shard is true. -/
def HintsTrue (quotaOf : K → Quota) (t : ℕ) (map : ShardMap K S) : Prop :=
  ∀ slot ∈ map.slots, SlotTrue quotaOf t slot

omit [DecidableEq K] in
theorem RoomStep.hintsTrue (step : RoomStep now (millis now) config.table map handed map')
    (kept : HintsTrue quotaOf now map) : HintsTrue quotaOf now map' := by
  cases step with
  | refresh held =>
      have refreshed := (kept _ (List.mem_of_getElem? held)).refresh.1
      exact ShardMap.forall_setSlot kept refreshed
  | spare held =>
      exact ShardMap.forall_setSlot kept ⟨(kept _ (List.mem_of_getElem? held)).under, Or.inl rfl⟩
  | cursors hand sweep => exact kept
  | release held => exact ShardMap.forall_removeAt kept held
  | settle held => exact ShardMap.forall_removeAt kept held
  | handOver held => exact ShardMap.forall_removeAt kept held

/-- Every step of a call keeps every hint true. -/
theorem ShardStep.hintsTrue (step : ShardStep config quotaOf i now map handed map')
    (consistent : Consistent config i map) (kept : HintsTrue quotaOf now map) :
    HintsTrue quotaOf now map' := by
  cases step with
  | acquire found =>
      obtain ⟨pos, slot, slot', held, rfl, after, -, same, referenced, -, state⟩ :=
        acquireStored_some consistent found
      rw [after]
      refine ShardMap.forall_setSlot kept ⟨?_, Or.inr (Or.inl referenced)⟩
      rw [same, state]
      exact LawfulKeyState.acquire_under _ now (kept slot (List.mem_of_getElem? held)).under
  | room step => exact step.hintsTrue kept
  | @store key n state home absent room made =>
      rw [ShardMap.store]
      generalize map.recovery.take (config.hasher key) (millis now) = taken
      obtain ⟨charge, recovery⟩ := taken
      have restored := restored_under made charge
      have fresh : charge.isNone = true →
          (charge.elim state fun charge => KeyState.restore state charge.debt now) = state := by
        intro empty
        rw [Option.isNone_iff_eq_none.1 empty]
        rfl
      obtain ⟨kept_new, hint⟩ := firstHint_true (n := n) made fresh restored
      intro found member
      rcases List.mem_append.1 member with there | new
      · exact kept found there
      · obtain rfl := List.mem_singleton.1 new
        exact ⟨kept_new, hint.imp_right Or.inr⟩
  | read held => exact ShardMap.forall_setSlot kept ((kept _ (List.mem_of_getElem? held)).read now)
  | reset held => exact ShardMap.forall_setSlot kept ((kept _ (List.mem_of_getElem? held)).reset now)
  | forget hash => exact kept
  | remove held => exact ShardMap.forall_removeAt kept held
  | release spent => exact kept
  | clear => exact fun _ member => by cases member
  | shrink => exact kept

/-- After every run of calls in order, every hint is true. -/
theorem run_hintsTrue {algorithm : Algorithm} {calls : List (Call K)} (order : InOrder calls)
    (last : ∀ call ∈ calls, call.now ≤ t) (i : Fin config.shardCount) :
    HintsTrue quotaOf t (Store.run algorithm quotaOf (.new : Store config S) calls i) := by
  refine (run_keeps algorithm (fun _ => HintsTrue quotaOf) ?_ ?_ ?_ order last i).2
  · exact fun _ _ _ member => by cases member
  · exact fun h kept slot member => (kept slot member).later h
  · exact fun step consistent kept => step.hintsTrue consistent kept

/-- So is it while room is made after them. -/
theorem room_hintsTrue {algorithm : Algorithm} {calls : List (Call K)} (order : InOrder calls)
    (last : ∀ call ∈ calls, call.now ≤ now)
    (run : RoomRun now (millis now) config.table (Store.run algorithm quotaOf (.new : Store config S) calls i)
      handed map) : HintsTrue quotaOf now map :=
  run.invariant (HintsTrue quotaOf now) (fun step => step.hintsTrue) (run_hintsTrue order last i)

omit [DecidableEq K] in
/-- A slot found to have recovered owes nothing. -/
theorem HintsTrue.recovered_owes_nothing (kept : HintsTrue quotaOf now map) {pos : ℕ}
    (held : map.slots[pos]? = some slot) (readable : Readable S (quotaOf slot.key) now)
    (recovered : (map.evictable pos now (millis now)).1 = .recovered) :
    (KeyState.debt slot.state now).1 = none := by
  have true_hint := kept slot (List.mem_of_getElem? held)
  rw [debt_eq_none_iff true_hint.under]
  apply true_hint.refresh.2 _ readable
  rcases evictable_cases held now (millis now) with ⟨_, -, slot', held', passed, -⟩ |
    ⟨_, answer, -⟩ | ⟨_, _, answer, -⟩
  · obtain rfl : slot' = slot := Option.some.inj (held'.symm.trans held)
    exact passed
  · rw [answer] at recovered
    cases recovered
  · rw [answer] at recovered
    cases recovered

end Hints

/-- In every shard that calls at readings in order reach, and while room is made in it at a reading no
    earlier than theirs: a slot found to have recovered owes nothing, where the reading is `Usable` under
    the quota of its key. -/
def ForgottenOwesNothing (S : Type) [KeyState S] (algorithm : Algorithm) (Usable : Quota → ℕ → Prop) {K : Type}
    [DecidableEq K] (config : StoreConfig K) (quotaOf : K → Quota) (calls : List (Call K)) (now : ℕ) : Prop :=
  ∀ (i : Fin config.shardCount) (handed : List (Handover K)) (map : ShardMap K S) (pos : ℕ) (slot : Slot K S),
    InOrder calls → (∀ call ∈ calls, call.now ≤ now) →
    RoomRun now (millis now) config.table (Store.run algorithm quotaOf .new calls i) handed map →
    map.slots[pos]? = some slot → Usable (quotaOf slot.key) now →
    (map.evictable pos now (millis now)).1 = .recovered → (KeyState.debt slot.state now).1 = none

/-- The millisecond in which the nanosecond clock ends is not over. -/
def ClockRuns (_ : Quota) (now : ℕ) : Prop := millis now ≤ millis u64Max

section Forgotten

variable {K : Type} [DecidableEq K] (config : StoreConfig K) (quotaOf : K → Quota) (calls : List (Call K)) (now : ℕ)

/-- Where every usable reading is one a hint can be trusted at. -/
theorem forgottenOwesNothing (S : Type) [KeyState S] [LawfulKeyState S] (algorithm : Algorithm)
    {Usable : Quota → ℕ → Prop}
    (readable : ∀ {quota : Quota} {s : S} {now : ℕ}, LawfulKeyState.Under quota s → Usable quota now →
      Readable S quota now) : ForgottenOwesNothing S algorithm Usable config quotaOf calls now := by
  intro i handed map pos slot order last run held usable recovered
  have hints := room_hintsTrue order last run
  have under := (hints slot (List.mem_of_getElem? held)).under
  exact hints.recovered_owes_nothing held (readable under usable) recovered

/-- At the end of the clock every record of a log has expired. -/
theorem SlidingLog.Under.owes_nothing_at_ceiling {quota : Quota} {sl : SlidingLog} (under : sl.Under quota) {now : ℕ}
    (ended : u64Max ≤ now) : (KeyState.debt sl now).1 = none := by
  have used : sl.usedAt now = 0 := by
    refine Log.inWindow_expire_of_gone _ _ fun run _ => ?_
    have reading : nanos now = u64Max := min_eq_right ended
    have judged := sl.log.le_instant (nanos now)
    have word : satAdd run.atNs sl.periodNs ≤ u64Max := min_le_right _ _
    omega
  show ((sl.peek now).1.debt now) = none
  rw [Snapshot.debt_eq_none, remaining_eq under, used, peek_eq under, Snapshot.new_limit]
  rfl

theorem SlidingLog.forgottenOwesNothing :
    ForgottenOwesNothing SlidingLog .slidingWindowLog Always config quotaOf calls now := by
  intro i handed map pos slot order last run held _ recovered
  have hints := room_hintsTrue order last run
  rcases Nat.lt_or_ge now u64Max with below | ended
  · exact hints.recovered_owes_nothing held ⟨millis_mono below.le, fun _ _ => trivial⟩ recovered
  · have under := (hints slot (List.mem_of_getElem? held)).under
    exact SlidingLog.Under.owes_nothing_at_ceiling under ended

end Forgotten

/-- A key is forgotten without a record only when it owes nothing. -/
theorem recovered_keys_owe_nothing {K : Type} [DecidableEq K] (config : StoreConfig K) (quotaOf : K → Quota)
    (calls : List (Call K)) (now : ℕ) :
    ForgottenOwesNothing Gcra .leakyBucket (fun quota now => ClockRuns quota now ∧ IntervalFits quota now) config
        quotaOf calls now ∧
      ForgottenOwesNothing FixedWindow .fixedWindow ClockRuns config quotaOf calls now ∧
      ForgottenOwesNothing SlidingLog .slidingWindowLog Always config quotaOf calls now ∧
      ForgottenOwesNothing SlidingCounter .slidingWindowCounter ClockRuns config quotaOf calls now := by
  refine ⟨?_, ?_, SlidingLog.forgottenOwesNothing config quotaOf calls now, ?_⟩
  · apply forgottenOwesNothing config quotaOf calls now Gcra
    rintro quota g now under ⟨runs, fits⟩
    have admits : admitsAnything .leakyBucket quota = true := Gcra.Under.admits under
    exact ⟨runs, fun t' before => fits.earlier admits before⟩
  · exact forgottenOwesNothing config quotaOf calls now FixedWindow _ fun _ runs => ⟨runs, fun _ _ => trivial⟩
  · exact forgottenOwesNothing config quotaOf calls now SlidingCounter _ fun _ runs => ⟨runs, fun _ _ => trivial⟩

/-- A store of one shard and one key, no idle limit. -/
def oneKeyStore : StoreConfig ℕ :=
  StoreConfig.new id 1 { maxKeys := some 1, idleTtl := none, overflow := .failClosed } 0

/-- A bucket of one per second, charged at 0: at one second its hint has passed, and it owes nothing. -/
theorem recovered_keys_owe_nothing_after_a_second :
    let quota := Quota.perSecond 1 (by decide)
    let map : ShardMap ℕ Gcra := Store.run .leakyBucket (fun _ => quota)
      (.new : Store oneKeyStore Gcra) [⟨.check 7 1, 0⟩] (oneKeyStore.shardFor 7)
    (map.evictable 0 1000000000 (millis 1000000000)).1 = .recovered ∧
      ∃ slot ∈ map.slots[0]?, (KeyState.debt slot.state 1000000000).1 = none := by
  intro quota map
  have answer : (map.evictable 0 1000000000 (millis 1000000000)).1 = .recovered := by decide +kernel
  have present : (map.slots[0]?).isSome = true := by decide +kernel
  obtain ⟨slot, held⟩ := Option.isSome_iff_exists.1 present
  refine ⟨answer, slot, held, ?_⟩
  have fits : IntervalFits quota 1000000000 := by decide +kernel
  have runs : millis 1000000000 ≤ millis u64Max := by decide
  exact (recovered_keys_owe_nothing oneKeyStore (fun _ => quota) [⟨.check 7 1, 0⟩] 1000000000).1 _ [] map 0 slot
    (by decide) (by decide) (.done _) held ⟨runs, fits⟩ answer

/-- At the ceiling of the clock: a window of one per second charged one nanosecond before it.  Half a
    millisecond on, the hint has passed and the clock stands still, so the key still owes. -/
theorem saturated_clock_forgets_a_debt :
    let quota := Quota.perSecond 1 (by decide)
    let map : ShardMap ℕ FixedWindow := Store.run .fixedWindow (fun _ => quota)
      (.new : Store oneKeyStore FixedWindow) [⟨.check 7 1, 18446744073709551614⟩] (oneKeyStore.shardFor 7)
    (map.evictable 0 18446744073710000000 (millis 18446744073710000000)).1 = .recovered ∧
      ∃ slot ∈ map.slots[0]?, (KeyState.debt slot.state 18446744073710000000).1 ≠ none := by
  decide +kernel

end RateNet
