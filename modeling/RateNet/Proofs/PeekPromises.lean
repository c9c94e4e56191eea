/-
Module: RateNet.Proofs.PeekPromises
Purpose: `peek` never promises less than a check then grants. For a tracked key the two read one state.
  For an evicted key `peek` reads the recovery table as it stands, and a check first makes room: other
  debts are recorded, the key's own record may be spilled and its cells raised. What the key is charged
  comes from obligations of its account, making room keeps every obligation covered, and restoring a
  larger debt leaves less.
Trusted boundary: none
Main exports: Recovery.Owes, Recovery.exists_owes_of_peek, RoomRun.charge_grows, DeadlinesFit,
  PeekPromises, peek_promises_what_checks_grant
-/
import RateNet.Proofs.RecoveryContents

namespace RateNet

/-!
### A charge is made of obligations
-/

namespace Recovery

/-- The counts of the records and the deadlines of the cells fit their fields. -/
abbrev FieldsFit (t : Recovery) : Prop :=
  t.Holds (fun record => record.spent ≤ u32Max) fun cell => (unpack cell).1 ≤ untilMax

/-- An obligation of the key with `hash` that is not due yet, and that the table covers. -/
structure Owes (size : TableSize) (nowMs hash : ℕ) (t : Recovery) (owed : Obligation) : Prop where
  account : owed.account = accountOf size hash
  due : nowMs < owed.untilMs
  covered : t.Covers size nowMs owed

variable {t : Recovery} {size : TableSize} {nowMs hash : ℕ} {owed owed' : Obligation}

theorem unpack_snd_le (cell : ℕ) : (unpack cell).2 ≤ u32Max := by
  have field : cell &&& spentMax ≤ spentMax := Nat.and_le_right
  have width : spentMax ≤ u32Max := by decide
  simp only [unpack]
  split
  · exact le_rfl
  · exact field.trans width

theorem unpack_overflowCell_le (record : Record) (nowMs cell : ℕ) :
    (unpack (overflowCell record nowMs cell)).1 ≤ untilMax := by
  simp only [overflowCell]
  split
  · rw [unpack_pack]
    exact min_le_right _ _
  · rw [unpack_pack]
    exact min_le_right _ _

theorem FieldsFit.cell (fields : t.FieldsFit) (c : ℕ) : (unpack (t.cell c)).1 ≤ untilMax := by
  rw [Recovery.cell]
  cases held : t.cells[c]? with
  | none => exact Nat.zero_le _
  | some cell => exact fields.cells cell (List.mem_of_getElem? held)

/-- A live record of the key's account is an obligation. -/
theorem owes_of_own {record : Record} (member : (accountOf size hash, record) ∈ t.ledger nowMs)
    (fields : t.FieldsFit) (deadline : record.until ≤ untilMax) :
    ∃ owed, t.Owes size nowMs hash owed ∧ owed.spent = record.spent ∧ owed.untilMs = record.until := by
  obtain ⟨live, b, held, -⟩ := mem_ledger.1 member
  simp only [Record.isLive, Bool.and_eq_true, decide_eq_true_eq] at live
  refine ⟨⟨accountOf size hash, record.spent, record.until, fields.records _ held, deadline⟩,
    ⟨rfl, live.2, Or.inl ⟨_, member, rfl, le_rfl, le_rfl⟩⟩, rfl, rfl⟩

/-- What the key's two cells share is an obligation. -/
theorem owes_of_shared {debt : Debt} (buckets : t.buckets.length = size.buckets)
    (cells : t.cells.length = size.cells) (fields : t.FieldsFit)
    (found : t.shared (Probe.new hash t.buckets.length t.cells.length) nowMs = some debt) :
    ∃ owed, t.Owes size nowMs hash owed ∧ owed.spent = debt.spent ∧
      fromMillis owed.untilMs = debt.until := by
  have cellsEq : (Probe.new hash t.buckets.length t.cells.length).cells =
      cellsFor size (accountOf size hash) := by
    rw [cellsFor, accountOf, buckets, cells]
    rfl
  rw [shared, cellsEq] at found
  obtain ⟨⟨first, second⟩, rfl⟩ := Option.ite_some_none_eq_some.1 found
  refine ⟨⟨accountOf size hash, min _ _, min _ _, (min_le_left _ _).trans (unpack_snd_le _),
    (min_le_left _ _).trans (fields.cell _)⟩, ⟨rfl, lt_min first second, ?_⟩, rfl, rfl⟩
  exact Or.inr ⟨⟨min_le_left _ _, min_le_left _ _⟩, ⟨min_le_right _ _, min_le_right _ _⟩⟩

/-- What a key is charged: one obligation has its count, and one its deadline. -/
theorem exists_owes_of_peek {charge : Charge} (valid : t.Valid size nowMs) (fields : t.FieldsFit)
    (deadlines : ∀ item ∈ t.ledger nowMs, item.2.until ≤ untilMax)
    (charged : t.peek hash nowMs = some charge) :
    ∃ owed owed', t.Owes size nowMs hash owed ∧ t.Owes size nowMs hash owed' ∧
      owed.spent = charge.debt.spent ∧ fromMillis owed'.untilMs = charge.debt.until := by
  rw [peek] at charged
  split at charged
  · cases charged
  rename_i probe probed
  rw [Recovery.probe] at probed
  split at probed
  · cases probed
  rename_i allocated
  obtain rfl := Option.some.inj probed
  obtain ⟨buckets, cells⟩ : t.buckets.length = size.buckets ∧ t.cells.length = size.cells := by
    rcases valid.sized with ⟨none, -⟩ | lengths
    · rw [none] at allocated
      exact absurd rfl allocated
    · exact lengths
  have mine : (Probe.new hash t.buckets.length t.cells.length).account = accountOf size hash := by
    rw [accountOf, buckets, cells]
  have ownOwes : ∀ record, ((t.own (Probe.new hash t.buckets.length t.cells.length) nowMs).bind
      fun place => t.buckets.entry place.1 place.2) = some record →
      ∃ owed, t.Owes size nowMs hash owed ∧ owed.spent = record.spent ∧
        owed.untilMs = record.until := by
    intro record found
    have member := (own_entry_iff valid.single).1 found
    rw [mine] at member
    exact owes_of_own member fields (deadlines _ member)
  have sharedOwes := fun debt => @owes_of_shared t size nowMs hash debt buckets cells fields
  generalize t.shared (Probe.new hash t.buckets.length t.cells.length) nowMs = sketch at charged sharedOwes
  generalize ((t.own (Probe.new hash t.buckets.length t.cells.length) nowMs).bind
    fun place => t.buckets.entry place.1 place.2) = own at charged ownOwes
  cases own with
  | none =>
      cases sketch with
      | none => cases charged
      | some debt =>
          obtain rfl := Option.some.inj charged
          obtain ⟨owed, owes, spent, deadline⟩ := sharedOwes debt rfl
          exact ⟨owed, owed, owes, owes, spent, deadline⟩
  | some record =>
      obtain ⟨owed, owes, spent, deadline⟩ := ownOwes record rfl
      have deadline : fromMillis owed.untilMs = record.debt.until := congrArg fromMillis deadline
      cases sketch with
      | none =>
          obtain rfl := Option.some.inj charged
          exact ⟨owed, owed, owes, owes, spent, deadline⟩
      | some debt =>
          obtain rfl := Option.some.inj charged
          obtain ⟨owed', owes', spent', deadline'⟩ := sharedOwes debt rfl
          have larger : ∃ o, t.Owes size nowMs hash o ∧ o.spent = max record.debt.spent debt.spent := by
            rcases max_choice record.debt.spent debt.spent with left | right
            · rw [left]
              exact ⟨owed, owes, spent⟩
            · rw [right]
              exact ⟨owed', owes', spent'⟩
          have later : ∃ o, t.Owes size nowMs hash o ∧
              fromMillis o.untilMs = max record.debt.until debt.until := by
            rcases max_choice record.debt.until debt.until with left | right
            · rw [left]
              exact ⟨owed, owes, deadline⟩
            · rw [right]
              exact ⟨owed', owes', deadline'⟩
          obtain ⟨o, owesO, spentO⟩ := larger
          obtain ⟨o', owesO', deadlineO⟩ := later
          exact ⟨o, o', owesO, owesO', spentO, deadlineO⟩

end Recovery

/-!
### Along a run
-/

section Runs

variable {K S : Type} [KeyState S] [LawfulKeyState S] {config : StoreConfig K} {quotaOf : K → Quota}
  {i : Fin config.shardCount} {now : ℕ} {map map' : ShardMap K S} {handed : List (Handover K)}

theorem capacity_le (algorithm : Algorithm) (quota : Quota) : capacity algorithm quota ≤ u32Max := by
  cases algorithm with
  | tokenBucket | leakyBucket => exact quota.burst_le
  | fixedWindow | slidingWindowLog | slidingWindowCounter => exact quota.limit_le

/-- No key owes more than its capacity. -/
theorem debt_spent_le {quota : Quota} {s : S} {debt : Debt} (under : LawfulKeyState.Under quota s)
    (owes : (KeyState.debt s now).1 = some debt) : debt.spent ≤ u32Max := by
  rw [LawfulKeyState.debt_eq] at owes
  have spent := (Snapshot.debt_eq_some.1 owes).2.1
  rw [LawfulKeyState.peek_limit now under] at spent
  have bound := capacity_le (LawfulKeyState.algorithm S) quota
  omega

theorem RoomStep.handed_spent {nowMs : ℕ} {size : TableSize}
    (step : RoomStep now nowMs size map handed map') (kept : StatesKept quotaOf map) :
    ∀ handover ∈ handed, handover.debt.spent ≤ u32Max := by
  cases step with
  | refresh | spare | cursors | release | settle => exact fun _ member => by cases member
  | handOver held owes accepted =>
      intro handover member
      obtain rfl := List.mem_singleton.1 member
      exact debt_spent_le (kept _ (List.mem_of_getElem? held)) owes

/-- What a shard keeps between calls. -/
structure ShardFits (config : StoreConfig K) (quotaOf : K → Quota) (now : ℕ) (map : ShardMap K S) :
    Prop where
  states : StatesKept quotaOf map
  valid : map.recovery.Valid config.table (millis now)
  fields : map.recovery.FieldsFit

theorem ShardStep.fits [DecidableEq K] (step : ShardStep config quotaOf i now map handed map')
    (consistent : Consistent config i map) (fits : ShardFits config quotaOf now map) :
    ShardFits config quotaOf now map' where
  states := step.statesKept consistent fits.states
  valid := step.table.valid fits.valid
  fields := by
    have spent : ∀ handover ∈ handed, handover.debt.spent ≤ u32Max := by
      cases step with
      | room step => exact step.handed_spent fits.states
      | acquire | store | read | reset | forget | remove | release | clear | shrink =>
          exact fun _ member => by cases member
    have accepts : ∀ handover ∈ handed, Recovery.Accepts (fun record => record.spent ≤ u32Max)
        handover.debt handover.seeded := fun handover member =>
      ⟨fun _ => spent handover member, fun _ before => max_le before (spent handover member)⟩
    have zero : (unpack 0).1 ≤ untilMax := Nat.zero_le _
    exact step.table.holds (Nat.zero_le _) zero accepts
      (fun _ record cell _ _ => Recovery.unpack_overflowCell_le record _ cell) fits.fields

theorem run_fits [DecidableEq K] {algorithm : Algorithm} {calls : List (Call K)} (order : InOrder calls)
    (last : ∀ call ∈ calls, call.now ≤ now) :
    ∀ i, Consistent config i (Store.run algorithm quotaOf (.new : Store config S) calls i) ∧
      ShardFits config quotaOf now (Store.run algorithm quotaOf (.new : Store config S) calls i) := by
  apply run_keeps algorithm (fun _ t => ShardFits config quotaOf t) _ _ _ order last
  · exact fun _ _ => ⟨fun slot member => absurd member List.not_mem_nil, Recovery.new_valid,
      Recovery.new_holds⟩
  · exact fun later fits => ⟨fits.states, fits.valid.later (millis_mono later), fits.fields⟩
  · exact fun step consistent fits => step.fits consistent fits

omit [LawfulKeyState S] in
/-- Making room keeps every obligation. -/
theorem RoomRun.owes {hash : ℕ} {owed : Obligation} (keep : config.table.forget = false)
    (run : RoomRun now (millis now) config.table map handed map')
    (valid : map.recovery.Valid config.table (millis now))
    (owes : map.recovery.Owes config.table (millis now) hash owed) :
    map'.recovery.Valid config.table (millis now) ∧
      map'.recovery.Owes config.table (millis now) hash owed := by
  apply run.invariant (fun map => map.recovery.Valid config.table (millis now) ∧
    map.recovery.Owes config.table (millis now) hash owed) _ ⟨valid, owes⟩
  intro map map' handed step before
  cases step with
  | refresh | spare | cursors => exact before
  | release held => rwa [ShardMap.removeAt_recovery]
  | settle held => rwa [ShardMap.removeAt_recovery]
  | handOver held owed accepted =>
      obtain ⟨valid, account, due, covered⟩ := before
      exact ⟨Recovery.valid_record valid _ _ _, account, due,
        Recovery.covers_record valid.sized keep due _ _ covered⟩

/-- Making room never lowers what a key is charged. -/
theorem RoomRun.charge_grows {hash : ℕ} {charge : Charge} (keep : config.table.forget = false)
    (run : RoomRun now (millis now) config.table map handed map')
    (fits : ShardFits config quotaOf now map)
    (deadlines : ∀ item ∈ map.recovery.ledger (millis now), item.2.until ≤ untilMax)
    (charged : map.recovery.peek hash (millis now) = some charge) :
    ∃ charge', map'.recovery.peek hash (millis now) = some charge' ∧
      charge.debt.spent ≤ charge'.debt.spent ∧ charge.debt.until ≤ charge'.debt.until := by
  obtain ⟨owed, owed', owes, owes', spent, deadline⟩ :=
    Recovery.exists_owes_of_peek fits.valid fits.fields deadlines charged
  obtain ⟨valid, still⟩ := run.owes keep fits.valid owes
  obtain ⟨-, still'⟩ := run.owes keep fits.valid owes'
  obtain ⟨charge', charged', more, -⟩ :=
    Recovery.peek_covers valid still.due still.account still.covered
  obtain ⟨charge'', charged'', -, later⟩ :=
    Recovery.peek_covers valid still'.due still'.account still'.covered
  obtain rfl := Option.some.inj (charged'.symm.trans charged'')
  exact ⟨charge', charged', spent ▸ more, deadline ▸ later⟩

end Runs

/-!
### Checks of an absent key
-/

section Checks

variable {K S : Type} [DecidableEq K] [KeyState S] {config : StoreConfig K} {quotaOf : K → Quota}

/-- The state a newcomer is checked with: fresh, with what it is charged restored. -/
def charged (state : S) (charge : Option Charge) (now : ℕ) : S :=
  charge.elim state fun charge => KeyState.restore state charge.debt now

/-- An absent key is admitted only by its fresh state, charged what the table shows once room has been
    made. -/
theorem allow_of_absent {store : Store config S} {key : K} {n now : ℕ} (positive : 0 < n)
    (consistent : Consistent config (config.shardFor key) (store (config.shardFor key)))
    (absent : ∀ slot ∈ (store (config.shardFor key)).slots, slot.key ≠ key)
    (allowed : (store.check key n now (KeyState.create (quotaOf key))).1.decision = .allow) :
    ∃ (state : S) (handed : List (Handover K)) (map : ShardMap K S),
      KeyState.create (quotaOf key) now = some state ∧
      RoomRun now (millis now) config.table (store (config.shardFor key)) handed map ∧
      (KeyState.acquire (charged state (map.recovery.peek (config.hasher key) (millis now)) now)
        n now).1 = .allow := by
  obtain ⟨map', -, effect⟩ := check_effect store key n now (KeyState.create (quotaOf key))
  obtain ⟨⟨handed, run, -⟩, -⟩ := makeRoom_madeBy config (store (config.shardFor key)) now (millis now)
  generalize (store.check key n now (KeyState.create (quotaOf key))).1 = outcome at effect allowed
  cases effect with
  | found held =>
      obtain ⟨pos, slot, -, there, same, -⟩ := acquireStored_some consistent held
      exact absurd same (absent slot (List.mem_of_getElem? there))
  | closed missed unmade =>
      simp only [Outcome.plain, closed, if_neg positive.ne'] at allowed
      cases allowed
  | refused missed made full => cases allowed
  | @stored state missed made room =>
      simp only [ShardMap.store, Recovery.take_fst] at allowed
      exact ⟨state, handed, _, made, run, allowed⟩

variable (algorithm : Algorithm) (quotaOf)

theorem peekRef_tracked {store : Store config S} {key : K} {pos : ℕ} {slot : Slot K S}
    (consistent : Consistent config (config.shardFor key) (store (config.shardFor key)))
    (held : (store (config.shardFor key)).slots[pos]? = some slot) (same : slot.key = key) (now : ℕ) :
    store.peekRef algorithm quotaOf key now = ((KeyState.peek slot.state now).1,
      Function.update store (config.shardFor key) ((store (config.shardFor key)).setSlot pos
        { slot with state := (KeyState.peek slot.state now).2 })) := by
  have found := consistent.position_iff.2 ⟨slot, held, same⟩
  rw [Store.peekRef, Store.peek, ShardMap.peekSection]
  simp only [found, held]

theorem peekRef_absent {store : Store config S} {key : K}
    (missing : (store (config.shardFor key)).position (config.hasher key) key = none) (now : ℕ) :
    store.peekRef algorithm quotaOf key now =
      (((store (config.shardFor key)).recovery.peek (config.hasher key) (millis now)).elim
        (freshSnapshot algorithm (quotaOf key))
        fun charge => owedSnapshot S charge.debt (quotaOf key) now, store) := by
  rw [Store.peekRef, Store.peek, ShardMap.peekSection]
  simp only [missing, Function.update_eq_self, ShardMap.peekSection.owed]
  cases (store (config.shardFor key)).recovery.peek (config.hasher key) (millis now) with
  | none => rfl
  | some charge => rfl

end Checks

/-!
### The promise
-/

section Promise

variable {K S : Type} [KeyState S]

/-- Every deadline a shard keeps as of `now`, in a state or in a record, fits a sketch cell. -/
def DeadlinesFit (now : ℕ) (map : ShardMap K S) : Prop :=
  (∀ slot ∈ map.slots, ∀ debt ∈ (KeyState.debt slot.state now).1, ceilMillis debt.until ≤ untilMax) ∧
    ∀ item ∈ map.recovery.ledger (millis now), item.2.until ≤ untilMax

instance (now : ℕ) (map : ShardMap K S) : Decidable (DeadlinesFit now map) :=
  inferInstanceAs (Decidable (_ ∧ _))

/-- Where deadlines fit a sketch cell, the algorithm's own arithmetic does not saturate. -/
structure ReadsDeadlines (S : Type) [KeyState S] [LawfulKeyState S] : Prop where
  early : ∀ {quota} {s : S} {now}, LawfulKeyState.Under quota s → now ≤ fromMillis untilMax →
    LawfulKeyState.Fits S quota now
  whole : ∀ {quota} {s : S} {now}, LawfulKeyState.Under quota s → (KeyState.debt s now).1 = none →
    LawfulKeyState.Fits S quota now

variable [LawfulKeyState S] {config : StoreConfig K} {quotaOf : K → Quota} {key : K} {n now : ℕ}

/-- An absent key is granted no more than `peek` reported. -/
theorem granted_le_of_absent [DecidableEq K] {store : Store config S} (keep : config.table.forget = false)
    (reads : ReadsDeadlines S)
    (consistent : Consistent config (config.shardFor key) (store (config.shardFor key)))
    (fits : ShardFits config quotaOf now (store (config.shardFor key)))
    (deadlines : DeadlinesFit now (store (config.shardFor key))) (positive : 0 < n)
    (missing : (store (config.shardFor key)).position (config.hasher key) key = none)
    (allowed : (store.check key n now (KeyState.create (quotaOf key))).1.decision = .allow) :
    n ≤ (store.peekRef (LawfulKeyState.algorithm S) quotaOf key now).1.remaining := by
  obtain ⟨state, handed, map, made, run, granted⟩ :=
    allow_of_absent positive consistent (consistent.position_none missing) allowed
  have under := LawfulKeyState.create_under made
  rw [peekRef_absent _ _ missing]
  cases before : (store (config.shardFor key)).recovery.peek (config.hasher key) (millis now) with
  | none =>
      -- nothing was reported owing: the whole capacity was
      have admits := LawfulKeyState.create_isSome (S := S) (quotaOf key) now
      rw [made] at admits
      rw [Option.elim_none, freshSnapshot_remaining admits.symm]
      by_contra impossible
      have kept : LawfulKeyState.Under (quotaOf key)
          (charged state (map.recovery.peek (config.hasher key) (millis now)) now) := by
        cases map.recovery.peek (config.hasher key) (millis now) with
        | none => exact under
        | some charge => exact LawfulKeyState.restore_under charge.debt now under
      rw [LawfulKeyState.acquire_impossible now kept (Nat.lt_of_not_le impossible)] at granted
      cases granted
  | some charge =>
      obtain ⟨charge', after, spent, deadline⟩ := run.charge_grows keep fits deadlines.2 before
      rw [after] at granted
      have soon : now ≤ fromMillis untilMax := by
        obtain ⟨-, owed, -, owes, -, due⟩ :=
          Recovery.exists_owes_of_peek fits.valid fits.fields deadlines.2 before
        have limit : owed.untilMs ≤ u64Max := owed.until_le.trans (by decide)
        exact (lt_fromMillis_of_millis_lt limit owes.due).le.trans (fromMillis_mono owed.until_le)
      have restored := LawfulKeyState.restore_under charge'.debt now under
      rcases (LawfulKeyState.allow_iff restored (reads.early under soon)).1 granted with zero | enough
      · omega
      · rw [Option.elim_some, owedSnapshot, made]
        exact enough.trans (LawfulKeyState.restore_anti made spent deadline)

/-- A stored key is granted exactly what `peek` reported. -/
theorem granted_iff_of_tracked [DecidableEq K] {store : Store config S} {pos : ℕ} {slot : Slot K S}
    (reads : ReadsDeadlines S)
    (consistent : Consistent config (config.shardFor key) (store (config.shardFor key)))
    (fits : ShardFits config quotaOf now (store (config.shardFor key)))
    (deadlines : DeadlinesFit now (store (config.shardFor key))) (positive : 0 < n)
    (held : (store (config.shardFor key)).slots[pos]? = some slot) (same : slot.key = key) :
    ((store.peekRef (LawfulKeyState.algorithm S) quotaOf key now).2.check key n now
        (KeyState.create (quotaOf key))).1.decision = .allow ↔
      n ≤ (store.peekRef (LawfulKeyState.algorithm S) quotaOf key now).1.remaining := by
  have member := List.mem_of_getElem? held
  have under := fits.states slot member
  have readable : LawfulKeyState.Fits S (quotaOf slot.key) now := by
    cases owed : (KeyState.debt slot.state now).1 with
    | none => exact reads.whole under owed
    | some debt =>
        have deadline := deadlines.1 slot member debt owed
        rw [LawfulKeyState.debt_eq] at owed
        have later := (Snapshot.debt_eq_some.1 owed).2.2
        have due : debt.until ≤ fromMillis (ceilMillis debt.until) :=
          le_fromMillis_ceilMillis (lt_of_le_of_lt deadline (by decide))
        have far : fromMillis untilMax < durationMax := fromMillis_lt_durationMax (by decide)
        have bound := due.trans (fromMillis_mono deadline)
        rw [later, durationAdd] at bound
        exact reads.early under (by omega)
  rw [peekRef_tracked _ _ consistent held same]
  -- the check finds the state the read left
  have inside := (List.getElem?_eq_some_iff.1 held).1
  have still : (Function.update store (config.shardFor key) ((store (config.shardFor key)).setSlot pos
      { slot with state := (KeyState.peek slot.state now).2 }) (config.shardFor key)).slots[pos]? =
      some { slot with state := (KeyState.peek slot.state now).2 } := by
    rw [Function.update_self]
    exact List.getElem?_set_self inside
  have consistent' : Consistent config (config.shardFor key) (Function.update store (config.shardFor key)
      ((store (config.shardFor key)).setSlot pos
        { slot with state := (KeyState.peek slot.state now).2 }) (config.shardFor key)) := by
    rw [Function.update_self]
    exact consistent.setSlot held rfl rfl
  obtain ⟨_, -, -, -, checked⟩ :=
    check_stored consistent' still same n now (KeyState.create (quotaOf key))
  rw [checked]
  show (KeyState.acquire _ n now).1 = .allow ↔ _
  rw [LawfulKeyState.allow_iff (LawfulKeyState.peek_under now under) readable,
    LawfulKeyState.peek_again now under]
  exact ⟨fun granted => granted.resolve_left positive.ne', Or.inr⟩

end Promise

/-- What a check of `n` units grants, the `peek` made at the same reading just before it reported; and
    of a stored key it grants whatever was reported. -/
def PeekPromises (S : Type) [KeyState S] (algorithm : Algorithm) : Prop :=
  ∀ {K : Type} [DecidableEq K] (config : StoreConfig K) (quotaOf : K → Quota) (calls : List (Call K))
    (key : K) (n now : ℕ),
    config.table.forget = false → InOrder calls → (∀ call ∈ calls, call.now ≤ now) → 0 < n →
    let store : Store config S := Store.run algorithm quotaOf .new calls
    (∀ i, DeadlinesFit now (store i)) →
    let peeked := store.peekRef algorithm quotaOf key now
    let decision := (peeked.2.check key n now (KeyState.create (quotaOf key))).1.decision
    (decision = .allow → n ≤ peeked.1.remaining) ∧
      (store.tracks key = true → n ≤ peeked.1.remaining → decision = .allow)

theorem peekPromises {S : Type} [KeyState S] [LawfulKeyState S] (reads : ReadsDeadlines S) :
    PeekPromises S (LawfulKeyState.algorithm S) := by
  intro K _ config quotaOf calls key n now keep order last positive store deadlines peeked decision
  obtain ⟨consistent, fits⟩ := run_fits (S := S) order last (config.shardFor key)
  have deadlines := deadlines (config.shardFor key)
  cases found : (store (config.shardFor key)).position (config.hasher key) key with
  | none =>
      have untracked : store.tracks key = false := by rw [Store.tracks, found]; rfl
      constructor
      · intro allowed
        have same : peeked.2 = store := by
          show (store.peekRef _ quotaOf key now).2 = store
          rw [peekRef_absent _ _ found]
        have allowed : (store.check key n now (KeyState.create (quotaOf key))).1.decision = .allow := by
          rw [← same]
          exact allowed
        exact granted_le_of_absent keep reads consistent fits deadlines positive found allowed
      · intro tracked
        rw [untracked] at tracked
        cases tracked
  | some pos =>
      obtain ⟨slot, held, same⟩ := consistent.position_iff.1 found
      have iff := granted_iff_of_tracked reads consistent fits deadlines positive held same
      exact ⟨iff.1, fun _ => iff.2⟩

/-- Below the last deadline a sketch cell can hold, interval numbers are far from saturating. -/
theorem Gcra.Under.fits_of_early {quota : Quota} {g : Gcra} {now : ℕ} (under : g.Under quota)
    (early : now ≤ fromMillis untilMax) :
    (GcraParams.new quota).intervalsAt (nanos now) + quota.burst ≤ u64Max := by
  have ticks := GcraParams.intervalsAt_eq under.isOpen (nanos_le now)
  have slow := RateConversion.ticksAt_le under.isOpen.limit_le (nanos now)
  have clock := nanos_le_self now
  have burst := quota.burst_le
  have room : fromMillis untilMax + u32Max ≤ u64Max := by decide
  omega

/-- A bucket that owes nothing has not saturated. -/
theorem Gcra.Under.fits_of_whole {quota : Quota} {g : Gcra} {now : ℕ} (under : g.Under quota)
    (whole : (KeyState.debt g now).1 = none) :
    (GcraParams.new quota).intervalsAt (nanos now) + quota.burst ≤ u64Max := by
  have remaining : (g.peekAt now).remaining = (g.peekAt now).limit := Snapshot.debt_eq_none.1 whole
  have burst := under.burst
  rw [under.remaining_eq, under.peekAt_eq, Snapshot.new_limit, satAdd] at remaining
  omega

/-- `peek` never promises less than a check then grants. -/
theorem peek_promises_what_checks_grant :
    PeekPromises Gcra .leakyBucket ∧ PeekPromises FixedWindow .fixedWindow ∧
      PeekPromises SlidingLog .slidingWindowLog ∧ PeekPromises SlidingCounter .slidingWindowCounter := by
  have bucket : ReadsDeadlines Gcra :=
    { early := fun under => Gcra.Under.fits_of_early under
      whole := fun under => Gcra.Under.fits_of_whole under }
  exact ⟨peekPromises bucket, peekPromises ⟨fun _ _ => trivial, fun _ _ => trivial⟩,
    peekPromises ⟨fun _ _ => trivial, fun _ _ => trivial⟩,
    peekPromises ⟨fun _ _ => trivial, fun _ _ => trivial⟩⟩

/-- Room for one key: key 1 spends one of two units and is evicted by key 2.  Its other unit is granted
    when it returns, and `peek` had reported it. -/
theorem peek_promises_what_checks_grant_to_a_returning_key :
    let eviction : Eviction := { maxKeys := some 1, idleTtl := none, overflow := .failClosed }
    let config : StoreConfig ℕ := StoreConfig.new id 1 eviction 0
    let quotaOf : ℕ → Quota := fun _ => Quota.perSecond 2 (by decide)
    let store : Store config Gcra :=
      Store.run .leakyBucket quotaOf .new [⟨.check 1 1, 0⟩, ⟨.check 2 1, 0⟩]
    let peeked := store.peekRef .leakyBucket quotaOf 1 1000
    store.tracks 1 = false ∧
      (peeked.2.check 1 1 1000 (KeyState.create (quotaOf 1))).1.decision = .allow ∧
      1 ≤ peeked.1.remaining := by
  intro eviction config quotaOf
  have fits : ∀ i, DeadlinesFit 1000 (Store.run .leakyBucket quotaOf (.new : Store config Gcra)
      [⟨.check 1 1, 0⟩, ⟨.check 2 1, 0⟩] i) := by decide +kernel
  obtain ⟨promise, -⟩ := peek_promises_what_checks_grant.1 config quotaOf
    [⟨.check 1 1, 0⟩, ⟨.check 2 1, 0⟩] 1 1 1000 rfl (by decide) (by decide) (by decide) fits
  dsimp only
  refine ⟨by decide +kernel, ?_⟩
  have granted := promise (by decide +kernel)
  exact ⟨by decide +kernel, granted⟩

end RateNet
