/-
Module: RateNet.Proofs.ForgetMode
Purpose: `Overflow::Forget` never affects a key that owed nothing. A debt the exact table cannot hold is
  dropped, so the sketch stays blank, no key is stored with a mark and no record carries one; every slot
  can then go, and no newcomer is refused. What a key is charged is its account's live record alone, and
  that record is the largest count and the latest deadline of the debts merged into it since it was
  created.
Trusted boundary: none
Main exports: Recovery.mem_ledger_record, Plain, mergedDebts, Tallied, forget_charges_own_debts_only
-/
import RateNet.Proofs.RecoveryContents
import RateNet.Proofs.TrivialRequests

namespace RateNet

open Buckets

/-!
### The table
-/

namespace Recovery

variable {t : Recovery} {size : TableSize} {nowMs hash : ℕ} {record : Record}

/-- A live record with the tag of `hash`, in one of its two buckets. -/
def OwnRecord (size : TableSize) (t : Recovery) (hash nowMs : ℕ) (record : Record) : Prop :=
  let probe := Probe.new hash size.buckets size.cells
  record.isLive nowMs = true ∧ record.tag = probe.tag ∧
    ∃ b ∈ probe.buckets, ∃ r, t.buckets.entry b r = some record

/-- An own record is a record under the account of the key. -/
theorem ownRecord_iff (sized : t.Sized size) :
    t.OwnRecord size hash nowMs record ↔ (accountOf size hash, record) ∈ t.ledger nowMs := by
  rw [mem_ledger, OwnRecord]
  apply and_congr_right
  intro _
  rcases sized with ⟨none, -⟩ | ⟨buckets, -⟩
  · simp [none, Table.contents, Table.contentsFrom, Table.entry]
  · simp only [buckets, accountOf, Record.account_eq_iff, Table.mem_contents]
    constructor
    · rintro ⟨tag, b, candidate, r, held⟩
      exact ⟨b, ⟨r, held⟩, tag, candidate⟩
    · rintro ⟨b, ⟨r, held⟩, tag, candidate⟩
      exact ⟨tag, b, candidate, r, held⟩

/-- A table of the given size owns a record for a key exactly when its account has one. -/
theorem owns_iff_of_sized (sized : t.Sized size) :
    t.owns hash nowMs = true ↔ ∃ record, (accountOf size hash, record) ∈ t.ledger nowMs := by
  rcases probe_cases sized hash nowMs with ⟨none, nothing, -⟩ | ⟨-, buckets, cells⟩
  · simp [owns, none, nothing]
  · rw [owns_iff, accountIn, accountOf, buckets, cells]

/-- What is on the ledger once a debt has been recorded: the account's record is the old one merged or a
    new one, and every other record was there before. -/
theorem mem_ledger_record {account : Account} {debt : Debt} {inherited : Bool} {recorded : Recorded}
    (valid : t.Valid size nowMs)
    (accepted : (t.record hash debt nowMs size inherited).1 = some recorded)
    (member : (account, record) ∈ (t.record hash debt nowMs size inherited).2.ledger nowMs) :
    account ≠ accountOf size hash ∧ (account, record) ∈ t.ledger nowMs ∨
    account = accountOf size hash ∧
      ((∃ old, (account, old) ∈ t.ledger nowMs ∧ record = mergedRecord debt inherited old) ∨
        (∀ old, (account, old) ∉ t.ledger nowMs) ∧
          record = newRecord (Probe.new hash size.buckets size.cells) debt inherited) := by
  have after := (valid_record valid hash debt inherited).single
  obtain ⟨buckets, cells⟩ := allocate_sized valid.sized
  rw [Recovery.record] at accepted member after
  rw [dispose_ledger] at member after
  have single := valid.single
  rw [← allocate_ledger t size] at single ⊢
  generalize t.allocate size = t₁ at buckets cells accepted member after single ⊢
  rw [buckets, cells] at accepted member after
  have effect := place_effect t₁ hash debt nowMs inherited
  rw [buckets, cells] at effect
  have mine : (Probe.new hash size.buckets size.cells).account = accountOf size hash := rfl
  generalize t₁.place _ debt nowMs inherited = outcome at effect accepted member after
  cases effect with
  | @merge t' old shape held traded =>
      have live := (mem_ledger.1 held).1
      rw [mine] at held traded
      rw [claimed_of_live _ live, claimed_of_live _ (mergedRecord_live live), Multiset.singleton_add,
        Multiset.singleton_add] at traded
      by_cases other : account = accountOf size hash
      · subst other
        refine Or.inr ⟨rfl, Or.inl ⟨old, held, ?_⟩⟩
        have arrived : (accountOf size hash, mergedRecord debt inherited old) ∈
            (accountOf size hash, old) ::ₘ t'.ledger nowMs := by
          rw [traded]
          exact Multiset.mem_cons_self _ _
        rcases Multiset.mem_cons.1 arrived with same | arrived
        · -- the merge changed nothing
          rw [same, Multiset.cons_inj_right] at traded
          rw [traded] at member
          have unique := Multiset.inj_on_of_nodup_map single _ member _ held rfl
          rw [← same] at unique
          exact congrArg Prod.snd unique
        · exact congrArg Prod.snd (Multiset.inj_on_of_nodup_map after _ member _ arrived rfl)
      · refine Or.inl ⟨other, ?_⟩
        have there : (account, record) ∈ (accountOf size hash, old) ::ₘ t'.ledger nowMs :=
          Multiset.mem_cons_of_mem member
        rw [traded] at there
        rcases Multiset.mem_cons.1 there with same | before
        · exact absurd (congrArg Prod.fst same) other
        · exact before
  | settle absent settles =>
      rw [mine] at absent
      have there : (account, record) ∈ claimed nowMs (accountOf size hash)
          (newRecord (Probe.new hash size.buckets size.cells) debt inherited) + t₁.ledger nowMs := by
        cases settles with
        | placed shape added =>
            rw [← mine, ← added]
            exact member
        | displaced shape plain traded =>
            rw [← mine, ← traded]
            exact Multiset.mem_add.2 (Or.inr member)
      rcases Multiset.mem_add.1 there with new | before
      · obtain ⟨-, same⟩ := mem_claimed.1 new
        obtain ⟨rfl, rfl⟩ := Prod.mk.inj same
        exact Or.inr ⟨rfl, Or.inr ⟨absent, rfl⟩⟩
      · refine Or.inl ⟨?_, before⟩
        rintro rfl
        exact absent record before
  | refuse => cases accepted

theorem shared_of_blank (blank : ∀ cell ∈ t.cells, cell = 0) (probe : Probe) :
    t.shared probe nowMs = none := by
  have zero : t.cell probe.cells.1 = 0 := by
    rw [cell]
    cases held : t.cells[probe.cells.1]? with
    | none => rfl
    | some cell => exact blank cell (List.mem_of_getElem? held)
  rw [shared, if_neg]
  rw [zero]
  exact fun expired => absurd expired.1 (Nat.not_lt_zero nowMs)

/-- With a blank sketch a key is charged its own record. -/
theorem peek_of_blank (valid : t.Valid size nowMs) (blank : ∀ cell ∈ t.cells, cell = 0)
    {charge : Charge} : t.peek hash nowMs = some charge ↔
      ∃ record, t.OwnRecord size hash nowMs record ∧ charge = { debt := record.debt, shared := false } := by
  simp only [ownRecord_iff valid.sized]
  rw [peek]
  rcases probe_cases valid.sized hash nowMs with ⟨none, nothing, -⟩ | ⟨probed, buckets, cells⟩
  · simp [none, nothing]
  · have own := @own_entry_iff t nowMs hash valid.single
    have mine : (Probe.new hash size.buckets size.cells).account = accountOf size hash := rfl
    rw [buckets, cells, mine] at own
    simp only [probed, shared_of_blank blank, ← own]
    cases ((t.own (Probe.new hash size.buckets size.cells) nowMs).bind
        fun place => t.buckets.entry place.1 place.2) with
    | none => simp
    | some record => simp [eq_comm]

end Recovery

/-!
### Nothing is ever marked
-/

section Plain

variable {K S : Type} [KeyState S] {config : StoreConfig K} {quotaOf : K → Quota}
  {i : Fin config.shardCount} {now : ℕ} {map map' : ShardMap K S} {handed : List (Handover K)}

/-- A blank sketch, and no mark on any record or slot. -/
structure Plain (map : ShardMap K S) : Prop where
  table : map.recovery.Holds (fun record => record.isInherited = false) fun cell => cell = 0
  slots : ∀ slot ∈ map.slots, slot.seeded = false

omit [KeyState S] in
theorem Plain.new : Plain (.new : ShardMap K S) :=
  { table := Recovery.new_holds, slots := fun _ member => absurd member List.not_mem_nil }

/-- An unmarked debt leaves no mark in the table. -/
theorem accepts_unmarked (debt : Debt) :
    Recovery.Accepts (fun record => record.isInherited = false) debt false where
  new _ := Record.isInherited_mark (Recovery.untilMs_lt _) false
  merged record plain := by
    rw [Recovery.mergedRecord, Record.isInherited_merge _ (Recovery.untilMs_lt _), plain]
    rfl

/-- Under `forget` nothing but an unmarked debt is ever written. -/
theorem TableStep.plain {t t' : Recovery} (forget : config.table.forget = true)
    (step : TableStep config now t handed t') (unmarked : ∀ handover ∈ handed, handover.seeded = false)
    (plain : t.Holds (fun record => record.isInherited = false) fun cell => cell = 0) :
    t'.Holds (fun record => record.isInherited = false) fun cell => cell = 0 := by
  refine @TableStep.holds _ _ _ _ _ _ _ (fun cell => cell = 0) step rfl rfl ?_ ?_ plain
  · intro handover member
    rw [unmarked handover member]
    exact accepts_unmarked handover.debt
  · intro keep
    rw [forget] at keep
    cases keep

theorem RoomStep.plain (forget : config.table.forget = true)
    (step : RoomStep now (millis now) config.table map handed map') (plain : Plain map) : Plain map' where
  table := by
    apply step.table.plain forget _ plain.table
    rcases step.hands_over with ⟨rfl, -⟩ | ⟨slot, there, debt, recorded, -, rfl, -⟩
    · exact fun _ member => absurd member List.not_mem_nil
    · intro handover member
      obtain rfl := List.mem_singleton.1 member
      exact plain.slots slot there
  slots := by
    intro slot member
    obtain ⟨old, there, -, -, same⟩ := step.from_old member
    rw [← same]
    exact plain.slots old there

theorem RoomRun.plain (forget : config.table.forget = true)
    (run : RoomRun now (millis now) config.table map handed map') (plain : Plain map) : Plain map' :=
  run.invariant Plain (fun step => step.plain forget) plain

/-- A check of a stored key changes no slot's mark. -/
theorem acquireStored_from_old [DecidableEq K] {key : K} {n : ℕ} {found : Slot K S}
    (member : found ∈ (map.acquireStored config key n now).2.slots) :
    ∃ old ∈ map.slots, old.key = found.key ∧ old.seeded = found.seeded := by
  rw [ShardMap.acquireStored] at member
  split at member
  · exact ⟨found, member, rfl, rfl⟩
  · split at member
    · exact ⟨found, member, rfl, rfl⟩
    · rename_i slot held
      rcases ShardMap.mem_setSlot member with rfl | there
      · refine ⟨slot, List.mem_of_getElem? held, ?_⟩
        unfold Slot.touchIdle
        split
        · split <;> exact ⟨rfl, rfl⟩
        · exact ⟨rfl, rfl⟩
      · exact ⟨found, there, rfl, rfl⟩

/-- A key stored under `forget` is stored without a mark. -/
theorem ShardStep.plain [DecidableEq K] (forget : config.table.forget = true)
    (step : ShardStep config quotaOf i now map handed map')
    (valid : map.recovery.Valid config.table (millis now)) (plain : Plain map) : Plain map' := by
  have quiet : handed = [] → (∀ slot ∈ map'.slots, slot.seeded = false) → Plain map' := by
    rintro rfl slots
    exact ⟨step.table.plain forget (fun _ member => absurd member List.not_mem_nil) plain.table, slots⟩
  have set {pos : ℕ} {slot : Slot K S} (state : S) (held : map.slots[pos]? = some slot) :
      ∀ found ∈ (map.setSlot pos { slot with state }).slots, found.seeded = false :=
    ShardMap.forall_setSlot plain.slots (plain.slots slot (List.mem_of_getElem? held))
  cases step with
  | acquire found =>
      apply quiet rfl
      intro slot member
      obtain ⟨old, there, -, same⟩ := acquireStored_from_old member
      rw [← same]
      exact plain.slots old there
  | room step => exact step.plain forget plain
  | @store key n state home absent room made =>
      apply quiet rfl
      intro found member
      rcases List.mem_append.1 member with there | new
      · exact plain.slots found there
      · obtain rfl := List.mem_singleton.1 new
        show Option.any _ (map.recovery.take (config.hasher key) (millis now)).1 = false
        rw [Recovery.take_fst]
        cases charged : map.recovery.peek (config.hasher key) (millis now) with
        | none => rfl
        | some charge =>
            obtain ⟨record, -, rfl⟩ := (Recovery.peek_of_blank valid plain.table.cells).1 charged
            rfl
  | read held => exact quiet rfl (set _ held)
  | reset held => exact quiet rfl (set _ held)
  | forget hash => exact quiet rfl plain.slots
  | remove held => exact quiet rfl (ShardMap.forall_removeAt plain.slots held)
  | release spent => exact quiet rfl plain.slots
  | clear => exact Plain.new
  | shrink => exact quiet rfl plain.slots

/-- Where no slot carries a mark, room can always be made. -/
theorem makeRoom_ok_of_plain (forget : config.table.forget = true) (plain : Plain map) (now : ℕ) :
    (map.makeRoom config now (millis now)).1 = .ok () := by
  cases result : (map.makeRoom config now (millis now)).1 with
  | ok => rfl
  | error due =>
      exfalso
      obtain ⟨handed, run⟩ := swept_roomRun config map now
      have unmarked := (run.plain forget plain).slots
      obtain ⟨full, -, stuck⟩ := makeRoom_error_passes ⟨due, result⟩
      generalize (map.swept config now).1 = swept at full stuck unmarked
      have occupied : 0 < swept.slots.length := lt_of_lt_of_le config.cap_pos full
      have first : (if swept.slots.length ≤ swept.hand then 0 else swept.hand) % swept.slots.length ∈
          swept.clockWindow := by
        refine List.mem_map.2 ⟨0, List.mem_range.2 (lt_min (by decide) occupied), ?_⟩
        rw [Nat.add_zero]
      have inside := Nat.mod_lt (if swept.slots.length ≤ swept.hand then 0 else swept.hand) occupied
      have marked := (stuck _ first _ (List.getElem?_eq_getElem inside)).seeded
      rw [passedOver_seeded, unmarked _ (List.getElem_mem inside)] at marked
      cases marked

end Plain

/-!
### The debts behind a record
-/

section Tally

variable {K : Type} {config : StoreConfig K} {size : TableSize} {now hash : ℕ} {t t' : Recovery}
  {handed : List (Handover K)} {records : List (ℕ × Handover K)}

/-- A deadline as a record keeps it: in milliseconds, rounded up, clear of the mark's bit. -/
def recordedMs (debt : Debt) : ℕ := min (ceilMillis debt.until) (inheritedBit - 1)

/-- One more debt handed over: it joins the account's live record, or starts one. -/
def mergeDebt (size : TableSize) (hash : ℕ) (debts : List Debt) (record : ℕ × Handover K) : List Debt :=
  if SameDebtor size record.2.hash hash then
    (if record.2.before.owns record.2.hash (millis record.1) then debts else []) ++
      [record.2.debt]
  else debts

/-- The debts merged into the account's record since it was last created. -/
def mergedDebts (size : TableSize) (hash : ℕ) (records : List (ℕ × Handover K)) : List Debt :=
  records.foldl (mergeDebt size hash) []

/-- Every live record is the largest count and the latest deadline of the debts merged into it. -/
def Tallied (size : TableSize) (nowMs : ℕ) (records : List (ℕ × Handover K)) (t : Recovery) : Prop :=
  ∀ hash record, (accountOf size hash, record) ∈ t.ledger nowMs →
    ((mergedDebts size hash records).map Debt.spent).max? = some record.spent ∧
      ((mergedDebts size hash records).map recordedMs).max? = some record.until

theorem max?_snoc {values : List ℕ} {largest : ℕ} (found : values.max? = some largest) (value : ℕ) :
    (values ++ [value]).max? = some (max largest value) := by
  cases values with
  | nil => cases found
  | cons first rest =>
      rw [List.max?_cons'] at found
      rw [List.cons_append, List.max?_cons', List.foldl_append, Option.some.inj found]
      rfl

theorem sameDebtor_iff {hash' : ℕ} :
    SameDebtor size hash hash' ↔ accountOf size hash = accountOf size hash' := by
  refine ⟨?_, sameDebtor_of_accountOf_eq⟩
  rintro ⟨tag, ⟨first, second⟩ | ⟨first, second⟩⟩
  · rw [accountOf, accountOf, Probe.account, Probe.account, tag, first, second]
  · rw [accountOf, accountOf, Probe.account, Probe.account, tag, first, second, min_comm]

theorem newRecord_spent (probe : Probe) (debt : Debt) (inherited : Bool) :
    (Recovery.newRecord probe debt inherited).spent = debt.spent := rfl

theorem mergedDebts_snoc (size : TableSize) (hash : ℕ) (records : List (ℕ × Handover K))
    (record : ℕ × Handover K) :
    mergedDebts size hash (records ++ [record]) = mergeDebt size hash (mergedDebts size hash records) record := by
  rw [mergedDebts, List.foldl_append]
  rfl

theorem Tallied.anti {nowMs nowMs' : ℕ} (tallied : Tallied size nowMs records t)
    (fewer : t'.ledger nowMs' ≤ t.ledger nowMs) : Tallied size nowMs' records t' :=
  fun hash record member => tallied hash record (Multiset.mem_of_le fewer member)

theorem Recovery.forget_ledger_le (t : Recovery) (hash nowMs : ℕ) :
    (t.forget hash nowMs).2.ledger nowMs ≤ t.ledger nowMs := by
  obtain ⟨-, same | ⟨-, record, removed⟩⟩ := t.forget_ledger hash nowMs
  · rw [same]
  · rw [← removed]
    exact Multiset.le_add_left _ _

theorem Recovery.take_ledger_le (t : Recovery) (hash nowMs : ℕ) :
    (t.take hash nowMs).2.ledger nowMs ≤ t.ledger nowMs := by
  rcases t.take_snd hash nowMs with same | cleared
  · rw [same]
  · rw [cleared]
    exact t.forget_ledger_le hash nowMs

theorem TableStep.tallied (step : TableStep config now t handed t')
    (valid : t.Valid config.table (millis now)) (tallied : Tallied config.table (millis now) records t) :
    Tallied config.table (millis now) (records ++ handed.map (now, ·)) t' := by
  cases step with
  | same =>
      rw [List.map_nil, List.append_nil]
      exact tallied
  | take hash =>
      rw [List.map_nil, List.append_nil]
      exact tallied.anti (t.take_ledger_le hash _)
  | forget hash =>
      rw [List.map_nil, List.append_nil]
      exact tallied.anti (t.forget_ledger_le hash _)
  | release => exact fun _ _ member => absurd member (Multiset.notMem_zero _)
  | record handover before accepted =>
      subst before
      intro hash record member
      rw [List.map_singleton, mergedDebts_snoc, mergeDebt]
      rcases Recovery.mem_ledger_record valid accepted member with ⟨other, there⟩ | ⟨same, merged⟩
      · rw [if_neg fun debtor => other (sameDebtor_iff.1 debtor).symm]
        exact tallied hash record there
      · rw [if_pos (sameDebtor_iff.2 same.symm)]
        dsimp only
        rcases merged with ⟨old, there, rfl⟩ | ⟨absent, rfl⟩
        · obtain ⟨spent, deadline⟩ := tallied hash old there
          rw [same] at there
          rw [if_pos ((Recovery.owns_iff_of_sized valid.sized).2 ⟨old, there⟩), List.map_append,
            List.map_append, Recovery.mergedRecord_until]
          exact ⟨max?_snoc spent _, max?_snoc deadline _⟩
        · rw [same] at absent
          have forgotten : ¬ handover.before.owns handover.hash (millis now) = true := by
            rw [Recovery.owns_iff_of_sized valid.sized]
            exact fun ⟨old, there⟩ => absent old there
          have deadline := Recovery.newRecord_until (Probe.new handover.hash config.table.buckets
            config.table.cells) handover.debt handover.seeded
          rw [if_neg forgotten, List.nil_append, List.map_singleton, List.map_singleton,
            List.max?_singleton, List.max?_singleton, deadline, recordedMs]
          exact ⟨congrArg some (newRecord_spent _ _ _).symm, rfl⟩

end Tally

/-!
### Runs
-/

section Runs

variable {K S : Type} [DecidableEq K] [KeyState S] {config : StoreConfig K} {quotaOf : K → Quota}

/-- A check is not refused where room can be made; a key it stores is charged what the table then shows. -/
theorem check_of_room {store : Store config S} {key : K} {n now : ℕ}
    (consistent : Consistent config (config.shardFor key) (store (config.shardFor key)))
    (room : ((store (config.shardFor key)).makeRoom config now (millis now)).1 = .ok ()) :
    (store.check key n now (KeyState.create (quotaOf key))).1.refused = false ∧
      (store.tracks key = false → (KeyState.create (quotaOf key) now : Option S).isSome = true →
        (store.check key n now (KeyState.create (quotaOf key))).1.inserted =
          some (((store (config.shardFor key)).makeRoom config now (millis now)).2.1.recovery.take
            (config.hasher key) (millis now)).1.isSome) := by
  have stored := @tracks_iff K S config _ _ store key n now consistent
  obtain ⟨map', -, effect⟩ := check_effect store key n now (KeyState.create (quotaOf key))
  generalize (store.check key n now (KeyState.create (quotaOf key))).1 = outcome at effect ⊢
  cases effect with
  | found held =>
      refine ⟨rfl, ?_⟩
      intro untracked
      rw [stored.2 (by simp [held])] at untracked
      cases untracked
  | closed missed unmade =>
      refine ⟨rfl, ?_⟩
      intro _ created
      rw [unmade] at created
      cases created
  | refused missed made full =>
      rw [full] at room
      cases room
  | stored missed made _ => exact ⟨rfl, fun _ _ => rfl⟩

variable [LawfulKeyState S]

/-- What a shard keeps between calls under `forget`. -/
structure ForgetKept (config : StoreConfig K) (quotaOf : K → Quota) (now : ℕ)
    (records : List (ℕ × Handover K)) (map : ShardMap K S) : Prop where
  states : StatesKept quotaOf map
  valid : map.recovery.Valid config.table (millis now)
  plain : Plain map
  tallied : Tallied config.table (millis now) records map.recovery

theorem ShardStep.forgetKept {i : Fin config.shardCount} {now : ℕ} {map map' : ShardMap K S}
    {handed : List (Handover K)} {records : List (ℕ × Handover K)} (forget : config.table.forget = true)
    (step : ShardStep config quotaOf i now map handed map') (consistent : Consistent config i map)
    (kept : ForgetKept config quotaOf now records map) :
    ForgetKept config quotaOf now (records ++ handed.map (now, ·)) map' where
  states := step.statesKept consistent kept.states
  valid := step.table.valid kept.valid
  plain := step.plain forget kept.valid kept.plain
  tallied := step.table.tallied kept.valid kept.tallied

theorem run_forgetKept {algorithm : Algorithm} {calls : List (Call K)} {now : ℕ}
    (forget : config.table.forget = true) (order : InOrder calls) (last : ∀ call ∈ calls, call.now ≤ now) :
    ∀ i, Consistent config i (Store.run algorithm quotaOf (.new : Store config S) calls i) ∧
      ForgetKept config quotaOf now (Store.handedOver algorithm quotaOf i (.new : Store config S) calls)
        (Store.run algorithm quotaOf (.new : Store config S) calls i) := by
  apply run_records (fun _ t records (map : ShardMap K S) => ForgetKept config quotaOf t records map)
    _ _ _ order last
  · exact fun _ _ => ⟨fun slot member => absurd member List.not_mem_nil, Recovery.new_valid, Plain.new,
      fun _ _ member => absurd member (Multiset.notMem_zero _)⟩
  · intro i t t' records map later kept
    exact ⟨kept.states, kept.valid.later (millis_mono later), kept.plain,
      kept.tallied.anti (map.recovery.ledger_le_of_le (millis_mono later))⟩
  · exact fun step consistent kept => step.forgetKept forget consistent kept

/-- The table as it stands once room has been made for a newcomer. -/
theorem RoomRun.forgetKept {now : ℕ} {map map' : ShardMap K S} {handed : List (Handover K)}
    {records : List (ℕ × Handover K)} {i : Fin config.shardCount} (forget : config.table.forget = true)
    (run : RoomRun now (millis now) config.table map handed map') (consistent : Consistent config i map)
    (kept : ForgetKept config quotaOf now records map) :
    ForgetKept config quotaOf now (records ++ handed.map (now, ·)) map' := by
  have both := @Runs.Labelled.invariant _ _ _ _ _ _ (fun labels map => Consistent config i map ∧
    ForgetKept config quotaOf now (records ++ labels.map (now, ·)) map) ?_ (run.shardRun i quotaOf) [] ?_
  · exact both.2
  · rintro labels handed map map' step ⟨consistent, kept⟩
    refine ⟨step.consistent consistent, ?_⟩
    rw [List.map_append, ← List.append_assoc]
    exact step.forgetKept forget consistent kept
  · rw [List.map_nil, List.append_nil]
    exact ⟨consistent, kept⟩

end Runs

/-- `Overflow::Forget` never affects a key that owed nothing. -/
theorem forget_charges_own_debts_only {K S : Type} [DecidableEq K] [KeyState S] [LawfulKeyState S]
    (config : StoreConfig K) (forget : config.table.forget = true) (algorithm : Algorithm)
    (quotaOf : K → Quota) (calls : List (Call K)) (order : InOrder calls) :
    let store : Store config S := Store.run algorithm quotaOf .new calls
    (∀ i, Plain (store i)) ∧
    ∀ now, (∀ call ∈ calls, call.now ≤ now) →
      (∀ i, ((store i).makeRoom config now (millis now)).1 = .ok ()) ∧
      ∀ key n,
        let check := (store.check key n now (KeyState.create (quotaOf key))).1
        let room := (store (config.shardFor key)).makeRoom config now (millis now)
        let table := room.2.1.recovery
        let charge := (table.take (config.hasher key) (millis now)).1
        let debts := mergedDebts config.table (config.hasher key)
          (Store.handedOver algorithm quotaOf (config.shardFor key) (.new : Store config S) calls ++
            room.2.2.handed.map (now, ·))
        check.refused = false ∧
        (store.tracks key = false → (KeyState.create (quotaOf key) now : Option S).isSome = true →
          check.inserted = some charge.isSome) ∧
        (charge.isSome = true ↔
          ∃ record, table.OwnRecord config.table (config.hasher key) (millis now) record) ∧
        ∀ c ∈ charge, c.shared = false ∧ (debts.map Debt.spent).max? = some c.debt.spent ∧
          ((debts.map recordedMs).max?).map fromMillis = some c.debt.until := by
  intro store
  constructor
  · intro i
    have last : ∀ call ∈ calls, call.now ≤ (calls.map Call.now).sum := fun call member =>
      List.le_sum_of_mem (List.mem_map_of_mem member)
    exact (run_forgetKept forget order last i).2.plain
  · intro now last
    have reached := @run_forgetKept K S _ _ config quotaOf _ algorithm calls now forget order last
    have roomy : ∀ i, ((store i).makeRoom config now (millis now)).1 = .ok () := fun i =>
      makeRoom_ok_of_plain forget (reached i).2.plain now
    refine ⟨roomy, ?_⟩
    intro key n check room table charge debts
    obtain ⟨consistent, kept⟩ := reached (config.shardFor key)
    obtain ⟨refused, inserted⟩ := check_of_room consistent (roomy (config.shardFor key))
    obtain ⟨⟨handed, run, lists⟩, -⟩ :=
      makeRoom_madeBy config (store (config.shardFor key)) now (millis now)
    have after := run.forgetKept forget consistent kept
    have listed : room.2.2.handed = handed := lists
    rw [← listed] at after
    have charged := @Recovery.peek_of_blank table config.table (millis now) (config.hasher key) after.valid
      after.plain.table.cells
    have taken : charge = table.peek (config.hasher key) (millis now) := Recovery.take_fst _ _ _
    refine ⟨refused, inserted, ?_, ?_⟩
    · rw [taken, Option.isSome_iff_exists]
      constructor
      · rintro ⟨c, found⟩
        obtain ⟨record, own, -⟩ := charged.1 found
        exact ⟨record, own⟩
      · rintro ⟨record, own⟩
        exact ⟨_, charged.2 ⟨record, own, rfl⟩⟩
    · intro c found
      rw [taken] at found
      obtain ⟨record, own, rfl⟩ := charged.1 found
      have member := (Recovery.ownRecord_iff after.valid.sized).1 own
      obtain ⟨spent, deadline⟩ := after.tallied _ record member
      refine ⟨rfl, spent, ?_⟩
      rw [deadline]
      rfl

/-- Room for one key: key 1 spends its unit, is evicted by key 2 and comes back within the second.  It is
    stored, charged what it owed, and nothing is marked. -/
theorem forget_charges_own_debts_only_to_a_returning_key :
    let eviction : Eviction := { maxKeys := some 1, idleTtl := none, overflow := .forget }
    let config : StoreConfig ℕ := StoreConfig.new id 1 eviction 0
    let quotaOf : ℕ → Quota := fun _ => Quota.perSecond 1 (by decide)
    let store : Store config Gcra :=
      Store.run .leakyBucket quotaOf .new [⟨.check 1 1, 0⟩, ⟨.check 2 1, 0⟩]
    (∀ i, Plain (store i)) ∧
      (store.check 1 1 1000 (KeyState.create (quotaOf 1))).1.refused = false ∧
      (store.check 1 1 1000 (KeyState.create (quotaOf 1))).1.inserted = some true := by
  intro eviction config quotaOf
  obtain ⟨plain, later⟩ := forget_charges_own_debts_only (S := Gcra) config rfl .leakyBucket quotaOf
    [⟨.check 1 1, 0⟩, ⟨.check 2 1, 0⟩] (by decide)
  obtain ⟨-, checks⟩ := later 1000 (by decide)
  obtain ⟨accepted, -⟩ := checks 1 1
  exact ⟨plain, accepted, by decide +kernel⟩

end RateNet
