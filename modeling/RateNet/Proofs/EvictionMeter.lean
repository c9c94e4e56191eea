/-
Module: RateNet.Proofs.EvictionMeter
Purpose: Why evicting a key does not hand it a fresh allowance, for any algorithm. A meter says what an
  algorithm owes an account of admitted units: the value that backs a key's history, which states are
  tight for it, when it is void, and which obligation carries it while the key is away. A shard is
  metered when every stored state is tight for a value that backs its key's history, with a recovery
  hint that never comes before that value is void, and every absent key's value is void or covered by
  the recovery table. Room-making, storing a newcomer and checking a stored key keep a shard metered.
Trusted boundary: none
Main exports: Event, Meter, ShardMetered, ShardMetered.acquireStored, ShardMetered.checkWrite,
  check_metered
-/
import RateNet.Proofs.ShardInvariant

namespace RateNet

/-- One answered check of a key. -/
structure Event where
  n : ℕ
  now : ℕ
  decision : Decision

/-- What an algorithm owes an account of a key's checks, at instants of the shard's own clock: the
    readings of the checks that stored or evicted a key in the shard. -/
structure Meter (S : Type) [KeyState S] (quota : Quota) where
  Value : Type
  /-- The value accounts for everything admitted in the history. -/
  Backs : List Event → Value → Prop
  /-- The state admits no more than the value leaves. -/
  Tight : ℕ → Value → S → Prop
  /-- A fresh state admits no more than the value leaves. -/
  Void : Value → ℕ → Prop
  /-- The obligation that carries the value. -/
  spent : Value → ℕ
  dueMs : Value → ℕ
  /-- The state's deadlines do not saturate. -/
  Sound : ℕ → S → Prop
  /-- The checks of a stored key that are accounted for. -/
  Ok : ℕ → ℕ → ℕ → Prop
  /-- The checks of an absent key that are accounted for. -/
  OkNew : List Event → ℕ → ℕ → Prop
  start : ∃ v, Backs [] v ∧ ∀ t, Void v t
  void_later : ∀ {v t t'}, t ≤ t' → Void v t → Void v t'
  tight_later : ∀ {v} {s : S} {t t'}, t ≤ t' → Tight t v s → Tight t' v s
  sound_later : ∀ {s : S} {t t'}, t ≤ t' → Sound t s → Sound t' s
  void_of_due : ∀ {v t}, dueMs v ≤ untilMax → dueMs v ≤ millis t → Void v t
  isFull_snd : ∀ (s : S) t, (KeyState.isFull s t).2 = s
  recoversAt_eq : ∀ (s : S) t, KeyState.recoversAt s t = ((KeyState.debt s t).1.map Debt.until, s)
  whole : ∀ {v} {s : S} {t}, Tight t v s → (KeyState.debt s t).1 = none → Void v t
  owes : ∀ {v} {s : S} {t d}, Tight t v s → Sound t s → (KeyState.debt s t).1 = some d →
    Void v t ∨ spent v ≤ u32Max ∧ dueMs v ≤ untilMax ∧ spent v ≤ d.spent ∧ dueMs v ≤ ceilMillis d.until
  full : ∀ {v} {s : S} {t t'}, Tight t v s → t ≤ t' → (KeyState.isFull s t').1 = true → Void v t'
  acquire : ∀ {h v} {s : S} {t n now}, Backs h v → Tight t v s → Ok t n now →
    ∃ v', Backs (h ++ [⟨n, now, (KeyState.acquire s n now).1⟩]) v' ∧
      Tight t v' (KeyState.acquire s n now).2
  /-- A newcomer is charged what the table holds for it, or owes nothing. -/
  stored : ∀ {h v} {s : S} {t n} (charge : Option Debt), KeyState.create quota t = some s → OkNew h t n →
    Backs h v → (charge = none → Void v t) →
    (∀ d, charge = some d → Void v t ∨ dueMs v ≤ untilMax ∧ millis t < dueMs v ∧ spent v ≤ d.spent ∧
      fromMillis (dueMs v) ≤ d.until) →
    ∃ v', Backs (h ++ [⟨n, t, (KeyState.acquire (charge.elim s (KeyState.restore s · t)) n t).1⟩]) v' ∧
      Tight t v' (KeyState.acquire (charge.elim s (KeyState.restore s · t)) n t).2 ∧
      (charge = none →
        n = 0 ∨ (KeyState.acquire (charge.elim s (KeyState.restore s · t)) n t).1.isDeny = true →
          Void v' t)
  /-- A newcomer turned away leaves its account as it was, or void. -/
  refused : ∀ {h v t n wait}, OkNew h t n → Backs h v →
    ∃ v', Backs (h ++ [⟨n, t, .deny wait⟩]) v' ∧ (v' = v ∨ Void v' t)

section Metering

variable {K S : Type} [KeyState S] {quota : Quota} (meter : Meter S quota) {config : StoreConfig K}

/-- The hint is unusable, or never says a key has recovered before its value is void. -/
def HintOk (t : ℕ) (v : meter.Value) (slot : Slot K S) : Prop :=
  slot.recoversAtMs = unknown ∨ slot.referenced = true ∨
    ∀ t', t ≤ t' → slot.recoversAtMs ≤ millis t' → meter.Void v t'

/-- The recovery table covers the obligation of the value. -/
def Remembered (size : TableSize) (t hash : ℕ) (v : meter.Value) (recovery : Recovery) : Prop :=
  ∃ owed : Obligation, owed.account = accountOf size hash ∧ owed.spent = meter.spent v ∧
    owed.untilMs = meter.dueMs v ∧ millis t < owed.untilMs ∧ recovery.Covers size (millis t) owed

/-- What a slot must show of its key's history. -/
def SlotMetered (t : ℕ) (history : K → List Event) (slot : Slot K S) : Prop :=
  meter.Sound t slot.state ∧
    ∃ v, meter.Backs (history slot.key) v ∧ meter.Tight t v slot.state ∧ HintOk meter t v slot

/-- What the table must show of an absent key's history. -/
def AwayMetered (config : StoreConfig K) (t : ℕ) (history : K → List Event) (recovery : Recovery)
    (key : K) : Prop :=
  ∃ v, meter.Backs (history key) v ∧
    (meter.Void v t ∨ Remembered meter config.table t (config.hasher key) v recovery)

/-- Shard `i` accounts, at the instant `t` of its clock, for the histories of the keys in `keys`. -/
structure ShardMetered (keys : K → Prop) (i : Fin config.shardCount) (t : ℕ) (history : K → List Event)
    (map : ShardMap K S) : Prop where
  consistent : Consistent config i map
  valid : map.recovery.Valid config.table (millis t)
  stored : ∀ slot ∈ map.slots, SlotMetered meter t history slot
  away : ∀ key, keys key → config.shardFor key = i → (∀ slot ∈ map.slots, slot.key ≠ key) →
    AwayMetered meter config t history map.recovery key

variable {meter} {keys : K → Prop} {i : Fin config.shardCount} {t t' : ℕ} {history : K → List Event}
  {map map' : ShardMap K S} {slot : Slot K S}

/-!
### Time
-/

theorem HintOk.later {v : meter.Value} (ok : HintOk meter t v slot) (h : t ≤ t') :
    HintOk meter t' v slot := by
  apply ok.imp_right
  apply Or.imp_right
  intro valid later after
  exact valid later (h.trans after)

/-- A remembered value is still remembered, or has become void. -/
theorem Remembered.later {size : TableSize} {hash : ℕ} {v : meter.Value} {recovery : Recovery}
    (remembered : Remembered meter size t hash v recovery) (t' : ℕ) :
    meter.Void v t' ∨ Remembered meter size t' hash v recovery := by
  obtain ⟨owed, account, spent, deadline, due, covered⟩ := remembered
  rcases Nat.lt_or_ge (millis t') owed.untilMs with due' | past
  · right
    exact ⟨owed, account, spent, deadline, due', covered.later due'⟩
  · left
    rw [deadline] at past
    apply meter.void_of_due _ past
    rw [← deadline]
    exact owed.until_le

theorem ShardMetered.later (metered : ShardMetered meter keys i t history map) (h : t ≤ t') :
    ShardMetered meter keys i t' history map where
  consistent := metered.consistent
  valid := metered.valid.later (millis_mono h)
  stored := by
    intro slot member
    obtain ⟨sound, v, backs, tight, hint⟩ := metered.stored slot member
    exact ⟨meter.sound_later h sound, v, backs, meter.tight_later h tight, hint.later h⟩
  away := by
    intro key tracked home absent
    obtain ⟨v, backs, gone | remembered⟩ := metered.away key tracked home absent
    · exact ⟨v, backs, Or.inl (meter.void_later h gone)⟩
    · exact ⟨v, backs, remembered.later t'⟩

/-!
### Room-making
-/

/-- The hint of a state is its debt's deadline, and zero for one that owes nothing. -/
theorem Meter.recoversAt_fst (meter : Meter S quota) (s : S) (t : ℕ) :
    (recoversAt s t).1 = (KeyState.debt s t).1.elim 0 fun d => ceilMillis d.until := by
  rw [recoversAt, meter.recoversAt_eq]
  cases (KeyState.debt s t).1 with
  | none => rfl
  | some d => rfl

theorem Meter.recoversAt_snd (meter : Meter S quota) (s : S) (t : ℕ) : (recoversAt s t).2 = s := by
  rw [recoversAt, meter.recoversAt_eq]

/-- A hint computed from a tight state comes no earlier than its value is void. -/
theorem Meter.hint_sound {v : meter.Value} {s : S} (tight : meter.Tight t v s) (sound : meter.Sound t s)
    (h : t ≤ t') (passed : (recoversAt s t).1 ≤ millis t') : meter.Void v t' := by
  rw [meter.recoversAt_fst] at passed
  cases howed : (KeyState.debt s t).1 with
  | none => exact meter.void_later h (meter.whole tight howed)
  | some d =>
      rw [howed, Option.elim_some] at passed
      rcases meter.owes tight sound howed with gone | ⟨-, fits, -, deadline⟩
      · exact meter.void_later h gone
      · exact meter.void_of_due fits (deadline.trans passed)

/-- Reading a slot's hint keeps the slot metered, and a hint that has passed says the truth. -/
theorem SlotMetered.refresh (metered : SlotMetered meter t history slot) :
    SlotMetered meter t history (slot.recoversAt t (millis t)).2 ∧
      ((slot.recoversAt t (millis t)).1 ≤ millis t →
        ∃ v, meter.Backs (history slot.key) v ∧ meter.Void v t) := by
  obtain ⟨sound, v, backs, tight, hint⟩ := metered
  unfold Slot.recoversAt
  split
  · have state := meter.recoversAt_snd slot.state t
    dsimp only
    rw [state]
    refine ⟨⟨sound, v, backs, tight, Or.inr (Or.inr ?_)⟩, ?_⟩
    · exact fun t' h passed => meter.hint_sound tight sound h passed
    · exact fun passed => ⟨v, backs, meter.hint_sound tight sound le_rfl passed⟩
  · rename_i usable
    rw [not_or] at usable
    have valid : ∀ t', t ≤ t' → slot.recoversAtMs ≤ millis t' → meter.Void v t' :=
      (hint.resolve_left usable.1).resolve_left usable.2
    split
    · have state := meter.isFull_snd slot.state t
      cases hfull : KeyState.isFull slot.state t with
      | mk full state' =>
          rw [hfull] at state
          obtain rfl : state' = slot.state := state
          cases full with
          | true =>
              have gone := meter.full tight le_rfl (congrArg Prod.fst hfull)
              refine ⟨⟨sound, v, backs, tight, Or.inr (Or.inr ?_)⟩, fun _ => ⟨v, backs, gone⟩⟩
              exact fun t' h _ => meter.void_later h gone
          | false =>
              exact ⟨⟨sound, v, backs, tight, hint⟩, fun passed => ⟨v, backs, valid t le_rfl passed⟩⟩
    · exact ⟨⟨sound, v, backs, tight, hint⟩, fun passed => ⟨v, backs, valid t le_rfl passed⟩⟩

/-- A slot changed in place, with its key's history, if the new slot accounts for it. -/
theorem ShardMetered.replace {pos : ℕ} {slot' : Slot K S} {history' : K → List Event}
    (metered : ShardMetered meter keys i t history map) (held : map.slots[pos]? = some slot)
    (hash : slot'.hash = slot.hash) (key : slot'.key = slot.key)
    (still : SlotMetered meter t history' slot')
    (same : ∀ other, other ≠ slot.key → history' other = history other) :
    ShardMetered meter keys i t history' (map.setSlot pos slot') where
  consistent := metered.consistent.setSlot held hash key
  valid := metered.valid
  stored := by
    intro found member
    obtain ⟨pos', held'⟩ := List.getElem?_of_mem member
    have inside := (List.getElem?_eq_some_iff.1 held).1
    by_cases here : pos = pos'
    · subst here
      obtain rfl : slot' = found := Option.some.inj ((List.getElem?_set_self inside).symm.trans held')
      exact still
    · have old : map.slots[pos']? = some found := (List.getElem?_set_ne here).symm.trans held'
      have other : found.key ≠ slot.key := fun alike =>
        here (metered.consistent.pos_unique held old alike.symm)
      rw [SlotMetered, same found.key other]
      exact metered.stored found (List.mem_of_getElem? old)
  away := by
    intro other tracked home absent
    have inside := (List.getElem?_eq_some_iff.1 held).1
    have there := List.mem_of_getElem? (List.getElem?_set_self (a := slot') inside)
    have different : other ≠ slot.key := fun alike => absent slot' there (key.trans alike.symm)
    rw [AwayMetered, same other different]
    apply metered.away other tracked home
    intro found member alike
    obtain ⟨pos', held'⟩ := List.getElem?_of_mem member
    by_cases here : pos = pos'
    · subst here
      obtain rfl : found = slot := Option.some.inj (held'.symm.trans held)
      exact different alike.symm
    · exact absent found (List.mem_of_getElem? ((List.getElem?_set_ne here).trans held')) alike

/-- A slot that goes leaves the table to account for its key. -/
theorem ShardMetered.removeAt {pos : ℕ} (metered : ShardMetered meter keys i t history map)
    (held : map.slots[pos]? = some slot) {recovery : Recovery}
    (valid : recovery.Valid config.table (millis t))
    (others : ∀ key, AwayMetered meter config t history map.recovery key →
      AwayMetered meter config t history recovery key)
    (gone : AwayMetered meter config t history recovery slot.key) :
    ShardMetered meter keys i t history { (map.removeAt pos).2 with recovery } where
  consistent := (metered.consistent.removeAt pos).withRecovery recovery
  valid := valid
  stored := fun found member => metered.stored found (ShardMap.mem_removeAt held member)
  away := by
    intro key tracked home absent
    by_cases same : slot.key = key
    · rw [← same]
      exact gone
    · apply others
      apply metered.away key tracked home
      intro found there
      rw [← Multiset.mem_coe, ← DenseIndex.coe_swapRemove held] at there
      rcases Multiset.mem_cons.1 there with rfl | there
      · exact same
      · rw [Multiset.mem_coe, ← ShardMap.removeAt_slots held] at there
        exact absent found there

/-- Recording a debt keeps what is remembered of every key. -/
theorem AwayMetered.record {recovery : Recovery} {key : K} {hash : ℕ} {debt : Debt} {inherited : Bool}
    (keep : config.table.forget = false) (valid : recovery.Valid config.table (millis t))
    (away : AwayMetered meter config t history recovery key) :
    AwayMetered meter config t history
      (recovery.record hash debt (millis t) config.table inherited).2 key := by
  obtain ⟨v, backs, gone | ⟨owed, account, spent, deadline, due, covered⟩⟩ := away
  · exact ⟨v, backs, Or.inl gone⟩
  · refine ⟨v, backs, Or.inr ⟨owed, account, spent, deadline, due, ?_⟩⟩
    exact Recovery.covers_record valid.sized keep due debt inherited covered

/-- A key whose debt has been recorded is remembered. -/
theorem SlotMetered.recorded {debt : Debt} {recovery : Recovery} {recorded : Recorded}
    (metered : SlotMetered meter t history slot) (hash : slot.hash = config.hasher slot.key)
    (keep : config.table.forget = false) (valid : recovery.Valid config.table (millis t))
    (owed : (KeyState.debt slot.state t).1 = some debt)
    (accepted : (recovery.record slot.hash debt (millis t) config.table slot.seeded).1 = some recorded) :
    AwayMetered meter config t history
      (recovery.record slot.hash debt (millis t) config.table slot.seeded).2 slot.key := by
  obtain ⟨sound, v, backs, tight, -⟩ := metered
  refine ⟨v, backs, ?_⟩
  rcases meter.owes tight sound owed with gone | ⟨small, fits, spent, deadline⟩
  · exact Or.inl gone
  · rcases Nat.lt_or_ge (millis t) (meter.dueMs v) with due | past
    · right
      rw [hash] at accepted ⊢
      refine ⟨⟨accountOf config.table (config.hasher slot.key), meter.spent v, meter.dueMs v, small, fits⟩,
        rfl, rfl, rfl, due, ?_⟩
      apply Recovery.covers_recorded valid.sized keep due rfl spent deadline
      rw [accepted]
      exact Option.some_ne_none recorded
    · exact Or.inl (meter.void_of_due fits past)

/-- Every step of room-making keeps a shard metered. -/
theorem RoomStep.metered {handed : List (Handover K)} (keep : config.table.forget = false)
    (step : RoomStep t (millis t) config.table map handed map')
    (metered : ShardMetered meter keys i t history map) :
    ShardMetered meter keys i t history map' := by
  have released : ∀ {pos : ℕ} {slot : Slot K S}, map.slots[pos]? = some slot →
      AwayMetered meter config t history map.recovery slot.key →
      ShardMetered meter keys i t history (map.removeAt pos).2 := by
    intro pos slot held away
    have left := metered.removeAt held metered.valid (fun _ => id) away
    rw [← ShardMap.removeAt_recovery map pos] at left
    exact left
  cases step with
  | @refresh pos slot held =>
      obtain ⟨hash, key, -⟩ := slot.recoversAt_marks t (millis t)
      have member := List.mem_of_getElem? held
      have still := (metered.stored slot member).refresh.1
      exact metered.replace held hash key still fun _ _ => rfl
  | @spare pos slot held =>
      obtain ⟨sound, v, backs, tight, -⟩ := metered.stored slot (List.mem_of_getElem? held)
      exact metered.replace held rfl rfl ⟨sound, v, backs, tight, Or.inl rfl⟩ fun _ _ => rfl
  | cursors hand sweep =>
      exact
        { consistent := metered.consistent.of_same rfl rfl
          valid := metered.valid
          stored := metered.stored
          away := metered.away }
  | release held recovered =>
      obtain ⟨v, backs, gone⟩ := (metered.stored _ (List.mem_of_getElem? held)).refresh.2 recovered
      exact released held ⟨v, backs, Or.inl gone⟩
  | settle held whole =>
      obtain ⟨-, v, backs, tight, -⟩ := metered.stored _ (List.mem_of_getElem? held)
      exact released held ⟨v, backs, Or.inl (meter.whole tight whole)⟩
  | @handOver pos slot debt recorded held owes accepted =>
      have member := List.mem_of_getElem? held
      apply metered.removeAt held
      · exact Recovery.valid_record metered.valid slot.hash debt slot.seeded
      · exact fun key away => away.record keep metered.valid
      · exact (metered.stored slot member).recorded (metered.consistent.hashed slot member) keep
          metered.valid owes accepted

theorem RoomRun.metered {handed : List (Handover K)} (keep : config.table.forget = false)
    (run : RoomRun t (millis t) config.table map handed map')
    (metered : ShardMetered meter keys i t history map) :
    ShardMetered meter keys i t history map' :=
  run.invariant (ShardMetered meter keys i t history) (fun step => step.metered keep) metered

/-!
### Checks
-/

variable [DecidableEq K]

/-- The histories after one more answered check of `key`. -/
def extend (history : K → List Event) (key : K) (event : Event) : K → List Event :=
  Function.update history key (history key ++ [event])

theorem extend_self (history : K → List Event) (key : K) (event : Event) :
    extend history key event key = history key ++ [event] := Function.update_self ..

theorem extend_of_ne {key other : K} (h : other ≠ key) (event : Event) :
    extend history key event other = history other := Function.update_of_ne h ..

/-- Checking a stored key keeps its shard metered. -/
theorem ShardMetered.acquireStored (metered : ShardMetered meter keys i t history map) {key : K}
    {n now : ℕ} {decision : Decision} (ok : meter.Ok t n now)
    (found : (map.acquireStored config key n now).1 = some decision)
    (sound : ∀ slot ∈ (map.acquireStored config key n now).2.slots, meter.Sound t slot.state) :
    ShardMetered meter keys i t (extend history key ⟨n, now, decision⟩)
      (map.acquireStored config key n now).2 := by
  obtain ⟨pos, slot, slot', held, rfl, after, hash, same, referenced, answered, state⟩ :=
    acquireStored_some metered.consistent found
  have inside := (List.getElem?_eq_some_iff.1 held).1
  rw [after] at sound ⊢
  have sound' := sound slot' (List.mem_of_getElem? (List.getElem?_set_self inside))
  obtain ⟨-, v, backs, tight, -⟩ := metered.stored slot (List.mem_of_getElem? held)
  obtain ⟨v', backs', tight'⟩ := meter.acquire backs tight ok
  apply metered.replace held hash same
  · refine ⟨sound', v', ?_, ?_, Or.inr (Or.inl referenced)⟩
    · rw [same, extend_self, answered]
      exact backs'
    · rw [state]
      exact tight'
  · exact fun other different => extend_of_ne different _

/-- The hint of a newcomer. -/
theorem firstHint_ok {v : meter.Value} {s : S} {fresh : Bool} {n : ℕ} {outcome : Decision}
    (tight : meter.Tight t v s) (sound : meter.Sound t s)
    (quiet : fresh = true → n = 0 ∨ outcome.isDeny = true → meter.Void v t) :
    ((firstHint s fresh n outcome t (millis t)).1 = unknown ∨
      ∀ t', t ≤ t' → (firstHint s fresh n outcome t (millis t)).1 ≤ millis t' → meter.Void v t') := by
  unfold firstHint
  split
  · rename_i spentNothing
    rw [Bool.and_eq_true, Bool.or_eq_true, beq_iff_eq] at spentNothing
    right
    exact fun t' h _ => meter.void_later h (quiet spentNothing.1 spentNothing.2)
  · dsimp only
    split
    · have same := meter.isFull_snd s (fromMillis (satAdd (millis t) 1))
      cases hfull : KeyState.isFull s (fromMillis (satAdd (millis t) 1)) with
      | mk full s' =>
          rw [hfull] at same
          obtain rfl : s' = s := same
          cases full with
          | true =>
              rcases Nat.lt_or_ge (millis t) u64Max with below | saturated
              · right
                intro t' h passed
                have boundary : satAdd (millis t) 1 = millis t + 1 := satAdd_eq below
                have ahead : t ≤ fromMillis (satAdd (millis t) 1) := by
                  rw [boundary]
                  simp only [millis, fromMillis, nanosPerMilli, u64Max] at below ⊢
                  omega
                have gone := meter.full tight ahead (congrArg Prod.fst hfull)
                exact meter.void_later (fromMillis_le_of_le_millis passed) gone
              · left
                exact min_eq_right (saturated.trans (Nat.le_succ _))
          | false => exact Or.inr fun t' h passed => meter.hint_sound tight sound h passed
    · exact Or.inr fun t' h passed => meter.hint_sound tight sound h passed

theorem firstHint_snd (meter : Meter S quota) (s : S) (fresh : Bool) (n : ℕ) (outcome : Decision)
    (t nowMs : ℕ) : (firstHint s fresh n outcome t nowMs).2 = s := by
  unfold firstHint
  split
  · rfl
  · dsimp only
    split
    · have same := meter.isFull_snd s (fromMillis (satAdd nowMs 1))
      cases hfull : KeyState.isFull s (fromMillis (satAdd nowMs 1)) with
      | mk full s' =>
          rw [hfull] at same
          obtain rfl : s' = s := same
          cases full with
          | true => rfl
          | false => exact meter.recoversAt_snd s' t
    · exact meter.recoversAt_snd s t

/-- Distinct keys of `keys` in one shard have distinct recovery accounts. -/
def Separate (config : StoreConfig K) (keys : K → Prop) : Prop :=
  ∀ key other, keys key → keys other → key ≠ other → config.shardFor key = config.shardFor other →
    ¬ SameDebtor config.table (config.hasher key) (config.hasher other)

omit [DecidableEq K] in
theorem Separate.of_checks {checks : List (Check K)}
    (separate : ∀ check ∈ checks, ∀ other ∈ checks, check.key ≠ other.key →
      config.shardFor check.key = config.shardFor other.key →
      ¬ SameDebtor config.table (config.hasher check.key) (config.hasher other.key)) :
    Separate config fun key => ∃ check ∈ checks, check.key = key := by
  rintro _ _ ⟨check, member, rfl⟩ ⟨other, member', rfl⟩ different home
  exact separate check member other member' different home

omit [DecidableEq K] in
/-- A store that fails closed spills debts and forgets none. -/
theorem StoreConfig.new_forget {eviction : Eviction} (failClosed : eviction.overflow = .failClosed)
    (hasher : K → ℕ) (shards minIdle : ℕ) :
    (StoreConfig.new hasher shards eviction minIdle).table.forget = false := by
  simp only [StoreConfig.new, failClosed]
  rfl

omit [DecidableEq K] in
/-- Taking a key's charge keeps what is remembered of the others. -/
theorem AwayMetered.take {recovery : Recovery} {key other : K} (separate : Separate config keys)
    (tracked : keys key) (tracked' : keys other) (different : other ≠ key)
    (home : config.shardFor key = config.shardFor other)
    (valid : recovery.Valid config.table (millis t))
    (away : AwayMetered meter config t history recovery other) :
    AwayMetered meter config t history (recovery.take (config.hasher key) (millis t)).2 other := by
  obtain ⟨v, backs, gone | ⟨owed, account, spent, deadline, due, covered⟩⟩ := away
  · exact ⟨v, backs, Or.inl gone⟩
  · refine ⟨v, backs, Or.inr ⟨owed, account, spent, deadline, due, ?_⟩⟩
    apply Recovery.covers_take valid due _ covered
    rw [account]
    exact fun alike => separate key other tracked tracked' different.symm home
      (sameDebtor_of_accountOf_eq alike)

omit [DecidableEq K] in
/-- A key that is away is charged what its history owes, or owes nothing. -/
theorem AwayMetered.charge {recovery : Recovery} {key : K}
    (valid : recovery.Valid config.table (millis t))
    (away : AwayMetered meter config t history recovery key) :
    ∃ v, meter.Backs (history key) v ∧
      (recovery.peek (config.hasher key) (millis t) = none → meter.Void v t) ∧
      ∀ charge, recovery.peek (config.hasher key) (millis t) = some charge →
        meter.Void v t ∨ meter.dueMs v ≤ untilMax ∧ millis t < meter.dueMs v ∧
          meter.spent v ≤ charge.debt.spent ∧ fromMillis (meter.dueMs v) ≤ charge.debt.until := by
  obtain ⟨v, backs, gone | ⟨owed, account, spent, deadline, due, covered⟩⟩ := away
  · exact ⟨v, backs, fun _ => gone, fun _ _ => Or.inl gone⟩
  · obtain ⟨charge, charged, enough, late⟩ := Recovery.peek_covers valid due account covered
    refine ⟨v, backs, ?_, ?_⟩
    · intro nothing
      rw [nothing] at charged
      cases charged
    · intro charge' charged'
      obtain rfl : charge = charge' := Option.some.inj (charged.symm.trans charged')
      rw [spent] at enough
      rw [deadline] at due late
      exact Or.inr ⟨deadline ▸ owed.until_le, due, enough, late⟩

/-- The state a newcomer is stored with, before its check. -/
def restored (s : S) (charge : Option Charge) (t : ℕ) : S :=
  (charge.map Charge.debt).elim s (KeyState.restore s · t)

/-- A newcomer appended, its account charged from the table. -/
theorem ShardMetered.insert {key : K} {event : Event} {recovery : Recovery}
    (metered : ShardMetered meter keys (config.shardFor key) t history map)
    (absent : ∀ slot ∈ map.slots, slot.key ≠ key) (room : map.slots.length < config.perShardCap)
    (valid : recovery.Valid config.table (millis t))
    (others : ∀ other, keys other → other ≠ key → config.shardFor key = config.shardFor other →
      AwayMetered meter config t history map.recovery other →
      AwayMetered meter config t history recovery other)
    (hash : slot.hash = config.hasher slot.key) (same : slot.key = key)
    (newcomer : SlotMetered meter t (extend history key event) slot) :
    ShardMetered meter keys (config.shardFor key) t (extend history key event)
      (ShardMap.insert { map with recovery } slot) where
  consistent := by
    apply (metered.consistent.withRecovery recovery).insert room hash
    · rw [hash, same]
      rfl
    · rw [same]
      exact absent
  valid := valid
  stored := by
    intro found member
    rcases List.mem_append.1 member with there | new
    · rw [SlotMetered, extend_of_ne (absent found there)]
      exact metered.stored found there
    · obtain rfl := List.mem_singleton.1 new
      exact newcomer
  away := by
    intro other tracked home gone
    have different : other ≠ key := by
      intro alike
      exact gone slot (List.mem_append.2 (Or.inr (List.mem_singleton.2 rfl))) (same.trans alike.symm)
    rw [AwayMetered, extend_of_ne different]
    apply others other tracked different home.symm
    apply metered.away other tracked home
    exact fun found there => gone found (List.mem_append.2 (Or.inl there))

/-- Storing a newcomer where there is room keeps its shard metered. -/
theorem ShardMetered.store {key : K} {n : ℕ} {s : S}
    (metered : ShardMetered meter keys (config.shardFor key) t history map)
    (separate : Separate config keys) (tracked : keys key)
    (absent : ∀ slot ∈ map.slots, slot.key ≠ key) (room : map.slots.length < config.perShardCap)
    (made : KeyState.create quota t = some s) (ok : meter.OkNew (history key) t n)
    (sound : ∀ slot ∈ (map.store config key n t s).2.slots, meter.Sound t slot.state) :
    ShardMetered meter keys (config.shardFor key) t
      (extend history key ⟨n, t, (map.store config key n t s).1.1⟩) (map.store config key n t s).2 := by
  obtain ⟨v, backs, nothing, charged⟩ := (metered.away key tracked rfl absent).charge metered.valid
  rw [← Recovery.take_fst] at nothing charged
  have valid := Recovery.valid_take metered.valid (config.hasher key)
  have others : ∀ other, keys other → other ≠ key → config.shardFor key = config.shardFor other →
      AwayMetered meter config t history map.recovery other → AwayMetered meter config t history
        (map.recovery.take (config.hasher key) (millis t)).2 other :=
    fun other tracked' different home away =>
      away.take separate tracked tracked' different home metered.valid
  rw [ShardMap.store] at sound ⊢
  generalize map.recovery.take (config.hasher key) (millis t) = taken at nothing charged valid others sound ⊢
  obtain ⟨charge, recovery⟩ := taken
  have state : charge.elim s (fun charge => KeyState.restore s charge.debt t) = restored s charge t := by
    cases charge <;> rfl
  dsimp only at nothing charged valid others sound ⊢
  rw [state] at sound ⊢
  obtain ⟨v', backs', tight', quiet⟩ := meter.stored (charge.map Charge.debt) made ok backs
    (fun empty => nothing (Option.map_eq_none_iff.1 empty)) (by
      rintro debt owed
      obtain ⟨charge, rfl, rfl⟩ := Option.map_eq_some_iff.1 owed
      exact charged charge rfl)
  change meter.Backs (_ ++ [⟨n, t, (KeyState.acquire (restored s charge t) n t).1⟩]) v' at backs'
  change meter.Tight t v' (KeyState.acquire (restored s charge t) n t).2 at tight'
  rw [firstHint_snd meter] at sound ⊢
  have soundNew := sound _ (List.mem_append.2 (Or.inr (List.mem_singleton.2 rfl)))
  have fresh : charge.isNone = true → charge.map Charge.debt = none := by
    intro empty
    rw [Option.isNone_iff_eq_none.1 empty]
    rfl
  have hint := firstHint_ok tight' soundNew fun empty => quiet (fresh empty)
  apply metered.insert absent room valid others rfl rfl
  refine ⟨soundNew, v', ?_, tight', hint.imp_right Or.inr⟩
  rw [Slot.new, extend_self]
  exact backs'

/-- A newcomer turned away keeps its shard metered. -/
theorem ShardMetered.refuse {key : K} {n wait : ℕ}
    (metered : ShardMetered meter keys i t history map) (absent : ∀ slot ∈ map.slots, slot.key ≠ key)
    (ok : meter.OkNew (history key) t n) :
    ShardMetered meter keys i t (extend history key ⟨n, t, .deny wait⟩) map where
  consistent := metered.consistent
  valid := metered.valid
  stored := by
    intro slot member
    rw [SlotMetered, extend_of_ne (absent slot member)]
    exact metered.stored slot member
  away := by
    intro other tracked home gone
    have away := metered.away other tracked home gone
    by_cases same : other = key
    · subst same
      obtain ⟨v, backs, owed⟩ := away
      obtain ⟨v', backs', unchanged⟩ := meter.refused ok backs
      refine ⟨v', ?_, ?_⟩
      · rw [extend_self]
        exact backs'
      · rcases unchanged with rfl | gone
        · exact owed
        · exact Or.inl gone
    · rw [AwayMetered, extend_of_ne same]
      exact away

/-- The write section of a check that found its key missing keeps its shard metered. -/
theorem ShardMetered.checkWrite {key : K} {n : ℕ} {s : S} (keep : config.table.forget = false)
    (metered : ShardMetered meter keys (config.shardFor key) t history map)
    (separate : Separate config keys) (tracked : keys key)
    (missed : (map.acquireStored config key n t).1 = none)
    (made : KeyState.create quota t = some s) (ok : meter.OkNew (history key) t n)
    (sound : ∀ slot ∈ (map.checkWrite config key n t s).2.slots, meter.Sound t slot.state) :
    ShardMetered meter keys (config.shardFor key) t
      (extend history key ⟨n, t, (map.checkWrite config key n t s).1.decision⟩)
      (map.checkWrite config key n t s).2 := by
  have absent := acquireStored_none metered.consistent missed
  obtain ⟨⟨handed, run, -⟩, room⟩ := makeRoom_madeBy config map t (millis t)
  rw [ShardMap.checkWrite] at sound ⊢
  cases hread : map.acquireStored config key n t with
  | mk found map₁ =>
      rw [hread] at missed
      obtain rfl : found = none := missed
      simp only [hread] at sound ⊢
      cases hroom : map.makeRoom config t (millis t) with
      | mk result after =>
          rw [hroom] at run room
          simp only [hroom] at sound ⊢
          have metered' := run.metered keep metered
          have absent' := run.absent absent
          cases result with
          | error due => exact metered'.refuse absent' ok
          | ok =>
              exact metered'.store separate tracked absent' (room rfl metered.consistent.within) made
                ok sound

/-- A check of another shard's key is none of this shard's business. -/
theorem ShardMetered.elsewhere {key : K} (metered : ShardMetered meter keys i t history map)
    (other : i ≠ config.shardFor key) (event : Event) :
    ShardMetered meter keys i t (extend history key event) map where
  consistent := metered.consistent
  valid := metered.valid
  stored := by
    intro slot member
    have different : slot.key ≠ key := by
      rintro rfl
      have home := metered.consistent.placed slot member
      rw [metered.consistent.hashed slot member] at home
      exact other home.symm
    rw [SlotMetered, extend_of_ne different]
    exact metered.stored slot member
  away := by
    intro key' tracked home gone
    have different : key' ≠ key := by
      rintro rfl
      exact other home.symm
    rw [AwayMetered, extend_of_ne different]
    exact metered.away key' tracked home gone

omit quota in
theorem answer_stored (quota : Quota) {store : Store config S} {check : Check K} {decision : Decision}
    (found : ((store (config.shardFor check.key)).acquireStored config check.key check.n check.now).1 =
      some decision) :
    Store.answer quota store check = (.plain decision,
      Function.update store (config.shardFor check.key)
        ((store (config.shardFor check.key)).acquireStored config check.key check.n check.now).2) := by
  rw [Store.answer, Store.check]
  cases hread : (store (config.shardFor check.key)).acquireStored config check.key check.n check.now with
  | mk result map =>
      rw [hread] at found
      obtain rfl : result = some decision := found
      rfl

theorem answer_new {store : Store config S} {check : Check K} {s : S}
    (missed : ((store (config.shardFor check.key)).acquireStored config check.key check.n check.now).1 =
      none) (made : KeyState.create quota check.now = some s) :
    Store.answer quota store check =
      (((store (config.shardFor check.key)).checkWrite config check.key check.n check.now s).1,
      Function.update store (config.shardFor check.key)
        ((store (config.shardFor check.key)).checkWrite config check.key check.n check.now s).2) := by
  rw [Store.answer, Store.check]
  cases hread : (store (config.shardFor check.key)).acquireStored config check.key check.n check.now with
  | mk result map =>
      rw [hread] at missed
      obtain rfl : result = none := missed
      simp only [made]

/-- A whole check keeps every shard metered.  A stored key may be checked at any reading its meter
    accounts for; the check of an absent key moves its shard's clock to its own reading. -/
theorem check_metered {store : Store config S} {clock : Fin config.shardCount → ℕ}
    (keep : config.table.forget = false) (separate : Separate config keys)
    (metered : ∀ i, ShardMetered meter keys i (clock i) history (store i)) (check : Check K) {s : S}
    (tracked : keys check.key) (later : clock (config.shardFor check.key) ≤ t)
    (made : KeyState.create quota check.now = some s)
    (read : store.tracks check.key = true → meter.Ok t check.n check.now)
    (write : store.tracks check.key = false →
      check.now = t ∧ meter.OkNew (history check.key) t check.n)
    (sound : ∀ slot ∈ ((Store.answer quota store check).2 (config.shardFor check.key)).slots,
      meter.Sound t slot.state) :
    ∀ i, ShardMetered meter keys i (Function.update clock (config.shardFor check.key) t i)
      (extend history check.key ⟨check.n, check.now, (Store.answer quota store check).1.decision⟩)
      ((Store.answer quota store check).2 i) := by
  have here := (metered (config.shardFor check.key)).later later
  have finds := @tracks_iff K S config _ _ store check.key check.n check.now here.consistent
  have spread : ∀ (map : ShardMap K S) (event : Event),
      ShardMetered meter keys (config.shardFor check.key) t (extend history check.key event) map →
      ∀ i, ShardMetered meter keys i (Function.update clock (config.shardFor check.key) t i)
        (extend history check.key event) (Function.update store (config.shardFor check.key) map i) := by
    intro map event kept i
    by_cases same : i = config.shardFor check.key
    · subst same
      rw [Function.update_self, Function.update_self]
      exact kept
    · rw [Function.update_of_ne same, Function.update_of_ne same]
      exact (metered i).elsewhere same event
  cases result : ((store (config.shardFor check.key)).acquireStored config check.key check.n check.now).1 with
  | some decision =>
      have present : store.tracks check.key = true := finds.2 (by rw [result]; exact Option.some_ne_none _)
      rw [answer_stored quota result] at sound ⊢
      apply spread
      apply here.acquireStored (read present) result
      simp only [Function.update_self] at sound
      exact sound
  | none =>
      have missing : store.tracks check.key = false := by
        rw [← Bool.not_eq_true, finds, result]
        exact fun found => found rfl
      obtain ⟨rfl, ok⟩ := write missing
      rw [answer_new result made] at sound ⊢
      apply spread
      apply here.checkWrite keep separate tracked result made ok
      simp only [Function.update_self] at sound
      exact sound

omit [DecidableEq K] in
/-- Stored or away, a key's history is backed. -/
theorem ShardMetered.backs {key : K}
    (metered : ShardMetered meter keys (config.shardFor key) t history map) (tracked : keys key) :
    ∃ v, meter.Backs (history key) v := by
  by_cases present : ∃ slot ∈ map.slots, slot.key = key
  · obtain ⟨slot, member, rfl⟩ := present
    obtain ⟨-, v, backs, -⟩ := metered.stored slot member
    exact ⟨v, backs⟩
  · obtain ⟨v, backs, -⟩ := metered.away key tracked rfl fun slot member same =>
      present ⟨slot, member, same⟩
    exact ⟨v, backs⟩

omit [DecidableEq K] in
theorem ShardMetered.new (meter : Meter S quota) (keys : K → Prop) (i : Fin config.shardCount) (t : ℕ) :
    ShardMetered meter keys i t (fun _ => []) (.new : ShardMap K S) where
  consistent := .new
  valid := Recovery.new_valid
  stored := fun _ member => by cases member
  away := by
    intro key _ _ _
    obtain ⟨v, backs, gone⟩ := meter.start
    exact ⟨v, backs, Or.inl (gone t)⟩

end Metering

/-!
### Histories of runs
-/

section Runs

variable {K S : Type} [DecidableEq K] [KeyState S] {config : StoreConfig K}

/-- The checks of one key in a run, with their decisions. -/
def historyOf (trace : List (Check K × Decision)) (key : K) : List Event :=
  (trace.filter fun entry => entry.1.key = key).map fun entry => ⟨entry.1.n, entry.1.now, entry.2⟩

theorem historyOf_snoc (trace : List (Check K × Decision)) (check : Check K) (decision : Decision) :
    historyOf (trace ++ [(check, decision)]) =
      extend (historyOf trace) check.key ⟨check.n, check.now, decision⟩ := by
  funext key
  by_cases same : check.key = key
  · subst same
    rw [extend_self]
    simp [historyOf]
  · rw [extend_of_ne (Ne.symm same)]
    simp [historyOf, same]

theorem Store.decisions_fst (quota : Quota) (store : Store config S) (checks : List (Check K)) :
    (Store.decisions quota store checks).map Prod.fst = checks := by
  induction checks generalizing store with
  | nil => rfl
  | cons check rest inductionHypothesis =>
      rw [Store.decisions, List.map_cons, inductionHypothesis]

theorem historyOf_eq_nil {quota : Quota} {store : Store config S} {checks : List (Check K)} {key : K}
    (never : ∀ check ∈ checks, check.key ≠ key) :
    historyOf (Store.decisions quota store checks) key = [] := by
  rw [historyOf, List.map_eq_nil_iff, List.filter_eq_nil_iff]
  intro entry member same
  have asked : entry.1 ∈ checks := by
    rw [← Store.decisions_fst quota store checks]
    exact List.mem_map_of_mem member
  exact never entry.1 asked (of_decide_eq_true same)

/-- Every event of a key's history is one of its checks. -/
theorem mem_historyOf {quota : Quota} {store : Store config S} {checks : List (Check K)} {key : K}
    {event : Event} (member : event ∈ historyOf (Store.decisions quota store checks) key) :
    ∃ check ∈ checks, check.key = key ∧ check.now = event.now := by
  obtain ⟨entry, kept, rfl⟩ := List.mem_map.1 member
  obtain ⟨there, same⟩ := List.mem_filter.1 kept
  refine ⟨entry.1, ?_, of_decide_eq_true same, rfl⟩
  rw [← Store.decisions_fst quota store checks]
  exact List.mem_map_of_mem there

/-- A quota that admits nothing stores no key: every check is answered by the closed path. -/
theorem Store.decisions_unmade {quota : Quota}
    (unmade : ∀ now, (KeyState.create quota now : Option S) = none) (checks : List (Check K)) :
    Store.decisions quota (Store.new : Store config S) checks =
      checks.map fun check => (check, closed check.n) := by
  have answered : ∀ check : Check K, Store.answer quota (Store.new : Store config S) check =
      (.plain (closed check.n), Store.new) := by
    intro check
    simp only [Store.answer, Store.check, unmade]
    rfl
  induction checks with
  | nil => rfl
  | cons check rest inductionHypothesis =>
      rw [Store.decisions, answered, inductionHypothesis, List.map_cons]
      rfl

omit [DecidableEq K] in
/-- A check of a run, found by its position. -/
theorem take_of_split {checks before rest : List (Check K)} {check : Check K}
    (split : checks = before ++ check :: rest) :
    before.length < checks.length ∧ checks.take (before.length + 1) = before ++ [check] ∧
      checks[before.length]? = some check := by
  subst split
  simp [List.take_append]

theorem Store.after_snoc (quota : Quota) (store : Store config S) (checks : List (Check K))
    (check : Check K) : Store.after quota store (checks ++ [check]) =
      (Store.answer quota (Store.after quota store checks) check).2 := by
  rw [Store.after, List.foldl_append]
  rfl

theorem Store.decisions_snoc (quota : Quota) (store : Store config S) (checks : List (Check K))
    (check : Check K) : Store.decisions quota store (checks ++ [check]) =
      Store.decisions quota store checks ++
        [(check, (Store.answer quota (Store.after quota store checks) check).1.decision)] := by
  induction checks generalizing store with
  | nil => rfl
  | cons first rest inductionHypothesis =>
      rw [List.cons_append, Store.decisions, inductionHypothesis]
      rfl

end Runs

end RateNet
