/-
Module: RateNet.Proofs.ResetRaces
Purpose: A reset among concurrent checks. A reset looks at the slots in one lock section and clears the
  key's record in another; between the two a check can store the key and move its debt from the table
  into the slot, and the reset then finds neither. A reset restores its key when that does not happen:
  the key is stored at the first section and owns no record, or is still absent at the second.
Trusted boundary: none
Main exports: CheckSection, Meanwhile, ResetCall, Restored, undisturbed_reset_restores,
  returning_key_escapes_reset
-/
import RateNet.Proofs.ShardSteps

namespace RateNet

/-!
### Clearing a record
-/

namespace Recovery

variable {t : Recovery} {hash nowMs : ℕ}

/-- Clearing the only record of an account leaves none. -/
theorem owns_forget (single : ((t.ledger nowMs).map Prod.fst).count (t.accountIn hash) ≤ 1) :
    (t.forget hash nowMs).2.owns hash nowMs = false := by
  obtain ⟨shape, missed | ⟨-, record, removed⟩⟩ := t.forget_ledger hash nowMs
  · have found := t.forget_fst hash nowMs
    rw [missed] at found ⊢
    exact found.symm
  · have account : (t.forget hash nowMs).2.accountIn hash = t.accountIn hash := by
      rw [accountIn, accountIn, shape.buckets, shape.cells]
    rw [← Bool.not_eq_true, owns_iff, account]
    rintro ⟨other, member⟩
    have another : 0 < (((t.forget hash nowMs).2.ledger nowMs).map Prod.fst).count (t.accountIn hash) :=
      Multiset.count_pos.2 (Multiset.mem_map.2 ⟨_, member, rfl⟩)
    have one : (({(t.accountIn hash, record)} : Multiset (Account × Record)).map Prod.fst).count
        (t.accountIn hash) = 1 := by
      rw [Multiset.map_singleton, Multiset.count_singleton_self]
    rw [← removed, Multiset.map_add, Multiset.count_add] at single
    have both := one ▸ single
    omega

end Recovery

/-!
### The sections
-/

section Sections

variable {K S : Type} [DecidableEq K] [KeyState S]

/-- One lock section of some check: the look at the slots, or the write section of a key that was missing
    at the look. -/
inductive CheckSection (config : StoreConfig K) (quotaOf : K → Quota) :
    Store config S → Store config S → Prop where
  | look (store : Store config S) (key : K) (n now : ℕ) :
      CheckSection config quotaOf store (Function.update store (config.shardFor key)
        ((store (config.shardFor key)).acquireStored config key n now).2)
  | write (store : Store config S) (key : K) (n now : ℕ) {state : S}
      (made : KeyState.create (quotaOf key) now = some state) :
      CheckSection config quotaOf store (Function.update store (config.shardFor key)
        ((store (config.shardFor key)).checkWrite config key n now state).2)

/-- Any number of sections of checks, with the stores they pass through. -/
inductive Meanwhile (config : StoreConfig K) (quotaOf : K → Quota) (first : Store config S) :
    List (Store config S) → Store config S → Prop where
  | start : Meanwhile config quotaOf first [first] first
  | step {moments : List (Store config S)} {store store' : Store config S}
      (before : Meanwhile config quotaOf first moments store)
      (next : CheckSection config quotaOf store store') :
      Meanwhile config quotaOf first (moments ++ [store']) store'

/-- A reset of `key` at `now` among the sections of concurrent checks: the store at its first section, the
    moments from there to its last section, the store then, its answer, and the store it leaves. -/
inductive ResetCall (config : StoreConfig K) (quotaOf : K → Quota) (key : K) (now : ℕ) :
    Store config S → List (Store config S) → Store config S → Bool → Store config S → Prop where
  | hit {store : Store config S}
      (found : ((store (config.shardFor key)).resetRead config key now).1 = true) :
      ResetCall config quotaOf key now store [store] store true
        (Function.update store (config.shardFor key)
          ((store (config.shardFor key)).resetRead config key now).2)
  | miss {first last : Store config S} {moments : List (Store config S)}
      (missed : ((first (config.shardFor key)).resetRead config key now).1 = false)
      (meanwhile : Meanwhile config quotaOf first moments last) :
      ResetCall config quotaOf key now first moments last
        ((last (config.shardFor key)).resetWrite config key now).1
        (Function.update last (config.shardFor key)
          ((last (config.shardFor key)).resetWrite config key now).2)

variable {config : StoreConfig K} {quotaOf : K → Quota}

/-- Whether the table of the key's shard has a live record of its own. -/
def Store.owes (store : Store config S) (key : K) (now : ℕ) : Bool :=
  (store (config.shardFor key)).recovery.owns (config.hasher key) (millis now)

/-- The key is stored, or has a live record of its own. -/
def Present (store : Store config S) (key : K) (now : ℕ) : Prop :=
  store.tracks key = true ∨ store.owes key now = true

/-- The key has its whole allowance, if it is stored, and no record. -/
def Restored (store : Store config S) (key : K) (now : ℕ) : Prop :=
  (∀ slot ∈ (store (config.shardFor key)).get (config.hasher key) key,
    (KeyState.isFull slot.state now).1 = true) ∧ store.owes key now = false

/-- No two records of the key's account are live. -/
def SingleRecord (store : Store config S) (key : K) (now : ℕ) : Prop :=
  let recovery := (store (config.shardFor key)).recovery
  ((recovery.ledger (millis now)).map Prod.fst).count (recovery.accountIn (config.hasher key)) ≤ 1

instance (store : Store config S) (key : K) (now : ℕ) : Decidable (Present store key now) :=
  inferInstanceAs (Decidable (_ ∨ _))

instance (store : Store config S) (key : K) (now : ℕ) : Decidable (Restored store key now) :=
  inferInstanceAs (Decidable (_ ∧ _))

instance (store : Store config S) (key : K) (now : ℕ) : Decidable (SingleRecord store key now) :=
  inferInstanceAs (Decidable (_ ≤ _))

/-- A look that misses changes nothing. -/
theorem acquireStored_missed {map : ShardMap K S} {key : K} {n now : ℕ}
    (missed : (map.acquireStored config key n now).1 = none) :
    (map.acquireStored config key n now).2 = map := by
  unfold ShardMap.acquireStored at missed ⊢
  split at missed
  · rfl
  · split at missed
    · rfl
    · cases missed

/-- A section of a check is made of steps on each shard. -/
theorem CheckSection.shardRun {store store' : Store config S}
    (step : CheckSection config quotaOf store store') (consistent : ∀ i, Consistent config i (store i))
    (i : Fin config.shardCount) :
    ∃ now handed, ShardRun config quotaOf i now (store i) handed (store' i) := by
  have update : ∀ {key : K} {now : ℕ} {handed : List (Handover K)} {map : ShardMap K S},
      ShardRun config quotaOf (config.shardFor key) now (store (config.shardFor key)) handed map →
      ∃ now handed, ShardRun config quotaOf i now (store i) handed
        (Function.update store (config.shardFor key) map i) := by
    intro key now handed map run
    refine (Function.forall_update_iff store fun i map =>
      ∃ now handed, ShardRun config quotaOf i now (store i) handed map).2 ⟨⟨now, handed, run⟩, ?_⟩ i
    exact fun j _ => ⟨now, [], .done _⟩
  have looked : ∀ (key : K) (n now : ℕ), ShardRun config quotaOf (config.shardFor key) now
      (store (config.shardFor key)) [] ((store (config.shardFor key)).acquireStored config key n now).2 := by
    intro key n now
    cases read : ((store (config.shardFor key)).acquireStored config key n now).1 with
    | some decision => exact .single (.acquire read)
    | none =>
        rw [acquireStored_missed read]
        exact .done _
  cases step with
  | look key n now => exact update (looked key n now)
  | @write key n now state made =>
      exact update ((checkWrite_effect _ key n made).shardRun (consistent _))

/-- What a reset needs of a shard: consistent, with its states under their quotas. -/
theorem Meanwhile.kept [LawfulKeyState S] {first last : Store config S} {moments : List (Store config S)}
    (meanwhile : Meanwhile config quotaOf first moments last)
    (kept : ∀ i, Consistent config i (first i) ∧ StatesKept quotaOf (first i)) :
    ∀ i, Consistent config i (last i) ∧ StatesKept quotaOf (last i) := by
  induction meanwhile with
  | start => exact kept
  | step _ next inductionHypothesis =>
      intro i
      obtain ⟨now, handed, run⟩ := next.shardRun (fun i => (inductionHypothesis i).1) i
      exact run.keeps (fun map => Consistent config i map ∧ StatesKept quotaOf map)
        (fun step both => ⟨step.consistent both.1, step.statesKept both.1 both.2⟩) (inductionHypothesis i)

/-- A reset finds a key at its first section exactly when it is stored. -/
theorem resetRead_fst {store : Store config S} {key : K}
    (consistent : Consistent config (config.shardFor key) (store (config.shardFor key))) (now : ℕ) :
    ((store (config.shardFor key)).resetRead config key now).1 = store.tracks key := by
  rw [ShardMap.resetRead, Store.tracks]
  cases found : (store (config.shardFor key)).position (config.hasher key) key with
  | none => rfl
  | some pos =>
      obtain ⟨slot, held, -⟩ := consistent.position_iff.1 found
      simp only [held]
      rfl

end Sections

/-!
### Undisturbed resets
-/

/-- A state just reset is whole. -/
def ResetsWhole (S : Type) [KeyState S] [LawfulKeyState S] : Prop :=
  ∀ {quota : Quota} {s : S} (now : ℕ), LawfulKeyState.Under quota s →
    (KeyState.isFull (KeyState.reset s now) now).1 = true

/-- Where being full is owing nothing. -/
theorem resetsWhole {S : Type} [KeyState S] [LawfulKeyState S]
    (full : ∀ (s : S) now, (KeyState.isFull s now).1 = (KeyState.debt s now).1.isNone)
    (fits : ∀ quota now, LawfulKeyState.Fits S quota now) : ResetsWhole S := by
  intro quota s now under
  have whole := LawfulKeyState.whole_of_reset now under (fits quota now)
  have limit := LawfulKeyState.peek_limit now (LawfulKeyState.reset_under now under)
  rw [full, LawfulKeyState.debt_eq, Snapshot.debt_eq_none.2 (whole.trans limit.symm)]
  rfl

/-- A reset restores its key if, at its first section, the key is stored and owns no record, or if, at its
    last, the key is still absent and its record is the only one of its account. -/
def UndisturbedResets (S : Type) [KeyState S] (algorithm : Algorithm) {K : Type} [DecidableEq K]
    (config : StoreConfig K) (quotaOf : K → Quota) (calls : List (Call K)) (key : K) (now : ℕ) : Prop :=
  ∀ (before during : List (Store config S)) (first last after : Store config S) (answer : Bool),
    Meanwhile config quotaOf (Store.run algorithm quotaOf .new calls) before first →
    ResetCall config quotaOf key now first during last answer after →
    (∀ moment ∈ during, Present moment key now) →
    first.tracks key = true ∧ first.owes key now = false ∨
      last.tracks key = false ∧ SingleRecord last key now →
    answer = true ∧ ∃ moment ∈ during ++ [after], Restored moment key now

section Undisturbed

variable {K S : Type} [DecidableEq K] [KeyState S] [LawfulKeyState S] {config : StoreConfig K}
  {quotaOf : K → Quota} {key : K} {now : ℕ}

/-- A stored key without a record is restored by the first section. -/
theorem restored_by_read (resets : ResetsWhole S) {store : Store config S}
    (consistent : Consistent config (config.shardFor key) (store (config.shardFor key)))
    (states : StatesKept quotaOf (store (config.shardFor key)))
    (tracked : store.tracks key = true) (plain : store.owes key now = false) :
    Restored (Function.update store (config.shardFor key)
      ((store (config.shardFor key)).resetRead config key now).2) key now := by
  rw [Store.tracks] at tracked
  obtain ⟨pos, found⟩ := Option.isSome_iff_exists.1 tracked
  obtain ⟨slot, held, same⟩ := consistent.position_iff.1 found
  have inside := (List.getElem?_eq_some_iff.1 held).1
  have after : ((store (config.shardFor key)).resetRead config key now).2 =
      (store (config.shardFor key)).setSlot pos { slot with state := KeyState.reset slot.state now } := by
    simp only [ShardMap.resetRead, found, held]
  have held' : ((store (config.shardFor key)).setSlot pos
      { slot with state := KeyState.reset slot.state now }).slots[pos]? = _ := List.getElem?_set_self inside
  have consistent' : Consistent config (config.shardFor key) ((store (config.shardFor key)).setSlot pos
      { slot with state := KeyState.reset slot.state now }) := consistent.setSlot held rfl rfl
  have found' := consistent'.position_iff.2 ⟨_, held', same⟩
  rw [after, Restored, Store.owes, Function.update_self]
  refine ⟨?_, plain⟩
  intro slot' stored
  rw [ShardMap.get, found', Option.bind_some, held'] at stored
  obtain rfl := Option.some.inj stored
  exact resets now (states slot (List.mem_of_getElem? held))

omit [LawfulKeyState S] in
/-- An absent key with one record is restored by the last section. -/
theorem restored_by_write {store : Store config S} (absent : store.tracks key = false)
    (single : SingleRecord store key now) :
    Restored (Function.update store (config.shardFor key)
      ((store (config.shardFor key)).resetWrite config key now).2) key now := by
  rw [Restored, Store.owes, Function.update_self]
  refine ⟨?_, Recovery.owns_forget single⟩
  intro slot stored
  have missing : (store (config.shardFor key)).position (config.hasher key) key = none := by
    rw [Store.tracks] at absent
    exact Option.isNone_iff_eq_none.1 (Option.isSome_eq_false_iff.1 absent)
  have stored : (((store (config.shardFor key)).position (config.hasher key) key).bind
      fun pos => (store (config.shardFor key)).slots[pos]?) = some slot := stored
  rw [missing] at stored
  cases stored

end Undisturbed

theorem Meanwhile.last_mem {K S : Type} [DecidableEq K] [KeyState S] {config : StoreConfig K}
    {quotaOf : K → Quota} {first last : Store config S} {moments : List (Store config S)}
    (meanwhile : Meanwhile config quotaOf first moments last) : last ∈ moments := by
  cases meanwhile with
  | start => exact List.mem_singleton.2 rfl
  | step before next => exact List.mem_append.2 (Or.inr (List.mem_singleton.2 rfl))

theorem undisturbedResets {S : Type} [KeyState S] [LawfulKeyState S] (resets : ResetsWhole S) {K : Type}
    [DecidableEq K] (config : StoreConfig K) (quotaOf : K → Quota) (calls : List (Call K)) (key : K) (now : ℕ) :
    UndisturbedResets S (LawfulKeyState.algorithm S) config quotaOf calls key now := by
  intro before during first last after answer earlier call present calm
  have kept := earlier.kept (run_statesKept (LawfulKeyState.algorithm S) calls)
  obtain ⟨consistent, states⟩ := kept (config.shardFor key)
  have looked := resetRead_fst consistent now
  cases call with
  | hit found =>
      have tracked : first.tracks key = true := looked.symm.trans found
      rcases calm with ⟨-, plain⟩ | ⟨absent, -⟩
      · exact ⟨rfl, _, List.mem_append.2 (Or.inr (List.mem_singleton.2 rfl)),
          restored_by_read resets consistent states tracked plain⟩
      · rw [absent] at tracked
        cases tracked
  | miss missed meanwhile =>
      have absentFirst : first.tracks key = false := looked.symm.trans missed
      rcases calm with ⟨tracked, -⟩ | ⟨absent, single⟩
      · rw [tracked] at absentFirst
        cases absentFirst
      · have owed : last.owes key now = true := by
          rcases present last meanwhile.last_mem with tracked | owed
          · rw [absent] at tracked
            cases tracked
          · exact owed
        refine ⟨(Recovery.forget_fst _ _ _).trans owed, _,
          List.mem_append.2 (Or.inr (List.mem_singleton.2 rfl)), restored_by_write absent single⟩

/-- A reset that no check disturbs restores its key. -/
theorem undisturbed_reset_restores {K : Type} [DecidableEq K] (config : StoreConfig K) (quotaOf : K → Quota)
    (calls : List (Call K)) (key : K) (now : ℕ) :
    UndisturbedResets Gcra .leakyBucket config quotaOf calls key now ∧
      UndisturbedResets FixedWindow .fixedWindow config quotaOf calls key now ∧
      UndisturbedResets SlidingLog .slidingWindowLog config quotaOf calls key now ∧
      UndisturbedResets SlidingCounter .slidingWindowCounter config quotaOf calls key now := by
  have bucket : ResetsWhole Gcra := by
    intro quota g now under
    show (g.reset.params.closed || decide (0 ≤ g.reset.params.intervalsAt (nanos now))) = true
    rw [decide_eq_true (Nat.zero_le _), Bool.or_true]
  exact ⟨undisturbedResets bucket config quotaOf calls key now,
    undisturbedResets (resetsWhole (fun _ _ => rfl) fun _ _ => trivial) config quotaOf calls key now,
    undisturbedResets (resetsWhole (fun _ _ => rfl) fun _ _ => trivial) config quotaOf calls key now,
    undisturbedResets (resetsWhole (fun _ _ => rfl) fun _ _ => trivial) config quotaOf calls key now⟩

/-- Room for one key: key 1 has been evicted by key 2, and owes.  The reset looks first and misses it; a
    check stores it and moves its debt from the table into the slot; the reset then finds no record.  It
    answers that the key had nothing, and the key still owes. -/
theorem returning_key_escapes_reset :
    let eviction : Eviction := { maxKeys := some 1, idleTtl := none, overflow := .failClosed }
    let config : StoreConfig ℕ := StoreConfig.new id 1 eviction 0
    let quotaOf : ℕ → Quota := fun _ => Quota.perSecond 1 (by decide)
    let i := config.shardFor 1
    let first : Store config FixedWindow :=
      Store.run .fixedWindow quotaOf .new [⟨.check 1 1, 0⟩, ⟨.check 2 1, 0⟩]
    let looked := Function.update first i ((first i).acquireStored config 1 1 1000).2
    let stored := Function.update looked i
      ((looked i).checkWrite config 1 1 1000 (FixedWindow.new (quotaOf 1) 1000)).2
    let after := Function.update stored i ((stored i).resetWrite config 1 1000).2
    ResetCall config quotaOf 1 1000 first [first, looked, stored] stored false after ∧
      (∀ moment ∈ [first, looked, stored], Present moment 1 1000) ∧
      ∀ moment ∈ [first, looked, stored, after], ¬ Restored moment 1 1000 := by
  intro eviction config quotaOf i first looked stored after
  refine ⟨?_, by decide +kernel, by decide +kernel⟩
  have missed : ((first i).resetRead config 1 1000).1 = false := by decide +kernel
  have nothing : ((stored i).resetWrite config 1 1000).1 = false := by decide +kernel
  have sections : Meanwhile config quotaOf first [first, looked, stored] stored :=
    (Meanwhile.start.step (.look first 1 1 1000)).step (.write looked 1 1 1000 rfl)
  rw [← nothing]
  exact .miss missed sections

/-- The same reset with no check in between. -/
theorem undisturbed_reset_restores_an_evicted_key :
    let eviction : Eviction := { maxKeys := some 1, idleTtl := none, overflow := .failClosed }
    let config : StoreConfig ℕ := StoreConfig.new id 1 eviction 0
    let quotaOf : ℕ → Quota := fun _ => Quota.perSecond 1 (by decide)
    let i := config.shardFor 1
    let first : Store config FixedWindow :=
      Store.run .fixedWindow quotaOf .new [⟨.check 1 1, 0⟩, ⟨.check 2 1, 0⟩]
    let after := Function.update first i ((first i).resetWrite config 1 1000).2
    ((first i).resetWrite config 1 1000).1 = true ∧
      ∃ moment ∈ [first] ++ [after], Restored moment 1 1000 := by
  intro eviction config quotaOf i first after
  have missed : ((first i).resetRead config 1 1000).1 = false := by decide +kernel
  have calm : first.tracks 1 = false ∧ SingleRecord first 1 1000 := by decide +kernel
  have present : ∀ moment ∈ [first], Present moment 1 1000 := by decide +kernel
  exact (undisturbed_reset_restores config quotaOf [⟨.check 1 1, 0⟩, ⟨.check 2 1, 0⟩] 1 1000).2.1 [first] [first]
    first first after _ .start (.miss missed .start) present (Or.inr calm)

end RateNet
