/-
Module: RateNet.Proofs.LockedMeter
Purpose: A locked store of leaky buckets never over-admits a key. Threads check and read keys through the
  read and write locks and the compare-and-swap of each key's word, with clock readings in any order.
  The store is linearizable, a sequential store with a place for every key is a map of standalone buckets,
  and the word of a bucket meters what it grants; so what is granted to a key at readings of a window is
  bounded by the burst and the intervals of the window, whoever was granted it.
Trusted boundary: none
Main exports: grantedTo, Effect.Spends, BucketsAccount, spends_metered, locked_store_never_over_admits
-/
import RateNet.Lib.VirtualScheduling
import RateNet.Proofs.LockedProgress

namespace RateNet

open Interleaving Linearization VirtualScheduling

section Meter

variable {K : Type} [DecidableEq K] {config : StoreConfig K} {quotaOf : K → Quota} {keys : Finset K} {key : K}

/-- The units one effect grants to `key`, if its reading lies in `[a, b]`. -/
def Effect.granted {shards : ℕ} (key : K) (a b : ℕ) : Effect shards K × Answer K → ℕ
  | (.whole (.check key' n) now, .checked outcome) =>
    if key' = key ∧ outcome.decision = .allow ∧ a ≤ now ∧ now ≤ b then n else 0
  | _ => 0

/-- The units granted to `key` at readings in `[a, b]`. -/
def grantedTo {shards : ℕ} (key : K) (effects : List (Effect shards K × Answer K)) (a b : ℕ) : ℕ :=
  (effects.map (Effect.granted key a b)).sum

theorem grantedTo_snoc {shards : ℕ} (key : K) (effects : List (Effect shards K × Answer K))
    (effect : Effect shards K × Answer K) (a b : ℕ) :
    grantedTo key (effects ++ [effect]) a b = grantedTo key effects a b + Effect.granted key a b effect := by
  simp [grantedTo]

/-- Effects that spend or read: checks of the keys in `keys`, at readings short of the end of the bucket's
    clock, and peeks. -/
def Effect.Spends {shards : ℕ} (quotaOf : K → Quota) (keys : Finset K) : Effect shards K → Prop
  | .whole (.check key _) now => key ∈ keys ∧
      (GcraParams.new (quotaOf key)).intervalsAt (nanos now) + (quotaOf key).burst < 2 ^ 64
  | .whole (.peek _) _ => True
  | _ => False

instance {shards : ℕ} (quotaOf : K → Quota) (keys : Finset K) (effect : Effect shards K) :
    Decidable (effect.Spends quotaOf keys) := by
  unfold Effect.Spends
  split <;> infer_instance

/-- What a store holds of a key is its bucket. -/
def SameBucket (_ : Quota) (_ : ℕ) (held own : Option Gcra) : Prop := held = own

omit [DecidableEq K] in
theorem firstState_gcra (g : Gcra) (n now : ℕ) : firstState g n now = (KeyState.acquire g n now).2 := by
  -- reading a bucket leaves it as it is, so the hint taken at the boundary does too
  have left : firstState g n now = (KeyState.acquire g n now).2 ∨ firstState g n now = (KeyState.acquire g n now).2 :=
    firstState_eq (Or.inr (Or.inr rfl))
  exact left.elim id id

/-- A leaky bucket is stored as its first check leaves it. -/
theorem SameBucket.mirroring : Mirroring (fun _ _ _ => True) SameBucket where
  unseen _ _ := rfl
  later _ same := same
  refused same _ := same.symm
  stored n same := ⟨_, same.symm, rfl, rfl⟩
  admitted := by
    rintro quota now n own g rfl made -
    exact ⟨rfl, congrArg some (firstState_gcra g n now)⟩

omit [DecidableEq K] in
theorem Reference.check_other [DecidableEq K] {ref : Reference K Gcra} {key key' : K} {n now : ℕ} (other : key ≠ key') :
    (ref.check quotaOf key' n now).2 key = ref key := by
  rw [Reference.check]
  split
  · rfl
  · exact Function.update_of_ne other _ _

/-- A store that keeps every key that is checked: it has no idle limit, and each of its shards has a place for
    every one of `keys` that falls in it. -/
structure Roomy (config : StoreConfig K) (keys : Finset K) : Prop where
  unlimited : config.idleTtlMs = none
  room : ∀ i, (keys.filter fun key => config.shardFor key = i).card ≤ config.perShardCap

/-- A shard that holds only keys of `keys` has a place for one of them that it does not hold. -/
theorem Roomy.not_full (roomy : Roomy config keys) {map : ShardMap K Gcra} {new : K}
    (consistent : Consistent config (config.shardFor new) map) (listed : ∀ slot ∈ map.slots, slot.key ∈ keys)
    (new_listed : new ∈ keys) (absent : ∀ slot ∈ map.slots, slot.key ≠ new) :
    map.slots.length < config.perShardCap := by
  have few : (map.slots.map Slot.key).toFinset ⊂ keys.filter fun key => config.shardFor key = config.shardFor new := by
    refine Finset.ssubset_iff_of_subset ?_ |>.2 ⟨new, Finset.mem_filter.2 ⟨new_listed, rfl⟩, ?_⟩
    · intro key member
      obtain ⟨slot, there, rfl⟩ := List.mem_map.1 (List.mem_toFinset.1 member)
      refine Finset.mem_filter.2 ⟨listed slot there, ?_⟩
      rw [StoreConfig.shardFor, ← consistent.hashed slot there, consistent.placed slot there]
    · intro member
      obtain ⟨slot, there, same⟩ := List.mem_map.1 (List.mem_toFinset.1 member)
      exact absent slot there same
  have counted := Finset.card_lt_card few
  rw [List.toFinset_card_of_nodup consistent.distinct, List.length_map] at counted
  exact lt_of_lt_of_le counted (roomy.room _)

/-- The bucket of `key` meters what has been granted to it. -/
structure BucketMeters (quotaOf : K → Quota) (key : K) (ref : Reference K Gcra) (account : ℕ → ℕ → ℕ) : Prop where
  under : ∀ g ∈ ref key, g.Under (quotaOf key)
  metered : Metered (fun t => (GcraParams.new (quotaOf key)).intervalsAt (nanos t))
    ((GcraParams.new (quotaOf key)).tolerance + 1) ((ref key).elim 0 Gcra.tat) account

/-- One check of the key's own bucket. -/
theorem BucketMeters.check {ref : Reference K Gcra} {account account' : ℕ → ℕ → ℕ} {n now : ℕ}
    (meters : BucketMeters quotaOf key ref account) (admits : admitsAnything .leakyBucket (quotaOf key) = true)
    (sat : (GcraParams.new (quotaOf key)).Unsaturated now)
    (granted : ∀ a b, account' a b = account a b +
      if (ref.check quotaOf key n now).1 = .allow ∧ a ≤ now ∧ now ≤ b then n else 0) :
    BucketMeters quotaOf key (ref.check quotaOf key n now).2 account' := by
  set p := GcraParams.new (quotaOf key) with params
  have hp : p.IsOpen := GcraParams.new_isOpen_of_admits admits
  have mono : Monotone fun t => p.intervalsAt (nanos t) := fun _ _ h => GcraParams.intervalsAt_nanos_mono hp h
  -- a key not seen has a bucket whose word is still zero
  obtain ⟨g, found, under, word⟩ : ∃ g, (ref key).or (KeyState.create (quotaOf key) now) = some g ∧
      g.Under (quotaOf key) ∧ (ref key).elim 0 Gcra.tat = g.tat := by
    cases seen : ref key with
    | some g => exact ⟨g, rfl, meters.under g seen, rfl⟩
    | none => exact ⟨.new (quotaOf key), if_pos admits, ⟨rfl, admits⟩, rfl⟩
  have metered := meters.metered
  rw [word] at metered
  rw [Reference.check_of_some found] at granted ⊢
  change ∀ a b, account' a b = account a b + if (g.params.checkNIn g.tat n now).1 = .allow ∧ _ then n else 0 at granted
  dsimp only
  have held : (Function.update ref key (some (KeyState.acquire g n now).2) key) =
      some { g with tat := (g.params.checkNIn g.tat n now).2 } := Function.update_self _ _ _
  constructor
  · intro g' member
    rw [held] at member
    obtain rfl := Option.some.inj member
    exact ⟨under.params, under.admits⟩
  · rw [held]
    show Metered _ _ (g.params.checkNIn g.tat n now).2 account'
    rw [under.params, ← params] at granted ⊢
    rcases GcraParams.checkNIn_cases g.tat n sat with ⟨rfl, answer⟩ | ⟨-, wait, answer⟩ | ⟨-, answer, capped⟩
    · rw [answer] at granted ⊢
      obtain rfl : account' = account := by
        funext a b
        rw [granted, ite_self, Nat.add_zero]
      exact metered
    · rw [answer] at granted ⊢
      obtain rfl : account' = account := by
        funext a b
        rw [granted, if_neg (fun allowed => by cases allowed.1), Nat.add_zero]
      exact metered
    · rw [answer] at granted ⊢
      refine metered.grant mono le_rfl capped ?_ ?_
      · intro a b first last
        rw [granted, if_pos ⟨rfl, first, last⟩]
      · intro a b outside
        rw [granted, if_neg (fun allowed => outside allowed.2), Nat.add_zero]

/-- The sequential store mirrors the buckets of the keys checked so far, and the bucket of `key` meters what
    the effects granted. -/
def BucketsAccount (quotaOf : K → Quota) (keys : Finset K) (key : K)
    (effects : List (Effect config.shardCount K × Answer K)) (store : Store config Gcra) : Prop :=
  ∃ ref, Mirrors SameBucket quotaOf 0 store ref ∧ (∀ key', ref key' ≠ none → key' ∈ keys) ∧
    BucketMeters quotaOf key ref (grantedTo key effects)

theorem BucketsAccount.new : BucketsAccount quotaOf keys key [] (Store.new : Store config Gcra) := by
  refine ⟨.new, .new SameBucket.mirroring quotaOf, fun _ seen => absurd rfl seen, ?_, ?_⟩
  · intro g member
    cases member
  · exact Metered.empty _ _ _

/-- What is known of the buckets does not depend on the reading. -/
theorem Mirrors.anytime {now : ℕ} {store : Store config Gcra} {ref : Reference K Gcra}
    (mirrors : Mirrors SameBucket quotaOf now store ref) : Mirrors SameBucket quotaOf 0 store ref :=
  ⟨mirrors.consistent, mirrors.blank, mirrors.alike⟩

/-- The keys a store holds are those of its buckets. -/
theorem Mirrors.keys_of {store : Store config Gcra} {ref : Reference K Gcra}
    (mirrors : Mirrors SameBucket quotaOf 0 store ref) {i : Fin config.shardCount} {slot : Slot K Gcra}
    (member : slot ∈ (store i).slots) : ref slot.key ≠ none := by
  have consistent := mirrors.consistent i
  obtain rfl : config.shardFor slot.key = i := by
    rw [StoreConfig.shardFor, ← consistent.hashed slot member, consistent.placed slot member]
  have held := (Store.states_eq_some consistent).2 ⟨slot, member, rfl, rfl⟩
  have same : store.states slot.key = ref slot.key := mirrors.alike slot.key
  rw [← same, held]
  exact Option.some_ne_none _

/-- A check spends from the bucket of its key and from no other. -/
theorem BucketsAccount.check {effects : List (Effect config.shardCount K × Answer K)} {store : Store config Gcra}
    (roomy : Roomy config keys) (admits : admitsAnything .leakyBucket (quotaOf key) = true)
    (accounted : BucketsAccount quotaOf keys key effects store) {key' : K} {n now : ℕ} (listed : key' ∈ keys)
    (sat : (GcraParams.new (quotaOf key')).intervalsAt (nanos now) + (quotaOf key').burst < 2 ^ 64) :
    BucketsAccount quotaOf keys key
      (effects ++ [(.whole (.check key' n) now,
        .checked (store.check key' n now (KeyState.create (quotaOf key'))).1)])
      (store.check key' n now (KeyState.create (quotaOf key'))).2 := by
  obtain ⟨ref, mirrors, seen, meters⟩ := accounted
  have room : store.tracks key' = false → True ∧
      (store (config.shardFor key')).slots.length < config.perShardCap := by
    intro untracked
    refine ⟨trivial, roomy.not_full (mirrors.consistent _) (fun slot member => seen _ (mirrors.keys_of member))
      listed fun slot member same => ?_⟩
    obtain ⟨pos, held⟩ := List.getElem?_of_mem member
    rw [Store.tracks, ((mirrors.consistent _).position_iff).2 ⟨slot, held, same⟩] at untracked
    cases untracked
  obtain ⟨decision, mirrors'⟩ := mirrors.check (n := n) SameBucket.mirroring roomy.unlimited (Nat.zero_le now) room
  have granted : ∀ a b, grantedTo key (effects ++ [(.whole (.check key' n) now,
        .checked (store.check key' n now (KeyState.create (quotaOf key'))).1)]) a b =
      grantedTo key effects a b +
        if key' = key ∧ (ref.check quotaOf key' n now).1 = .allow ∧ a ≤ now ∧ now ≤ b then n else 0 := by
    intro a b
    rw [grantedTo_snoc, Effect.granted, decision]
  refine ⟨_, mirrors'.anytime, ?_, ?_⟩
  · intro other there
    by_cases same : other = key'
    · rw [same]
      exact listed
    · rw [Reference.check_other same] at there
      exact seen other there
  · by_cases same : key' = key
    · subst same
      refine meters.check admits ?_ fun a b => ?_
      · have burst := GcraParams.tolerance_add_one (GcraParams.new_isOpen_of_admits admits).not_closed
        simp only [GcraParams.Unsaturated, u64Max]
        omega
      · rw [granted]
        simp only [true_and]
    · have unchanged : grantedTo key (effects ++ [(.whole (.check key' n) now,
          .checked (store.check key' n now (KeyState.create (quotaOf key'))).1)]) = grantedTo key effects := by
        funext a b
        rw [granted, if_neg fun mine => same mine.1, Nat.add_zero]
      rw [unchanged]
      have mine : (ref.check quotaOf key' n now).2 key = ref key := Reference.check_other (Ne.symm same)
      exact ⟨by rw [mine]; exact meters.under, by rw [mine]; exact meters.metered⟩

/-- Reading a bucket leaves the store as it is. -/
theorem peek_unchanged {store : Store config Gcra} (consistent : ∀ i, Consistent config i (store i))
    (algorithm : Algorithm) (key' : K) (now : ℕ) : (store.peekRef algorithm quotaOf key' now).2 = store := by
  cases position : (store (config.shardFor key')).position (config.hasher key') key' with
  | none =>
      simp only [Store.peekRef, Store.peek, peekSection_absent position, Function.update_eq_self]
  | some pos =>
      obtain ⟨slot, held, -⟩ := (consistent _).position_iff.1 position
      have same : (store (config.shardFor key')).setSlot pos { slot with state := slot.state } = _ :=
        setSlot_self held
      simp only [Store.peekRef, Store.peek, peekSection_found position held]
      exact (congrArg (Function.update store (config.shardFor key')) same).trans (Function.update_eq_self _ _)

/-- Every run of checks and peeks on the sequential store is accounted for. -/
theorem spends_metered (roomy : Roomy config keys) (admits : admitsAnything .leakyBucket (quotaOf key) = true)
    {effects : List (Effect config.shardCount K × Answer K)} {store : Store config Gcra}
    (run : Explains (Performs .leakyBucket quotaOf) (Store.new : Store config Gcra) effects store)
    (spends : ∀ effect ∈ effects, effect.1.Spends quotaOf keys) :
    BucketsAccount quotaOf keys key effects store := by
  refine run.invariant (fun effects store => (∀ effect ∈ effects, effect.1.Spends quotaOf keys) →
    BucketsAccount quotaOf keys key effects store) (fun _ => .new) ?_ spends
  intro effects store effect answer store' earlier performs spends
  have accounted := earlier fun effect member => spends effect (List.mem_append_left _ member)
  have last : effect.Spends quotaOf keys :=
    spends (effect, answer) (List.mem_append_right _ (List.mem_singleton.2 rfl))
  rw [performs_iff roomy.unlimited] at performs
  cases effect with
  | whole call now =>
      cases call with
      | check key' n =>
          obtain ⟨rfl, rfl⟩ := Prod.mk.inj performs
          exact accounted.check roomy admits last.1 last.2
      | peek key' =>
          have performs : (Answer.peeked (store.peekRef .leakyBucket quotaOf key' now).1,
            (store.peekRef .leakyBucket quotaOf key' now).2) = (answer, store') := performs
          obtain ⟨rfl, rfl⟩ := Prod.mk.inj performs
          obtain ⟨ref, mirrors, seen, meters⟩ := accounted
          refine ⟨ref, ?_, seen, ?_⟩
          · rw [peek_unchanged mirrors.consistent]
            exact mirrors
          · have unchanged : grantedTo key (effects ++ [(.whole (.peek key') now, .peeked
                (store.peekRef .leakyBucket quotaOf key' now).1)]) = grantedTo key effects := by
              funext a b
              rw [grantedTo_snoc]
              rfl
            rw [unchanged]
            exact meters
      | reset | remove => exact last.elim
  | forget | clearShard | retainChunk | shrinkShard => exact last.elim

end Meter

/-- Whatever threads check and read keys at the same time, with readings in any order, the units granted to a
    key at readings in `[a, b]` are at most its burst plus the intervals between the two ends, as long as
    there is no idle limit and each shard has a place for every key that is checked. -/
theorem locked_store_never_over_admits {K ι : Type} [DecidableEq K] [DecidableEq ι] {config : StoreConfig K}
    {quotaOf : K → Quota} {keys : Finset K} (roomy : Roomy config keys) {c : LockConfig ι config Gcra GcraPc}
    (reach : Reachable (lockedStore AtomicAcquire.gcra .leakyBucket quotaOf).program
      (Implementation.initial LockedStore.new) c)
    (spends : ∀ effect ∈ committed c.mem.history, effect.1.Spends quotaOf keys) {key : K}
    (admits : admitsAnything .leakyBucket (quotaOf key) = true) {a b : ℕ} (order : a ≤ b) :
    grantedTo key (committed c.mem.history) a b ≤ (quotaOf key).burst +
      (GcraParams.new (quotaOf key)).intervalsAt (nanos b) -
      (GcraParams.new (quotaOf key)).intervalsAt (nanos a) := by
  obtain ⟨⟨store, explains, -⟩, -⟩ :=
    (lockedStore_simulates AtomicAcquire.gcra .leakyBucket quotaOf).reachable (.new _ quotaOf) reach
  obtain ⟨ref, -, -, meters⟩ := spends_metered roomy admits explains spends
  have burst := GcraParams.tolerance_add_one (GcraParams.new_isOpen_of_admits admits).not_closed
  have bound := meters.metered.bound order
  rw [burst] at bound
  exact bound

/-- Two threads check a new key of a burst of one at the same time: one unit is granted. -/
theorem locked_store_never_over_admits_first_touch :
    let config : StoreConfig ℕ := .new id 1 .unbounded 0
    let quota := Quota.perSecond 1 (by decide)
    ∃ c : LockConfig Bool config Gcra GcraPc,
      (committed c.mem.history).length = 2 ∧ grantedTo 7 (committed c.mem.history) 0 0 = 1 ∧
      grantedTo 7 (committed c.mem.history) 0 0 ≤ quota.burst +
        (GcraParams.new quota).intervalsAt (nanos 0) - (GcraParams.new quota).intervalsAt (nanos 0) := by
  intro config quota
  obtain ⟨c, reach, effects⟩ := first_touch
  have spends : ∀ effect ∈ committed c.mem.history, effect.1.Spends (fun _ => quota) {7} := by
    rw [effects]
    decide
  have roomy : Roomy config {7} := ⟨rfl, by decide +kernel⟩
  refine ⟨c, by rw [effects]; rfl, by rw [effects]; decide, ?_⟩
  exact locked_store_never_over_admits roomy reach spends (by decide) le_rfl

end RateNet
