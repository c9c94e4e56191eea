/-
Module: RateNet.Proofs.Linearizable
Purpose: The store under its locks is linearizable. Whatever threads check, read, reset, remove or walk at
  the same time, what they do takes effect on the sequential store one after another, each at an instant
  between its invocation and its response: a check, a read or a removal as that call, a walk section by
  section, and a reset as that call unless its key was stored between its two lock sections, when it only
  forgets a recorded debt. The mark a check leaves before it has spent is one no reader looks at, and a
  thread that writes has the shard alone, with every mark accounted for. Idle stamps are another exception:
  a stamp is loaded and stored in two steps, so under an idle limit it may be left at the reading of an
  earlier check than the last.
Trusted boundary: none
Main exports: Performs, performs_iff, ShardStep.keeps_keys, InGoodOrder, Follows, lockedStore_simulates,
  locked_store_linearizable
-/
import RateNet.Proofs.LockDiscipline
import RateNet.Proofs.UnboundedStore

namespace RateNet

open Interleaving Linearization

/-!
### The sequential store
-/

section Sequential

variable {K S : Type} [DecidableEq K] [KeyState S] {config : StoreConfig K} {algorithm : Algorithm}
  {quotaOf : K → Quota} {store : Store config S}

/-- What the sequential store does when an effect is due: the idle stamps may have been rewritten since, and
    then the effect is that of the call. -/
def Performs (algorithm : Algorithm) (quotaOf : K → Quota) (store : Store config S)
    (effect : Effect config.shardCount K) (answer : Answer K) (store' : Store config S) : Prop :=
  ∃ store₁ : Store config S, (∀ i, Restamped config (store i) (store₁ i)) ∧
    effect.apply algorithm quotaOf store₁ = (answer, store')

/-- Without an idle limit the sequential store does just what the effect says. -/
theorem performs_iff (unlimited : config.idleTtlMs = none) {effect : Effect config.shardCount K}
    {answer : Answer K} {store' : Store config S} :
    Performs algorithm quotaOf store effect answer store' ↔
      effect.apply algorithm quotaOf store = (answer, store') := by
  constructor
  · rintro ⟨store₁, restamped, applied⟩
    obtain rfl : store₁ = store := funext fun i => (restamped i).eq unlimited
    exact applied
  · exact fun applied => ⟨store, fun i => .refl _, applied⟩

omit [KeyState S] in
theorem Exclusive.effect_job (section_ : Exclusive config.shardCount K S) (map : ShardMap K S) :
    (section_.effect config map).job = section_.job := by
  cases section_ with
  | forget key now =>
      rw [Exclusive.effect]
      split <;> rfl
  | store | remove | clear | retain | shrink => rfl

/-- A write section does to the sequential store what its effect does. -/
theorem Exclusive.apply_effect (section_ : Exclusive config.shardCount K S)
    (made : ∀ key n now state, section_ = .store key n now state →
      KeyState.create (quotaOf key) now = some state) :
    (section_.effect config (store (section_.shard config))).apply algorithm quotaOf store =
      ((section_.body config (store (section_.shard config))).1,
        Function.update store (section_.shard config)
          (section_.body config (store (section_.shard config))).2) := by
  cases section_ with
  | store key n now state =>
      have made := made key n now state rfl
      simp only [Exclusive.effect, Effect.apply, NamedCall.request, Store.call, Exclusive.body, Exclusive.shard,
        Store.check]
      cases read : (store (config.shardFor key)).acquireStored config key n now with
      | mk found map =>
          cases found with
          | none => simp only [made]
          | some decision => simp only [ShardMap.checkWrite, read]
  | forget key now =>
      show Effect.apply algorithm quotaOf store
        (if ((store (config.shardFor key)).position (config.hasher key) key).isNone then _ else _) = _
      split
      · rename_i missing
        -- the key is still missing, so both sections of a reset would run now
        simp only [Effect.apply, NamedCall.request, Store.call, Store.reset, ShardMap.resetRead,
          Option.isNone_iff_eq_none.1 missing]
        rfl
      · rfl
  | remove key now => rfl
  | clear i => rfl
  | retain i cursor now => simp only [Exclusive.effect, Effect.apply, Exclusive.body, Exclusive.shard]
  | shrink i => rfl

variable [LawfulKeyState S]

/-- Every stored key has a quota that admits something. -/
def KeysAdmitted (quotaOf : K → Quota) (map : ShardMap K S) : Prop :=
  ∀ slot ∈ map.slots, admitsAnything (LawfulKeyState.algorithm S) (quotaOf slot.key) = true

omit [LawfulKeyState S] in
/-- What holds of every stored key, and of every key that a state is made for, holds after a step. -/
theorem ShardStep.keeps_keys {P : K → Prop} {i : Fin config.shardCount} {now : ℕ} {map map' : ShardMap K S}
    {handed : List (Handover K)} (step : ShardStep config quotaOf i now map handed map')
    (consistent : Consistent config i map)
    (new : ∀ {key} {state : S}, KeyState.create (quotaOf key) now = some state → P key)
    (old : ∀ slot ∈ map.slots, P slot.key) : ∀ slot ∈ map'.slots, P slot.key := by
  have set {pos : ℕ} {slot slot' : Slot K S} (held : map.slots[pos]? = some slot) (same : slot'.key = slot.key) :
      ∀ found ∈ (map.setSlot pos slot').slots, P found.key := by
    refine ShardMap.forall_setSlot old ?_
    rw [same]
    exact old slot (List.mem_of_getElem? held)
  cases step with
  | acquire found =>
      obtain ⟨pos, slot, slot', held, -, after, -, same, -⟩ := acquireStored_some consistent found
      rw [after]
      exact set held same
  | room step =>
      intro slot member
      obtain ⟨before, there, same, -⟩ := step.from_old member
      rw [← same]
      exact old before there
  | @store key n state home absent room made =>
      intro slot member
      rcases List.mem_append.1 member with there | stored
      · exact old slot there
      · obtain rfl := List.mem_singleton.1 stored
        exact new made
  | read held => exact set held rfl
  | reset held => exact set held rfl
  | forget hash => exact old
  | remove held => exact ShardMap.forall_removeAt old held
  | release spent => exact old
  | clear => exact fun _ member => by cases member
  | shrink => exact old

theorem ShardStep.keysAdmitted {i : Fin config.shardCount} {now : ℕ} {map map' : ShardMap K S}
    {handed : List (Handover K)} (step : ShardStep config quotaOf i now map handed map')
    (consistent : Consistent config i map) (admitted : KeysAdmitted quotaOf map) :
    KeysAdmitted quotaOf map' := by
  refine step.keeps_keys (P := fun key => admitsAnything (LawfulKeyState.algorithm S) (quotaOf key) = true)
    consistent (fun {key state} made => ?_) admitted
  rw [← LawfulKeyState.create_isSome (S := S) _ now]
  exact Option.isSome_iff_exists.2 ⟨state, made⟩

/-- The shards are in order, and hold no key whose quota admits nothing. -/
def InGoodOrder (quotaOf : K → Quota) (store : Store config S) : Prop :=
  ∀ i, Consistent config i (store i) ∧ KeysAdmitted quotaOf (store i)

omit [DecidableEq K] in
theorem InGoodOrder.new : InGoodOrder quotaOf (Store.new : Store config S) :=
  fun _ => ⟨.new, fun _ member => by cases member⟩

/-- Whatever a thread does to a shard is made of the steps of whole calls. -/
theorem Effect.shardRun (algorithm : Algorithm) (good : InGoodOrder quotaOf store)
    (effect : Effect config.shardCount K) (i : Fin config.shardCount) :
    ∃ now handed, ShardRun config quotaOf i now (store i) handed
      ((effect.apply algorithm quotaOf store).2 i) := by
  have consistent := fun i => (good i).1
  cases effect with
  | whole call now => exact ⟨now, _, call_shardRun consistent algorithm { request := call.request, now } i⟩
  | forget key now => exact ⟨now, [], ShardRun.updated (.single (.forget _)) i⟩
  | clearShard j => exact ⟨0, [], ShardRun.updated (.single .clear) i⟩
  | retainChunk j cursor now =>
      have chunk := (@retainChunk_shardRun _ _ _ _ config now _ quotaOf j cursor (store j)).updated i
      simp only [Effect.apply]
      exact ⟨now, [], chunk⟩
  | shrinkShard j => exact ⟨0, [], ShardRun.updated (.single .shrink) i⟩

/-- Every effect keeps the store in good order. -/
theorem InGoodOrder.apply (algorithm : Algorithm) (good : InGoodOrder quotaOf store)
    (effect : Effect config.shardCount K) : InGoodOrder quotaOf (effect.apply algorithm quotaOf store).2 := by
  intro i
  obtain ⟨now, handed, run⟩ := effect.shardRun algorithm good i
  exact run.keeps (fun map => Consistent config i map ∧ KeysAdmitted quotaOf map)
    (fun step both => ⟨step.consistent both.1, step.keysAdmitted both.1 both.2⟩) (good i)

omit [DecidableEq K] in
theorem InGoodOrder.restamped {store' : Store config S} (good : InGoodOrder quotaOf store)
    (restamped : ∀ i, Restamped config (store i) (store' i)) : InGoodOrder quotaOf store' := by
  intro i
  refine ⟨(restamped i).consistent (good i).1, fun slot member => ?_⟩
  obtain ⟨old, there, -, key⟩ := (restamped i).mem member
  rw [key]
  exact (good i).2 old there

theorem InGoodOrder.performs {store' : Store config S} (good : InGoodOrder quotaOf store)
    {effect : Effect config.shardCount K} {answer : Answer K}
    (performs : Performs algorithm quotaOf store effect answer store') : InGoodOrder quotaOf store' := by
  obtain ⟨store₁, restamped, applied⟩ := performs
  have kept := (good.restamped restamped).apply algorithm effect
  rw [applied] at kept
  exact kept

/-- A key whose quota admits nothing is not stored, so its check is denied. -/
theorem InGoodOrder.check_closed (good : InGoodOrder quotaOf store) {key : K} {now : ℕ}
    (unmade : (KeyState.create (quotaOf key) now : Option S) = none) (n : ℕ) :
    (Effect.whole (.check key n) now).apply algorithm quotaOf store =
      (.checked (.plain (closed n)), store) := by
  obtain ⟨consistent, admitted⟩ := good (config.shardFor key)
  have absent : ∀ slot ∈ (store (config.shardFor key)).slots, slot.key ≠ key := by
    rintro slot member rfl
    have admits := admitted slot member
    rw [← LawfulKeyState.create_isSome (S := S) _ now, unmade] at admits
    cases admits
  simp only [Effect.apply, NamedCall.request, Store.call,
    RateNet.check_closed (acquireStored_absent consistent absent n now) unmade]

end Sequential

/-!
### Sections on a key that is found
-/

section Found

variable {K S : Type} [DecidableEq K] [KeyState S] {config : StoreConfig K} {map : ShardMap K S} {key : K}
  {pos : ℕ} {slot : Slot K S}

/-- A slot as a check at `now` marks it. -/
def Slot.used (config : StoreConfig K) (slot : Slot K S) (now : ℕ) : Slot K S :=
  if config.idleTtlMs.isSome then slot.touch.touchIdle (millis now) else slot.touch

omit [DecidableEq K] [KeyState S] in
/-- Marking a slot shows it used, and changes nothing else but its idle stamp. -/
theorem Slot.used_shown (config : StoreConfig K) (slot : Slot K S) (now : ℕ) :
    SlotShown config True slot (slot.used config now) := by
  rw [Slot.used]
  split
  · rename_i limited
    have stamp : ∀ {stamp : ℕ}, config.idleTtlMs = none → stamp = slot.lastSeenMs := by
      intro stamp unlimited
      rw [unlimited] at limited
      cases limited
    rw [Slot.touchIdle]
    split
    · exact ⟨rfl, rfl, rfl, rfl, rfl, iff_of_true rfl (Or.inr trivial), stamp⟩
    · exact ⟨rfl, rfl, rfl, rfl, rfl, iff_of_true rfl (Or.inr trivial), stamp⟩
  · exact ⟨rfl, rfl, rfl, rfl, rfl, iff_of_true rfl (Or.inr trivial), fun _ => rfl⟩

theorem acquireStored_found (found : map.position (config.hasher key) key = some pos)
    (held : map.slots[pos]? = some slot) (n now : ℕ) :
    map.acquireStored config key n now = (some (KeyState.acquire slot.state n now).1,
      map.setSlot pos { slot.used config now with state := (KeyState.acquire slot.state n now).2 }) := by
  have state := (slot.used_shown config now).state
  rw [ShardMap.acquireStored, found]
  simp only [held]
  rw [Slot.used] at state ⊢
  rw [state]

theorem peekSection_found (found : map.position (config.hasher key) key = some pos)
    (held : map.slots[pos]? = some slot) (now : ℕ) :
    map.peekSection config key now = (.tracked (KeyState.peek slot.state now).1,
      map.setSlot pos { slot with state := (KeyState.peek slot.state now).2 }) := by
  rw [ShardMap.peekSection, found]
  simp only [held]

theorem peekSection_absent (absent : map.position (config.hasher key) key = none) (now : ℕ) :
    map.peekSection config key now = ((map.recovery.peek (config.hasher key) (millis now)).elim .unknown
      fun charge => .owed charge.debt, map) := by
  rw [ShardMap.peekSection, absent]
  rfl

theorem resetRead_found (found : map.position (config.hasher key) key = some pos)
    (held : map.slots[pos]? = some slot) (now : ℕ) :
    map.resetRead config key now =
      (true, map.setSlot pos { slot with state := KeyState.reset slot.state now }) := by
  rw [ShardMap.resetRead, found]
  simp only [held]

end Found

/-!
### The simulation
-/

section Simulation

variable {K S P ι : Type} [DecidableEq K] [KeyState S] [LawfulKeyState S] {config : StoreConfig K}

/-- Where a thread is, between jobs and in them. -/
abbrev LockPlace (config : StoreConfig K) (S P : Type) :=
  Place (Job config.shardCount K) (Answer K) (LockPc config.shardCount K S P)

/-- What each thread holds, where it is. -/
def holding {β : Type} (hold : LockPc config.shardCount K S P → Option β) (loc : ι → LockPlace config S P) :
    ι → Option β := fun t => (loc t).loc.bind hold

variable [DecidableEq ι] {atomics : AtomicAcquire S P} {algorithm : Algorithm} {quotaOf : K → Quota}
  {mem mem' : LockedStore ι config S} {loc : ι → LockPlace config S P} {store store' : Store config S} {t : ι}
  {pc pc' : LockPc config.shardCount K S P} {place : LockPlace config S P}

omit [DecidableEq K] [KeyState S] [LawfulKeyState S] in
theorem holding_update {β : Type} (hold : LockPc config.shardCount K S P → Option β)
    (loc : ι → LockPlace config S P) (t : ι) (place : LockPlace config S P) :
    holding hold (Function.update loc t place) = Function.update (holding hold loc) t (place.loc.bind hold) := by
  funext u
  by_cases same : u = t
  · subst same
    rw [holding, Function.update_self, Function.update_self]
  · rw [holding, Function.update_of_ne same, Function.update_of_ne same, holding]

omit [DecidableEq K] [KeyState S] [LawfulKeyState S] in
/-- Where the thread that moves holds a thing neither before nor after, it is held as before. -/
theorem held_update {β : Type} {held : ι → Option β} {hold : Option β} {x : β} (before : held t ≠ some x)
    (after : hold ≠ some x) : (∃ u, held u = some x) ↔ ∃ u, Function.update held t hold u = some x := by
  constructor
  · rintro ⟨u, holds⟩
    refine ⟨u, ?_⟩
    rw [Function.update_of_ne, holds]
    rintro rfl
    exact before holds
  · rintro ⟨u, holds⟩
    rw [Function.update_apply] at holds
    split at holds
    · exact absurd holds after
    · exact ⟨u, holds⟩

omit [DecidableEq ι] in
/-- A thread is at the job it was called for until the job takes effect. -/
def AtJob : LockPlace config S P → Prop
  | .idle => True
  | .running job pc => pc.job config = some job
  | .committed _ pc => pc.job config = none

omit [DecidableEq ι] in
/-- The locks are held by the threads that are where they hold them, what the threads see of a shard is the
    sequential store's but for the marks of checks under way, and every thread knows what it looked up. -/
structure Follows (atomics : AtomicAcquire S P) (quotaOf : K → Quota) (mem : LockedStore ι config S)
    (loc : ι → LockPlace config S P) (store : Store config S) : Prop where
  locked : Locked mem.locks (holding (LockPc.shares config) loc) (holding (LockPc.owns config) loc)
  shown : ∀ i, ShardShown config (fun pos => ∃ t, holding (LockPc.touched config) loc t = some (i, pos))
    (store i) (mem.shards i)
  known : ∀ t, ∀ pc ∈ (loc t).loc, pc.Knows atomics quotaOf mem.shards
  doing : ∀ t, AtJob (loc t)
  good : InGoodOrder quotaOf store

omit [LawfulKeyState S] in
/-- A silent step stays at its job. -/
theorem LockPc.Silent.keeps_job (step : LockPc.Silent atomics quotaOf t mem pc mem' pc') :
    pc'.job config = pc.job config := by
  cases step with
  | enter job now => exact LockPc.job_entered job now
  | read key n pos now => split <;> rfl
  | share free => rename_i section_; cases section_ <;> rfl
  | check | found | missed | mark | stampOlder | stampKept | restamp | spin | miss | make | pass | passed
  | lock | leave | unlock => rfl

namespace Follows

/-- A thread moves: what holds of the locks, of the shards and of what every thread knows, after it has. -/
theorem move (follows : Follows atomics quotaOf mem loc store) (there : place.loc = some pc')
    (locked : Locked mem'.locks
      (Function.update (holding (LockPc.shares config) loc) t (pc'.shares config))
      (Function.update (holding (LockPc.owns config) loc) t (pc'.owns config)))
    (shown : ∀ i, ShardShown config (fun pos => ∃ u,
      Function.update (holding (LockPc.touched config) loc) t (pc'.touched config) u = some (i, pos))
      (store' i) (mem'.shards i))
    (knows : pc'.Knows atomics quotaOf mem'.shards)
    (others : ∀ u ≠ t, ∀ pc ∈ (loc u).loc, pc.Knows atomics quotaOf mem'.shards)
    (doing : AtJob place) (good : InGoodOrder quotaOf store') :
    Follows atomics quotaOf mem' (Function.update loc t place) store' where
  locked := by
    rw [holding_update, holding_update, there]
    exact locked
  shown := by
    rw [holding_update, there]
    exact shown
  known := by
    refine (Function.forall_update_iff loc fun u place => ∀ pc ∈ place.loc,
      pc.Knows atomics quotaOf mem'.shards).2 ⟨?_, others⟩
    rw [there]
    rintro _ ⟨⟩
    exact knows
  doing := (Function.forall_update_iff loc fun _ => AtJob).2 ⟨doing, fun u _ => follows.doing u⟩
  good := good

/-- A thread that neither takes nor releases a lock nor changes a shard. -/
theorem still (follows : Follows atomics quotaOf mem loc store) (here : (loc t).loc = some pc)
    (there : place.loc = some pc') (shares : pc'.shares config = pc.shares config)
    (owns : pc'.owns config = pc.owns config) (touched : pc'.touched config = pc.touched config)
    (knows : pc'.Knows atomics quotaOf mem.shards) (doing : AtJob place) :
    Follows atomics quotaOf mem (Function.update loc t place) store := by
  have same : ∀ {β : Type} (hold : LockPc config.shardCount K S P → Option β), hold pc' = hold pc →
      Function.update (holding hold loc) t (hold pc') = holding hold loc := by
    intro β hold equal
    rw [equal, show hold pc = holding hold loc t by rw [holding, here]; rfl]
    exact Function.update_eq_self t _
  refine follows.move there ?_ ?_ knows (fun u _ => follows.known u) doing follows.good
  · rw [same _ shares, same _ owns]
    exact follows.locked
  · rw [same _ touched]
    exact follows.shown

/-- A thread that holds nothing starts a job or ends it. -/
theorem rest (follows : Follows atomics quotaOf mem loc store)
    (free : (loc t).loc.bind (LockPc.shares config) = none ∧ (loc t).loc.bind (LockPc.owns config) = none ∧
      (loc t).loc.bind (LockPc.touched config) = none)
    (free' : place.loc.bind (LockPc.shares config) = none ∧ place.loc.bind (LockPc.owns config) = none ∧
      place.loc.bind (LockPc.touched config) = none)
    (knows : ∀ pc ∈ place.loc, pc.Knows atomics quotaOf mem.shards) (doing : AtJob place) :
    Follows atomics quotaOf mem (Function.update loc t place) store := by
  have same : ∀ {β : Type} (hold : LockPc config.shardCount K S P → Option β),
      (loc t).loc.bind hold = none → place.loc.bind hold = none →
      holding hold (Function.update loc t place) = holding hold loc := by
    intro β hold before after
    rw [holding_update, after, ← before]
    exact Function.update_eq_self t _
  constructor
  · rw [same _ free.1 free'.1, same _ free.2.1 free'.2.1]
    exact follows.locked
  · rw [same _ free.2.2 free'.2.2]
    exact follows.shown
  · exact (Function.forall_update_iff loc fun u place => ∀ pc ∈ place.loc,
      pc.Knows atomics quotaOf mem.shards).2 ⟨knows, fun u _ => follows.known u⟩
  · exact (Function.forall_update_iff loc fun _ => AtJob).2 ⟨doing, fun u _ => follows.doing u⟩
  · exact follows.good

/-- A thread that takes or releases a lock. -/
theorem relock (follows : Follows atomics quotaOf mem loc store) (here : (loc t).loc = some pc)
    (there : place.loc = some pc') {locks : Fin config.shardCount → RwLock ι}
    (locked : Locked locks
      (Function.update (holding (LockPc.shares config) loc) t (pc'.shares config))
      (Function.update (holding (LockPc.owns config) loc) t (pc'.owns config)))
    (untouched : pc.touched config = none) (untouched' : pc'.touched config = none)
    (knows : pc'.Knows atomics quotaOf mem.shards) (doing : AtJob place) :
    Follows atomics quotaOf { mem with locks } (Function.update loc t place) store := by
  refine follows.move there locked ?_ knows (fun u _ => follows.known u) doing follows.good
  have same : Function.update (holding (LockPc.touched config) loc) t (pc'.touched config) =
      holding (LockPc.touched config) loc := by
    rw [untouched', show none = holding (LockPc.touched config) loc t by rw [holding, here, ← untouched]; rfl]
    exact Function.update_eq_self t _
  rw [same]
  exact follows.shown

/-- A thread that shares a shard writes one of its slots, and the sequential shard moves along. -/
theorem rewrite (follows : Follows atomics quotaOf mem loc store) (here : (loc t).loc = some pc)
    (there : place.loc = some pc') {i : Fin config.shardCount} (shares : pc.shares config = some i)
    (shares' : pc'.shares config = some i) (map : ShardMap K S) {map' : ShardMap K S} (step : ReaderStep (mem.shards i) map')
    (shown : ShardShown config (fun pos => ∃ u,
      Function.update (holding (LockPc.touched config) loc) t (pc'.touched config) u = some (i, pos)) map map')
    (knows : pc'.Knows atomics quotaOf (Function.update mem.shards i map')) (doing : AtJob place)
    (good : InGoodOrder quotaOf (Function.update store i map)) :
    Follows atomics quotaOf (mem.write i map') (Function.update loc t place)
      (Function.update store i map) := by
  have holds : holding (LockPc.shares config) loc t = some i := by rw [holding, here, ← shares]; rfl
  have holds' : holding (LockPc.owns config) loc t = none := by
    rw [holding, here, ← LockPc.owns_of_shares shares]; rfl
  refine follows.move there ?_ ?_ knows ?_ doing good
  · rw [shares', LockPc.owns_of_shares shares', ← holds, ← holds', Function.update_eq_self,
      Function.update_eq_self]
    exact follows.locked
  · intro j
    by_cases same : j = i
    · subst same
      show ShardShown _ _ (Function.update store j map j) (Function.update mem.shards j map' j)
      rw [Function.update_self, Function.update_self]
      exact shown
    · show ShardShown _ _ (Function.update store i map j) (Function.update mem.shards i map' j)
      rw [Function.update_of_ne same, Function.update_of_ne same]
      refine (follows.shown j).congr fun pos => ?_
      -- the thread marks slots of its own shard only
      refine held_update ?_ ?_
      · rw [holding, here]
        intro touches
        have at_j := LockPc.shares_of_touched touches
        rw [shares] at at_j
        exact same (Option.some.inj at_j).symm
      · intro touches
        have at_j := LockPc.shares_of_touched touches
        rw [shares'] at at_j
        exact same (Option.some.inj at_j).symm
  · intro u _ pc there
    exact (follows.known u pc there).stable fun _ => step

omit [KeyState S] [LawfulKeyState S] in
/-- A lookup stands for a slot. -/
theorem slot_of_position {map : ShardMap K S} {hash : ℕ} {key : K} {pos : ℕ}
    (found : map.position hash key = some pos) : ∃ slot, map.slots[pos]? = some slot := by
  obtain ⟨-, holds⟩ := DenseIndex.HashTable.find_eq_some found
  cases held : map.slots[pos]? with
  | none =>
      rw [held] at holds
      cases holds
  | some slot => exact ⟨slot, rfl⟩

/-- A check marks the slot it found. -/
theorem mark (follows : Follows atomics quotaOf mem loc store) {key : K} {n pos : ℕ} {slot : Slot K S}
    (here : (loc t).loc = some (.marking key n pos)) (there : place.loc = some (.reading key n pos))
    (held : (mem.shards (config.shardFor key)).slots[pos]? = some slot) (doing : AtJob place) :
    Follows atomics quotaOf
      (mem.write (config.shardFor key) ((mem.shards (config.shardFor key)).setSlot pos slot.touch))
      (Function.update loc t place) store := by
  have step : ReaderStep (mem.shards (config.shardFor key))
      ((mem.shards (config.shardFor key)).setSlot pos slot.touch) := .write held rfl rfl (Or.inl rfl)
  have moved := follows.rewrite here there rfl rfl (store (config.shardFor key)) step ?_ ?_ doing ?_
  · rw [Function.update_eq_self] at moved
    exact moved
  · refine (follows.shown _).setSlot_right held ?_ ?_
    · intro old shown
      exact { shown with referenced := iff_of_true rfl (Or.inr ⟨t, Function.update_self _ _ _⟩) }
    · intro other different
      refine held_update ?_ ?_
      · rw [holding, here]
        exact Option.some_ne_none _ ∘ Eq.symm
      · intro touches
        exact different (Prod.mk.inj (Option.some.inj touches)).2.symm
  · show (Function.update mem.shards _ _ (config.shardFor key)).position _ _ = _
    rw [Function.update_self, step.position]
    exact follows.known t _ here
  · rw [Function.update_eq_self]
    exact follows.good

/-- A check overwrites the idle stamp of the slot it found. -/
theorem restamp (follows : Follows atomics quotaOf mem loc store) {key : K} {n pos now : ℕ} {slot : Slot K S}
    (here : (loc t).loc = some (.restamping key n pos now))
    (there : place.loc = some (.acquiring key n pos now atomics.entry))
    (held : (mem.shards (config.shardFor key)).slots[pos]? = some slot) (doing : AtJob place) :
    Follows atomics quotaOf (mem.write (config.shardFor key)
        ((mem.shards (config.shardFor key)).setSlot pos { slot with lastSeenMs := millis now }))
      (Function.update loc t place) store := by
  obtain ⟨position, limited⟩ := follows.known t _ here
  have step : ReaderStep (mem.shards (config.shardFor key))
      ((mem.shards (config.shardFor key)).setSlot pos { slot with lastSeenMs := millis now }) :=
    .write held rfl rfl (Or.inl rfl)
  have moved := follows.rewrite here there rfl rfl (store (config.shardFor key)) step ?_ ?_ doing ?_
  · rw [Function.update_eq_self] at moved
    exact moved
  · have same : Function.update (holding (LockPc.touched config) loc) t
        (some (config.shardFor key, pos)) = holding (LockPc.touched config) loc := by
      have touching : holding (LockPc.touched config) loc t = some (config.shardFor key, pos) := by
        rw [holding, here]
        rfl
      rw [← touching, Function.update_eq_self]
    show ShardShown config (fun p => ∃ u, Function.update (holding (LockPc.touched config) loc) t
      (some (config.shardFor key, pos)) u = some (config.shardFor key, p)) _ _
    rw [same]
    refine (follows.shown _).setSlot_right held ?_ fun _ _ => Iff.rfl
    intro old shown
    exact { shown with stamp := fun unlimited => absurd unlimited limited }
  · show (Function.update mem.shards _ _ (config.shardFor key)).position _ _ = _ ∧ _
    rw [Function.update_self, step.position]
    exact ⟨position, _, List.getElem?_set_self (List.getElem?_eq_some_iff.1 held).1, atomics.own_entry _ _ _⟩
  · rw [Function.update_eq_self]
    exact follows.good

theorem silent (follows : Follows atomics quotaOf mem loc store) (here : (loc t).loc = some pc)
    (there : place.loc = some pc') (doing : AtJob place)
    (step : LockPc.Silent atomics quotaOf t mem pc mem' pc') :
    Follows atomics quotaOf mem' (Function.update loc t place) store := by
  have knows := follows.known t pc here
  have sharing : holding (LockPc.shares config) loc t = pc.shares config := by rw [holding, here]; rfl
  have owning : holding (LockPc.owns config) loc t = pc.owns config := by rw [holding, here]; rfl
  have unowned : pc.owns config = pc'.owns config → Function.update (holding (LockPc.owns config) loc) t
      (pc'.owns config) = holding (LockPc.owns config) loc := by
    intro same
    rw [← same, ← owning, Function.update_eq_self]
  have unshared : pc.shares config = pc'.shares config → Function.update (holding (LockPc.shares config) loc) t
      (pc'.shares config) = holding (LockPc.shares config) loc := by
    intro same
    rw [← same, ← sharing, Function.update_eq_self]
  cases step with
  | enter job now =>
      have still : (job.entered now : LockPc config.shardCount K S P).shares config = none ∧
          (job.entered now : LockPc config.shardCount K S P).owns config = none ∧
          (job.entered now : LockPc config.shardCount K S P).touched config = none := by
        rcases job with (_ | _ | _ | _) | _ | _ | _ <;> exact ⟨rfl, rfl, rfl⟩
      exact follows.still here there still.1 still.2.1 still.2.2 (LockPc.knows_entered _ _ _ job now) doing
  | check free =>
      refine follows.relock here there ?_ rfl rfl trivial doing
      rw [unowned rfl]
      exact follows.locked.share sharing free
  | found position => exact follows.still here there rfl rfl rfl position doing
  | missed position => exact follows.still here there rfl rfl rfl trivial doing
  | mark held => exact follows.mark here there held doing
  | read key n pos now =>
      split at there
      · rename_i limited
        exact follows.still here there rfl rfl rfl ⟨knows, Option.isSome_iff_ne_none.1 limited⟩ doing
      · obtain ⟨slot, held⟩ := slot_of_position knows
        exact follows.still here there rfl rfl rfl ⟨knows, slot, held, atomics.own_entry _ _ _⟩ doing
  | stampOlder held older => exact follows.still here there rfl rfl rfl knows doing
  | stampKept held kept =>
      exact follows.still here there rfl rfl rfl ⟨knows.1, _, held, atomics.own_entry _ _ _⟩ doing
  | restamp held => exact follows.restamp here there held doing
  | spin held step =>
      obtain ⟨position, slot, held', own⟩ := knows
      obtain rfl := Option.some.inj (held'.symm.trans held)
      exact follows.still here there rfl rfl rfl ⟨position, _, held, atomics.own_silent own step⟩ doing
  | miss key n =>
      refine follows.relock here there ?_ rfl rfl trivial doing
      rw [unowned rfl]
      exact follows.locked.unshare sharing
  | make made => exact follows.still here there rfl rfl rfl made doing
  | share free =>
      refine follows.relock here there ?_ rfl rfl trivial doing
      rw [unowned rfl]
      exact follows.locked.share sharing free
  | pass missed => exact follows.still here there rfl rfl rfl trivial doing
  | passed key now =>
      refine follows.relock here there ?_ rfl rfl trivial doing
      rw [unowned rfl]
      exact follows.locked.unshare sharing
  | @lock section_ free unread =>
      refine follows.relock here there ?_ rfl rfl ?_ doing
      · rw [unshared rfl]
        exact follows.locked.lock owning free unread
      · cases section_ <;> exact knows
  | leave i =>
      refine follows.relock here there ?_ rfl rfl trivial doing
      rw [unowned rfl]
      exact follows.locked.unshare sharing
  | unlock i =>
      refine follows.relock here there ?_ rfl rfl trivial doing
      rw [unshared rfl]
      exact follows.locked.unlock owning

/-- A check spends from the state of the slot it found. -/
theorem acquire (follows : Follows atomics quotaOf mem loc store) {key : K} {n pos now : ℕ} {slot : Slot K S}
    {inner : P} {decision : Decision} {state : S} {answer : Answer K}
    (here : (loc t).loc = some (.acquiring key n pos now inner))
    (held : (mem.shards (config.shardFor key)).slots[pos]? = some slot)
    (step : atomics.Commit n now slot.state inner decision state) :
    ∃ store', (Effect.whole (.check key n) now).apply algorithm quotaOf store =
        (.checked (.plain decision), store') ∧
      Follows atomics quotaOf (mem.write (config.shardFor key)
          ((mem.shards (config.shardFor key)).setSlot pos { slot with state }))
        (Function.update loc t (.committed answer (.leaving (config.shardFor key)))) store' := by
  obtain ⟨position, slot', held', own⟩ := follows.known t _ here
  obtain rfl := Option.some.inj (held'.symm.trans held)
  have acquired := atomics.acquired own step
  have shown := follows.shown (config.shardFor key)
  obtain ⟨old, held₀, same⟩ := shown.held held
  rw [shown.position] at position
  have checked := acquireStored_found position held₀ n now
  rw [← same.state, acquired] at checked
  have applied : (Effect.whole (.check key n) now).apply algorithm quotaOf store =
      (.checked (.plain decision), Function.update store (config.shardFor key)
        ((store (config.shardFor key)).setSlot pos { old.used config now with state })) := by
    simp only [Effect.apply, NamedCall.request, Store.call, Store.check, checked]
  refine ⟨_, applied, follows.rewrite here rfl rfl rfl _ (.write held rfl rfl ?_) ?_ ?_ ?_ ?_⟩
  · exact Or.inr (Or.inl ⟨n, now, (congrArg Prod.snd acquired).symm⟩)
  · refine shown.setSlot held₀ ?_ ?_
    · have used := old.used_shown config now
      have mine : slot'.referenced = true := by
        refine same.referenced.2 (Or.inr ⟨t, ?_⟩)
        rw [holding, here]
        rfl
      exact
        { state := rfl
          seeded := same.seeded.trans used.seeded.symm
          recoversAtMs := same.recoversAtMs.trans used.recoversAtMs.symm
          hash := same.hash.trans used.hash.symm
          key := same.key.trans used.key.symm
          referenced := iff_of_true mine (Or.inl (used.referenced.2 (Or.inr trivial)))
          stamp := fun unlimited => (same.stamp unlimited).trans (used.stamp unlimited).symm }
    · intro other different
      refine held_update ?_ (Option.some_ne_none _ ∘ Eq.symm)
      rw [holding, here]
      intro touches
      exact different (Prod.mk.inj (Option.some.inj touches)).2.symm
  · trivial
  · rfl
  · have kept := follows.good.apply algorithm (Effect.whole (.check key n) now)
    rw [applied] at kept
    exact kept

/-- A section under the read lock that changes the state of the slot it found. -/
theorem shared (follows : Follows atomics quotaOf mem loc store) (section_ : Shared K) (state : S → S)
    {pos : ℕ} {slot : Slot K S} {answer : Answer K} {effect : Effect config.shardCount K}
    (here : (loc t).loc = some (.inside section_))
    (held : (mem.shards (config.shardFor section_.key)).slots[pos]? = some slot)
    (moves : (∃ now, ∀ s, state s = (KeyState.peek s now).2) ∨ ∃ now, ∀ s, state s = KeyState.reset s now)
    (applied : ∀ old, (store (config.shardFor section_.key)).slots[pos]? = some old → old.state = slot.state →
      effect.apply algorithm quotaOf store = (answer, Function.update store (config.shardFor section_.key)
        ((store (config.shardFor section_.key)).setSlot pos { old with state := state old.state }))) :
    ∃ store', effect.apply algorithm quotaOf store = (answer, store') ∧
      Follows atomics quotaOf (mem.write (config.shardFor section_.key)
          ((mem.shards (config.shardFor section_.key)).setSlot pos { slot with state := state slot.state }))
        (Function.update loc t (.committed answer (.leaving (config.shardFor section_.key)))) store' := by
  have shown := follows.shown (config.shardFor section_.key)
  obtain ⟨old, held₀, same⟩ := shown.held held
  have applied := applied old held₀ same.state.symm
  refine ⟨_, applied, follows.rewrite here rfl rfl rfl _ (.write held rfl rfl ?_) ?_ ?_ ?_ ?_⟩
  · rcases moves with ⟨now, read⟩ | ⟨now, whole⟩
    · exact Or.inr (Or.inr (Or.inl ⟨now, read _⟩))
    · exact Or.inr (Or.inr (Or.inr ⟨now, whole _⟩))
  · have still : Function.update (holding (LockPc.touched config) loc) t none =
        holding (LockPc.touched config) loc := by
      have touching : holding (LockPc.touched config) loc t = none := by
        rw [holding, here]
        rfl
      rw [← touching, Function.update_eq_self]
    show ShardShown config (fun p => ∃ u, Function.update (holding (LockPc.touched config) loc) t none u =
      some (config.shardFor section_.key, p)) _ _
    rw [still]
    refine shown.setSlot held₀ ?_ fun _ _ => Iff.rfl
    exact { same with state := congrArg state same.state }
  · trivial
  · rfl
  · have kept := follows.good.apply algorithm effect
    rw [applied] at kept
    exact kept

/-- A thread that writes a shard has it alone. -/
theorem write (follows : Follows atomics quotaOf mem loc store)
    {section_ : Exclusive config.shardCount K S} {answer : Answer K}
    (here : (loc t).loc = some (.writing section_)) :
    ∃ store', Performs algorithm quotaOf store (section_.effect config (mem.shards (section_.shard config)))
        (section_.body config (mem.shards (section_.shard config))).1 store' ∧
      Follows atomics quotaOf (mem.write (section_.shard config)
          (section_.body config (mem.shards (section_.shard config))).2)
        (Function.update loc t (.committed answer (.unlocking (section_.shard config)))) store' := by
  have knows := follows.known t _ here
  set i := section_.shard config with shard
  have owning : holding (LockPc.owns config) loc t = some i := by
    rw [holding, here, shard]
    rfl
  have alone := follows.locked.alone owning
  have untouched : ∀ u pos, holding (LockPc.touched config) loc u ≠ some (i, pos) := by
    intro u pos touches
    rw [holding, Option.bind_eq_some_iff] at touches
    obtain ⟨pc, at_, touches⟩ := touches
    refine alone u ?_
    rw [holding, at_]
    exact LockPc.shares_of_touched touches
  have restamped : ∀ j, Restamped config (store j) (Function.update store i (mem.shards i) j) := by
    refine (Function.forall_update_iff store fun j map => Restamped config (store j) map).2 ⟨?_, fun j _ => .refl _⟩
    exact (follows.shown i).congr fun pos => ⟨fun ⟨u, touches⟩ => untouched u pos touches, False.elim⟩
  have applied : (section_.effect config (mem.shards i)).apply algorithm quotaOf
      (Function.update store i (mem.shards i)) = ((section_.body config (mem.shards i)).1,
        Function.update store i (section_.body config (mem.shards i)).2) := by
    have effect := @Exclusive.apply_effect _ S _ _ config algorithm quotaOf
      (Function.update store i (mem.shards i)) section_
    rw [← shard, Function.update_self, Function.update_idem] at effect
    apply effect
    rintro key n now state rfl
    exact knows
  have performs : Performs algorithm quotaOf store (section_.effect config (mem.shards i))
      (section_.body config (mem.shards i)).1
      (Function.update store i (section_.body config (mem.shards i)).2) := ⟨_, restamped, applied⟩
  refine ⟨_, performs, follows.move rfl ?_ ?_ trivial ?_ ?_ (follows.good.performs performs)⟩
  · have sharing : holding (LockPc.shares config) loc t = none := by
      rw [holding, here]
      rfl
    show Locked mem.locks (Function.update _ t none) (Function.update _ t (some i))
    rw [← sharing, ← owning, Function.update_eq_self, Function.update_eq_self]
    exact follows.locked
  · have touching : holding (LockPc.touched config) loc t = none := by
      rw [holding, here]
      rfl
    intro j
    show ShardShown config (fun pos => ∃ u, Function.update (holding (LockPc.touched config) loc) t none u =
      some (j, pos)) _ (Function.update mem.shards i (section_.body config (mem.shards i)).2 j)
    rw [← touching, Function.update_eq_self]
    by_cases same : j = i
    · rw [same, Function.update_self, Function.update_self]
      exact (ShardShown.refl _).congr fun pos => ⟨False.elim, fun ⟨u, touches⟩ => untouched u pos touches⟩
    · rw [Function.update_of_ne same, Function.update_of_ne same]
      exact follows.shown j
  · intro u _ pc at_
    refine (follows.known u pc at_).stable fun shares => absurd ?_ (alone u)
    rw [holding, at_]
    exact shares
  · rfl

/-- A peek answers what the sequential store knows. -/
theorem peek (follows : Follows atomics quotaOf mem loc store) {key : K} {now : ℕ}
    (here : (loc t).loc = some (.inside (.peek key now))) {answer : Answer K}
    (answered : answer = .peeked (((mem.shards (config.shardFor key)).peekSection config key now).1.snapshot S
      algorithm (quotaOf key) now)) :
    ∃ store', (Effect.whole (.peek key) now).apply algorithm quotaOf store = (answer, store') ∧
      Follows atomics quotaOf (mem.write (config.shardFor key)
          ((mem.shards (config.shardFor key)).peekSection config key now).2)
        (Function.update loc t (.committed answer (.leaving (config.shardFor key)))) store' := by
  have shown := follows.shown (config.shardFor key)
  cases position : (mem.shards (config.shardFor key)).position (config.hasher key) key with
  | some pos =>
      obtain ⟨slot, held⟩ := slot_of_position position
      rw [peekSection_found position held now] at answered ⊢
      refine follows.shared (.peek key now) (fun s => (KeyState.peek s now).2) here held
        (Or.inl ⟨now, fun _ => rfl⟩) ?_
      intro old held₀ same
      rw [shown.position] at position
      rw [answered, ← same]
      simp only [Effect.apply, NamedCall.request, Store.call, Store.peekRef, Store.peek,
        peekSection_found position held₀ now,
        Known.snapshot, Shared.key]
  | none =>
      rw [peekSection_absent position now, shown.recovery] at answered
      rw [peekSection_absent position now]
      rw [shown.position] at position
      refine ⟨store, ?_, ?_⟩
      · simp only [Effect.apply, NamedCall.request, Store.call, Store.peekRef, Store.peek, peekSection_absent position now,
          Function.update_eq_self]
        rw [answered]
        cases ((store (config.shardFor key)).recovery.peek (config.hasher key) (millis now)) with
        | none => rfl
        | some charge => rfl
      · have same : mem.write (config.shardFor key) (mem.shards (config.shardFor key)) = mem := by
          rw [LockedStore.write, Function.update_eq_self]
        dsimp only
        rw [same]
        exact follows.still here rfl rfl rfl rfl trivial rfl

/-- A reset that found its key. -/
theorem reset (follows : Follows atomics quotaOf mem loc store) {key : K} {now : ℕ}
    (here : (loc t).loc = some (.inside (.reset key now)))
    (found : ((mem.shards (config.shardFor key)).resetRead config key now).1 = true) :
    ∃ store', (Effect.whole (.reset key) now).apply algorithm quotaOf store = (.found true, store') ∧
      Follows atomics quotaOf (mem.write (config.shardFor key)
          ((mem.shards (config.shardFor key)).resetRead config key now).2)
        (Function.update loc t (.committed (.found true) (.leaving (config.shardFor key)))) store' := by
  have shown := follows.shown (config.shardFor key)
  cases position : (mem.shards (config.shardFor key)).position (config.hasher key) key with
  | none =>
      rw [ShardMap.resetRead, position] at found
      cases found
  | some pos =>
      obtain ⟨slot, held⟩ := slot_of_position position
      rw [resetRead_found position held now]
      refine follows.shared (.reset key now) (fun s => KeyState.reset s now) here held
        (Or.inr ⟨now, fun _ => rfl⟩) ?_
      intro old held₀ _
      rw [shown.position] at position
      simp only [Effect.apply, NamedCall.request, Store.call, Store.reset, resetRead_found position held₀ now,
        Shared.key]

theorem commit (follows : Follows atomics quotaOf mem loc store) {job : Job config.shardCount K}
    (here : loc t = .running job pc) {effect : Effect config.shardCount K} {answer : Answer K}
    (step : LockPc.Commit atomics algorithm quotaOf mem pc effect answer mem' pc') :
    effect.job = job ∧ ∃ store', Performs algorithm quotaOf store effect answer store' ∧
      Follows atomics quotaOf mem' (Function.update loc t (.committed answer pc')) store' := by
  have at_ : (loc t).loc = some pc := by
    rw [here]
    rfl
  have doing : pc.job config = some job := by
    have doing := follows.doing t
    rw [here] at doing
    exact doing
  have exactly : ∀ {effect : Effect config.shardCount K} {answer : Answer K} {mem' : LockedStore ι config S}
      {loc' : ι → LockPlace config S P},
      (∃ store', effect.apply algorithm quotaOf store = (answer, store') ∧
        Follows atomics quotaOf mem' loc' store') →
      ∃ store', Performs algorithm quotaOf store effect answer store' ∧
        Follows atomics quotaOf mem' loc' store' := by
    rintro effect answer mem' loc' ⟨store', applied, moved⟩
    exact ⟨store', ⟨store, fun _ => .refl _, applied⟩, moved⟩
  cases step with
  | acquire held step => exact ⟨Option.some.inj doing, exactly (follows.acquire at_ held step)⟩
  | @closed key n now unmade =>
      refine ⟨Option.some.inj doing, exactly ⟨store, follows.good.check_closed unmade n, ?_⟩⟩
      exact follows.still at_ rfl rfl rfl rfl trivial rfl
  | peek key now => exact ⟨Option.some.inj doing, exactly (follows.peek at_ rfl)⟩
  | reset found => exact ⟨Option.some.inj doing, exactly (follows.reset at_ found)⟩
  | write section_ =>
      refine ⟨(section_.effect_job _).trans (Option.some.inj doing), follows.write at_⟩

end Follows

/-- The locked store simulates the sequential one. -/
theorem lockedStore_simulates (atomics : AtomicAcquire S P) (algorithm : Algorithm) (quotaOf : K → Quota) :
    Simulation (lockedStore atomics algorithm quotaOf : Implementation ι _ _ _ (LockedStore ι config S) _)
      (Performs algorithm quotaOf) Effect.job (Follows atomics quotaOf) where
  invoke := by
    intro mem loc store t job follows idle
    refine follows.rest ?_ ⟨rfl, rfl, rfl⟩ ?_ ?_
    · rw [idle]
      exact ⟨rfl, rfl, rfl⟩
    · rintro _ ⟨⟩
      trivial
    · rfl
  silent := by
    intro mem mem' loc store t job pc pc' follows here step
    have at_ : (loc t).loc = some pc := by
      rw [here]
      rfl
    have doing := follows.doing t
    rw [here] at doing
    exact follows.silent at_ rfl (step.keeps_job.trans doing) step
  commit := by
    intro mem mem' loc store t job pc pc' effect answer follows here step
    exact follows.commit here step
  unwind := by
    intro mem mem' loc store t answer pc pc' follows here step
    have at_ : (loc t).loc = some pc := by
      rw [here]
      rfl
    have doing := follows.doing t
    rw [here] at doing
    exact follows.silent at_ rfl (step.keeps_job.trans doing) step
  respond := by
    intro mem loc store t answer pc follows here finished
    obtain rfl : pc = .left := finished
    refine follows.rest ?_ ⟨rfl, rfl, rfl⟩ ?_ ?_
    · rw [here]
      exact ⟨rfl, rfl, rfl⟩
    · rintro _ ⟨⟩
    · trivial

omit [DecidableEq ι] in
theorem Follows.new (atomics : AtomicAcquire S P) (quotaOf : K → Quota) :
    Follows atomics quotaOf (LockedStore.new : LockedStore ι config S) (fun _ => .idle) Store.new where
  locked := .free
  shown _ := (ShardShown.refl _).congr fun _ => ⟨False.elim, fun ⟨_, touches⟩ => nomatch touches⟩
  known := by
    rintro t pc ⟨⟩
  doing _ := trivial
  good := .new

end Simulation

/-- A call of the sequential store, as an effect. -/
def NamedCall.at {K : Type} (shards : ℕ) (call : NamedCall K × ℕ) : Effect shards K := .whole call.1 call.2

/-- The effects of calls are answered as the calls are. -/
theorem outputs_calls {K S : Type} [DecidableEq K] [KeyState S] {config : StoreConfig K} (algorithm : Algorithm)
    (quotaOf : K → Quota) (store : Store config S) (calls : List (NamedCall K × ℕ)) :
    Runs.outputs (fun store effect => effect.apply algorithm quotaOf store) store
        (calls.map (NamedCall.at config.shardCount)) =
      store.answers algorithm quotaOf (calls.map fun call => { request := call.1.request, now := call.2 }) := by
  induction calls generalizing store with
  | nil => rfl
  | cons call rest inductionHypothesis =>
      simp only [List.map_cons, Runs.outputs, Store.answers, inductionHypothesis]
      rfl

/-- Whatever any number of threads check, read, reset, remove and walk at the same time, every history of the
    locked store is linearizable: calls and the lock sections of walks take effect one after another on the
    sequential store, each between its invocation and its response, and are answered as they would be
    there.  Between them the sequential store may have its idle stamps rewritten, if it keeps any; where it
    keeps none the answers are exactly its own.  So if all that took effect are calls that name a key, the
    history is a run of those calls on the sequential store. -/
theorem locked_store_linearizable {K S P ι : Type} [DecidableEq K] [KeyState S] [LawfulKeyState S]
    [DecidableEq ι] {config : StoreConfig K} (atomics : AtomicAcquire S P) (algorithm : Algorithm)
    (quotaOf : K → Quota) {c : Config ι (World ι _ _ _ (LockedStore ι config S)) (LockPlace config S P)}
    (reach : Reachable (lockedStore atomics algorithm quotaOf).program
      (Implementation.initial LockedStore.new) c) :
    Linearizable (Performs algorithm quotaOf) Effect.job (Store.new : Store config S) c.mem.history ∧
      (config.idleTtlMs = none → (committed c.mem.history).map Prod.snd =
        Runs.outputs (fun store effect => effect.apply algorithm quotaOf store) (Store.new : Store config S)
          ((committed c.mem.history).map Prod.fst)) ∧
      (config.idleTtlMs = none → ∀ calls : List (NamedCall K × ℕ),
        (committed c.mem.history).map Prod.fst = calls.map (NamedCall.at config.shardCount) →
        (committed c.mem.history).map Prod.snd = Store.answers algorithm quotaOf (Store.new : Store config S)
          (calls.map fun call => { request := call.1.request, now := call.2 })) := by
  have linearizable := (lockedStore_simulates atomics algorithm quotaOf).linearizable (.new atomics quotaOf) reach
  have exactly : config.idleTtlMs = none → (committed c.mem.history).map Prod.snd =
      Runs.outputs (fun store effect => effect.apply algorithm quotaOf store) (Store.new : Store config S)
        ((committed c.mem.history).map Prod.fst) := by
    intro unlimited
    obtain ⟨store, explains⟩ := linearizable.explained
    exact (explains.outputs fun performs => (performs_iff unlimited).1 performs).1
  refine ⟨linearizable, exactly, fun unlimited calls only => ?_⟩
  rw [exactly unlimited, only]
  exact outputs_calls algorithm quotaOf .new calls

/-- Two threads check a new key at the same time.  Both miss it and make a state for it; the second to take the
    write lock finds it stored. -/
theorem first_touch :
    let config : StoreConfig ℕ := .new id 1 .unbounded 0
    let quota := Quota.perSecond 1 (by decide)
    ∃ c : Config Bool (World Bool _ _ _ (LockedStore Bool config Gcra)) (LockPlace config Gcra GcraPc),
      Reachable (lockedStore AtomicAcquire.gcra .leakyBucket fun _ => quota).program
        (Implementation.initial LockedStore.new) c ∧
      committed c.mem.history =
        [(.whole (.check 7 1) 0, .checked { Outcome.plain .allow with inserted := some false }),
          (.whole (.check 7 1) 0, .checked (.plain (.deny nanosPerSec)))] := by
  intro config quota
  have start : Reachable (lockedStore AtomicAcquire.gcra .leakyBucket fun _ => quota : Implementation Bool _ _ _
      (LockedStore Bool config Gcra) _).program (Implementation.initial LockedStore.new) _ := .refl
  have both_in := (start.tail (.thread _ true (.invoke _ (.named (.check 7 1))))).tail
    (.thread _ false (.invoke _ (.named (.check 7 1))))
  have both_wait := (both_in.tail (.thread _ true (.silent (.enter _ _ 0)))).tail
    (.thread _ false (.silent (.enter _ _ 0)))
  have both_look := (both_wait.tail (.thread _ true (.silent (.check (by decide))))).tail
    (.thread _ false (.silent (.check (by decide))))
  have both_miss := (both_look.tail (.thread _ true (.silent (.missed (by decide))))).tail
    (.thread _ false (.silent (.missed (by decide))))
  have both_out := (both_miss.tail (.thread _ true (.silent (.miss _ _ _)))).tail
    (.thread _ false (.silent (.miss _ _ _)))
  have made : (KeyState.create quota 0 : Option Gcra) = some (Gcra.new quota) := rfl
  have both_made := (both_out.tail (.thread _ true (.silent (.make made)))).tail
    (.thread _ false (.silent (.make made)))
  have first := ((both_made.tail (.thread _ true (.silent (.lock (by decide) (by decide))))).tail
    (.thread _ true (.commit (.write _ _)))).tail (.thread _ true (.unwind (.unlock _ _)))
  have second := ((first.tail (.thread _ false (.silent (.lock (by decide) (by decide))))).tail
    (.thread _ false (.commit (.write _ _)))).tail (.thread _ false (.unwind (.unlock _ _)))
  exact ⟨_, second, by decide⟩

theorem locked_store_linearizable_first_touch :
    let config : StoreConfig ℕ := .new id 1 .unbounded 0
    let quota := Quota.perSecond 1 (by decide)
    ∃ c : Config Bool (World Bool _ _ _ (LockedStore Bool config Gcra)) (LockPlace config Gcra GcraPc),
      (committed c.mem.history).length = 2 ∧
      Linearizable (Performs .leakyBucket fun _ => quota) Effect.job (Store.new : Store config Gcra)
        c.mem.history ∧
      (committed c.mem.history).map Prod.snd = Store.answers .leakyBucket (fun _ => quota)
        (Store.new : Store config Gcra) [⟨.check 7 1, 0⟩, ⟨.check 7 1, 0⟩] := by
  intro config quota
  obtain ⟨c, reach, effects⟩ := first_touch
  obtain ⟨linearizable, -, calls⟩ := locked_store_linearizable _ _ _ reach
  refine ⟨c, by rw [effects]; rfl, linearizable, ?_⟩
  exact calls rfl [(.check 7 1, 0), (.check 7 1, 0)] (by rw [effects]; rfl)

end RateNet
