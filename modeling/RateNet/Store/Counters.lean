/-
Module: RateNet.Store.Counters
Layer: Store
Purpose: The operational counters of the metrics feature. Every shard has its own set, and each call of
  the limiter adds to the set of the shards it locks what its lock sections report: a decision, a key
  stored, keys reclaimed while room was made, a newcomer refused, keys removed. The counters are
  machine words that wrap; the type they count in is a parameter, so that the same code can also be run
  with numbers that never wrap.
Imports: RateNet.Store.Limiter, Mathlib.Data.BitVec
Trusted boundary: no key-length policy is configured, so no key is rejected before the store sees it;
  relaxed increments are counted at the call that makes them
Main exports: Counters, Counters.checked, Metrics, CountedStore, CountedStore.call, CountedStore.run,
  CountedStore.metrics, Call.isCheck
-/
import RateNet.Store.Limiter
import Mathlib.Data.BitVec

namespace RateNet

/-- The live counters of one shard, counting in `N`.  The code counts in `BitVec 64`. -/
structure Counters (N : Type) where
  allowed : N
  denied : N
  inserted : N
  evicted : N
  expired : N
  removed : N
  remembered : N
  restored : N
  overflowed : N
  forgotten : N
  refused : N
deriving DecidableEq

/-- The counters summed across every shard. -/
structure Metrics (N : Type) where
  allowed : N
  denied : N
  keysInserted : N
  keysEvicted : N
  keysExpired : N
  keysRemoved : N
  keysRemembered : N
  keysRestored : N
  debtsOverflowed : N
  debtsForgotten : N
  keysRefused : N
deriving DecidableEq

namespace Counters

variable {K N : Type} [AddCommMonoidWithOne N]

def new : Counters N :=
  { allowed := 0, denied := 0, inserted := 0, evicted := 0, expired := 0, removed := 0, remembered := 0,
    restored := 0, overflowed := 0, forgotten := 0, refused := 0 }

def onDecision (counters : Counters N) (decision : Decision) : Counters N :=
  if decision.isAllow then { counters with allowed := counters.allowed + 1 }
  else { counters with denied := counters.denied + 1 }

def onInserted (counters : Counters N) (restored : Bool) : Counters N :=
  let counters := { counters with inserted := counters.inserted + 1 }
  if restored then { counters with restored := counters.restored + 1 } else counters

def onReclaimed (counters : Counters N) (reclaimed : Reclaimed K) : Counters N :=
  { counters with
    evicted := counters.evicted + reclaimed.evicted
    expired := counters.expired + reclaimed.expired
    remembered := counters.remembered + reclaimed.remembered
    overflowed := counters.overflowed + reclaimed.overflowed
    forgotten := counters.forgotten + reclaimed.forgotten }

def onRefused (counters : Counters N) : Counters N := { counters with refused := counters.refused + 1 }

def onRemoved (counters : Counters N) (count : ℕ) : Counters N :=
  { counters with removed := counters.removed + count }

/-- What a check adds: what making room reclaimed, whether the newcomer was refused or stored, and the
    decision. -/
def checked (counters : Counters N) (outcome : Outcome K) : Counters N :=
  let counters := counters.onReclaimed outcome.reclaimed
  let counters := if outcome.refused then counters.onRefused else counters
  let counters := outcome.inserted.elim counters counters.onInserted
  counters.onDecision outcome.decision

end Counters

/-- Whether removing `key` takes a slot, and not only a recorded debt. -/
def ShardMap.holds {K S : Type} [DecidableEq K] (config : StoreConfig K) (map : ShardMap K S) (key : K) :
    Bool :=
  ((map.position (config.hasher key) key).bind fun pos => (map.removeAt pos).1).isSome

/-- A store with the counters of its shards. -/
structure CountedStore {K : Type} (config : StoreConfig K) (S N : Type) where
  shards : Store config S
  counters : Fin config.shardCount → Counters N

def Call.isCheck {K : Type} (call : Call K) : Bool :=
  match call.request with
  | .check _ _ => true
  | _ => false

namespace CountedStore

variable {K S N : Type} [DecidableEq K] [KeyState S] [AddCommMonoidWithOne N] {config : StoreConfig K}

def new : CountedStore config S N := { shards := .new, counters := fun _ => .new }

/-- The counters after a call: those of the shards it locks have what it reported added. -/
def countersAfter (quotaOf : K → Quota) (store : CountedStore config S N) (call : Call K) :
    Fin config.shardCount → Counters N :=
  match call.request with
  | .check key n =>
    let i := config.shardFor key
    let outcome := (store.shards.check key n call.now (KeyState.create (quotaOf key))).1
    Function.update store.counters i ((store.counters i).checked outcome)
  | .remove key =>
    let i := config.shardFor key
    let removed := if (store.shards i).holds config key then 1 else 0
    Function.update store.counters i ((store.counters i).onRemoved removed)
  | .clear => fun i => (store.counters i).onRemoved (store.shards i).slots.length
  | .retainRecent => fun i =>
    -- the chunks of a shard's walk report one by one; this is their sum
    let map := store.shards i
    (store.counters i).onRemoved (map.retainShard call.now (map.slots.length + 1) u64Max).1
  | .peek _ | .reset _ | .shrinkToFit => store.counters

/-- One call, with what it counts. -/
def call (algorithm : Algorithm) (quotaOf : K → Quota) (store : CountedStore config S N) (call : Call K) :
    CountedStore config S N :=
  { shards := (store.shards.call algorithm quotaOf call).2
    counters := store.countersAfter quotaOf call }

/-- A counted store after a sequence of calls. -/
def run (algorithm : Algorithm) (quotaOf : K → Quota) (store : CountedStore config S N)
    (calls : List (Call K)) : CountedStore config S N :=
  calls.foldl (fun store call => store.call algorithm quotaOf call) store

def metrics (store : CountedStore config S N) : Metrics N where
  allowed := ∑ i, (store.counters i).allowed
  denied := ∑ i, (store.counters i).denied
  keysInserted := ∑ i, (store.counters i).inserted
  keysEvicted := ∑ i, (store.counters i).evicted
  keysExpired := ∑ i, (store.counters i).expired
  keysRemoved := ∑ i, (store.counters i).removed
  keysRemembered := ∑ i, (store.counters i).remembered
  keysRestored := ∑ i, (store.counters i).restored
  debtsOverflowed := ∑ i, (store.counters i).overflowed
  debtsForgotten := ∑ i, (store.counters i).forgotten
  keysRefused := ∑ i, (store.counters i).refused

end CountedStore

end RateNet
