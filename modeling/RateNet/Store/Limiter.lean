/-
Module: RateNet.Store.Limiter
Layer: Store
Purpose: Whole calls of the keyed limiter, nothing else running: each call runs its lock sections on the
  shards in the order the source takes the locks. Every call is made at one reading of the limiter's
  clock, and the quota of a key is whatever the limiter's quota resolver gives for it.
Imports: RateNet.Store.Store
Trusted boundary: no key-length policy is configured; the quota resolver is a function of the key
Main exports: ShardMap.retainShard, Store.peek, Store.reset, Store.remove, Store.clear,
  Store.retainRecent, Store.shrinkToFit, owedSnapshot, peekRef, Request, Call, Answer, Store.call,
  Store.run
-/
import RateNet.Store.Store

namespace RateNet

/-!
### Calls on the store
-/

namespace ShardMap

variable {K S : Type} [KeyState S]

/-- The walk of one shard, a chunk at a time, until its cursor reaches zero; `fuel` bounds the chunks. -/
def retainShard (now : ℕ) : ℕ → ℕ → ShardMap K S → ℕ × ShardMap K S
  | 0, _, map => (0, map)
  | fuel + 1, cursor, map =>
    let ((removed, cursor), map) := map.retainChunk cursor now
    if cursor = 0 then (removed, map)
    else
      let (more, map) := retainShard now fuel cursor map
      (removed + more, map)

end ShardMap

namespace Store

variable {K S : Type} [DecidableEq K] [KeyState S] {config : StoreConfig K}

/-- What the store knows about `key` as of `now`. -/
def peek (store : Store config S) (key : K) (now : ℕ) : Known × Store config S :=
  let i := config.shardFor key
  let (known, map) := (store i).peekSection config key now
  (known, Function.update store i map)

/-- Restores the full allowance of `key`: its state is reset if it is stored, and otherwise any debt
    recorded for it is forgotten. -/
def reset (store : Store config S) (key : K) (now : ℕ) : Bool × Store config S :=
  let i := config.shardFor key
  match (store i).resetRead config key now with
  | (true, map) => (true, Function.update store i map)
  | (false, _) =>
    let (forgotten, map) := (store i).resetWrite config key now
    (forgotten, Function.update store i map)

def remove (store : Store config S) (key : K) (now : ℕ) : Bool × Store config S :=
  let i := config.shardFor key
  let (removed, map) := (store i).removeSection config key now
  (removed, Function.update store i map)

/-- Forgets every key and every recorded debt. -/
def clear (_ : Store config S) : Store config S := fun _ => .new

/-- The walk of shard `i`, after the shards before it. -/
def retainAt (now : ℕ) (walked : ℕ × Store config S) (i : Fin config.shardCount) : ℕ × Store config S :=
  let shard := ShardMap.retainShard now ((walked.2 i).slots.length + 1) u64Max (walked.2 i)
  (walked.1 + shard.1, Function.update walked.2 i shard.2)

omit [DecidableEq K] in
theorem retainAt_snd (now : ℕ) (walked : ℕ × Store config S) (i : Fin config.shardCount) :
    (retainAt now walked i).2 = Function.update walked.2 i
      (ShardMap.retainShard now ((walked.2 i).slots.length + 1) u64Max (walked.2 i)).2 := rfl

/-- Forgets every key whose whole allowance is back, shard after shard. -/
def retainRecent (store : Store config S) (now : ℕ) : ℕ × Store config S :=
  (List.finRange config.shardCount).foldl (retainAt now) (0, store)

def shrinkToFit (store : Store config S) : Store config S := fun i => (store i).shrinkSection

end Store

/-!
### Calls on the limiter
-/

/-- The allowance of an untracked key that owes `debt`: a fresh state with the debt restored. -/
def owedSnapshot (S : Type) [KeyState S] (debt : Debt) (quota : Quota) (now : ℕ) : Snapshot :=
  (KeyState.create quota now : Option S).elim .closed fun state =>
    (KeyState.peek (KeyState.restore state debt now) now).1

/-- What a limiter is asked to do. -/
inductive Request (K : Type) where
  | check (key : K) (n : ℕ)
  | peek (key : K)
  | reset (key : K)
  | remove (key : K)
  | clear
  | retainRecent
  | shrinkToFit
deriving DecidableEq

/-- The key a request is about. -/
def Request.key {K : Type} : Request K → Option K
  | .check key _ | .peek key | .reset key | .remove key => some key
  | .clear | .retainRecent | .shrinkToFit => none

/-- A request, and the reading of the limiter's clock it is made at. -/
structure Call (K : Type) where
  request : Request K
  now : ℕ
deriving DecidableEq

/-- What a call answers. -/
inductive Answer (K : Type) where
  | checked (outcome : Outcome K)
  | peeked (snapshot : Snapshot)
  | found (any : Bool)
  | removed (keys : ℕ)
  | done
deriving DecidableEq

namespace Store

variable {K S : Type} [DecidableEq K] [KeyState S] {config : StoreConfig K}

/-- A tracked key's snapshot, an evicted key's debt applied to a fresh allowance, or a fresh allowance. -/
def peekRef (algorithm : Algorithm) (quotaOf : K → Quota) (store : Store config S) (key : K) (now : ℕ) :
    Snapshot × Store config S :=
  let (known, store) := store.peek key now
  (match known with
    | .tracked snapshot => snapshot
    | .owed debt => owedSnapshot S debt (quotaOf key) now
    | .unknown => freshSnapshot algorithm (quotaOf key), store)

/-- One call on a limiter that runs `algorithm` and gives each key the quota `quotaOf key`. -/
def call (algorithm : Algorithm) (quotaOf : K → Quota) (store : Store config S) (call : Call K) :
    Answer K × Store config S :=
  match call.request with
  | .check key n =>
    let (outcome, store) := store.check key n call.now (KeyState.create (quotaOf key))
    (.checked outcome, store)
  | .peek key =>
    let (snapshot, store) := store.peekRef algorithm quotaOf key call.now
    (.peeked snapshot, store)
  | .reset key =>
    let (found, store) := store.reset key call.now
    (.found found, store)
  | .remove key =>
    let (found, store) := store.remove key call.now
    (.found found, store)
  | .clear => (.done, store.clear)
  | .retainRecent =>
    let (keys, store) := store.retainRecent call.now
    (.removed keys, store)
  | .shrinkToFit => (.done, store.shrinkToFit)

/-- The store after a sequence of calls. -/
def run (algorithm : Algorithm) (quotaOf : K → Quota) (store : Store config S) (calls : List (Call K)) :
    Store config S :=
  calls.foldl (fun store call => (store.call algorithm quotaOf call).2) store

/-- The answers of a sequence of calls. -/
def answers (algorithm : Algorithm) (quotaOf : K → Quota) : Store config S → List (Call K) →
    List (Answer K)
  | _, [] => []
  | store, call :: rest =>
    (store.call algorithm quotaOf call).1 ::
      answers algorithm quotaOf (store.call algorithm quotaOf call).2 rest

end Store

end RateNet
