/-
Module: RateNet.Store.Store
Layer: Store
Purpose: The sharded keyed store. Each shard is guarded by its own lock, and every call is a short
  sequence of lock sections on one shard at a time; the sections are functions of the shard they lock,
  and the whole-store calls that hold one section run it on the shard that owns the key.
Imports: RateNet.Store.ShardMap
Trusted boundary: the hasher is an arbitrary function of the key
Main exports: Eviction, StoreConfig, Store, Outcome, Known, ShardMap.acquireStored, ShardMap.checkWrite,
  ShardMap.retainChunk, Store.check
-/
import RateNet.Store.ShardMap

namespace RateNet

open DenseIndex

/-- The hash bits that pick a shard start here. -/
def shardShift : ℕ := 40

/-- The most shards a store creates. -/
def maxShards : ℕ := 2 ^ 16

/-- The most keys a capped shard may hold. -/
def maxKeysPerShard : ℕ := 2 ^ 14

/-- The slots `retainRecent` examines per lock section. -/
def retainChunkSlots : ℕ := 1024

/-- How a store bounds its memory. -/
structure Eviction where
  maxKeys : Option ℕ
  idleTtl : Option ℕ
  overflow : Overflow
deriving DecidableEq

/-- No bounds: a shard holds as many keys as it can index. -/
def Eviction.unbounded : Eviction := { maxKeys := none, idleTtl := none, overflow := .failClosed }

/-- The fields of a store that no call changes. -/
structure StoreConfig (K : Type) where
  hasher : K → ℕ
  shardCount : ℕ
  perShardCap : ℕ
  idleTtlMs : Option ℕ
  table : TableSize
  shardCount_pos : 0 < shardCount
  cap_pos : 0 < perShardCap
  cap_le : perShardCap ≤ maxSlots

namespace StoreConfig

variable {K : Type}

/-- The shards a store of `shards` shards under `eviction` really creates. -/
def shardCountFor (shards : ℕ) (eviction : Eviction) : ℕ :=
  let forCap := eviction.maxKeys.elim 1 (· ⌈/⌉ maxKeysPerShard)
  nextPowerOfTwo (max 1 (min (max shards forCap) maxShards))

/-- One shard's share of the cap. -/
def capFor (shardCount : ℕ) (eviction : Eviction) : ℕ :=
  eviction.maxKeys.elim maxSlots fun maxKeys => max 1 (min (maxKeys ⌈/⌉ shardCount) maxSlots)

theorem shardCountFor_pos (shards : ℕ) (eviction : Eviction) : 0 < shardCountFor shards eviction := by
  simp only [shardCountFor, nextPowerOfTwo]
  split
  · exact Nat.one_pos
  · exact Nat.two_pow_pos _

theorem capFor_bounds (shardCount : ℕ) (eviction : Eviction) :
    0 < capFor shardCount eviction ∧ capFor shardCount eviction ≤ maxSlots := by
  rw [capFor]
  cases eviction.maxKeys with
  | none =>
      have positive : 0 < maxSlots := by decide
      exact ⟨positive, le_rfl⟩
  | some maxKeys =>
      have positive : 1 ≤ maxSlots := by decide
      exact ⟨lt_of_lt_of_le Nat.one_pos (le_max_left _ _), max_le positive (min_le_right _ _)⟩

/-- `Store::new`. -/
def new (hasher : K → ℕ) (shards : ℕ) (eviction : Eviction) (minIdle : ℕ) : StoreConfig K where
  hasher
  shardCount := shardCountFor shards eviction
  perShardCap := capFor (shardCountFor shards eviction) eviction
  idleTtlMs := eviction.idleTtl.map fun ttl => satAdd (ceilMillis (max ttl minIdle)) 1
  table := (TableSize.forCap (capFor (shardCountFor shards eviction) eviction)).withOverflow
    eviction.overflow
  shardCount_pos := shardCountFor_pos shards eviction
  cap_pos := (capFor_bounds _ eviction).1
  cap_le := (capFor_bounds _ eviction).2

/-- The shard that owns `hash`. -/
def shardOf (config : StoreConfig K) (hash : ℕ) : Fin config.shardCount :=
  ⟨(hash >>> shardShift) &&& (config.shardCount - 1),
    lt_of_le_of_lt Nat.and_le_right (Nat.sub_lt config.shardCount_pos Nat.one_pos)⟩

/-- The shard that owns `key`. -/
def shardFor (config : StoreConfig K) (key : K) : Fin config.shardCount :=
  config.shardOf (config.hasher key)

end StoreConfig

/-- What one check answers, and what it reports to the shard's counters. -/
structure Outcome (K : Type) where
  decision : Decision
  /-- Whether the key was stored, and then whether it was charged a recorded debt. -/
  inserted : Option Bool
  refused : Bool
  reclaimed : Reclaimed K
deriving DecidableEq

/-- A check that stored nothing and reclaimed nothing. -/
def Outcome.plain {K : Type} (decision : Decision) : Outcome K :=
  { decision, inserted := none, refused := false, reclaimed := .zero }

/-- What the store knows about a key. -/
inductive Known where
  | tracked (snapshot : Snapshot)
  | owed (debt : Debt)
  | unknown
deriving DecidableEq

/-!
### Lock sections
-/

namespace ShardMap

variable {K S : Type} [DecidableEq K] [KeyState S] (config : StoreConfig K)

/-- A check of a key that is stored, under either lock. -/
def acquireStored (map : ShardMap K S) (key : K) (n now : ℕ) : Option Decision × ShardMap K S :=
  match map.position (config.hasher key) key with
  | none => (none, map)
  | some pos =>
    match map.slots[pos]? with
    | none => (none, map)
    | some slot =>
      let slot := slot.touch
      let slot := if config.idleTtlMs.isSome then slot.touchIdle (millis now) else slot
      let (decision, state) := KeyState.acquire slot.state n now
      (some decision, map.setSlot pos { slot with state })

/-- Makes room in a shard about to receive a new key. -/
def makeRoom (map : ShardMap K S) (now nowMs : ℕ) : Except ℕ Unit × ShardMap K S × Reclaimed K :=
  let (map, out) := match config.idleTtlMs with
    | some ttlMs => sweepIdle now nowMs ttlMs config.table ttlSweep map .zero
    | none => (map, .zero)
  if config.perShardCap ≤ map.slots.length then
    map.evictOne now nowMs config.idleTtlMs config.table out
  else
    (.ok (), map, out)

/-- Stores a newcomer: a key evicted before it recovered resumes no more permissive than it left. -/
def store (map : ShardMap K S) (key : K) (n now : ℕ) (state : S) : (Decision × Bool) × ShardMap K S :=
  let nowMs := millis now
  let (charge, recovery) := map.recovery.take (config.hasher key) nowMs
  let state := charge.elim state fun charge => KeyState.restore state charge.debt now
  let seeded := charge.any Charge.shared
  let (outcome, state) := KeyState.acquire state n now
  let (hint, state) := firstHint state charge.isNone n outcome now nowMs
  ((outcome, charge.isSome), ({ map with recovery } : ShardMap K S).insert
    (Slot.new (config.hasher key) key state seeded hint nowMs))

/-- The write section of a check, with the fresh state made before it. -/
def checkWrite (map : ShardMap K S) (key : K) (n now : ℕ) (state : S) : Outcome K × ShardMap K S :=
  match map.acquireStored config key n now with
  | (some decision, map) => (.plain decision, map)
  | (none, _) =>
    match map.makeRoom config now (millis now) with
    | (.error due, map, reclaimed) =>
      let waitMs := max (due - millis now) 1
      ({ decision := .deny (fromMillis waitMs), inserted := none, refused := true, reclaimed }, map)
    | (.ok (), map, reclaimed) =>
      let ((decision, restored), map) := map.store config key n now state
      ({ decision, inserted := some restored, refused := false, reclaimed }, map)

def peekSection (map : ShardMap K S) (key : K) (now : ℕ) : Known × ShardMap K S :=
  match map.position (config.hasher key) key with
  | none => (owed, map)
  | some pos =>
    match map.slots[pos]? with
    | none => (owed, map)
    | some slot =>
      let (snapshot, state) := KeyState.peek slot.state now
      (.tracked snapshot, map.setSlot pos { slot with state })
where
  owed : Known :=
    (map.recovery.peek (config.hasher key) (millis now)).elim .unknown fun charge => .owed charge.debt

/-- The read section of a reset: whether the key was stored, and then its state reset. -/
def resetRead (map : ShardMap K S) (key : K) (now : ℕ) : Bool × ShardMap K S :=
  match map.position (config.hasher key) key with
  | none => (false, map)
  | some pos =>
    match map.slots[pos]? with
    | none => (false, map)
    | some slot => (true, map.setSlot pos { slot with state := KeyState.reset slot.state now })

/-- The write section of a reset: any recorded debt is forgotten. -/
def resetWrite (map : ShardMap K S) (key : K) (now : ℕ) : Bool × ShardMap K S :=
  let (forgotten, recovery) := map.recovery.forget (config.hasher key) (millis now)
  (forgotten, { map with recovery })

def removeSection (map : ShardMap K S) (key : K) (now : ℕ) : Bool × ShardMap K S :=
  let (removed, map) := match map.position (config.hasher key) key with
    | none => (false, map)
    | some pos =>
      let (slot, map) := map.removeAt pos
      (slot.isSome, map)
  let (forgotten, recovery) := map.recovery.forget (config.hasher key) (millis now)
  (removed || forgotten, { map with recovery })

/-- Walks `steps` slots downward from `cursor`, removing those with their whole allowance. -/
def retainSlots (now : ℕ) : ℕ → ℕ → ShardMap K S → ℕ × ShardMap K S
  | 0, _, map => (0, map)
  | steps + 1, cursor, map =>
    match map.slots[cursor - 1]? with
    | none => retainSlots now steps (cursor - 1) map
    | some slot =>
      let (full, state) := KeyState.isFull slot.state now
      let map := map.setSlot (cursor - 1) { slot with state }
      if full then
        let (slot, map) := map.removeAt (cursor - 1)
        let (removed, map) := retainSlots now steps (cursor - 1) map
        (removed + (if slot.isSome then 1 else 0), map)
      else
        retainSlots now steps (cursor - 1) map

/-- One section of `retainRecent`: how many keys it removed and the cursor it leaves.  A cursor at zero
    ends the shard's walk, and releases a recovery table that holds nothing live. -/
def retainChunk (map : ShardMap K S) (cursor now : ℕ) : (ℕ × ℕ) × ShardMap K S :=
  let cursor := min cursor map.slots.length
  let stop := cursor - retainChunkSlots
  let (removed, map) := retainSlots now (cursor - stop) cursor map
  if stop = 0 ∧ map.recovery.isSpent (millis now) = true then
    ((removed, stop), { map with recovery := .new })
  else
    ((removed, stop), map)

/-- Releasing memory rehashes the index. -/
def shrinkSection (map : ShardMap K S) : ShardMap K S :=
  { map with index := map.index.rehash fun p => (map.slots[p]?).elim 0 Slot.hash }

end ShardMap

/-!
### Whole calls
-/

/-- The shards of a store. -/
abbrev Store {K : Type} (config : StoreConfig K) (S : Type) := Fin config.shardCount → ShardMap K S

namespace Store

variable {K S : Type} [DecidableEq K] [KeyState S] {config : StoreConfig K}

def new : Store config S := fun _ => .new

/-- A whole check, nothing else running: `now` is the reading taken once the key's state is in hand, and
    `makeState` builds the state of a key not seen before. -/
def check (store : Store config S) (key : K) (n now : ℕ) (makeState : ℕ → Option S) :
    Outcome K × Store config S :=
  let i := config.shardFor key
  match (store i).acquireStored config key n now with
  | (some decision, map) => (.plain decision, Function.update store i map)
  | (none, _) =>
    match makeState now with
    | none => (.plain (closed n), store)
    | some state =>
      let (outcome, map) := (store i).checkWrite config key n now state
      (outcome, Function.update store i map)

/-- Whether `key` is stored. -/
def tracks (store : Store config S) (key : K) : Bool :=
  ((store (config.shardFor key)).position (config.hasher key) key).isSome

/-- The number of keys with live state across all shards. -/
def len (store : Store config S) : ℕ := ∑ i, (store i).slots.length

end Store

/-!
### Runs of whole checks
-/

/-- A check of `n` units against `key`, at the reading `now`. -/
structure Check (K : Type) where
  key : K
  n : ℕ
  now : ℕ
deriving DecidableEq

namespace Store

variable {K S : Type} [DecidableEq K] [KeyState S] {config : StoreConfig K}

/-- One check of a store whose keys all have `quota`. -/
def answer (quota : Quota) (store : Store config S) (check : Check K) : Outcome K × Store config S :=
  store.check check.key check.n check.now (KeyState.create quota)

/-- The store after a sequence of checks. -/
def after (quota : Quota) (store : Store config S) (checks : List (Check K)) : Store config S :=
  checks.foldl (fun store check => (answer quota store check).2) store

/-- The decisions of a sequence of checks, each with its check. -/
def decisions (quota : Quota) : Store config S → List (Check K) → List (Check K × Decision)
  | _, [] => []
  | store, check :: rest =>
    (check, (answer quota store check).1.decision) :: decisions quota (answer quota store check).2 rest

end Store

end RateNet
