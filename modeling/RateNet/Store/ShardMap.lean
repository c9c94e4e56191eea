/-
Module: RateNet.Store.ShardMap
Layer: Store
Purpose: One shard of the keyed store: dense slots, an index from key hash to slot position, the CLOCK
  hand and the idle sweep's cursor, and the recovery table. Evicting a key first records what it still
  owes. Reading a state may age it, so every read of a slot also leaves a slot behind. The shard keeps
  whatever keys and states it is given: both are type variables.
Imports: RateNet.Lib.DenseIndex, RateNet.Store.Recovery
Trusted boundary: `hashbrown::HashTable` is `DenseIndex.HashTable`
Main exports: Slot, firstHint, ShardMap, ShardMap.position, ShardMap.insert, ShardMap.removeAt,
  ShardMap.evictable, ShardMap.evictAt, ShardMap.sweepIdle, ShardMap.evictOne, Reclaimed
-/
import RateNet.Lib.DenseIndex
import RateNet.Store.Recovery

namespace RateNet

open DenseIndex

/-- The most slots the hand examines to evict one entry. -/
def clockScan : ℕ := 32

/-- The slots the idle sweep examines per insert. -/
def ttlSweep : ℕ := 8

/-- The most slots one shard can index. -/
def maxSlots : ℕ := u32Max

/-- A recovery hint that must be recomputed from the state. -/
def unknown : ℕ := u64Max

/-- One stored key: the algorithm's state, the eviction marks, the key's hash, and the key. -/
structure Slot (K S : Type) where
  state : S
  /-- Set on every check, cleared by the sweeping hand. -/
  referenced : Bool
  /-- Whether the state was charged a debt from the overflow sketch when it was stored. -/
  seeded : Bool
  lastSeenMs : ℕ
  /-- When the allowance is whole again, as of the last time the store read the state. -/
  recoversAtMs : ℕ
  hash : ℕ
  key : K
deriving DecidableEq

/-- A debt that eviction handed to the recovery table. -/
structure Handover (K : Type) where
  key : K
  hash : ℕ
  seeded : Bool
  debt : Debt
  /-- The table the debt was recorded in. -/
  before : Recovery
deriving DecidableEq

/-- How many keys one eviction pass reclaimed, by kind.  The source keeps the counts; `handed` lists the
    debts behind them, in the order they were recorded. -/
structure Reclaimed (K : Type) where
  evicted : ℕ
  expired : ℕ
  remembered : ℕ
  overflowed : ℕ
  forgotten : ℕ
  handed : List (Handover K)
deriving DecidableEq

namespace Reclaimed

variable {K : Type}

def zero : Reclaimed K :=
  { evicted := 0, expired := 0, remembered := 0, overflowed := 0, forgotten := 0, handed := [] }

/-- Counts a recorded debt. -/
def count (out : Reclaimed K) (handover : Handover K) (recorded : Recorded) : Reclaimed K :=
  let out := { out with handed := out.handed ++ [handover] }
  match recorded with
  | .overflowed => { out with remembered := out.remembered + 1, overflowed := out.overflowed + 1 }
  | .exact => { out with remembered := out.remembered + 1 }
  | .forgotten => { out with forgotten := out.forgotten + 1 }

end Reclaimed

/-- Whether a slot can be evicted. -/
inductive Evictable where
  /-- Its allowance is whole. -/
  | recovered
  /-- It still owes, and its debt can be recorded. -/
  | owing
  /-- It still owes and its debt cannot be recorded; it recovers at this time. -/
  | no (due : ℕ)
deriving DecidableEq, Repr

section States

variable {K S : Type} [KeyState S]

/-- When `state` has its whole allowance again, in milliseconds rounded up; `0` if it already has. -/
def recoversAt (state : S) (now : ℕ) : ℕ × S :=
  let (due, state) := KeyState.recoversAt state now
  (due.elim 0 ceilMillis, state)

/-- The recovery hint for a key being stored at `now`, whose fresh state has just decided `outcome` for
    `n` units. -/
def firstHint (state : S) (fresh : Bool) (n : ℕ) (outcome : Decision) (now nowMs : ℕ) : ℕ × S :=
  if fresh && (n == 0 || outcome.isDeny) then
    (0, state)
  else
    let boundary := satAdd nowMs 1
    if fresh then
      -- the read at the boundary ages a state that ages while it is read
      match KeyState.isFull state (fromMillis boundary) with
      | (true, state) => (boundary, state)
      | (false, state) => recoversAt state now
    else
      recoversAt state now

namespace Slot

/-- A new key starts unreferenced. -/
def new (hash : ℕ) (key : K) (state : S) (seeded : Bool) (recoversAtMs nowMs : ℕ) : Slot K S :=
  { state, referenced := false, seeded, lastSeenMs := nowMs, recoversAtMs, hash, key }

/-- When the allowance is whole again: the hint if it is still valid, otherwise read from the state. -/
def recoversAt (slot : Slot K S) (now nowMs : ℕ) : ℕ × Slot K S :=
  if slot.recoversAtMs = unknown ∨ slot.referenced = true then
    let (due, state) := RateNet.recoversAt slot.state now
    (due, { slot with state, recoversAtMs := due })
  else if slot.recoversAtMs = satAdd nowMs 1 then
    match KeyState.isFull slot.state now with
    | (true, state) => (0, { slot with state, recoversAtMs := 0 })
    | (false, state) => (slot.recoversAtMs, { slot with state })
  else
    (slot.recoversAtMs, slot)

/-- Marks the entry used. -/
def touch (slot : Slot K S) : Slot K S := { slot with referenced := true }

/-- Records a check for the idle TTL, only when it moves the stamp forward. -/
def touchIdle (slot : Slot K S) (nowMs : ℕ) : Slot K S :=
  if slot.lastSeenMs < nowMs then { slot with lastSeenMs := nowMs } else slot

/-- Whether the entry has been idle for at least the TTL. -/
def isExpired (slot : Slot K S) (nowMs : ℕ) (ttlMs : Option ℕ) : Bool :=
  ttlMs.any fun ttl => ttl ≤ nowMs - slot.lastSeenMs

/-- The hand's second chance: the bit and the hint are cleared. -/
def spared (slot : Slot K S) : Slot K S := { slot with referenced := false, recoversAtMs := unknown }

end Slot

end States

/-- A shard's contents. -/
structure ShardMap (K S : Type) where
  index : HashTable ℕ
  slots : List (Slot K S)
  /-- The next slot the capacity sweep examines. -/
  hand : ℕ
  /-- The next slot the idle sweep examines. -/
  sweep : ℕ
  recovery : Recovery
deriving DecidableEq

namespace ShardMap

variable {K S : Type} [DecidableEq K] [KeyState S]

def new : ShardMap K S := { index := [], slots := [], hand := 0, sweep := 0, recovery := .new }

/-- The slot position holding `key`, if any. -/
def position (map : ShardMap K S) (hash : ℕ) (key : K) : Option ℕ :=
  map.index.find hash fun pos => (map.slots[pos]?).any fun slot => slot.hash == hash && slot.key == key

/-- The slot for `key`, if any. -/
def get (map : ShardMap K S) (hash : ℕ) (key : K) : Option (Slot K S) :=
  (map.position hash key).bind fun pos => map.slots[pos]?

/-- The slot at `pos`, overwritten. -/
def setSlot (map : ShardMap K S) (pos : ℕ) (slot : Slot K S) : ShardMap K S :=
  { map with slots := map.slots.set pos slot }

/-- Appends a new key. -/
def insert (map : ShardMap K S) (slot : Slot K S) : ShardMap K S :=
  let slots := map.slots ++ [slot]
  let pos := min map.slots.length u32Max
  { map with
    slots
    index := map.index.insertUnique slot.hash pos fun p => (slots[p]?).elim 0 Slot.hash }

/-- Removes the slot at `pos` by swap-remove, re-indexing the slot that moves into its place. -/
def removeAt (map : ShardMap K S) (pos : ℕ) : Option (Slot K S) × ShardMap K S :=
  match map.slots.getLast?, map.slots[pos]? with
  | some lastSlot, some slot =>
    let last := map.slots.length - 1
    let index := map.index.remove slot.hash (· == pos)
    let index :=
      if pos = last then index
      else index.replace lastSlot.hash (· == last) (min pos u32Max)
    (some slot, { map with index, slots := swapRemove map.slots pos })
  | _, _ => (none, map)

/-- Whether the slot at `pos` may be evicted at `now`, and if so whether it has recovered. -/
def evictable (map : ShardMap K S) (pos now nowMs : ℕ) : Evictable × ShardMap K S :=
  match map.slots[pos]? with
  | none => (.no unknown, map)
  | some slot =>
    let (due, slot) := slot.recoversAt now nowMs
    let map := map.setSlot pos slot
    if due ≤ nowMs then (.recovered, map)
    else if !slot.seeded || map.recovery.hasExactRoom slot.hash nowMs then (.owing, map)
    else (.no due, map)

/-- Evicts the slot at `pos`, first recording its debt if it still owes. -/
def evictAt (map : ShardMap K S) (pos : ℕ) (recovered : Bool) (now nowMs : ℕ) (size : TableSize)
    (out : Reclaimed K) : ShardMap K S × Reclaimed K :=
  match recovered, map.slots[pos]? with
  | false, some slot =>
    match KeyState.debt slot.state now with
    | (none, state) => (((map.setSlot pos { slot with state }).removeAt pos).2, out)
    | (some debt, state) =>
      let handover : Handover K :=
        { key := slot.key, hash := slot.hash, seeded := slot.seeded, debt, before := map.recovery }
      let map := map.setSlot pos { slot with state }
      match map.recovery.record slot.hash debt nowMs size slot.seeded with
      | (some recorded, recovery) =>
        ((({ map with recovery } : ShardMap K S).removeAt pos).2, out.count handover recorded)
      | (none, recovery) => ({ map with recovery }, out)
  | _, _ => ((map.removeAt pos).2, out)

/-- Reclaims idle-expired entries among the next `steps` slots from the sweep cursor. -/
def sweepIdle (now nowMs ttlMs : ℕ) (size : TableSize) :
    ℕ → ShardMap K S → Reclaimed K → ShardMap K S × Reclaimed K
  | 0, map, out => (map, out)
  | steps + 1, map, out =>
    if map.slots.length = 0 then (map, out)
    else
      let map := if map.slots.length ≤ map.sweep then { map with sweep := 0 } else map
      if (map.slots[map.sweep]?).any fun slot => slot.isExpired nowMs (some ttlMs) then
        match map.evictable map.sweep now nowMs with
        | (.no _, map) => sweepIdle now nowMs ttlMs size steps { map with sweep := map.sweep + 1 } out
        | (verdict, map) =>
          -- the swap moved an unexamined slot here; look at it next
          let (map, out) := map.evictAt map.sweep (verdict == .recovered) now nowMs size out
          sweepIdle now nowMs ttlMs size steps map { out with expired := out.expired + 1 }
      else sweepIdle now nowMs ttlMs size steps { map with sweep := map.sweep + 1 } out

/-- A slot to evict, and whether it has recovered. -/
abbrev Candidate := ℕ × Bool

/-- The hand's first pass: a recovered slot if it meets one, else the first that still owes, clearing
    reference bits on its way; and the earliest time a blocking key recovers. -/
def scanUnreferenced (now nowMs : ℕ) (ttlMs : Option ℕ) :
    List ℕ → Option ℕ → ℕ → ShardMap K S → (Option Candidate × ℕ) × ShardMap K S
  | [], owing, earliest, map => ((owing.map (·, false), earliest), map)
  | pos :: rest, owing, earliest, map =>
    match map.slots[pos]? with
    | none => scanUnreferenced now nowMs ttlMs rest owing earliest map
    | some slot =>
      if !slot.isExpired nowMs ttlMs && slot.referenced then
        scanUnreferenced now nowMs ttlMs rest owing earliest (map.setSlot pos slot.spared)
      else
        match map.evictable pos now nowMs with
        | (.recovered, map) => ((some (pos, true), earliest), map)
        | (.owing, map) => scanUnreferenced now nowMs ttlMs rest (owing.or (some pos)) earliest map
        | (.no due, map) => scanUnreferenced now nowMs ttlMs rest owing (min earliest due) map

/-- The second pass: the first slot that can go. -/
def scanAny (now nowMs : ℕ) :
    List ℕ → ℕ → ShardMap K S → (Option Candidate × ℕ) × ShardMap K S
  | [], earliest, map => ((none, earliest), map)
  | pos :: rest, earliest, map =>
    match map.evictable pos now nowMs with
    | (.recovered, map) => ((some (pos, true), earliest), map)
    | (.owing, map) => ((some (pos, false), earliest), map)
    | (.no due, map) => scanAny now nowMs rest (min earliest due) map

/-- Evicts the candidate and steps the hand past it. -/
def finishEviction (map : ShardMap K S) (candidate : Candidate) (now nowMs : ℕ) (size : TableSize)
    (out : Reclaimed K) : ShardMap K S × Reclaimed K :=
  let (map, out) := map.evictAt candidate.1 candidate.2 now nowMs size out
  ({ map with hand := candidate.1 + 1 }, { out with evicted := out.evicted + 1 })

/-- The positions one eviction examines, from the hand on. -/
def clockWindow (map : ShardMap K S) : List ℕ :=
  let len := map.slots.length
  let start := if len ≤ map.hand then 0 else map.hand
  (List.range (min clockScan len)).map fun step => (start + step) % len

/-- Evicts one entry by CLOCK, preferring one that has recovered.  Fails with the earliest time a
    blocking key recovers when no examined slot can be evicted without losing a debt. -/
def evictOne (map : ShardMap K S) (now nowMs : ℕ) (ttlMs : Option ℕ) (size : TableSize)
    (out : Reclaimed K) : Except ℕ Unit × ShardMap K S × Reclaimed K :=
  if map.slots.length = 0 then (.ok (), map, out)
  else
    let window := map.clockWindow
    match map.scanUnreferenced now nowMs ttlMs window none unknown with
    | ((some candidate, _), map) => (.ok (), map.finishEviction candidate now nowMs size out)
    | ((none, earliest), map) =>
      match map.scanAny now nowMs window earliest with
      | ((some candidate, _), map) => (.ok (), map.finishEviction candidate now nowMs size out)
      | ((none, earliest), map) => (.error earliest, map, out)

end ShardMap

end RateNet
