/-
Module: RateNet.Store.Locks
Layer: Store
Purpose: The store's calls at the level of its locks. Each shard is behind a readers-writer lock: readers
  share it, and while they do they look keys up, mark slots as used and spend from the states, which do
  their own accounting; a writer has it alone. A thread is cut at every lock operation, at every write of
  a slot's mark or idle stamp, and at the atomic operations of a state that is spent from. What a call
  takes effect as is a call of the sequential store, or one lock section of a call that has several.
Imports: RateNet.Lib.Linearization, RateNet.Store.Limiter
Trusted boundary: `std::sync::RwLock` is `RwLock`; a state behind its own mutex is spent from in one step;
  atomic operations are interleaved as sequentially consistent
Main exports: RwLock, AtomicAcquire, AtomicAcquire.mutex, NamedCall, Job, Effect, Effect.apply,
  LockedStore, Shared, Exclusive, LockPc, LockPc.Silent, LockPc.Commit, lockedStore
-/
import RateNet.Lib.Linearization
import RateNet.Store.Limiter

namespace RateNet

open Interleaving Linearization

/-- A readers-writer lock, by the threads that hold it. -/
structure RwLock (ι : Type) where
  readers : Finset ι
  writer : Option ι

def RwLock.free {ι : Type} : RwLock ι := { readers := ∅, writer := none }

/-!
### Spending from a shared state
-/

/-- The atomic steps in which threads that share a state spend from it.  `Own` is what a thread knows where it
    is; it survives whatever other threads do to the state, and at the step that decides, the state is
    left as `acquire` leaves it. -/
structure AtomicAcquire (S : Type) [KeyState S] (Pc : Type) where
  entry : Pc
  Silent : (n now : ℕ) → S → Pc → Pc → Prop
  Commit : (n now : ℕ) → S → Pc → Decision → S → Prop
  Own : (n now : ℕ) → S → Pc → Prop
  own_entry : ∀ n now s, Own n now s entry
  own_silent : ∀ {n now s pc pc'}, Own n now s pc → Silent n now s pc pc' → Own n now s pc'
  own_acquire : ∀ {n now s pc} (m t), Own n now s pc → Own n now (KeyState.acquire s m t).2 pc
  own_peek : ∀ {n now s pc} (t), Own n now s pc → Own n now (KeyState.peek s t).2 pc
  own_reset : ∀ {n now s pc} (t), Own n now s pc → Own n now (KeyState.reset s t) pc
  acquired : ∀ {n now s pc decision s'}, Own n now s pc → Commit n now s pc decision s' →
    KeyState.acquire s n now = (decision, s')
  /-- A thread left alone decides. -/
  decides : ∀ {n now s pc}, Own n now s pc →
    ∃ pc' decision s', Relation.ReflTransGen (Silent n now s) pc pc' ∧ Commit n now s pc' decision s'

/-- A state behind its own mutex: one step. -/
def AtomicAcquire.mutex (S : Type) [KeyState S] : AtomicAcquire S Unit where
  entry := ()
  Silent _ _ _ _ _ := False
  Commit n now s _ decision s' := KeyState.acquire s n now = (decision, s')
  Own _ _ _ _ := True
  own_entry _ _ _ := trivial
  own_silent _ _ := trivial
  own_acquire _ _ _ := trivial
  own_peek _ _ := trivial
  own_reset _ _ := trivial
  acquired _ commit := commit
  decides _ := ⟨_, _, _, .refl, rfl⟩

/-!
### Calls and what they take effect as
-/

/-- The calls that name a key. -/
inductive NamedCall (K : Type) where
  | check (key : K) (n : ℕ)
  | peek (key : K)
  | reset (key : K)
  | remove (key : K)
deriving DecidableEq

def NamedCall.request {K : Type} : NamedCall K → Request K
  | .check key n => .check key n
  | .peek key => .peek key
  | .reset key => .reset key
  | .remove key => .remove key

/-- What a thread does to the store between an invocation and a response: a call that names a key, or one lock
    section of a call that walks over the shards. `clear` and `shrinkToFit` have a section for each shard,
    `retainRecent` one for each chunk of a shard. -/
inductive Job (shards : ℕ) (K : Type) where
  | named (call : NamedCall K)
  | clearShard (i : Fin shards)
  | retainChunk (i : Fin shards) (cursor : ℕ)
  | shrinkShard (i : Fin shards)
deriving DecidableEq

/-- What a job takes effect as, at a reading of the clock. -/
inductive Effect (shards : ℕ) (K : Type) where
  /-- A call of the sequential store. -/
  | whole (call : NamedCall K) (now : ℕ)
  /-- The second section of a reset whose key was stored between its two sections. It forgets a recorded debt
      and leaves the stored key alone, which no call of the sequential store does. -/
  | forget (key : K) (now : ℕ)
  /-- A section of a call that walks over the shards. -/
  | clearShard (i : Fin shards)
  | retainChunk (i : Fin shards) (cursor now : ℕ)
  | shrinkShard (i : Fin shards)
deriving DecidableEq

/-- The job an effect belongs to. -/
def Effect.job {shards : ℕ} {K : Type} : Effect shards K → Job shards K
  | .whole call _ => .named call
  | .forget key _ => .named (.reset key)
  | .clearShard i => .clearShard i
  | .retainChunk i cursor _ => .retainChunk i cursor
  | .shrinkShard i => .shrinkShard i

section Calls

variable {K S : Type} [DecidableEq K] [KeyState S] {config : StoreConfig K}

/-- The effect on the sequential store. -/
def Effect.apply (algorithm : Algorithm) (quotaOf : K → Quota) (store : Store config S) :
    Effect config.shardCount K → Answer K × Store config S
  | .whole call now => store.call algorithm quotaOf { request := call.request, now }
  | .forget key now =>
    let i := config.shardFor key
    let (forgotten, map) := (store i).resetWrite config key now
    (.found forgotten, Function.update store i map)
  | .clearShard i => (.done, Function.update store i .new)
  | .retainChunk i cursor now =>
    let ((removed, _), map) := (store i).retainChunk cursor now
    (.removed removed, Function.update store i map)
  | .shrinkShard i => (.done, Function.update store i (store i).shrinkSection)

/-- The shards, each behind its lock. -/
structure LockedStore (ι : Type) (config : StoreConfig K) (S : Type) where
  locks : Fin config.shardCount → RwLock ι
  shards : Store config S

/-- No key stored, and no lock held. -/
def LockedStore.new {ι : Type} : LockedStore ι config S := { locks := fun _ => .free, shards := Store.new }

/-- A section under the read lock that does one thing. -/
inductive Shared (K : Type) where
  | peek (key : K) (now : ℕ)
  | reset (key : K) (now : ℕ)

def Shared.key {K : Type} : Shared K → K
  | .peek key _ | .reset key _ => key

/-- A section under the write lock. -/
inductive Exclusive (shards : ℕ) (K S : Type) where
  /-- Storing a key that was missing, with the state made for it. -/
  | store (key : K) (n now : ℕ) (state : S)
  | forget (key : K) (now : ℕ)
  | remove (key : K) (now : ℕ)
  | clear (i : Fin shards)
  | retain (i : Fin shards) (cursor now : ℕ)
  | shrink (i : Fin shards)

namespace Exclusive

omit [DecidableEq K] [KeyState S] in
/-- The shard a section locks. -/
def shard (config : StoreConfig K) : Exclusive config.shardCount K S → Fin config.shardCount
  | .store key _ _ _ | .forget key _ | .remove key _ => config.shardFor key
  | .clear i | .retain i _ _ | .shrink i => i

omit [DecidableEq K] [KeyState S] in
/-- The job a section belongs to. -/
def job : Exclusive config.shardCount K S → Job config.shardCount K
  | .store key n _ _ => .named (.check key n)
  | .forget key _ => .named (.reset key)
  | .remove key _ => .named (.remove key)
  | .clear i => .clearShard i
  | .retain i cursor _ => .retainChunk i cursor
  | .shrink i => .shrinkShard i

omit [KeyState S] in
/-- What a section takes effect as, in the shard as it finds it: a reset whose key is still missing is a whole
    one. -/
def effect (config : StoreConfig K) (map : ShardMap K S) :
    Exclusive config.shardCount K S → Effect config.shardCount K
  | .store key n now _ => .whole (.check key n) now
  | .forget key now =>
    if (map.position (config.hasher key) key).isNone then .whole (.reset key) now else .forget key now
  | .remove key now => .whole (.remove key) now
  | .clear i => .clearShard i
  | .retain i cursor now => .retainChunk i cursor now
  | .shrink i => .shrinkShard i

/-- What a section does to the shard it locks. -/
def body (config : StoreConfig K) (map : ShardMap K S) :
    Exclusive config.shardCount K S → Answer K × ShardMap K S
  | .store key n now state =>
    let (outcome, map) := map.checkWrite config key n now state
    (.checked outcome, map)
  | .forget key now =>
    let (forgotten, map) := map.resetWrite config key now
    (.found forgotten, map)
  | .remove key now =>
    let (removed, map) := map.removeSection config key now
    (.found removed, map)
  | .clear _ => (.done, .new)
  | .retain _ cursor now =>
    let ((removed, _), map) := map.retainChunk cursor now
    (.removed removed, map)
  | .shrink _ => (.done, map.shrinkSection)

end Exclusive

/-- What a peek answers, given what the store knows of the key. -/
def Known.snapshot (S : Type) [KeyState S] (algorithm : Algorithm) (quota : Quota) (now : ℕ) : Known → Snapshot
  | .tracked snapshot => snapshot
  | .owed debt => owedSnapshot S debt quota now
  | .unknown => freshSnapshot algorithm quota

/-!
### Where a thread is
-/

/-- Where a thread is in a job.  `P` is where it is in spending from a shared state. -/
inductive LockPc (shards : ℕ) (K S P : Type) where
  | entering (job : Job shards K)
  /-- About to take the read lock for a check. -/
  | checking (key : K) (n : ℕ)
  /-- Holding the read lock, about to look the key up. -/
  | looking (key : K) (n : ℕ)
  /-- Found at `pos`, about to mark the slot used. -/
  | marking (key : K) (n pos : ℕ)
  /-- About to read the clock. -/
  | reading (key : K) (n pos : ℕ)
  /-- About to load the idle stamp. -/
  | stamping (key : K) (n pos now : ℕ)
  /-- About to overwrite an older idle stamp. -/
  | restamping (key : K) (n pos now : ℕ)
  | acquiring (key : K) (n pos now : ℕ) (pc : P)
  /-- Not found, about to release the read lock. -/
  | missing (key : K) (n : ℕ)
  /-- Holding no lock, about to read the clock and make a state. -/
  | making (key : K) (n : ℕ)
  /-- About to take the read lock. -/
  | sharing (section_ : Shared K)
  | inside (section_ : Shared K)
  /-- A reset that did not find its key, about to release the read lock. -/
  | passing (key : K) (now : ℕ)
  /-- About to take the write lock. -/
  | waiting (section_ : Exclusive shards K S)
  | writing (section_ : Exclusive shards K S)
  /-- The call has taken effect, and the read lock is still held. -/
  | leaving (i : Fin shards)
  | unlocking (i : Fin shards)
  | left

/-- The clock is read first, except by a check. -/
def Job.entered {shards : ℕ} {K S P : Type} (now : ℕ) : Job shards K → LockPc shards K S P
  | .named (.check key n) => .checking key n
  | .named (.peek key) => .sharing (.peek key now)
  | .named (.reset key) => .sharing (.reset key now)
  | .named (.remove key) => .waiting (.remove key now)
  | .clearShard i => .waiting (.clear i)
  | .retainChunk i cursor => .waiting (.retain i cursor now)
  | .shrinkShard i => .waiting (.shrink i)

namespace LockedStore

variable {ι : Type} [DecidableEq ι]

omit [DecidableEq K] [KeyState S] in
/-- Thread `t` takes the read lock of shard `i`. -/
def share (mem : LockedStore ι config S) (i : Fin config.shardCount) (t : ι) : LockedStore ι config S :=
  let lock := mem.locks i
  { mem with locks := Function.update mem.locks i { lock with readers := insert t lock.readers } }

omit [DecidableEq K] [KeyState S] in
def unshare (mem : LockedStore ι config S) (i : Fin config.shardCount) (t : ι) : LockedStore ι config S :=
  let lock := mem.locks i
  { mem with locks := Function.update mem.locks i { lock with readers := lock.readers.erase t } }

omit [DecidableEq ι] [DecidableEq K] [KeyState S] in
def lock (mem : LockedStore ι config S) (i : Fin config.shardCount) (t : ι) : LockedStore ι config S :=
  { mem with locks := Function.update mem.locks i { mem.locks i with writer := some t } }

omit [DecidableEq ι] [DecidableEq K] [KeyState S] in
def unlock (mem : LockedStore ι config S) (i : Fin config.shardCount) : LockedStore ι config S :=
  { mem with locks := Function.update mem.locks i { mem.locks i with writer := none } }

omit [DecidableEq ι] [DecidableEq K] [KeyState S] in
/-- Shard `i`, overwritten. -/
def write (mem : LockedStore ι config S) (i : Fin config.shardCount) (map : ShardMap K S) :
    LockedStore ι config S :=
  { mem with shards := Function.update mem.shards i map }

end LockedStore

variable {P : Type} (atomics : AtomicAcquire S P) (algorithm : Algorithm) (quotaOf : K → Quota)
  {ι : Type} [DecidableEq ι]

/-- A step of thread `t` at which nothing takes effect. -/
inductive LockPc.Silent (t : ι) : LockedStore ι config S → LockPc config.shardCount K S P →
    LockedStore ι config S → LockPc config.shardCount K S P → Prop where
  | enter (mem : LockedStore ι config S) (job : Job config.shardCount K) (now : ℕ) :
      Silent t mem (.entering job) mem (job.entered now)
  | check {mem : LockedStore ι config S} {key : K} {n : ℕ}
      (free : (mem.locks (config.shardFor key)).writer = none) :
      Silent t mem (.checking key n) (mem.share (config.shardFor key) t) (.looking key n)
  | found {mem : LockedStore ι config S} {key : K} {n pos : ℕ}
      (position : (mem.shards (config.shardFor key)).position (config.hasher key) key = some pos) :
      Silent t mem (.looking key n) mem (.marking key n pos)
  | missed {mem : LockedStore ι config S} {key : K} {n : ℕ}
      (position : (mem.shards (config.shardFor key)).position (config.hasher key) key = none) :
      Silent t mem (.looking key n) mem (.missing key n)
  /-- The mark is stored only where it is not set, which no one can tell from storing it always. -/
  | mark {mem : LockedStore ι config S} {key : K} {n pos : ℕ} {slot : Slot K S}
      (held : (mem.shards (config.shardFor key)).slots[pos]? = some slot) :
      Silent t mem (.marking key n pos)
        (mem.write (config.shardFor key) ((mem.shards (config.shardFor key)).setSlot pos slot.touch))
        (.reading key n pos)
  | read (mem : LockedStore ι config S) (key : K) (n pos now : ℕ) :
      Silent t mem (.reading key n pos) mem
        (if config.idleTtlMs.isSome then .stamping key n pos now
          else .acquiring key n pos now atomics.entry)
  | stampOlder {mem : LockedStore ι config S} {key : K} {n pos now : ℕ} {slot : Slot K S}
      (held : (mem.shards (config.shardFor key)).slots[pos]? = some slot)
      (older : slot.lastSeenMs < millis now) :
      Silent t mem (.stamping key n pos now) mem (.restamping key n pos now)
  | stampKept {mem : LockedStore ι config S} {key : K} {n pos now : ℕ} {slot : Slot K S}
      (held : (mem.shards (config.shardFor key)).slots[pos]? = some slot)
      (kept : millis now ≤ slot.lastSeenMs) :
      Silent t mem (.stamping key n pos now) mem (.acquiring key n pos now atomics.entry)
  /-- The stamp is not compared again, so it can go back over a later one stored since the load. -/
  | restamp {mem : LockedStore ι config S} {key : K} {n pos now : ℕ} {slot : Slot K S}
      (held : (mem.shards (config.shardFor key)).slots[pos]? = some slot) :
      Silent t mem (.restamping key n pos now)
        (mem.write (config.shardFor key)
          ((mem.shards (config.shardFor key)).setSlot pos { slot with lastSeenMs := millis now }))
        (.acquiring key n pos now atomics.entry)
  | spin {mem : LockedStore ι config S} {key : K} {n pos now : ℕ} {slot : Slot K S} {pc pc' : P}
      (held : (mem.shards (config.shardFor key)).slots[pos]? = some slot)
      (step : atomics.Silent n now slot.state pc pc') :
      Silent t mem (.acquiring key n pos now pc) mem (.acquiring key n pos now pc')
  | miss (mem : LockedStore ι config S) (key : K) (n : ℕ) :
      Silent t mem (.missing key n) (mem.unshare (config.shardFor key) t) (.making key n)
  | make {mem : LockedStore ι config S} {key : K} {n now : ℕ} {state : S}
      (made : KeyState.create (quotaOf key) now = some state) :
      Silent t mem (.making key n) mem (.waiting (.store key n now state))
  | share {mem : LockedStore ι config S} {section_ : Shared K}
      (free : (mem.locks (config.shardFor section_.key)).writer = none) :
      Silent t mem (.sharing section_) (mem.share (config.shardFor section_.key) t) (.inside section_)
  | pass {mem : LockedStore ι config S} {key : K} {now : ℕ}
      (missed : ((mem.shards (config.shardFor key)).resetRead config key now).1 = false) :
      Silent t mem (.inside (.reset key now)) mem (.passing key now)
  | passed (mem : LockedStore ι config S) (key : K) (now : ℕ) :
      Silent t mem (.passing key now) (mem.unshare (config.shardFor key) t) (.waiting (.forget key now))
  | lock {mem : LockedStore ι config S} {section_ : Exclusive config.shardCount K S}
      (free : (mem.locks (section_.shard config)).writer = none)
      (unread : (mem.locks (section_.shard config)).readers = ∅) :
      Silent t mem (.waiting section_) (mem.lock (section_.shard config) t) (.writing section_)
  | leave (mem : LockedStore ι config S) (i : Fin config.shardCount) :
      Silent t mem (.leaving i) (mem.unshare i t) .left
  | unlock (mem : LockedStore ι config S) (i : Fin config.shardCount) :
      Silent t mem (.unlocking i) (mem.unlock i) .left

/-- The step at which a job takes effect. -/
inductive LockPc.Commit : LockedStore ι config S → LockPc config.shardCount K S P → Effect config.shardCount K →
    Answer K → LockedStore ι config S → LockPc config.shardCount K S P → Prop where
  | acquire {mem : LockedStore ι config S} {key : K} {n pos now : ℕ} {slot : Slot K S} {pc : P}
      {decision : Decision} {state : S}
      (held : (mem.shards (config.shardFor key)).slots[pos]? = some slot)
      (step : atomics.Commit n now slot.state pc decision state) :
      Commit mem (.acquiring key n pos now pc) (.whole (.check key n) now) (.checked (.plain decision))
        (mem.write (config.shardFor key)
          ((mem.shards (config.shardFor key)).setSlot pos { slot with state }))
        (.leaving (config.shardFor key))
  /-- A quota that admits nothing is denied before the write lock. -/
  | closed {mem : LockedStore ι config S} {key : K} {n now : ℕ}
      (unmade : (KeyState.create (quotaOf key) now : Option S) = none) :
      Commit mem (.making key n) (.whole (.check key n) now) (.checked (.plain (closed n))) mem .left
  | peek (mem : LockedStore ι config S) (key : K) (now : ℕ) :
      Commit mem (.inside (.peek key now)) (.whole (.peek key) now)
        (.peeked (((mem.shards (config.shardFor key)).peekSection config key now).1.snapshot S algorithm
          (quotaOf key) now))
        (mem.write (config.shardFor key) ((mem.shards (config.shardFor key)).peekSection config key now).2)
        (.leaving (config.shardFor key))
  | reset {mem : LockedStore ι config S} {key : K} {now : ℕ}
      (found : ((mem.shards (config.shardFor key)).resetRead config key now).1 = true) :
      Commit mem (.inside (.reset key now)) (.whole (.reset key) now) (.found true)
        (mem.write (config.shardFor key) ((mem.shards (config.shardFor key)).resetRead config key now).2)
        (.leaving (config.shardFor key))
  | write (mem : LockedStore ι config S) (section_ : Exclusive config.shardCount K S) :
      Commit mem (.writing section_) (section_.effect config (mem.shards (section_.shard config)))
        (section_.body config (mem.shards (section_.shard config))).1
        (mem.write (section_.shard config) (section_.body config (mem.shards (section_.shard config))).2)
        (.unlocking (section_.shard config))

/-- The store's calls, carried out under its locks. -/
def lockedStore : Implementation ι (Job config.shardCount K) (Effect config.shardCount K) (Answer K)
    (LockedStore ι config S) (LockPc config.shardCount K S P) where
  start := .entering
  Silent := LockPc.Silent atomics quotaOf
  Commit _ := LockPc.Commit atomics algorithm quotaOf
  Finished pc := pc = .left

end Calls

end RateNet
