/-
Module: RateNet.Store.KeyPolicy
Layer: Store
Purpose: The keyed limiter in front of its store: which quotas a configuration accepts, the key-length policy
  that refuses over-long keys and stores long ones by their digest, and the per-key quota resolver. A key is
  looked up by the name the policy gives it, while its quota is resolved from the key the caller passed.
Imports: RateNet.Net.Key, RateNet.Algo.Gcra, RateNet.Algo.TokenBucket, RateNet.Lib.Runs, RateNet.Store.Limiter
Trusted boundary: the store's hasher and the digester are arbitrary functions; a stored key is the view it is
  compared by; the counters of refused keys are left out
Main exports: ConfigError, Algorithm.validate, KeyOptions, Admitted, RateLimiter, RateLimiter.admitKey,
  RateLimiter.quotaOfRef, RateLimiter.checkRef, RateLimiter.peekRef, Reply, RateLimiter.call,
  RateLimiter.run, RateLimiter.replies
-/
import RateNet.Net.Key
import RateNet.Algo.Gcra
import RateNet.Algo.TokenBucket
import RateNet.Lib.Runs
import RateNet.Store.Limiter

namespace RateNet

/-!
### Quotas a configuration accepts
-/

/-- The largest limit of a sliding-window log. -/
def maxSlidingLogLimit : ℕ := 2 ^ 16

/-- Why a configuration is refused: its quota cannot describe a working limit, or another field is out of
    range. -/
inductive ConfigError where
  | quota (error : RateLimiterError)
  | limitTooLarge
  | shardCountOutOfRange
  | idleTtlTooShort
deriving DecidableEq, Repr

def nonZeroBurst (quota : Quota) : Except ConfigError Unit :=
  if quota.burst = 0 then .error (.quota .zeroBurst) else .ok ()

/-- The strict checks of a quota under an algorithm. -/
def Algorithm.validate (algorithm : Algorithm) (quota : Quota) : Except ConfigError Unit :=
  if quota.limit = 0 then .error (.quota .zeroQuota)
  else if quota.period = 0 then .error (.quota .zeroPeriod)
  else
    match algorithm with
    | .tokenBucket => nonZeroBurst quota
    | .leakyBucket => (RateNet.validate quota).mapError .quota
    | .slidingWindowLog => if maxSlidingLogLimit < quota.limit then .error .limitTooLarge else .ok ()
    | .fixedWindow | .slidingWindowCounter => .ok ()

/-!
### The key-length policy
-/

/-- The optional per-key behaviour of a limiter. -/
structure KeyOptions where
  /-- Keys longer than this many bytes are denied and never stored. -/
  maxKeyLen : Option ℕ
  /-- Keys longer than this many bytes are stored as a digest. -/
  digestOver : Option ℕ
  /-- Overrides the limiter's quota for chosen keys. -/
  quotaFor : Option (Key → Option Quota)

def KeyOptions.limitsLength (options : KeyOptions) : Bool :=
  options.maxKeyLen.isSome || options.digestOver.isSome

/-- How the key-length policy treats one key. -/
inductive Admitted where
  | asIs (key : KeyRef)
  | digest (bytes : List AddressBits.Byte)
  | tooLong
deriving DecidableEq

/-- The key the store looks up. -/
def Admitted.name : Admitted → Option KeyRef
  | .asIs key => some key
  | .digest bytes => some { kind := .digest, bytes }
  | .tooLong => none

/-- The fields of a limiter that no call changes. -/
structure RateLimiter where
  algorithm : Algorithm
  quota : Quota
  shards : ℕ
  eviction : Eviction
  options : KeyOptions
  digester : Option Digester
  /-- The hasher of the limiter's store. -/
  hasher : KeyRef → ℕ

namespace RateLimiter

/-- Assembles a limiter from its parts; a digester is made only for a limiter that digests. -/
def build (algorithm : Algorithm) (quota : Quota) (shards : ℕ) (eviction : Eviction) (options : KeyOptions)
    (hasher : KeyRef → ℕ) (digester : Digester) : RateLimiter :=
  { algorithm, quota, shards, eviction, options, hasher, digester := options.digestOver.map fun _ => digester }

/-- The store a limiter is built with: an idle limit never forgets a key before it could have recovered. -/
def config (limiter : RateLimiter) : StoreConfig KeyRef :=
  .new limiter.hasher limiter.shards limiter.eviction (limiter.algorithm.recoveryTime limiter.quota)

variable (limiter : RateLimiter)

/-- How the key-length policy treats `key`. -/
def admitKey (key : KeyRef) : Admitted :=
  let len := key.bytes.length
  if limiter.options.maxKeyLen.any (· < len) then .tooLong
  else
    match limiter.digester, limiter.options.digestOver with
    | some digester, some longest => if longest < len then .digest (digester.digest key) else .asIs key
    | _, _ => .asIs key

/-- The quota of `key`: a valid override, a quota that admits nothing for an invalid one, or else the
    limiter's. -/
def quotaOfRef (key : KeyRef) : Quota :=
  match limiter.options.quotaFor with
  | none => limiter.quota
  | some resolve =>
    match resolve key.toKey with
    | none => limiter.quota
    | some quota =>
      match limiter.algorithm.validate quota with
      | .ok _ => quota
      | .error _ => { quota with limit := 0, burst := 0, limit_le := Nat.zero_le _, burst_le := Nat.zero_le _ }

/-!
### Calls
-/

variable {S : Type} [KeyState S]

/-- A check of the store under `name`, with a new state made under the quota of `key`. -/
def checkStore (store : Store limiter.config S) (name key : KeyRef) (n now : ℕ) :
    Decision × Store limiter.config S :=
  let (outcome, store) := store.check name n now (KeyState.create (limiter.quotaOfRef key))
  (outcome.decision, store)

/-- The check path under a key-length policy. -/
def checkWithPolicy (store : Store limiter.config S) (key : KeyRef) (n now : ℕ) :
    Decision × Store limiter.config S :=
  match limiter.admitKey key with
  | .asIs stored => limiter.checkStore store stored stored n now
  | .digest bytes => limiter.checkStore store { kind := .digest, bytes } key n now
  | .tooLong => (.deny durationMax, store)

/-- The shared check path. -/
def checkRef (store : Store limiter.config S) (key : KeyRef) (n now : ℕ) : Decision × Store limiter.config S :=
  if !limiter.options.limitsLength then limiter.checkStore store key key n now
  else limiter.checkWithPolicy store key n now

/-- What the limiter knows of an admitted key: a tracked key's snapshot, an evicted key's debt applied to a
    fresh allowance, or a fresh allowance. -/
def snapshotOf (key : KeyRef) (known : Known) (now : ℕ) : Snapshot :=
  match known with
  | .tracked snapshot => snapshot
  | .owed debt => owedSnapshot S debt (limiter.quotaOfRef key) now
  | .unknown => freshSnapshot limiter.algorithm (limiter.quotaOfRef key)

/-- The shared peek path. -/
def peekRef (store : Store limiter.config S) (key : KeyRef) (now : ℕ) : Snapshot × Store limiter.config S :=
  match limiter.admitKey key with
  | .asIs stored =>
    let (known, store) := store.peek stored now
    (limiter.snapshotOf (S := S) key known now, store)
  | .digest bytes =>
    let (known, store) := store.peek { kind := .digest, bytes } now
    (limiter.snapshotOf (S := S) key known now, store)
  | .tooLong => (.closed, store)

def reset (store : Store limiter.config S) (key : KeyRef) (now : ℕ) : Bool × Store limiter.config S :=
  match limiter.admitKey key with
  | .asIs key => store.reset key now
  | .digest bytes => store.reset { kind := .digest, bytes } now
  | .tooLong => (false, store)

def remove (store : Store limiter.config S) (key : KeyRef) (now : ℕ) : Bool × Store limiter.config S :=
  match limiter.admitKey key with
  | .asIs key => store.remove key now
  | .digest bytes => store.remove { kind := .digest, bytes } now
  | .tooLong => (false, store)

end RateLimiter

/-- What a caller of the limiter sees. -/
inductive Reply where
  | decided (decision : Decision)
  | peeked (snapshot : Snapshot)
  | found (any : Bool)
  | removed (keys : ℕ)
  | done
deriving DecidableEq

namespace RateLimiter

variable (limiter : RateLimiter) {S : Type} [KeyState S]

/-- One call of the limiter. -/
def call (store : Store limiter.config S) (call : Call KeyRef) : Reply × Store limiter.config S :=
  match call.request with
  | .check key n =>
    let (decision, store) := limiter.checkRef store key n call.now
    (.decided decision, store)
  | .peek key =>
    let (snapshot, store) := limiter.peekRef store key call.now
    (.peeked snapshot, store)
  | .reset key =>
    let (found, store) := limiter.reset store key call.now
    (.found found, store)
  | .remove key =>
    let (found, store) := limiter.remove store key call.now
    (.found found, store)
  | .clear => (.done, store.clear)
  | .retainRecent =>
    let (keys, store) := store.retainRecent call.now
    (.removed keys, store)
  | .shrinkToFit => (.done, store.shrinkToFit)

/-- The store after a sequence of calls. -/
def run (store : Store limiter.config S) (calls : List (Call KeyRef)) : Store limiter.config S :=
  calls.foldl (fun store call => (limiter.call store call).2) store

/-- What a sequence of calls is answered. -/
def replies (store : Store limiter.config S) (calls : List (Call KeyRef)) : List Reply :=
  Runs.outputs limiter.call store calls

end RateLimiter

end RateNet
