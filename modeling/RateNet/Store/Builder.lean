/-
Module: RateNet.Store.Builder
Layer: Store
Purpose: The settings a limiter is built from. `build` takes any settings and fails closed on those that describe
  no working limit; `try_build` refuses them, with the first field that is at fault.
Imports: RateNet.Store.KeyPolicy
Trusted boundary: the number of cores is an argument
Main exports: Builder, Builder.new, Builder.quotaValue, defaultShardCount, Builder.build, Builder.validate,
  Builder.tryBuild
-/
import RateNet.Store.KeyPolicy

namespace RateNet

/-- The keys a store holds unless it is told otherwise. -/
def defaultMaxKeys : ℕ := 2 ^ 20

def Eviction.default : Eviction := { maxKeys := some defaultMaxKeys, idleTtl := none, overflow := .failClosed }

/-- The settings of a limiter.  A burst that is not set is the limit. -/
structure Builder where
  algorithm : Algorithm
  limit : ℕ
  period : ℕ
  burst : Option ℕ
  shards : Option ℕ
  eviction : Eviction
  options : KeyOptions
  limit_le : limit ≤ u32Max
  period_le : period ≤ durationMax
  burst_le : ∀ units ∈ burst, units ≤ u32Max

/-- The shards of a limiter that is not told how many: four for each core, to a power of two. -/
def defaultShardCount (parallelism : ℕ) : ℕ := max 1 (min (nextPowerOfTwo (satMul parallelism 4)) 4096)

theorem nanosPerSec_le_durationMax : nanosPerSec ≤ durationMax := by decide

namespace Builder

/-- No quota is set yet: what is built from this admits nothing. -/
def new : Builder where
  algorithm := .tokenBucket
  limit := 0
  period := nanosPerSec
  burst := none
  shards := none
  eviction := .default
  options := { maxKeyLen := none, digestOver := none, quotaFor := none }
  limit_le := Nat.zero_le _
  period_le := nanosPerSec_le_durationMax
  burst_le := nofun

theorem burst_getD_le (builder : Builder) : builder.burst.getD builder.limit ≤ u32Max := by
  cases set : builder.burst with
  | none => exact builder.limit_le
  | some units => exact builder.burst_le units set

def quotaValue (builder : Builder) : Quota where
  limit := builder.limit
  period := builder.period
  burst := builder.burst.getD builder.limit
  limit_le := builder.limit_le
  period_le := builder.period_le
  burst_le := builder.burst_getD_le

/-- Builds a limiter from any settings. -/
def build (builder : Builder) (parallelism : ℕ) (hasher : KeyRef → ℕ) (digester : Digester) : RateLimiter :=
  .build builder.algorithm builder.quotaValue (builder.shards.getD (defaultShardCount parallelism))
    builder.eviction builder.options hasher digester

/-- The first setting that is at fault. -/
def validate (builder : Builder) : Except ConfigError Unit :=
  match builder.algorithm.validate builder.quotaValue with
  | .error error => .error error
  | .ok _ =>
    if builder.shards.any fun shards => shards == 0 || shards > maxShards then .error .shardCountOutOfRange
    else if builder.eviction.idleTtl.any (· < builder.algorithm.recoveryTime builder.quotaValue) then
      .error .idleTtlTooShort
    else .ok ()

/-- Builds a limiter from settings that hold up. -/
def tryBuild (builder : Builder) (parallelism : ℕ) (hasher : KeyRef → ℕ) (digester : Digester) :
    Except ConfigError RateLimiter :=
  builder.validate.map fun _ => builder.build parallelism hasher digester

end Builder

end RateNet
