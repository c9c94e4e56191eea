/-
Module: RateNet.Proofs.BuiltLimiters
Purpose: What `try_build` tells of the limiter that `build` makes from the same settings, whatever the limiter is
  called for. Settings that are accepted give a limiter that is of use: a request within the capacity is never
  turned away for ever, and the idle limit is the one asked for. Settings refused for a zero give one that
  turns away every request for ever.
Trusted boundary: none
Main exports: Algorithm.validate_ok, Algorithm.validate_zero, Builder.WorksOrFailsClosed,
  Builder.built_limiters_work_or_fail_closed
-/
import RateNet.Store.Builder
import RateNet.Proofs.KeyedWaits

namespace RateNet

/-!
### Quotas that are accepted
-/

/-- What a quota needs to admit anything: no zero among what the algorithm reads. -/
theorem admitsAnything_iff {algorithm : Algorithm} {quota : Quota} :
    admitsAnything algorithm quota = true ↔ 0 < quota.limit ∧ 0 < quota.period ∧
      (algorithm = .tokenBucket ∨ algorithm = .leakyBucket → 0 < quota.burst) := by
  cases algorithm with
  | tokenBucket =>
      have bucket : admitsAnything .tokenBucket quota = true ↔ _ := @admitsAnything_leakyBucket quota
      simpa using bucket
  | leakyBucket => simpa using @admitsAnything_leakyBucket quota
  | fixedWindow | slidingWindowLog | slidingWindowCounter =>
      rw [admitsAnything_window (by simp)]
      simp

/-- A quota that is accepted admits something. -/
theorem Algorithm.validate_ok {algorithm : Algorithm} {quota : Quota} {passed : Unit}
    (accepted : algorithm.validate quota = .ok passed) : admitsAnything algorithm quota = true := by
  rw [admitsAnything_iff]
  unfold Algorithm.validate at accepted
  split at accepted
  · cases accepted
  · rename_i limit
    split at accepted
    · cases accepted
    · rename_i period
      refine ⟨Nat.pos_of_ne_zero limit, Nat.pos_of_ne_zero period, fun bucket => ?_⟩
      by_contra burst
      have zero : quota.burst = 0 := Nat.eq_zero_of_not_pos burst
      rcases bucket with rfl | rfl
      · simp [nonZeroBurst, zero] at accepted
      · simp [RateNet.validate, limit, period, zero, Except.mapError] at accepted

/-- A quota refused for a zero admits nothing. -/
theorem Algorithm.validate_zero {algorithm : Algorithm} {quota : Quota} {error : RateLimiterError}
    (refused : algorithm.validate quota = .error (.quota error)) (zero : error ≠ .rateTooHigh) :
    admitsAnything algorithm quota = false := by
  by_contra admits
  obtain ⟨limit, period, burst⟩ := admitsAnything_iff.1 (Bool.eq_true_of_not_eq_false admits)
  unfold Algorithm.validate at refused
  rw [if_neg limit.ne', if_neg period.ne'] at refused
  cases algorithm with
  | tokenBucket => simp [nonZeroBurst, (burst (.inl rfl)).ne'] at refused
  | leakyBucket =>
      simp only [RateNet.validate, if_neg limit.ne', if_neg period.ne', if_neg (burst (.inr rfl)).ne'] at refused
      split at refused
      · exact zero (ConfigError.quota.inj (Except.error.inj refused)).symm
      · cases refused
  | slidingWindowLog =>
      dsimp only at refused
      split at refused
      · cases refused
      · cases refused
  | fixedWindow => cases refused
  | slidingWindowCounter => cases refused

/-!
### The limiter that is built
-/

namespace Builder

variable {S : Type} [KeyState S] [LawfulKeyState S] {builder : Builder} {parallelism : ℕ} {hasher : KeyRef → ℕ}
  {digester : Digester}

/-- What is accepted was checked field by field. -/
theorem validate_ok {passed : Unit} (accepted : builder.validate = .ok passed) :
    admitsAnything builder.algorithm builder.quotaValue = true ∧
      (∀ shards ∈ builder.shards, 1 ≤ shards ∧ shards ≤ maxShards) ∧
      ∀ ttl ∈ builder.eviction.idleTtl, builder.algorithm.recoveryTime builder.quotaValue ≤ ttl := by
  unfold validate at accepted
  split at accepted
  · cases accepted
  · rename_i quota
    split at accepted
    · cases accepted
    · rename_i inRange
      split at accepted
      · cases accepted
      · rename_i longEnough
        refine ⟨Algorithm.validate_ok quota, fun shards set => ?_, fun ttl set => ?_⟩
        · rw [Option.mem_def] at set
          simp only [set, Option.any_some, Bool.or_eq_true, beq_iff_eq, decide_eq_true_eq, not_or] at inRange
          omega
        · rw [Option.mem_def] at set
          simpa [set] using longEnough

/-- The idle limit of settings that are accepted is the one asked for. -/
theorem idleTtlMs_of_accepted {passed : Unit} (accepted : builder.validate = .ok passed) :
    (builder.build parallelism hasher digester).config.idleTtlMs =
      builder.eviction.idleTtl.map fun ttl => satAdd (ceilMillis ttl) 1 := by
  have long := (validate_ok accepted).2.2
  show builder.eviction.idleTtl.map _ = _
  refine Option.map_congr fun ttl set => ?_
  show satAdd (ceilMillis (max ttl (builder.algorithm.recoveryTime builder.quotaValue))) 1 = _
  rw [max_eq_left (long ttl set)]

/-- A refusal of the quota is that of its algorithm. -/
theorem validate_quota {error : RateLimiterError} (refused : builder.validate = .error (.quota error)) :
    builder.algorithm.validate builder.quotaValue = .error (.quota error) := by
  unfold validate at refused
  split at refused
  · rename_i other
    rw [other, refused]
  · split at refused
    · cases refused
    · split at refused
      · cases refused
      · cases refused

/-- Whatever a limiter built from some settings is called for.  If `try_build` accepts the settings, it gives that
    limiter, its idle limit is the one asked for, and a check of units within the capacity, of a key of an
    acceptable length, is allowed or told a time to wait.  If `try_build` refuses them for a zero, every check of
    a unit or more is turned away for ever. -/
def WorksOrFailsClosed (builder : Builder) (S : Type) [KeyState S] (parallelism : ℕ) (hasher : KeyRef → ℕ)
    (digester : Digester) (horizon : ℕ) : Prop :=
  let limiter := builder.build parallelism hasher digester
  let checkAfter (calls : List (Call KeyRef)) (key : KeyRef) (n now : ℕ) : Decision :=
    (limiter.checkRef (limiter.run (Store.new : Store limiter.config S) calls) key n now).1
  (∀ built, builder.tryBuild parallelism hasher digester = .ok built → built = limiter ∧
    limiter.config.idleTtlMs = (builder.eviction.idleTtl.map fun ttl => satAdd (ceilMillis ttl) 1) ∧
    ∀ calls key n now, limiter.Fits key → n ≤ capacity builder.algorithm builder.quotaValue → now ≤ horizon →
      checkAfter calls key n now = .allow ∨
        ∃ wait, checkAfter calls key n now = .deny wait ∧ 0 < wait ∧ wait < durationMax) ∧
  ∀ error, error ≠ .rateTooHigh → builder.tryBuild parallelism hasher digester = .error (.quota error) →
    ∀ calls key n now, 1 ≤ n → checkAfter calls key n now = .deny durationMax

theorem worksOrFailsClosed (runs : builder.algorithm = LawfulKeyState.algorithm S)
    (plain : builder.options.quotaFor = none) {horizon : ℕ} (honest : ∀ quota, HonestDenials S quota horizon) :
    builder.WorksOrFailsClosed S parallelism hasher digester horizon := by
  unfold WorksOrFailsClosed
  intro limiter checkAfter
  have byName : limiter.QuotasByName Set.univ fun _ => builder.quotaValue :=
    RateLimiter.quotasByName_of_plain plain _
  have kept calls : QuotasKept (fun _ => builder.quotaValue)
      (limiter.run (Store.new : Store limiter.config S) calls) :=
    RateLimiter.run_quotasKept byName (.new _) calls fun _ _ => trivial
  constructor
  · intro built accepted
    unfold tryBuild at accepted
    cases checked : builder.validate with
    | error error =>
        rw [checked] at accepted
        cases accepted
    | ok passed =>
        rw [checked] at accepted
        refine ⟨(Except.ok.inj accepted).symm, idleTtlMs_of_accepted checked, ?_⟩
        intro calls key n now fits within_ before
        cases decided : checkAfter calls key n now with
        | allow => exact .inl rfl
        | deny wait =>
            obtain ⟨positive, duration, hopeless⟩ :=
              RateLimiter.checkRef_timely byName runs honest (kept calls) trivial before decided
            refine .inr ⟨wait, rfl, positive, lt_of_le_of_ne duration fun endless => ?_⟩
            -- none of the reasons for turning a request away for ever applies
            rcases hopeless endless with long | shut | more
            · exact long fits
            · rw [← byName key trivial fits] at shut
              cases (validate_ok checked).1.symm.trans shut
            · rw [← byName key trivial fits] at more
              exact absurd within_ (Nat.not_le.2 more)
  · intro error zero refused calls key n now positive
    have quota : builder.validate = .error (.quota error) := by
      unfold tryBuild at refused
      cases checked : builder.validate with
      | error other =>
          rw [checked] at refused
          exact congrArg _ (Except.error.inj refused)
      | ok passed =>
          rw [checked] at refused
          cases refused
    have shut := Algorithm.validate_zero (validate_quota quota) zero
    rw [runs] at shut
    by_cases fits : limiter.Fits key
    · have good : InGoodOrder (fun _ => builder.quotaValue) (limiter.run (Store.new : Store limiter.config S) calls) :=
        fun i => ⟨(kept calls i).1, (kept calls i).2.2⟩
      have refused := @Unstored.check_shut _ _ _ _ _ _ (fun _ => builder.quotaValue) _ (limiter.label key)
        (good.unstored shut) shut n now
      show (limiter.checkRef _ key n now).1 = _
      rw [RateLimiter.checkRef_byName byName trivial fits, refused, closed, if_neg (by omega)]
    · exact RateLimiter.checkRef_of_tooLong _ fits n now

/-- A limiter built from settings without overrides is of use if `try_build` accepts them, and turns every request
    away if it refuses them for a zero, whatever it is called for. -/
theorem built_limiters_work_or_fail_closed (builder : Builder) (parallelism : ℕ) (hasher : KeyRef → ℕ)
    (digester : Digester) (plain : builder.options.quotaFor = none) (horizon : ℕ) :
    (builder.algorithm = .leakyBucket → horizon < u64Max →
      builder.WorksOrFailsClosed Gcra parallelism hasher digester horizon) ∧
    (builder.algorithm = .fixedWindow → horizon < u64Max →
      builder.WorksOrFailsClosed FixedWindow parallelism hasher digester horizon) ∧
    (builder.algorithm = .slidingWindowLog →
      builder.WorksOrFailsClosed SlidingLog parallelism hasher digester horizon) ∧
    (builder.algorithm = .slidingWindowCounter → horizon < u64Max →
      builder.WorksOrFailsClosed SlidingCounter parallelism hasher digester horizon) :=
  ⟨fun runs clock => worksOrFailsClosed runs plain fun quota => gcra_honest quota clock,
    fun runs clock => worksOrFailsClosed runs plain fun quota => fixedWindow_honest quota clock,
    fun runs => worksOrFailsClosed runs plain fun quota => slidingLog_honest quota horizon,
    fun runs clock => worksOrFailsClosed runs plain fun quota => slidingCounter_honest quota clock⟩

/-- Settings of one unit a second are accepted, and a second unit is told to wait; those of no unit are refused,
    and what is built from them turns every unit away. -/
theorem built_limiters_work_or_fail_closed_of_one_and_none :
    let asked : Builder := { Builder.new with algorithm := .fixedWindow, limit := 1, limit_le := by decide }
    let unset : Builder := { Builder.new with algorithm := .fixedWindow }
    let build (builder : Builder) := builder.build 1 (fun _ => 0) ⟨fun _ => 0, fun _ => 0⟩
    (∃ wait, ((build asked).checkRef ((build asked).run (Store.new : Store (build asked).config FixedWindow)
        [⟨.check ⟨.raw, [7]⟩ 1, 0⟩]) ⟨.raw, [7]⟩ 1 0).1 = .deny wait ∧ 0 < wait ∧ wait < durationMax) ∧
      ((build unset).checkRef (Store.new : Store (build unset).config FixedWindow) ⟨.raw, [7]⟩ 1 0).1 =
        .deny durationMax := by
  intro asked unset build
  obtain ⟨works, -⟩ := (built_limiters_work_or_fail_closed asked 1 (fun _ => 0)
    ⟨fun _ => 0, fun _ => 0⟩ rfl 10).2.1 rfl (by decide)
  obtain ⟨-, closes⟩ := (built_limiters_work_or_fail_closed unset 1 (fun _ => 0)
    ⟨fun _ => 0, fun _ => 0⟩ rfl 10).2.1 rfl (by decide)
  constructor
  · have answer := (works _ rfl).2.2 [⟨.check ⟨.raw, [7]⟩ 1, 0⟩] ⟨.raw, [7]⟩ 1 0 rfl (by decide) (by decide)
    exact answer.resolve_left (by decide +kernel)
  · exact closes .zeroQuota nofun rfl [] ⟨.raw, [7]⟩ 1 0 le_rfl

end Builder

end RateNet
