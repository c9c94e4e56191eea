/-
Module: RateNet.Proofs.ExactArithmetic
Purpose: No configuration and no input makes the accounting overflow, underflow or divide by zero. Each
  algorithm has a condition on its states that every call keeps and under which every arithmetic step of a
  call is exact; so a sequence of calls in checked steps returns what the unchecked one returns. The
  leaky bucket's time conversion, a reciprocal with one correction, is on the way shown to be the exact floor.
Trusted boundary: none
Main exports: ExactCalls, ExactCalls.performAll, Gcra.exactCalls, FixedWindow.exactCalls,
  SlidingLog.exactCalls, SlidingCounter.exactCalls, accounting_is_exact, GcraParams.conversions_are_exact
-/
import RateNet.Algo.Checked

namespace RateNet

open CheckedArith RateConversion

theorem lt_of_le_u32Max {a : ℕ} (h : a ≤ u32Max) : a < 2 ^ 32 := lt_of_le_of_lt h (by decide)

theorem lt_of_le_u64Max {a : ℕ} (h : a ≤ u64Max) : a < 2 ^ 64 := lt_of_le_of_lt h (by decide)

/-!
### Sequences of calls
-/

section Calls

variable {S : Type} [KeyState S] [CheckedKeyState S]

/-- From every sound state every call is exact, and leaves a sound state. -/
structure ExactCalls (S : Type) [KeyState S] [CheckedKeyState S] (Sound : S → Prop) : Prop where
  create : ∀ quota now, CheckedKeyState.create quota now = some (KeyState.create quota now : Option S) ∧
    ∀ made ∈ (KeyState.create quota now : Option S), Sound made
  acquire : ∀ {state}, Sound state → ∀ n now,
    CheckedKeyState.acquire state n now = some (KeyState.acquire state n now) ∧
      Sound (KeyState.acquire state n now).2
  peek : ∀ {state}, Sound state → ∀ now,
    CheckedKeyState.peek state now = some (KeyState.peek state now) ∧ Sound (KeyState.peek state now).2
  reset : ∀ {state}, Sound state → ∀ now,
    CheckedKeyState.reset state now = some (KeyState.reset state now) ∧ Sound (KeyState.reset state now)
  debt : ∀ {state}, Sound state → ∀ now,
    CheckedKeyState.debt state now = some (KeyState.debt state now) ∧ Sound (KeyState.debt state now).2
  restore : ∀ {state}, Sound state → ∀ owed now,
    CheckedKeyState.restore state owed now = some (KeyState.restore state owed now) ∧
      Sound (KeyState.restore state owed now)

namespace ExactCalls

variable {Sound : S → Prop} (steps : ExactCalls S Sound) {state : S}
include steps

theorem perform (sound : Sound state) (call : KeyCall) :
    call.performChecked state = some (call.perform state) ∧ Sound (call.perform state).2 := by
  cases call with
  | create quota now =>
      obtain ⟨made, kept⟩ := steps.create quota now
      refine ⟨?_, ?_⟩
      · simp only [KeyCall.performChecked, made, Option.bind_eq_bind, Option.bind_some, KeyCall.perform]
      · show Sound ((KeyState.create quota now).getD state)
        cases outcome : (KeyState.create quota now : Option S) with
        | none => exact sound
        | some fresh => exact kept fresh outcome
  | acquire n now =>
      obtain ⟨answer, kept⟩ := steps.acquire sound n now
      refine ⟨?_, kept⟩
      simp only [KeyCall.performChecked, answer, Option.bind_eq_bind, Option.bind_some, KeyCall.perform]
  | peek now =>
      obtain ⟨answer, kept⟩ := steps.peek sound now
      refine ⟨?_, kept⟩
      simp only [KeyCall.performChecked, answer, Option.bind_eq_bind, Option.bind_some, KeyCall.perform]
  | reset now =>
      obtain ⟨answer, kept⟩ := steps.reset sound now
      refine ⟨?_, kept⟩
      simp only [KeyCall.performChecked, answer, Option.bind_eq_bind, Option.bind_some, KeyCall.perform]
  | debt now =>
      obtain ⟨answer, kept⟩ := steps.debt sound now
      refine ⟨?_, kept⟩
      simp only [KeyCall.performChecked, answer, Option.bind_eq_bind, Option.bind_some, KeyCall.perform]
  | restore owed now =>
      obtain ⟨answer, kept⟩ := steps.restore sound owed now
      refine ⟨?_, kept⟩
      simp only [KeyCall.performChecked, answer, Option.bind_eq_bind, Option.bind_some, KeyCall.perform]

/-- A whole sequence of calls is exact. -/
theorem performAll (sound : Sound state) (calls : List KeyCall) :
    performAllChecked state calls = some (RateNet.performAll state calls) := by
  induction calls generalizing state with
  | nil => rfl
  | cons call calls inductionHypothesis =>
      obtain ⟨answer, kept⟩ := steps.perform sound call
      simp only [performAllChecked, answer, Option.bind_eq_bind, Option.bind_some,
        inductionHypothesis kept, RateNet.performAll]

end ExactCalls

/-!
### The default methods
-/

theorem Snapshot.debtChecked_eq (snapshot : Snapshot) (now : ℕ) :
    snapshot.debtChecked now = some (snapshot.debt now) := by
  rw [debtChecked, sub_eq snapshot.remaining_le]
  rfl

variable {Sound : S → Prop} {state : S} {now : ℕ}

/-- The trait's `debt` is as exact as the `peek` it reads. -/
theorem defaultDebt_exact (peek : CheckedKeyState.peek state now = some (KeyState.peek state now)) :
    (do
      let (snapshot, state) ← CheckedKeyState.peek state now
      let owed ← snapshot.debtChecked now
      some (owed, state)) =
      some ((KeyState.peek state now).1.debt now, (KeyState.peek state now).2) := by
  simp only [peek, Option.bind_eq_bind, Option.bind_some, Snapshot.debtChecked_eq]

/-- The trait's `restore` is as exact as the `peek` and the `acquire` it is made of. -/
theorem defaultRestore_exact
    (peek : CheckedKeyState.peek state now = some (KeyState.peek state now))
    (acquire : ∀ n, CheckedKeyState.acquire (KeyState.peek state now).2 n now =
      some (KeyState.acquire (KeyState.peek state now).2 n now)) (owed : Debt) :
    (if owed.until ≤ now ∨ owed.spent = 0 then some state
      else do
        let (snapshot, state) ← CheckedKeyState.peek state now
        let units := min owed.spent snapshot.limit
        if 0 < units then do
          let (_, state) ← CheckedKeyState.acquire state units now
          some state
        else some state) = some (defaultRestore state owed now) := by
  rw [defaultRestore]
  split
  · rfl
  · simp only [peek, Option.bind_eq_bind, Option.bind_some, acquire]
    split
    · rfl
    · rfl

end Calls

/-!
### The leaky bucket
-/

namespace GcraParams

theorem newChecked_eq (quota : Quota) : newChecked quota = some (new quota) := by
  simp only [newChecked, new]
  split
  · rfl
  · rename_i opened
    have small : min quota.limit (nanos quota.period) < 2 ^ 32 :=
      lt_of_le_u32Max ((min_le_left _ _).trans quota.limit_le)
    have positive : 0 < nanos quota.period := by omega
    have shifted : min quota.limit (nanos quota.period) <<< 64 < 2 ^ 128 := by
      rw [Nat.shiftLeft_eq]
      omega
    rw [shl_eq shifted]
    simp only [Option.bind_eq_bind, Option.bind_some, div_eq positive]

section Open

variable {p : GcraParams} (hp : p.IsOpen)
include hp

theorem IsOpen.perNs_le : p.perNs ≤ 2 ^ 64 := by
  rw [hp.perNs_eq, reciprocal]
  exact Nat.div_le_of_le_mul (Nat.mul_le_mul_right _ hp.limit_le)

theorem IsOpen.interval_le {now : ℕ} : p.intervalsAt (nanos now) ≤ u64Max := by
  rw [intervalsAt_eq hp (nanos_le now)]
  exact (ticksAt_le hp.limit_le _).trans (nanos_le now)

/-- The reciprocal estimate and its correction stay within their words. -/
theorem intervalsAtChecked_eq (now : ℕ) :
    p.intervalsAtChecked (nanos now) = some (p.intervalsAt (nanos now)) := by
  have clock := nanos_le now
  generalize nanos now = nowNs at clock ⊢
  have clock_lt := lt_of_le_u64Max clock
  have period_lt := lt_of_le_u64Max hp.period_le
  have product : nowNs * p.perNs < 2 ^ 128 := by
    have scaled : nowNs * p.perNs ≤ (2 ^ 64 - 1) * 2 ^ 64 := Nat.mul_le_mul (by omega) hp.perNs_le
    omega
  have estimate_lt : (nowNs * p.perNs) >>> 64 < 2 ^ 64 := by
    rw [Nat.shiftRight_eq_div_pow]
    exact Nat.div_lt_of_lt_mul product
  simp only [intervalsAtChecked, intervalsAt, mul_eq product, narrow_eq estimate_lt, Nat.mod_eq_of_lt estimate_lt,
    Option.bind_eq_bind, Option.bind_some]
  generalize (nowNs * p.perNs) >>> 64 = estimate at estimate_lt ⊢
  have scaled : (estimate + 1) * p.periodNs < 2 ^ 128 := by
    have whole : (estimate + 1) * p.periodNs ≤ 2 ^ 64 * (2 ^ 64 - 1) := Nat.mul_le_mul estimate_lt (by omega)
    omega
  have elapsed : nowNs * p.limit < 2 ^ 128 :=
    mul_lt clock_lt (lt_of_le_of_lt hp.limit_le period_lt) le_rfl
  rw [add_eq (by omega : estimate + 1 < 2 ^ 128)]
  simp only [Option.bind_some, mul_eq scaled, mul_eq elapsed]
  split
  · rename_i begun
    -- an interval that has begun is no later than the clock
    have reached : estimate + 1 ≤ nowNs :=
      Nat.le_of_mul_le_mul_right (begun.trans (Nat.mul_le_mul_left _ hp.limit_le)) hp.period_pos
    exact add_eq (by omega)
  · rfl

theorem nanosAtChecked_eq {interval : ℕ} (word : interval ≤ u64Max) :
    p.nanosAtChecked interval = some (p.nanosAt interval) := by
  have scaled : interval * p.periodNs < 2 ^ 128 :=
    mul_lt (lt_of_le_u64Max word) (lt_of_le_u64Max hp.period_le) le_rfl
  simp only [nanosAtChecked, mul_eq scaled, divCeil_eq hp.limit_pos, Option.bind_eq_bind, Option.bind_some,
    nanosAt]

end Open

/-- The conversions of a quota that is open under `new`: every product, cast and sum of `intervals_at` fits its word
    and the result is the exact floor; `nanos_at` gives the exact start of every interval whose start fits a word,
    and is the lower adjoint of `intervals_at` there. -/
theorem conversions_are_exact (quota : Quota) (opened : (new quota).closed = false) :
    (1 ≤ (new quota).limit ∧ (new quota).limit ≤ (new quota).periodNs ∧ (new quota).periodNs < 2 ^ 64) ∧
    (∀ nowNs < 2 ^ 64,
      (new quota).intervalsAtChecked nowNs = some (nowNs * (new quota).limit / (new quota).periodNs) ∧
      (new quota).intervalsAt nowNs = nowNs * (new quota).limit / (new quota).periodNs) ∧
    ∀ i < 2 ^ 64, (i * (new quota).periodNs) ⌈/⌉ (new quota).limit < 2 ^ 64 →
      (new quota).nanosAtChecked i = some ((i * (new quota).periodNs) ⌈/⌉ (new quota).limit) ∧
      (new quota).nanosAt i = (i * (new quota).periodNs) ⌈/⌉ (new quota).limit ∧
      ∀ t < 2 ^ 64, i ≤ (new quota).intervalsAt t ↔ (new quota).nanosAt i ≤ t := by
  have hp := new_isOpen opened
  have word : ∀ {a : ℕ}, a < 2 ^ 64 → a ≤ u64Max := fun h => Nat.le_of_lt_succ h
  refine ⟨⟨hp.limit_pos, hp.limit_le, lt_of_le_u64Max hp.period_le⟩, ?_, ?_⟩
  · intro nowNs clock
    have floor : (new quota).intervalsAt nowNs = nowNs * (new quota).limit / (new quota).periodNs :=
      intervalsAt_eq hp (word clock)
    have steps := intervalsAtChecked_eq hp nowNs
    rw [nanos_eq (word clock), floor] at steps
    exact ⟨steps, floor⟩
  · intro i interval start
    have unsaturated : (new quota).nanosAt i = (i * (new quota).periodNs) ⌈/⌉ (new quota).limit :=
      min_eq_left (word start)
    have steps := nanosAtChecked_eq hp (word interval)
    rw [unsaturated] at steps
    refine ⟨steps, unsaturated, ?_⟩
    intro t clock
    rw [intervalsAt_eq hp (word clock), unsaturated]
    exact (tickStart_le_iff hp.limit_pos hp.period_pos).symm

theorem conversions_are_exact_at_three_per_second :
    (new (.perSecond 3 (by decide))).intervalsAtChecked (2 ^ 64 - 1) =
        some ((2 ^ 64 - 1) * 3 / 1000000000) ∧
      (1 ≤ (new (.perSecond 3 (by decide))).intervalsAt 333333333 ↔
        (new (.perSecond 3 (by decide))).nanosAt 1 ≤ 333333333) :=
  ⟨((conversions_are_exact (.perSecond 3 (by decide)) (by decide)).2.1 (2 ^ 64 - 1) (by decide)).1,
    ((conversions_are_exact (.perSecond 3 (by decide)) (by decide)).2.2 1 (by decide) (by decide)).2.2 333333333
      (by decide)⟩

variable {p : GcraParams} (params : p.closed = true ∨ p.IsOpen)
include params

theorem checkNInChecked_eq (tat n now : ℕ) : p.checkNInChecked tat n now = some (p.checkNIn tat n now) := by
  rw [checkNInChecked, checkNIn]
  by_cases none_asked : n = 0
  · rw [if_pos none_asked, if_pos none_asked]
  rw [if_neg none_asked, if_neg none_asked, sub_eq (by omega)]
  simp only [Option.bind_eq_bind, Option.bind_some]
  by_cases impossible : p.closed = true ∨ n - 1 > p.tolerance
  · rw [if_pos impossible, if_pos impossible]
  rw [if_neg impossible, if_neg impossible]
  have hp := params.resolve_left fun closed => impossible (Or.inl closed)
  simp only [intervalsAtChecked_eq hp, Option.bind_some, attempt]
  split
  · rfl
  · rename_i past
    -- what is over the ceiling is at least the tolerance the ceiling adds
    have tolerance := hp.tolerance_lt
    have enough : p.tolerance ≤ satAdd (max tat (p.intervalsAt (nanos now))) (n - 1) := by
      simp only [satAdd, u64Max, u32Max] at past tolerance ⊢
      omega
    have word : satAdd (max tat (p.intervalsAt (nanos now))) (n - 1) - p.tolerance ≤ u64Max :=
      (Nat.sub_le _ _).trans (min_le_right _ _)
    rw [sub_eq enough]
    simp only [Option.bind_some, nanosAtChecked_eq hp word]

theorem peekInChecked_eq {tat : ℕ} (word : tat ≤ u64Max) (now : ℕ) :
    p.peekInChecked tat now = some (p.peekIn tat now) := by
  rw [peekInChecked, peekIn]
  by_cases closed : p.closed = true
  · rw [if_pos closed, if_pos closed]
  rw [if_neg closed, if_neg closed]
  have hp := params.resolve_left closed
  have burst : p.tolerance + 1 < 2 ^ 64 := by
    have small := hp.tolerance_lt
    simp only [u32Max] at small
    omega
  have arrival : max tat (p.intervalsAt (nanos now)) ≤ u64Max := max_le word hp.interval_le
  simp only [add_eq burst, intervalsAtChecked_eq hp, nanosAtChecked_eq hp arrival, Option.bind_eq_bind,
    Option.bind_some]
  split
  · rfl
  · rfl

theorem restoreUntilInChecked_eq (tat «until» : ℕ) :
    p.restoreUntilInChecked tat «until» = some (p.restoreUntilIn tat «until») := by
  rw [restoreUntilInChecked, restoreUntilIn]
  by_cases closed : p.closed = true
  · rw [if_pos closed, if_pos closed]
  rw [if_neg closed, if_neg closed]
  have hp := params.resolve_left closed
  simp only [intervalsAtChecked_eq hp, nanosAtChecked_eq hp hp.interval_le, Option.bind_eq_bind,
    Option.bind_some]

end GcraParams

namespace Gcra

/-- The arrival time is a word, and the parameters are some quota's. -/
structure Sound (g : Gcra) : Prop where
  params : ∃ quota, g.params = .new quota
  word : g.tat ≤ u64Max

variable {g : Gcra}

theorem Sound.closed_or_open (sound : g.Sound) : g.params.closed = true ∨ g.params.IsOpen := by
  obtain ⟨quota, params⟩ := sound.params
  rw [params]
  cases closed : (GcraParams.new quota).closed with
  | false => exact Or.inr (GcraParams.new_isOpen closed)
  | true => exact Or.inl rfl

theorem new_sound (quota : Quota) : (Gcra.new quota).Sound := ⟨⟨quota, rfl⟩, Nat.zero_le _⟩

theorem newChecked_eq (quota : Quota) : newChecked quota = some (Gcra.new quota) := by
  simp only [newChecked, GcraParams.newChecked_eq, Option.bind_eq_bind, Option.bind_some, Gcra.new]

theorem Sound.checkNAt (sound : g.Sound) (n now : ℕ) : (g.checkNAt n now).2.Sound := by
  refine ⟨sound.params, ?_⟩
  have word := sound.word
  show (g.params.checkNIn g.tat n now).2 ≤ u64Max
  unfold GcraParams.checkNIn
  split
  · exact word
  · split
    · exact word
    · simp only [GcraParams.attempt]
      split
      · rename_i swapped
        split at swapped
        · cases swapped
          exact min_le_right _ _
        · cases swapped
      · exact word

theorem Sound.restoreUntil (sound : g.Sound) («until» : ℕ) : (g.restoreUntil «until»).Sound := by
  refine ⟨sound.params, ?_⟩
  show g.params.restoreUntilIn g.tat «until» ≤ u64Max
  unfold GcraParams.restoreUntilIn
  rcases sound.closed_or_open with closed | hp
  · rw [if_pos closed]
    exact sound.word
  · rw [hp.not_closed]
    simp only [Bool.false_eq_true, if_false]
    refine max_le sound.word ?_
    split
    · exact hp.interval_le
    · exact min_le_right _ _

theorem Sound.peek_exact (sound : g.Sound) (now : ℕ) :
    CheckedKeyState.peek g now = some (KeyState.peek g now) := by
  simp only [CheckedKeyState.peek, GcraParams.peekInChecked_eq sound.closed_or_open sound.word,
    Option.bind_eq_bind, Option.bind_some]
  rfl

theorem exactCalls : ExactCalls Gcra Gcra.Sound where
  create quota now := by
    simp only [CheckedKeyState.create, KeyState.create, newChecked_eq, Option.map_some]
    split
    · refine ⟨rfl, ?_⟩
      rintro _ ⟨⟩
      exact new_sound quota
    · exact ⟨rfl, fun _ made => by cases made⟩
  acquire {g} sound n now := by
    refine ⟨?_, sound.checkNAt n now⟩
    simp only [CheckedKeyState.acquire, GcraParams.checkNInChecked_eq sound.closed_or_open, Option.bind_eq_bind,
      Option.bind_some]
    rfl
  peek {g} sound now := ⟨sound.peek_exact now, sound⟩
  reset {g} sound now := ⟨rfl, sound.params, Nat.zero_le _⟩
  debt {g} sound now := ⟨defaultDebt_exact (sound.peek_exact now), sound⟩
  restore {g} sound owed now := by
    simp only [CheckedKeyState.restore, KeyState.restore,
      GcraParams.restoreUntilInChecked_eq sound.closed_or_open, Option.bind_eq_bind, Option.bind_some]
    split
    · exact ⟨rfl, sound.restoreUntil _⟩
    · exact ⟨rfl, sound⟩

end Gcra

/-!
### The fixed window
-/

namespace FixedWindow

/-- The packed state is a word, and the limit half a word. -/
structure Sound (fw : FixedWindow) : Prop where
  word : fw.state < 2 ^ 64
  limit : fw.limit ≤ u32Max

variable {fw : FixedWindow}

theorem pack_lt {index count : ℕ} (hi : index < 2 ^ 32) (hc : count < 2 ^ 32) :
    pack index count < 2 ^ 64 := by
  rw [pack, ← Nat.shiftLeft_add_eq_or_of_lt hc, Nat.shiftLeft_eq]
  omega

theorem packChecked_eq {index : ℕ} (hi : index < 2 ^ 32) (count : ℕ) :
    packChecked index count = some (pack index count) := by
  have shifted : index <<< 32 < 2 ^ 64 := by
    rw [Nat.shiftLeft_eq]
    omega
  simp only [packChecked, shl_eq shifted, Option.bind_eq_bind, Option.bind_some, pack]

theorem unpackChecked_eq {state : ℕ} (word : state < 2 ^ 64) : unpackChecked state = some (unpack state) := by
  have high : state >>> 32 < 2 ^ 32 := by
    rw [Nat.shiftRight_eq_div_pow]
    omega
  have low : state &&& (2 ^ 32 - 1) < 2 ^ 32 := by
    rw [Nat.and_two_pow_sub_one_eq_mod]
    exact Nat.mod_lt _ (Nat.two_pow_pos 32)
  simp only [unpackChecked, narrow_eq high, narrow_eq low, Option.bind_eq_bind, Option.bind_some, unpack,
    Nat.mod_eq_of_lt high]

theorem countInChecked_eq {current : ℕ} (word : current < 2 ^ 64) (window latest : ℕ) :
    countInChecked window current latest = some (countIn window current latest) := by
  simp only [countInChecked, unpackChecked_eq word, Option.bind_eq_bind, Option.bind_some, countIn]

theorem countIn_lt (window current latest : ℕ) : countIn window current latest < 2 ^ 32 := by
  rw [countIn]
  split
  · rw [unpack, Nat.and_two_pow_sub_one_eq_mod]
    exact Nat.mod_lt _ (Nat.two_pow_pos 32)
  · exact Nat.two_pow_pos 32

theorem packed_lt (window total : ℕ) : packed window total < 2 ^ 64 :=
  pack_lt (lowBits_lt window) (lt_of_le_u32Max (min_le_right _ _))

theorem newChecked_eq (quota : Quota) (now : ℕ) : newChecked quota now = some (FixedWindow.new quota now) := by
  simp only [newChecked, packChecked_eq (lowBits_lt _), Option.bind_eq_bind, Option.bind_some, FixedWindow.new]

theorem new_sound (quota : Quota) (now : ℕ) : (FixedWindow.new quota now).Sound :=
  ⟨pack_lt (lowBits_lt _) (Nat.two_pow_pos 32), quota.limit_le⟩

theorem resetChecked_eq (fw : FixedWindow) : fw.resetChecked = some fw.reset := by
  simp only [resetChecked, packChecked_eq (lowBits_lt _), Option.bind_eq_bind, Option.bind_some, reset]

namespace Sound

theorem acquireChecked_eq (sound : fw.Sound) (n now : ℕ) :
    fw.acquireChecked n now = some (fw.acquire n now) := by
  rw [acquireChecked, acquire]
  by_cases none_asked : n = 0
  · rw [if_pos none_asked, if_pos none_asked]
  rw [if_neg none_asked, if_neg none_asked]
  by_cases impossible : fw.denyAll = true ∨ n > fw.limit
  · rw [if_pos impossible, if_pos impossible]
  rw [if_neg impossible, if_neg impossible]
  have asked : n < 2 ^ 32 := by
    have limit := lt_of_le_u32Max sound.limit
    omega
  have total : countIn (max (fw.windowOf (nanos now)) fw.latest) fw.state fw.latest + n < 2 ^ 64 := by
    have counted := countIn_lt (max (fw.windowOf (nanos now)) fw.latest) fw.state fw.latest
    omega
  simp only [countInChecked_eq sound.word, add_eq total, packChecked_eq (lowBits_lt _), Option.bind_eq_bind,
    Option.bind_some, attempt, reduceCtorEq, if_false]
  split
  · rfl
  · rfl

theorem peekChecked_eq (sound : fw.Sound) (now : ℕ) : fw.peekChecked now = some (fw.peek now) := by
  rw [peekChecked, peek]
  split
  · rfl
  · simp only [countInChecked_eq sound.word, sub_eq (min_le_right _ fw.limit), Option.bind_eq_bind,
      Option.bind_some]

theorem acquire (sound : fw.Sound) (n now : ℕ) : (fw.acquire n now).2.Sound := by
  unfold FixedWindow.acquire
  split
  · exact sound
  · split
    · exact sound
    · split
      · exact ⟨packed_lt _ _, sound.limit⟩
      · exact sound

theorem peek_exact (sound : fw.Sound) (now : ℕ) :
    CheckedKeyState.peek fw now = some (KeyState.peek fw now) := by
  simp only [CheckedKeyState.peek, sound.peekChecked_eq, Option.bind_eq_bind, Option.bind_some]
  rfl

end Sound

theorem exactCalls : ExactCalls FixedWindow FixedWindow.Sound where
  create quota now := by
    simp only [CheckedKeyState.create, KeyState.create, newChecked_eq, Option.map_some]
    split
    · refine ⟨rfl, ?_⟩
      rintro _ ⟨⟩
      exact new_sound quota now
    · exact ⟨rfl, fun _ made => by cases made⟩
  acquire {fw} sound n now := ⟨sound.acquireChecked_eq n now, sound.acquire n now⟩
  peek {fw} sound now := ⟨sound.peek_exact now, sound⟩
  reset {fw} sound now :=
    ⟨fw.resetChecked_eq, pack_lt (lowBits_lt _) (Nat.two_pow_pos 32), sound.limit⟩
  debt {fw} sound now := ⟨defaultDebt_exact (sound.peek_exact now), sound⟩
  restore {fw} sound owed now :=
    ⟨defaultRestore_exact (sound.peek_exact now) (fun n => sound.acquireChecked_eq n now) owed,
      defaultRestore_keeps FixedWindow.Sound sound (fun _ kept => kept) (fun _ n kept => kept.acquire n now) owed⟩

end FixedWindow

/-!
### The sliding log
-/

namespace SlidingLog

/-- The quota admits nothing, or the state is kept under it. -/
def Sound (sl : SlidingLog) : Prop := (sl.limit = 0 ∨ sl.periodNs = 0) ∨ ∃ quota, sl.Under quota

variable {sl : SlidingLog} {quota : Quota}

theorem new_sound (quota : Quota) : (SlidingLog.new quota).Sound := by
  by_cases closed : (SlidingLog.new quota).limit = 0 ∨ (SlidingLog.new quota).periodNs = 0
  · exact Or.inl closed
  · refine Or.inr ⟨quota, new_under ?_⟩
    have period := nanos_le_self quota.period
    rw [admitsAnything_window (Or.inr (Or.inl rfl))]
    simp only [new, not_or] at closed
    omega

theorem inWindowChecked_eq {log : Log} (sorted : log.Sorted) : log.inWindowChecked = some log.inWindow :=
  sub_eq sorted.expiredTotal_le_total

theorem Under.acquireChecked_eq (under : sl.Under quota) (n now : ℕ) :
    sl.acquireChecked n now = some (sl.acquire n now) := by
  rw [acquireChecked, SlidingLog.acquire]
  by_cases none_asked : n = 0
  · rw [if_pos none_asked, if_pos none_asked]
  rw [if_neg none_asked, if_neg none_asked]
  by_cases impossible : sl.limit = 0 ∨ sl.periodNs = 0 ∨ n > sl.limit
  · rw [if_pos impossible, if_pos impossible]
  rw [if_neg impossible, if_neg impossible]
  have sorted : (sl.log.expireAt (nanos now) sl.periodNs).Sorted := (under.aged now).sorted
  have within : (sl.log.expireAt (nanos now) sl.periodNs).inWindow ≤ quota.limit := under.usedAt_le now
  have limit := lt_of_le_u32Max quota.limit_le
  have same := under.limit
  simp only [inWindowChecked_eq sorted, Option.bind_eq_bind, Option.bind_some]
  generalize sl.log.expireAt (nanos now) sl.periodNs = log at sorted within ⊢
  have total : log.inWindow + n < 2 ^ 64 := by omega
  simp only [add_eq total, Option.bind_some]
  split
  · rfl
  · rename_i full
    -- the target is a running total of the log
    have word := lt_of_le_u64Max sorted.word
    have below := sorted.expiredTotal_le_total
    have target : log.expiredTotal + (log.inWindow + n - sl.limit) < 2 ^ 64 := by
      rw [Log.inWindow]
      omega
    simp only [sub_eq (Nat.le_of_not_le full), add_eq target, Option.bind_some]

theorem Under.peekChecked_eq (under : sl.Under quota) (now : ℕ) :
    sl.peekChecked now = some (sl.peek now) := by
  have sorted : (sl.log.expireAt (nanos now) sl.periodNs).Sorted := (under.aged now).sorted
  rw [peekChecked, SlidingLog.peek]
  split
  · rfl
  · simp only [inWindowChecked_eq sorted, Option.bind_eq_bind, Option.bind_some]

namespace Sound

theorem acquire_exact (sound : sl.Sound) (n now : ℕ) :
    sl.acquireChecked n now = some (sl.acquire n now) ∧ (sl.acquire n now).2.Sound := by
  rcases sound with closed | ⟨quota, under⟩
  · have refused : sl.limit = 0 ∨ sl.periodNs = 0 ∨ n > sl.limit := by omega
    rw [acquireChecked, SlidingLog.acquire, if_pos refused, if_pos refused]
    split
    · exact ⟨rfl, Or.inl closed⟩
    · exact ⟨rfl, Or.inl closed⟩
  · exact ⟨under.acquireChecked_eq n now, Or.inr ⟨quota, under.acquire n now⟩⟩

theorem peek_exact (sound : sl.Sound) (now : ℕ) :
    sl.peekChecked now = some (sl.peek now) ∧ (sl.peek now).2.Sound := by
  rcases sound with closed | ⟨quota, under⟩
  · rw [peekChecked, SlidingLog.peek, if_pos closed, if_pos closed]
    exact ⟨rfl, Or.inl closed⟩
  · exact ⟨under.peekChecked_eq now, Or.inr ⟨quota, under.peek now⟩⟩

theorem reset (sound : sl.Sound) : sl.reset.Sound :=
  sound.imp id fun ⟨quota, under⟩ => ⟨quota, under.reset⟩

end Sound

theorem exactCalls : ExactCalls SlidingLog SlidingLog.Sound where
  create quota now := by
    refine ⟨rfl, ?_⟩
    simp only [KeyState.create]
    split
    · rintro _ ⟨⟩
      exact new_sound quota
    · exact fun _ made => by cases made
  acquire {sl} sound n now := sound.acquire_exact n now
  peek {sl} sound now := sound.peek_exact now
  reset {sl} sound now := ⟨rfl, sound.reset⟩
  debt {sl} sound now := ⟨defaultDebt_exact (sound.peek_exact now).1, (sound.peek_exact now).2⟩
  restore {sl} sound owed now :=
    ⟨defaultRestore_exact (sound.peek_exact now).1
        (fun n => ((sound.peek_exact now).2.acquire_exact n now).1) owed,
      defaultRestore_keeps SlidingLog.Sound sound (fun _ kept => (kept.peek_exact now).2)
        (fun _ n kept => (kept.acquire_exact n now).2) owed⟩

end SlidingLog

/-!
### The sliding counter
-/

namespace SlidingCounter

/-- The quota admits nothing, or the state is kept under it. -/
def Sound (sc : SlidingCounter) : Prop := (sc.limit = 0 ∨ sc.periodNs = 0) ∨ ∃ quota, sc.Under quota

variable {sc : SlidingCounter} {quota : Quota}

theorem new_sound (quota : Quota) (now : ℕ) : (SlidingCounter.new quota now).Sound := by
  by_cases closed : (SlidingCounter.new quota now).limit = 0 ∨ (SlidingCounter.new quota now).periodNs = 0
  · exact Or.inl closed
  · refine Or.inr ⟨quota, new_under ?_ now⟩
    have period := nanos_le_self quota.period
    rw [admitsAnything_window (Or.inr (Or.inr rfl))]
    simp only [new, not_or] at closed
    omega

namespace Under

theorem period_pos' (under : sc.Under quota) : 0 < sc.periodNs := under.period ▸ under.period_pos

/-- A count of at most the limit, scaled by the period. -/
theorem scaled_lt (under : sc.Under quota) {count share : ℕ} (small : count ≤ quota.limit)
    (inside : share ≤ sc.periodNs) : count * share < 2 ^ 96 := by
  have period : sc.periodNs ≤ u64Max := under.period ▸ nanos_le _
  exact mul_lt (lt_of_le_u32Max (small.trans quota.limit_le)) (lt_of_le_u64Max (inside.trans period)) le_rfl

theorem weighted_lt (under : sc.Under quota) (offset : ℕ) : sc.weighted offset < 2 ^ 97 := by
  have prev := under.scaled_lt under.prev_le (Nat.sub_le sc.periodNs offset)
  have curr := under.scaled_lt under.curr_le (le_refl sc.periodNs)
  rw [weighted]
  omega

theorem weightedChecked_eq (under : sc.Under quota) {offset : ℕ} (inside : offset ≤ sc.periodNs) :
    sc.weightedChecked offset = some (sc.weighted offset) := by
  have prev := under.scaled_lt under.prev_le (Nat.sub_le sc.periodNs offset)
  have curr := under.scaled_lt under.curr_le (le_refl sc.periodNs)
  have sum := under.weighted_lt offset
  rw [weighted] at sum
  simp only [weightedChecked, sub_eq inside, Option.bind_eq_bind, Option.bind_some]
  rw [mul_eq (by omega), Option.bind_some, mul_eq (by omega), Option.bind_some, add_eq (by omega)]
  rfl

theorem fitsChecked_eq (under : sc.Under quota) {offset n : ℕ} (inside : offset ≤ sc.periodNs)
    (possible : n ≤ quota.limit) : sc.fitsChecked offset n = some (sc.fits offset n) := by
  have asked := under.scaled_lt possible (le_refl sc.periodNs)
  have whole := under.scaled_lt under.limit.le (le_refl sc.periodNs)
  have load := under.weighted_lt offset
  simp only [fitsChecked, under.weightedChecked_eq inside, Option.bind_eq_bind, Option.bind_some]
  rw [mul_eq (by omega), Option.bind_some, add_eq (by omega), Option.bind_some, mul_eq (by omega)]
  rfl

theorem earliestFitChecked_eq (under : sc.Under quota) {offset n : ℕ} (inside : offset ≤ sc.periodNs)
    (possible : n ≤ quota.limit) : sc.earliestFitChecked offset n = some (sc.earliestFit offset n) := by
  have limit := lt_of_le_u32Max quota.limit_le
  have curr := under.curr_le
  have same := under.limit
  have sum : sc.curr + n < 2 ^ 128 := by omega
  simp only [earliestFitChecked, earliestFit, add_eq sum, Option.bind_eq_bind, Option.bind_some]
  rw [sub_eq (by omega : n ≤ sc.limit)]
  split
  · rename_i fading
    have scaled : (sc.limit - n - sc.curr) * sc.periodNs < 2 ^ 128 := by
      have bound := under.scaled_lt (by omega : sc.limit - n - sc.curr ≤ quota.limit) (le_refl sc.periodNs)
      omega
    simp only [Option.bind_some, sub_eq (by omega : sc.curr ≤ sc.limit - n), mul_eq scaled, div_eq fading.2,
      sub_eq (min_le_right _ sc.periodNs)]
  · have scaled : (sc.limit - n) * sc.periodNs < 2 ^ 128 := by
      have bound := under.scaled_lt (by omega : sc.limit - n ≤ quota.limit) (le_refl sc.periodNs)
      omega
    simp only [Option.bind_some, mul_eq scaled, sub_eq (min_le_right _ sc.periodNs), sub_eq inside]

/-- A window to roll to lies within the clock, so the one before it has a successor. -/
theorem rollChecked_eq (under : sc.Under quota) (now : ℕ) :
    sc.rollChecked (nanos now) = some (sc.roll (nanos now)) := by
  have positive := under.period_pos'
  have clock := lt_of_le_u64Max (under.instant_le now)
  simp only [rollChecked, roll, div_eq positive, Option.bind_eq_bind, Option.bind_some]
  split
  · rename_i later
    have number : sc.instant (nanos now) / sc.periodNs ≤ sc.instant (nanos now) := Nat.div_le_self _ _
    rw [add_eq (by omega)]
    simp only [Option.bind_some, rem_eq positive]
  · simp only [Option.bind_some, rem_eq positive]

theorem instant_inside (under : sc.Under quota) (now : ℕ) :
    sc.instant (nanos now) % sc.periodNs ≤ (sc.aged now).periodNs := by
  rw [(under.aged now).period, ← under.period]
  exact (Nat.mod_lt _ under.period_pos').le

theorem acquireChecked_eq (under : sc.Under quota) (n now : ℕ) :
    sc.acquireChecked n now = some (sc.acquire n now) := by
  rw [acquireChecked, SlidingCounter.acquire]
  by_cases none_asked : n = 0
  · rw [if_pos none_asked, if_pos none_asked]
  rw [if_neg none_asked, if_neg none_asked]
  by_cases impossible : sc.limit = 0 ∨ sc.periodNs = 0 ∨ n > sc.limit
  · rw [if_pos impossible, if_pos impossible]
  rw [if_neg impossible, if_neg impossible]
  have possible : n ≤ quota.limit := by
    have same := under.limit
    omega
  have aged := under.aged now
  have inside := under.instant_inside now
  have late : nanos now ≤ sc.instant (nanos now) := le_max_left _ _
  simp only [under.rollChecked_eq, roll_eq, Option.bind_eq_bind, Option.bind_some,
    aged.fitsChecked_eq inside possible, aged.earliestFitChecked_eq inside possible, sub_eq late]
  split
  · rfl
  · rfl

theorem peekChecked_eq (under : sc.Under quota) (now : ℕ) : sc.peekChecked now = some (sc.peek now) := by
  rw [peekChecked, SlidingCounter.peek, if_neg under.not_closed, if_neg under.not_closed]
  have aged := under.aged now
  have inside := under.instant_inside now
  have late : nanos now ≤ sc.instant (nanos now) := le_max_left _ _
  have whole : (sc.aged now).limit * (sc.aged now).periodNs < 2 ^ 128 := by
    have bound := aged.scaled_lt aged.limit.le (le_refl (sc.aged now).periodNs)
    omega
  simp only [under.rollChecked_eq, roll_eq, Option.bind_eq_bind, Option.bind_some, mul_eq whole,
    aged.weightedChecked_eq inside, div_eq aged.period_pos', sub_eq inside, sub_eq late]

end Under

namespace Sound

theorem acquire_exact (sound : sc.Sound) (n now : ℕ) :
    sc.acquireChecked n now = some (sc.acquire n now) ∧ (sc.acquire n now).2.Sound := by
  rcases sound with closed | ⟨quota, under⟩
  · have refused : sc.limit = 0 ∨ sc.periodNs = 0 ∨ n > sc.limit := by omega
    rw [acquireChecked, SlidingCounter.acquire, if_pos refused, if_pos refused]
    split
    · exact ⟨rfl, Or.inl closed⟩
    · exact ⟨rfl, Or.inl closed⟩
  · exact ⟨under.acquireChecked_eq n now, Or.inr ⟨quota, under.acquire n now⟩⟩

theorem peek_exact (sound : sc.Sound) (now : ℕ) :
    sc.peekChecked now = some (sc.peek now) ∧ (sc.peek now).2.Sound := by
  rcases sound with closed | ⟨quota, under⟩
  · rw [peekChecked, SlidingCounter.peek, if_pos closed, if_pos closed]
    exact ⟨rfl, Or.inl closed⟩
  · exact ⟨under.peekChecked_eq now, Or.inr ⟨quota, under.peek now⟩⟩

theorem reset (sound : sc.Sound) : sc.reset.Sound :=
  sound.imp id fun ⟨quota, under⟩ => ⟨quota, under.reset⟩

end Sound

theorem exactCalls : ExactCalls SlidingCounter SlidingCounter.Sound where
  create quota now := by
    refine ⟨rfl, ?_⟩
    simp only [KeyState.create]
    split
    · rintro _ ⟨⟩
      exact new_sound quota now
    · exact fun _ made => by cases made
  acquire {sc} sound n now := sound.acquire_exact n now
  peek {sc} sound now := sound.peek_exact now
  reset {sc} sound now := ⟨rfl, sound.reset⟩
  debt {sc} sound now := ⟨defaultDebt_exact (sound.peek_exact now).1, (sound.peek_exact now).2⟩
  restore {sc} sound owed now :=
    ⟨defaultRestore_exact (sound.peek_exact now).1
        (fun n => ((sound.peek_exact now).2.acquire_exact n now).1) owed,
      defaultRestore_keeps SlidingCounter.Sound sound (fun _ kept => (kept.peek_exact now).2)
        (fun _ n kept => (kept.acquire_exact n now).2) owed⟩

end SlidingCounter

/-!
### The token bucket
-/

theorem lt_of_le_durationMax {a : ℕ} (h : a ≤ durationMax) : a < 2 ^ 94 := lt_of_le_of_lt h (by decide)

theorem ceilDiv_le_self {a b : ℕ} (positive : 0 < b) : a ⌈/⌉ b ≤ a :=
  (ceilDiv_le_iff_le_mul positive).2 (Nat.le_mul_of_pos_left a positive)

/-- The products are of at most a capacity and a period, so all of the arithmetic fits. -/
theorem BucketConfig.restoreChecked_eq (config : BucketConfig) {debt : Debt} (shown : debt.until ≤ durationMax)
    (now : ℕ) : config.restoreChecked debt now = some (config.restore debt now) := by
  have period := lt_of_le_durationMax config.period_le
  have scaled : config.capacity * config.refillPeriod < 2 ^ 126 :=
    mul_lt (lt_of_le_u32Max config.capacity_le) period le_rfl
  have lacking : (config.full - debt.until) * config.refillAmount < 2 ^ 126 := by
    have part := Nat.mul_le_mul_right config.refillAmount (Nat.sub_le config.full debt.until)
    exact lt_of_le_of_lt (part.trans config.full_mul_le) scaled
  have tokens : config.accrued debt.until * config.refillPeriod < 2 ^ 126 :=
    lt_of_le_of_lt (Nat.mul_le_mul_right _ (config.accrued_le debt.until)) scaled
  have wait : (config.accrued debt.until * config.refillPeriod) ⌈/⌉ config.refillAmount < 2 ^ 126 :=
    lt_of_le_of_lt (ceilDiv_le_self config.amount_pos) tokens
  have deadline := lt_of_le_durationMax shown
  rw [restoreChecked, restore]
  split
  · rfl
  · rw [mul_eq (by omega)]
    simp only [Option.bind_eq_bind, Option.bind_some, div_eq config.amount_pos]
    change ((mul 128 (config.full - debt.until) config.refillAmount).bind _) = _
    rw [mul_eq (by omega)]
    simp only [Option.bind_some, divCeil_eq config.period_pos]
    change ((mul 128 (config.accrued debt.until) config.refillPeriod).bind _) = _
    rw [mul_eq (by omega)]
    simp only [Option.bind_some, divCeil_eq config.amount_pos]
    rw [add_eq (by omega)]
    rfl

theorem Algorithm.recoveryTimeChecked_eq (algorithm : Algorithm) (quota : Quota) :
    algorithm.recoveryTimeChecked quota = some (algorithm.recoveryTime quota) := by
  unfold recoveryTimeChecked recoveryTime
  by_cases degenerate : quota.limit = 0 ∨ quota.period = 0
  · rw [if_pos degenerate, if_pos degenerate]
  rw [if_neg degenerate, if_neg degenerate]
  have scaled : quota.burst * quota.period < 2 ^ 128 :=
    mul_lt (lt_of_le_u32Max quota.burst_le) (lt_of_le_durationMax quota.period_le) (by decide)
  have refill : refillTimeChecked quota = some (refillTime quota) := by
    simp only [refillTimeChecked, mul_eq scaled, divCeil_eq (by omega : 0 < quota.limit), Option.bind_eq_bind,
      Option.bind_some, refillTime]
  cases algorithm with
  | tokenBucket => exact refill
  | leakyBucket => exact refill
  | fixedWindow => rfl
  | slidingWindowLog => rfl
  | slidingWindowCounter => rfl

/-!
### Every input
-/

/-- For every quota, degenerate ones included, and every sequence of calls from the states made for it, with any
    units, readings and debts, each algorithm runs without an inexact step and answers as the unchecked code;
    so do the rebuilding of a token bucket from any debt a clock can show and the recovery time of every
    algorithm. -/
theorem accounting_is_exact (quota : Quota) (made : ℕ) (calls : List KeyCall) (config : BucketConfig)
    (debt : Debt) (shown : debt.until ≤ durationMax) (now : ℕ) (algorithm : Algorithm) :
    (Gcra.newChecked quota).bind (performAllChecked · calls) =
        some (performAll (Gcra.new quota) calls) ∧
      (FixedWindow.newChecked quota made).bind (performAllChecked · calls) =
        some (performAll (FixedWindow.new quota made) calls) ∧
      performAllChecked (SlidingLog.new quota) calls = some (performAll (SlidingLog.new quota) calls) ∧
      performAllChecked (SlidingCounter.new quota made) calls =
        some (performAll (SlidingCounter.new quota made) calls) ∧
      config.restoreChecked debt now = some (config.restore debt now) ∧
      algorithm.recoveryTimeChecked quota = some (algorithm.recoveryTime quota) := by
  refine ⟨?_, ?_, ?_, ?_, config.restoreChecked_eq shown now, algorithm.recoveryTimeChecked_eq quota⟩
  · rw [Gcra.newChecked_eq]
    exact Gcra.exactCalls.performAll (Gcra.new_sound quota) calls
  · rw [FixedWindow.newChecked_eq]
    exact FixedWindow.exactCalls.performAll (FixedWindow.new_sound quota made) calls
  · exact SlidingLog.exactCalls.performAll (SlidingLog.new_sound quota) calls
  · exact SlidingCounter.exactCalls.performAll (SlidingCounter.new_sound quota made) calls

/-- The largest quota and a debt until the end of time, with a reading at the clock's end between two late
    ones. -/
theorem accounting_is_exact_at_the_extremes :
    let quota : Quota :=
      { limit := u32Max, period := durationMax, burst := u32Max, limit_le := le_rfl, burst_le := le_rfl
        period_le := le_rfl }
    let config : BucketConfig :=
      { capacity := u32Max, refillAmount := 1, refillPeriod := durationMax, initial := u32Max
        capacity_pos := by decide, amount_pos := by decide, period_pos := by decide
        capacity_le := le_rfl, amount_le := by decide, period_le := le_rfl }
    let debt : Debt := { spent := u32Max, «until» := durationMax }
    let calls : List KeyCall :=
      [.acquire u32Max durationMax, .restore debt 0, .debt durationMax, .acquire 1 0]
    performAllChecked (SlidingCounter.new quota durationMax) calls =
        some (performAll (SlidingCounter.new quota durationMax) calls) ∧
      config.restoreChecked debt 0 = some (config.restore debt 0) := by
  intro quota config debt calls
  obtain ⟨-, -, -, counter, bucket, -⟩ :=
    accounting_is_exact quota durationMax calls config debt le_rfl 0 .tokenBucket
  exact ⟨counter, bucket⟩

end RateNet
