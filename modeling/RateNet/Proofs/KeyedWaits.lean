/-
Module: RateNet.Proofs.KeyedWaits
Purpose: Waits on a keyed limiter, with any options and under eviction. Whatever tasks wait at the same time,
  whatever else the limiter is called for and whatever is dropped, a wait never checks again before the retry
  time it was given is over, never asks to be woken past its deadline, and returns only when it is admitted,
  when the request can never be admitted, or when the retry time does not fit in its budget.
Trusted boundary: none
Main exports: RateLimiter.Hopeless, RateLimiter.awaitable_sound, waits_keep_their_word
-/
import RateNet.Proofs.Waiting
import RateNet.Proofs.HonestRetries
import RateNet.Proofs.KeyNames
import RateNet.Proofs.TrivialRequests

namespace RateNet

open Interleaving

variable {S ι : Type} [KeyState S] [LawfulKeyState S] [DecidableEq ι] {limiter : RateLimiter} {horizon : ℕ}

/-- Every shard is consistent, keeps its states under the quotas of their names, and holds no name whose quota
    admits nothing. -/
def QuotasKept {K : Type} {config : StoreConfig K} (quotaOf : K → Quota) (store : Store config S) : Prop :=
  ∀ i, Consistent config i (store i) ∧ StatesKept quotaOf (store i) ∧ KeysAdmitted quotaOf (store i)

theorem QuotasKept.new {K : Type} {config : StoreConfig K} (quotaOf : K → Quota) :
    QuotasKept quotaOf (Store.new : Store config S) :=
  fun _ => ⟨.new, fun _ member => (by cases member), fun _ member => by cases member⟩

theorem QuotasKept.call {K : Type} [DecidableEq K] {config : StoreConfig K} {quotaOf : K → Quota}
    {store : Store config S} (kept : QuotasKept quotaOf store) (algorithm : Algorithm) (call : Call K) :
    QuotasKept quotaOf (store.call algorithm quotaOf call).2 := by
  intro i
  have run : ShardRun config quotaOf i call.now (store i) _ _ :=
    call_shardRun (fun i => (kept i).1) algorithm call i
  exact run.keeps (fun map => Consistent config i map ∧ StatesKept quotaOf map ∧ KeysAdmitted quotaOf map)
    (fun step kept => ⟨step.consistent kept.1, step.statesKept kept.1 kept.2.1, step.keysAdmitted kept.1 kept.2.2⟩)
    (kept i)

/-- The wait for room is positive, and no unending one. -/
theorem fromMillis_wait {due : ℕ} (nowMs : ℕ) (word : due ≤ u64Max) :
    0 < fromMillis (max (due - nowMs) 1) ∧ fromMillis (max (due - nowMs) 1) < durationMax := by
  have one : 1 ≤ u64Max := by decide
  have wait : max (due - nowMs) 1 ≤ u64Max := max_le ((Nat.sub_le _ _).trans word) one
  constructor
  · exact Nat.mul_pos (lt_of_lt_of_le Nat.one_pos (le_max_right _ _)) (by decide)
  · exact lt_of_le_of_lt (Nat.mul_le_mul_right _ wait) (by decide)

namespace RateLimiter

/-- Any two keys in use that are stored under one name have one quota.  It is so where there are no overrides,
    and where no key is looked up by its digest. -/
def OneQuotaPerName (limiter : RateLimiter) (used : Set KeyRef) : Prop :=
  ∀ key ∈ used, ∀ key' ∈ used, limiter.Fits key → limiter.Fits key' → limiter.label key = limiter.label key' →
    limiter.quotaOfRef key = limiter.quotaOfRef key'

/-- The quota of a key in use is that of its name. -/
def QuotasByName (limiter : RateLimiter) (used : Set KeyRef) (quotaOf : KeyRef → Quota) : Prop :=
  ∀ key ∈ used, limiter.Fits key → quotaOf (limiter.label key) = limiter.quotaOfRef key

theorem OneQuotaPerName.exists_quotasByName {used : Set KeyRef} (oneQuota : limiter.OneQuotaPerName used) :
    ∃ quotaOf, limiter.QuotasByName used quotaOf := by
  classical
  refine ⟨fun name => if named : ∃ key ∈ used, limiter.Fits key ∧ limiter.label key = name then
    limiter.quotaOfRef named.choose else limiter.quota, fun key here fits => ?_⟩
  have named : ∃ key' ∈ used, limiter.Fits key' ∧ limiter.label key' = limiter.label key := ⟨key, here, fits, rfl⟩
  obtain ⟨there, fits', same⟩ := named.choose_spec
  exact (dif_pos named).trans (oneQuota _ there key here fits' fits same)

/-- Without overrides every key has the limiter's quota. -/
theorem quotasByName_of_plain (plain : limiter.options.quotaFor = none) (used : Set KeyRef) :
    limiter.QuotasByName used fun _ => limiter.quota := by
  intro key _ _
  rw [quotaOfRef, plain]

/-- A request that no amount of waiting could admit. -/
def Hopeless (limiter : RateLimiter) (key : KeyRef) (n : ℕ) : Prop :=
  ¬ limiter.Fits key ∨ admitsAnything limiter.algorithm (limiter.quotaOfRef key) = false ∨
    capacity limiter.algorithm (limiter.quotaOfRef key) < n

variable {used : Set KeyRef} {quotaOf : KeyRef → Quota} {store : Store limiter.config S}

omit [LawfulKeyState S] in
/-- An admitted key is checked by its name, under the quota of its name. -/
theorem checkRef_byName (byName : limiter.QuotasByName used quotaOf) {key : KeyRef} (here : key ∈ used)
    (fits : limiter.Fits key) (n now : ℕ) : limiter.checkRef store key n now =
      ((store.check (limiter.label key) n now (KeyState.create (quotaOf (limiter.label key)))).1.decision,
        (store.check (limiter.label key) n now (KeyState.create (quotaOf (limiter.label key)))).2) := by
  rw [byName key here fits]
  simp only [checkRef_eq store fits, checkStore]

theorem call_quotasKept (byName : limiter.QuotasByName used quotaOf) (kept : QuotasKept quotaOf store)
    (call : Call KeyRef) (within : ∀ key ∈ call.request.key, key ∈ used) :
    QuotasKept quotaOf (limiter.call store call).2 := by
  by_cases fits : ∀ key ∈ call.request.key, limiter.Fits key
  · rw [call_eq store call quotaOf fits fun key asked => byName key (within key asked) (fits key asked)]
    exact kept.call limiter.algorithm _
  · rw [call_of_tooLong store call fits]
    exact kept

theorem run_quotasKept (byName : limiter.QuotasByName used quotaOf) (kept : QuotasKept quotaOf store)
    (calls : List (Call KeyRef)) (within : ∀ key ∈ keysInUse calls, key ∈ used) :
    QuotasKept quotaOf (limiter.run store calls) := by
  induction calls generalizing store with
  | nil => exact kept
  | cons call rest inductionHypothesis =>
      refine inductionHypothesis (call_quotasKept byName kept call fun key asked => ?_) fun key asked => ?_
      · exact within key (mem_keysInUse List.mem_cons_self asked)
      · obtain ⟨other, member, uses⟩ := List.mem_filterMap.1 asked
        exact within key (mem_keysInUse (List.mem_cons_of_mem _ member) uses)

/-- The denials of a keyed limiter: by the state of the key, by a quota that admits nothing, for want of room,
    or for the length of the key. -/
theorem checkRef_timely (byName : limiter.QuotasByName used quotaOf)
    (runs : limiter.algorithm = LawfulKeyState.algorithm S) (honest : ∀ quota, HonestDenials S quota horizon)
    (kept : QuotasKept quotaOf store) {key : KeyRef} (here : key ∈ used) {n now retryAfter : ℕ}
    (before : now ≤ horizon) (denied : (limiter.checkRef store key n now).1 = .deny retryAfter) :
    0 < retryAfter ∧ retryAfter ≤ durationMax ∧ (retryAfter = durationMax → limiter.Hopeless key n) := by
  rw [Hopeless, runs]
  have endless : 0 < durationMax := by decide
  by_cases fits : limiter.Fits key
  · rw [checkRef_byName byName here fits] at denied
    have quota := byName key here fits
    obtain ⟨consistent, under, -⟩ := kept (limiter.config.shardFor (limiter.label key))
    obtain ⟨map', -, effect⟩ := check_effect store (limiter.label key) n now
      (KeyState.create (quotaOf (limiter.label key)))
    -- what the state of a key says is judged under the quota of its name
    have judged {s : S} (kept : LawfulKeyState.Under (quotaOf (limiter.label key)) s)
        (said : (KeyState.acquire s n now).1 = .deny retryAfter) :
        0 < retryAfter ∧ retryAfter ≤ durationMax ∧ (retryAfter = durationMax → ¬ limiter.Fits key ∨
          admitsAnything (LawfulKeyState.algorithm S) (limiter.quotaOfRef key) = false ∨
          capacity (LawfulKeyState.algorithm S) (limiter.quotaOfRef key) < n) := by
      obtain ⟨positive, duration, impossible⟩ := (honest _).timely kept before said
      rw [quota] at impossible
      exact ⟨positive, duration, fun unending => .inr (.inr (impossible unending))⟩
    generalize (store.check (limiter.label key) n now (KeyState.create (quotaOf (limiter.label key)))).1 = outcome
      at denied effect
    cases effect with
    | found held =>
        obtain ⟨pos, slot, _, there, same, -, -, -, -, decided, -⟩ := acquireStored_some consistent held
        have state := under slot (List.mem_of_getElem? there)
        rw [same] at state
        exact judged state (decided.symm.trans denied)
    | closed missed unmade =>
        have shut := LawfulKeyState.create_isSome (S := S) (quotaOf (limiter.label key)) now
        rw [unmade, quota] at shut
        change closed n = _ at denied
        rw [closed] at denied
        split at denied
        · cases denied
        · obtain rfl := Decision.deny.inj denied
          exact ⟨endless, le_rfl, fun _ => .inr (.inl shut.symm)⟩
    | @refused state due missed made full =>
        obtain rfl := Decision.deny.inj denied
        obtain ⟨positive, short⟩ := fromMillis_wait (millis now) (makeRoom_error_le full)
        exact ⟨positive, short.le, fun unending => absurd unending short.ne⟩
    | stored missed made room =>
        exact judged (restored_under made _) denied
  · obtain rfl := Decision.deny.inj ((checkRef_of_tooLong store fits n now).symm.trans denied)
    exact ⟨endless, le_rfl, fun _ => .inl fits⟩

/-- A keyed limiter is one to wait on. -/
theorem awaitable_sound (byName : limiter.QuotasByName used quotaOf)
    (runs : limiter.algorithm = LawfulKeyState.algorithm S) (honest : ∀ quota, HonestDenials S quota horizon) :
    (limiter.awaitable S used).Sound (QuotasKept quotaOf) (fun request => limiter.Hopeless request.1 request.2)
      horizon where
  check {request now _} kept :=
    call_quotasKept byName kept { request := .check request.1 request.2, now } fun _ asked =>
      Option.some.inj asked ▸ request.1.2
  other {use now _} kept := call_quotasKept byName kept { request := use.1, now } use.2
  timely {request _ _ _} kept before denied := checkRef_timely byName runs honest kept request.1.2 before denied

end RateLimiter

/-- A wait that sleeps asks to be woken after its refusal, no earlier than the retry time it was given and no
    later than its deadline (late only by what its own steps took); and a wait returns only when it is admitted,
    when the request can never be admitted, or when the retry time does not fit in its budget. -/
structure WordKept (limiter : RateLimiter) {used : Set KeyRef} (c : (limiter.awaitable S used).Waits ι) :
    Prop where
  asleep : ∀ i waiter wake late, c.loc i = .asleep waiter wake late →
    waiter.Awaits wake ∧ ∀ deadline ∈ waiter.deadline, wake ≤ deadline + late
  returned : ∀ returned ∈ c.mem.returned,
    returned.Justified fun request => limiter.Hopeless request.1 request.2

variable {used : Set KeyRef} {jitter lastInstant : ℕ} {Reads : ℕ → ℕ → Prop}

theorem wordKept (oneQuota : limiter.OneQuotaPerName used) (runs : limiter.algorithm = LawfulKeyState.algorithm S)
    (honest : ∀ quota, HonestDenials S quota horizon) (bounded : ∀ t reading, Reads t reading → reading ≤ horizon)
    {c : (limiter.awaitable S used).Waits ι}
    (reach : (limiter.awaitable S used).ComesTo jitter lastInstant Reads .new c) : WordKept limiter c := by
  obtain ⟨quotaOf, byName⟩ := oneQuota.exists_quotasByName
  obtain ⟨⟨-, justified⟩, keeps⟩ :=
    (RateLimiter.awaitable_sound byName runs honest).always bounded (.new quotaOf) reach
  refine ⟨fun i waiter wake late here => ?_, justified⟩
  have kept := keeps i
  rw [here] at kept
  exact kept

/-- Whatever tasks wait on a keyed limiter at the same time, whatever else it is called for and in whatever order
    clock readings come to it, waits keep their word, as long as no two keys in use that have one name have two
    quotas. -/
theorem waits_keep_their_word (limiter : RateLimiter) (used : Set KeyRef) (oneQuota : limiter.OneQuotaPerName used)
    (jitter lastInstant horizon : ℕ) (Reads : ℕ → ℕ → Prop)
    (bounded : ∀ t reading, Reads t reading → reading ≤ horizon) :
    (limiter.algorithm = .leakyBucket → horizon < u64Max → ∀ c : (limiter.awaitable Gcra used).Waits ι,
      (limiter.awaitable Gcra used).ComesTo jitter lastInstant Reads .new c → WordKept limiter c) ∧
    (limiter.algorithm = .fixedWindow → horizon < u64Max → ∀ c : (limiter.awaitable FixedWindow used).Waits ι,
      (limiter.awaitable FixedWindow used).ComesTo jitter lastInstant Reads .new c → WordKept limiter c) ∧
    (limiter.algorithm = .slidingWindowLog → ∀ c : (limiter.awaitable SlidingLog used).Waits ι,
      (limiter.awaitable SlidingLog used).ComesTo jitter lastInstant Reads .new c → WordKept limiter c) ∧
    (limiter.algorithm = .slidingWindowCounter → horizon < u64Max → ∀ c : (limiter.awaitable SlidingCounter used).Waits ι,
      (limiter.awaitable SlidingCounter used).ComesTo jitter lastInstant Reads .new c → WordKept limiter c) :=
  ⟨fun runs clock _ => wordKept oneQuota runs (fun quota => gcra_honest quota clock) bounded,
    fun runs clock _ => wordKept oneQuota runs (fun quota => fixedWindow_honest quota clock) bounded,
    fun runs _ => wordKept oneQuota runs (fun quota => slidingLog_honest quota horizon) bounded,
    fun runs clock _ => wordKept oneQuota runs (fun quota => slidingCounter_honest quota clock) bounded⟩

/-- A task takes the only unit, asks for another with a budget of five, and sleeps until it is back. -/
theorem waits_keep_their_word_of_second_unit :
    let limiter := RateLimiter.build .fixedWindow unitPerNano 1 .unbounded ⟨none, none, none⟩
      (fun _ => 0) ⟨fun _ => 0, fun _ => 0⟩
    let next (_ : Unit) (mem : WaitMem (KeyedRequest Set.univ) (KeyedUse Set.univ) (Store limiter.config FixedWindow))
        (pc : WaitPc (KeyedRequest Set.univ) (KeyedUse Set.univ)) :=
      pc.turn (limiter.awaitable FixedWindow Set.univ) u64Max 10 (⟨⟨.raw, [7]⟩, trivial⟩, 1) (some 5) mem
    let c := runSchedule next (List.replicate 8 ()) (WaitConfig.new Store.new)
    ∃ waiter, c.loc () = .asleep waiter 1 0 ∧ waiter.deadline = some 5 ∧ WordKept limiter c := by
  intro limiter next c
  have reach : (limiter.awaitable FixedWindow Set.univ).ComesTo 0 u64Max (TellsTime 10) .new c :=
    Reachable.schedule (fun _ => WaitPc.turn_step _ _ _ _ _) _ _
  have kept := (waits_keep_their_word limiter Set.univ (fun _ _ _ _ _ _ _ => rfl) 0 u64Max 10 (TellsTime 10)
    (fun _ _ tells => tells.1.le.trans tells.2)).2.1 rfl (by decide) c reach
  let waiter : Waiter (KeyedRequest Set.univ) :=
    { request := (⟨⟨.raw, [7]⟩, trivial⟩, 1), maxWait := some 5, deadline := some 5, bounded := fun _ => rfl
      since := 1, refusals := 1, promise := some { refusedAt := 0, due := 1, grants := 1 } }
  have here : c.loc () = .asleep waiter 1 0 := by decide +kernel
  exact ⟨waiter, here, rfl, kept⟩

end RateNet
