/-
Module: RateNet.Proofs.TrivialRequests
Purpose: Checks whose answer does not depend on the allowance: zero units, and more units than a key can
  ever have. A stored key and a quota that admits nothing answer them as documented. A newcomer does
  unless its shard has no room for it, and then it is told to retry after a finite wait.
Trusted boundary: none
Main exports: AnsweredAsDocumented, TrivialRequestsNeedRoom, trivial_requests_answered_iff_room
-/
import RateNet.Proofs.NoRoom

namespace RateNet

/-- Zero units are allowed, and more than the key can ever have are denied for good. -/
def AnsweredAsDocumented (capacity n : ℕ) (decision : Decision) : Prop :=
  (n = 0 → decision = .allow) ∧ (capacity < n → decision = .deny durationMax)

section Answers

variable {K S : Type} [DecidableEq K] [KeyState S] [LawfulKeyState S] {config : StoreConfig K}
  {quota : Quota} {n now : ℕ}

theorem acquire_asDocumented {s : S} (under : LawfulKeyState.Under quota s) (n now : ℕ) :
    AnsweredAsDocumented (capacity (LawfulKeyState.algorithm S) quota) n (KeyState.acquire s n now).1 := by
  constructor
  · rintro rfl
    rw [LawfulKeyState.acquire_zero]
  · intro impossible
    rw [LawfulKeyState.acquire_impossible now under impossible]

omit [LawfulKeyState S] in
theorem closed_asDocumented (capacity n : ℕ) : AnsweredAsDocumented capacity n (closed n) := by
  rw [closed]
  constructor
  · intro none_asked
    rw [if_pos none_asked]
  · intro impossible
    rw [if_neg (by omega)]

/-- A wait in milliseconds is neither an admission nor a denial for good. -/
theorem refusal_not_asDocumented {capacity : ℕ} (request : n = 0 ∨ capacity < n) {due : ℕ}
    (bound : due ≤ u64Max) (nowMs : ℕ) :
    ¬ AnsweredAsDocumented capacity n (.deny (fromMillis (max (due - nowMs) 1))) := by
  rintro ⟨none_asked, impossible⟩
  rcases request with trivial_request | beyond
  · cases none_asked trivial_request
  · have one : 1 ≤ u64Max := by decide
    have short : max (due - nowMs) 1 ≤ u64Max := max_le ((Nat.sub_le _ _).trans bound) one
    exact (fromMillis_lt_durationMax short).ne (Decision.deny.inj (impossible beyond))

/-- A check is answered as documented exactly when its key is stored, its quota admits nothing, or there is
    room for it. -/
theorem check_asDocumented_iff (wholeAgain : WholeAgain S) {quotaOf : K → Quota} {store : Store config S}
    (key : K) (n now : ℕ)
    (consistent : Consistent config (config.shardFor key) (store (config.shardFor key)))
    (kept : StatesKept quotaOf (store (config.shardFor key)))
    (request : n = 0 ∨ capacity (LawfulKeyState.algorithm S) (quotaOf key) < n) :
    AnsweredAsDocumented (capacity (LawfulKeyState.algorithm S) (quotaOf key)) n
        (store.check key n now (KeyState.create (quotaOf key))).1.decision ↔
      ¬ (store.tracks key = false ∧
        admitsAnything (LawfulKeyState.algorithm S) (quotaOf key) = true ∧
        NoRoom config (store (config.shardFor key)) now) := by
  have finds := @tracks_iff K S config _ _ store key n now consistent
  have admits := LawfulKeyState.create_isSome (S := S) (quotaOf key) now
  have failed := makeRoom_error_iff wholeAgain config kept consistent.within now
  obtain ⟨map', -, effect⟩ := check_effect store key n now (KeyState.create (quotaOf key))
  generalize (store.check key n now (KeyState.create (quotaOf key))).1 = outcome at effect ⊢
  rw [← admits, ← failed]
  cases effect with
  | found held =>
      obtain ⟨pos, slot, -, there, rfl, -, -, -, -, answered, -⟩ := acquireStored_some consistent held
      have tracked := finds.2 (by simp [held])
      apply iff_of_true
      · rw [Outcome.plain, answered]
        exact acquire_asDocumented (kept slot (List.mem_of_getElem? there)) n now
      · rw [tracked]
        rintro ⟨untracked, -⟩
        cases untracked
  | closed missed unmade =>
      apply iff_of_true (closed_asDocumented _ n)
      rw [unmade]
      rintro ⟨-, some_state, -⟩
      cases some_state
  | @refused state due missed made full =>
      apply iff_of_false (refusal_not_asDocumented request (makeRoom_error_le full) _)
      have untracked : store.tracks key = false := by
        rw [← Bool.not_eq_true, finds]
        exact fun found => found missed
      rw [untracked, made, full]
      exact fun room => room ⟨rfl, rfl, due, rfl⟩
  | @stored state missed made room =>
      apply iff_of_true
      · simp only [ShardMap.store]
        apply acquire_asDocumented
        have under := LawfulKeyState.create_under made
        cases ((ShardMap.makeRoom config (store (config.shardFor key)) now
            (millis now)).2.1.recovery.take (config.hasher key) (millis now)).1 with
        | none => exact under
        | some charge => exact LawfulKeyState.restore_under charge.debt now under
      · rw [room]
        rintro ⟨-, -, due, failed⟩
        cases failed

end Answers

/-- After every run of calls, a check of zero units or of more than its key can ever have is answered as
    documented exactly when its key is stored, or its quota admits nothing, or there is room for it. -/
def TrivialRequestsNeedRoom (S : Type) [KeyState S] (algorithm : Algorithm) {K : Type} [DecidableEq K]
    (config : StoreConfig K) (quotaOf : K → Quota) (calls : List (Call K)) (key : K) (n now : ℕ) : Prop :=
  n = 0 ∨ capacity algorithm (quotaOf key) < n →
    let store : Store config S := Store.run algorithm quotaOf .new calls
    (AnsweredAsDocumented (capacity algorithm (quotaOf key)) n
        (store.check key n now (KeyState.create (quotaOf key))).1.decision ↔
      ¬ (store.tracks key = false ∧ admitsAnything algorithm (quotaOf key) = true ∧
        NoRoom config (store (config.shardFor key)) now))

theorem trivialRequestsNeedRoom {S : Type} [KeyState S] [LawfulKeyState S] (wholeAgain : WholeAgain S)
    {K : Type} [DecidableEq K] (config : StoreConfig K) (quotaOf : K → Quota) (calls : List (Call K))
    (key : K) (n now : ℕ) : TrivialRequestsNeedRoom S (LawfulKeyState.algorithm S) config quotaOf calls key n now := by
  intro request store
  have reached := @run_statesKept K S _ config quotaOf _ _ (LawfulKeyState.algorithm S) calls
    (config.shardFor key)
  exact check_asDocumented_iff wholeAgain key n now reached.1 reached.2 request

theorem trivial_requests_answered_iff_room {K : Type} [DecidableEq K] (config : StoreConfig K)
    (quotaOf : K → Quota) (calls : List (Call K)) (key : K) (n now : ℕ) :
    TrivialRequestsNeedRoom Gcra .leakyBucket config quotaOf calls key n now ∧
      TrivialRequestsNeedRoom FixedWindow .fixedWindow config quotaOf calls key n now ∧
      TrivialRequestsNeedRoom SlidingLog .slidingWindowLog config quotaOf calls key n now ∧
      TrivialRequestsNeedRoom SlidingCounter .slidingWindowCounter config quotaOf calls key n now :=
  ⟨trivialRequestsNeedRoom Gcra.wholeAgain config quotaOf calls key n now,
    trivialRequestsNeedRoom FixedWindow.wholeAgain config quotaOf calls key n now,
    trivialRequestsNeedRoom SlidingLog.wholeAgain config quotaOf calls key n now,
    trivialRequestsNeedRoom SlidingCounter.wholeAgain config quotaOf calls key n now⟩

/-- One unit per hour. -/
def unitPerHour : Quota := { unitPerNano with period := 3600000000000, period_le := by decide }

/-- The keys 0 to 21 each take their unit at once. -/
def takeAll : List (Call ℕ) := (List.range 22).map fun key => ⟨.check key 1, 0⟩

/-- The store of one key after that: the key stored last was charged from the sketch, and every record of the
    exact table is of such a key. -/
def saturatedStore : Store oneKeyStore FixedWindow := Store.run .fixedWindow (fun _ => unitPerHour) .new takeAll

/-- A store of one shard and one key, which is idle after a millisecond. -/
def idlingStore : StoreConfig ℕ :=
  StoreConfig.new id 1 { maxKeys := some 1, idleTtl := some 1000000, overflow := .failClosed } 0

/-- The saturated store has no room for a newcomer, so neither a request for nothing nor one for more than it
    can ever have is answered as documented. An hour later there is room, and both are. An idle limit does
    not help: the key stored last has expired after a millisecond, and the sweep cannot let it go. -/
theorem trivial_requests_answered_iff_room_of_saturated_store :
    (∀ n, n = 0 ∨ 1 < n → ¬ AnsweredAsDocumented 1 n
        (saturatedStore.check 22 n 0 (KeyState.create unitPerHour)).1.decision) ∧
      (∀ n, n = 0 ∨ 1 < n → AnsweredAsDocumented 1 n
        (saturatedStore.check 22 n 3600000000000 (KeyState.create unitPerHour)).1.decision) ∧
      let idling : Store idlingStore FixedWindow := Store.run .fixedWindow (fun _ => unitPerHour) .new takeAll
      ∀ n, n = 0 ∨ 1 < n → ¬ AnsweredAsDocumented 1 n
        (idling.check 22 n 1000000 (KeyState.create unitPerHour)).1.decision := by
  have one : capacity .fixedWindow unitPerHour = 1 := by decide
  have iff := fun config n now =>
    (trivial_requests_answered_iff_room config (fun _ => unitPerHour) takeAll 22 n now).2.1
  simp only [TrivialRequestsNeedRoom, one] at iff
  refine ⟨fun n asked answered => ?_, fun n asked => ?_, fun n asked answered => ?_⟩
  · rw [saturatedStore, iff oneKeyStore n 0 asked] at answered
    exact answered (by decide +kernel)
  · rw [saturatedStore, iff oneKeyStore n 3600000000000 asked]
    rintro ⟨-, -, full⟩
    exact absurd full (by decide +kernel)
  · rw [iff idlingStore n 1000000 asked] at answered
    exact answered (by decide +kernel)

/-- A newcomer to the saturated store asking for nothing is denied, and one asking for more than it can
    ever have is told to come back in an hour. -/
theorem saturated_store_refuses_trivial_requests :
    (saturatedStore.check 22 0 0 (KeyState.create unitPerHour)).1.decision = .deny 3600000000000 ∧
      (saturatedStore.check 22 2 0 (KeyState.create unitPerHour)).1.decision = .deny 3600000000000 := by
  decide +kernel

end RateNet
