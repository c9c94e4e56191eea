/-
Module: RateNet.Proofs.TruthfulHeaders
Purpose: What a client can rely on in the answer to a denied request, whatever was served before. With
  `Retry-After` there is something to wait for: the same request made when the seconds are over is passed to
  the inner service, if the limiter had room for the key and nobody used it meanwhile. Without it the request
  is passed on never, whatever is served later: it is impossible, or it has no identity and is rejected. The
  future of a response completes as often as the inner service's own, and that of a denial once.
Trusted boundary: none
Main exports: ReadyAt, TruthfulAnswers, retry_after_is_truthful, response_future_transparent
-/
import RateNet.Proofs.ServedRequests
import RateNet.Proofs.NoRoom
import RateNet.Proofs.Snapshots

namespace RateNet

/-!
### Units that come back
-/

section Ready

variable {K S : Type} [KeyState S] [LawfulKeyState S] {config : StoreConfig K} {quotaOf : K → Quota}
  {store : Store config S} {name : K} {n now due horizon wait : ℕ}

/-- The state of a key being stored is read, which takes nothing away. -/
theorem firstHint_remaining {quota : Quota} {s : S} (under : LawfulKeyState.Under quota s) (fresh : Bool)
    (n : ℕ) (outcome : Decision) (now nowMs t : ℕ) :
    (KeyState.peek s t).1.remaining ≤
      (KeyState.peek (firstHint s fresh n outcome now nowMs).2 t).1.remaining := by
  have both := firstHint_reads (P := fun s' => LawfulKeyState.Under quota s' ∧
    (KeyState.peek s t).1.remaining ≤ (KeyState.peek s' t).1.remaining) ⟨under, le_rfl⟩
    (fun read kept => ⟨LawfulKeyState.peek_under read kept.1,
      kept.2.trans (LawfulKeyState.remaining_aged read t kept.1)⟩) fresh n outcome now nowMs
  exact both.2

/-- A stored key has `n` units left at `due`. -/
def ReadyAt (store : Store config S) (name : K) (n due : ℕ) : Prop :=
  ∃ (pos : ℕ) (slot : Slot K S), (store (config.shardFor name)).slots[pos]? = some slot ∧ slot.key = name ∧
    n ≤ (KeyState.peek slot.state due).1.remaining

/-- Units a state refused for a while are left when the while is over. -/
theorem HonestDenials.remaining {quota : Quota} (honest : HonestDenials S quota horizon) {s : S}
    (under : LawfulKeyState.Under quota s) (denied : (KeyState.acquire s n now).1 = .deny wait)
    (finite : wait ≠ durationMax) (before : now + wait ≤ horizon) (fits : LawfulKeyState.Fits S quota (now + wait)) :
    n ≤ (KeyState.peek (KeyState.acquire s n now).2 (now + wait)).1.remaining := by
  have possible : n ≤ capacity (LawfulKeyState.algorithm S) quota := by
    by_contra more
    rw [LawfulKeyState.acquire_impossible now under (Nat.lt_of_not_le more)] at denied
    exact finite (Decision.deny.inj denied).symm
  have allowed := honest.honest under possible denied before
  have positive := pos_of_denied denied
  exact ((LawfulKeyState.allow_iff (LawfulKeyState.acquire_under n now under) fits).1 allowed).resolve_left (by omega)

variable [DecidableEq K]

/-- A denied check leaves its key stored, with the units it was refused left when the wait is over. -/
theorem QuotasKept.ready_of_denied (wholeAgain : WholeAgain S) (kept : QuotasKept quotaOf store)
    (honest : HonestDenials S (quotaOf name) horizon) (room : ¬ NoRoom config (store (config.shardFor name)) now)
    (denied : (store.check name n now (KeyState.create (quotaOf name))).1.decision = .deny wait)
    (finite : wait ≠ durationMax) (before : now + wait ≤ horizon)
    (fits : LawfulKeyState.Fits S (quotaOf name) (now + wait)) :
    ReadyAt (store.check name n now (KeyState.create (quotaOf name))).2 name n (now + wait) := by
  obtain ⟨consistent, states, -⟩ := kept (config.shardFor name)
  obtain ⟨map', changed, effect⟩ := check_effect store name n now (KeyState.create (quotaOf name))
  rw [changed, ReadyAt, Function.update_self]
  generalize (store.check name n now (KeyState.create (quotaOf name))).1 = outcome at denied effect
  cases effect with
  | found held =>
      obtain ⟨pos, slot, slot', there, same, after, -, key, -, decided, state⟩ := acquireStored_some consistent held
      have under := states slot (List.mem_of_getElem? there)
      rw [same] at under
      refine ⟨pos, slot', ?_, key.trans same, ?_⟩
      · rw [after]
        exact List.getElem?_set_self (List.getElem?_eq_some_iff.1 there).1
      · rw [state]
        exact honest.remaining under (decided.symm.trans denied) finite before fits
  | closed missed unmade =>
      change closed n = _ at denied
      rw [closed] at denied
      split at denied
      · cases denied
      · exact absurd (Decision.deny.inj denied).symm finite
  | refused missed made full =>
      exact absurd ((makeRoom_error_iff wholeAgain config states consistent.within now).1 ⟨_, full⟩) room
  | @stored state missed made room =>
      generalize (ShardMap.makeRoom config (store (config.shardFor name)) now (millis now)).2.1 = roomy at denied ⊢
      have under := restored_under made (roomy.recovery.take (config.hasher name) (millis now)).1
      refine ⟨roomy.slots.length, _, List.getElem?_concat_length, rfl, ?_⟩
      have left := honest.remaining under denied finite before fits
      exact left.trans (firstHint_remaining (LawfulKeyState.acquire_under n now under) _ _ _ _ _ _)

/-- Reading the key takes nothing away. -/
theorem ReadyAt.peek (ready : ReadyAt store name n due) (kept : QuotasKept quotaOf store) (seen : ℕ) :
    ReadyAt (store.peek name seen).2 name n due := by
  obtain ⟨pos, slot, held, same, left⟩ := ready
  obtain ⟨consistent, states, -⟩ := kept (config.shardFor name)
  have position := consistent.position_iff.2 ⟨slot, held, same⟩
  have under := states slot (List.mem_of_getElem? held)
  rw [Store.peek, peekSection_found position held, ReadyAt]
  dsimp only
  rw [Function.update_self]
  exact ⟨pos, _, List.getElem?_set_self (List.getElem?_eq_some_iff.1 held).1, same,
    left.trans (LawfulKeyState.remaining_aged seen due under)⟩

/-- Units that are left are granted. -/
theorem ReadyAt.check (ready : ReadyAt store name n due) (kept : QuotasKept quotaOf store) {t : ℕ} (order : due ≤ t)
    (fits : LawfulKeyState.Fits S (quotaOf name) t) :
    (store.check name n t (KeyState.create (quotaOf name))).1.decision = .allow := by
  obtain ⟨pos, slot, held, same, left⟩ := ready
  obtain ⟨consistent, states, -⟩ := kept (config.shardFor name)
  have under := states slot (List.mem_of_getElem? held)
  rw [same] at under
  obtain ⟨slot', -, -, -, checked⟩ := check_stored consistent held same n t (KeyState.create (quotaOf name))
  rw [checked]
  exact (LawfulKeyState.allow_iff under fits).2
    (.inr (left.trans (LawfulKeyState.remaining_mono under order fits)))

/-- More units than the capacity, or units of a quota that admits nothing, are never granted. -/
theorem QuotasKept.refuses (kept : QuotasKept quotaOf store) (positive : 1 ≤ n)
    (hopeless : admitsAnything (LawfulKeyState.algorithm S) (quotaOf name) = false ∨
      capacity (LawfulKeyState.algorithm S) (quotaOf name) < n) (t : ℕ) :
    (store.check name n t (KeyState.create (quotaOf name))).1.decision ≠ .allow := by
  have closed_ : closed n ≠ .allow := by
    rw [closed, if_neg (by omega)]
    exact Decision.noConfusion
  rcases hopeless with shut | more
  · have good : InGoodOrder quotaOf store := fun i => ⟨(kept i).1, (kept i).2.2⟩
    rw [(good.unstored shut).check_shut shut]
    exact closed_
  · obtain ⟨consistent, states, -⟩ := kept (config.shardFor name)
    obtain ⟨map', -, effect⟩ := check_effect store name n t (KeyState.create (quotaOf name))
    have impossible {s : S} (under : LawfulKeyState.Under (quotaOf name) s) :
        (KeyState.acquire s n t).1 ≠ .allow := by
      rw [LawfulKeyState.acquire_impossible t under more]
      exact Decision.noConfusion
    generalize (store.check name n t (KeyState.create (quotaOf name))).1 = outcome at effect ⊢
    cases effect with
    | found held =>
        obtain ⟨pos, slot, -, there, same, -, -, -, -, decided, -⟩ := acquireStored_some consistent held
        have under := states slot (List.mem_of_getElem? there)
        rw [same] at under
        rw [show (Outcome.plain _).decision = _ from decided]
        exact impossible under
    | closed missed unmade => exact closed_
    | refused missed made full => exact Decision.noConfusion
    | stored missed made room => exact impossible (restored_under made _)

end Ready

/-!
### What the answer says
-/

section Answer

variable {Req B : Type} {config : LayerConfig Req}

/-- The rate-limit headers leave `Retry-After` as it is. -/
theorem LayerConfig.writeHeaders_retryAfter (config : LayerConfig Req) (headers : HeaderMap) (snapshot : Snapshot)
    (quota : Quota) : config.writeHeaders headers snapshot quota .retryAfter = headers .retryAfter := by
  have other {name : HeaderName} (apart : name ≠ .retryAfter) (text : Option (List Char)) (headers : HeaderMap) :
      text.elim headers (headers.insert name) .retryAfter = headers .retryAfter := by
    cases text with
    | none => rfl
    | some value => exact Function.update_of_ne apart.symm _ _
  have basic {name : HeaderName} (apart : name ≠ .retryAfter) (text : List Char) (headers : HeaderMap) :
      headers.insert name text .retryAfter = headers .retryAfter := other apart (some text) headers
  unfold LayerConfig.writeHeaders
  cases config.policy with
  | none => simp only [basic, ne_eq, reduceCtorEq, not_false_eq_true]
  | some policy => simp only [other, basic, ne_eq, reduceCtorEq, not_false_eq_true]

theorem LayerConfig.denial_retryAfter [Inhabited B] (config : LayerConfig Req) (decision : Decision)
    (snapshot : Snapshot) (quota : Quota) :
    (config.denial decision snapshot quota : Response B).headers .retryAfter =
      (decision.retryAfterSecs.map (Nat.toDigits 10)).toList := by
  unfold LayerConfig.denial
  dsimp only
  rw [LayerConfig.writeHeaders_retryAfter]
  cases decision.retryAfterSecs with
  | none => rfl
  | some secs => exact Function.update_self HeaderName.retryAfter _ HeaderMap.new

/-- The seconds of `Retry-After` cover the wait, unless they reach the end of the clock. -/
theorem Decision.wait_le_of_retryAfterSecs {wait secs : ℕ} (header : (Decision.deny wait).retryAfterSecs = some secs)
    (short : secs < u64Max) : 1 ≤ secs ∧ wait ≤ secs * nanosPerSec := by
  refine retry_after_never_early header ?_
  simp only [Decision.retryAfterSecs] at header
  split at header
  · obtain rfl := Option.some.inj header
    by_contra long
    have saturated : u64Max ≤ wait / nanosPerSec :=
      (Nat.le_div_iff_mul_le (by decide)).2 (Nat.le_of_lt (Nat.lt_of_not_le long))
    have whole : ceilSecs wait < u64Max := (le_max_left _ _).trans_lt short
    simp only [ceilSecs, satAdd] at whole
    split at whole <;> omega
  · cases header

end Answer

/-!
### The service
-/

section Service

variable {Req S F B I : Type} [KeyState S] [LawfulKeyState S] [Inhabited B] {limiter : RateLimiter}
  {config : LayerConfig Req} {used : Set KeyRef} {quotaOf : KeyRef → Quota} {request : Req} {key : Key}

omit [LawfulKeyState S] in
/-- A request is passed on exactly if its check is allowed. -/
theorem RateLimited.isInner_iff (keyed : config.keyOf request = .ok key) (callInner : Req → I → F × I) (now seen : ℕ)
    (store : Store limiter.config S) (inner : I) :
    (RateLimited.call (B := B) limiter config callInner request now seen store inner).1.isInner = true ↔
      (limiter.checkRef store key.asKeyRef config.cost now).1 = .allow := by
  cases decided : (limiter.checkRef store key.asKeyRef config.cost now).1 with
  | allow =>
      cases headers : config.headersOnSuccess <;>
        simp [RateLimited.call, keyed, decided, headers, Decision.isAllow, ResponseFuture.isInner]
  | deny wait => simp [RateLimited.call, keyed, decided, Decision.isAllow, ResponseFuture.isInner]

omit [LawfulKeyState S] in
/-- A denied request is answered at once, after a look at its key. -/
theorem RateLimited.call_of_denied (keyed : config.keyOf request = .ok key) (callInner : Req → I → F × I)
    {now wait : ℕ} (seen : ℕ) {store : Store limiter.config S} (inner : I)
    (denied : (limiter.checkRef store key.asKeyRef config.cost now).1 = .deny wait) :
    let looked := limiter.peekRef (limiter.checkRef store key.asKeyRef config.cost now).2 key.asKeyRef seen
    (RateLimited.call limiter config callInner request now seen store inner : ResponseFuture F B × _ × I) =
      (.limited (some (config.denial (.deny wait) looked.1 (limiter.quotaOfRef key.asKeyRef))), looked.2, inner) := by
  simp [RateLimited.call, keyed, denied, Decision.isAllow]

omit [LawfulKeyState S] in
/-- A request with no identity is rejected where such requests are, and the limiter is not asked. -/
theorem RateLimited.call_of_rejected {status : ℕ} (rejected : config.keyOf request = .error status)
    (callInner : Req → I → F × I) (now seen : ℕ) (store : Store limiter.config S) (inner : I) :
    (RateLimited.call limiter config callInner request now seen store inner : ResponseFuture F B × _ × I) =
      (.limited (some (.ofStatus status)), store, inner) := by
  simp [RateLimited.call, rejected]

/-- A hopeless request is never allowed. -/
theorem RateLimiter.Hopeless.never_allowed (byName : limiter.QuotasByName used quotaOf)
    (runs : limiter.algorithm = LawfulKeyState.algorithm S) {store : Store limiter.config S}
    (kept : QuotasKept quotaOf store) {name : KeyRef} (here : name ∈ used) {n : ℕ} (positive : 1 ≤ n)
    (hopeless : limiter.Hopeless name n) (t : ℕ) : (limiter.checkRef store name n t).1 ≠ .allow := by
  by_cases fits : limiter.Fits name
  · rw [RateLimiter.checkRef_byName byName here fits]
    have reason := hopeless.resolve_left (not_not.2 fits)
    rw [← byName name here fits, runs] at reason
    exact kept.refuses positive reason t
  · rw [RateLimiter.checkRef_of_tooLong store fits]
    exact Decision.noConfusion

/-- A request denied for a while is passed on when the while is over. -/
theorem RateLimited.passes_when_due (wholeAgain : WholeAgain S) (byName : limiter.QuotasByName used quotaOf)
    {horizon : ℕ} (honest : ∀ quota, HonestDenials S quota horizon) (keyed : config.keyOf request = .ok key)
    (here : key.asKeyRef ∈ used)
    (exact_ : ∀ t ≤ horizon, LawfulKeyState.Fits S (limiter.quotaOfRef key.asKeyRef) t)
    (callInner : Req → I → F × I) {store : Store limiter.config S} (kept : QuotasKept quotaOf store) {now wait : ℕ}
    (denied : (limiter.checkRef store key.asKeyRef config.cost now).1 = .deny wait) (finite : wait ≠ durationMax)
    (room : ¬ NoRoom limiter.config (store (limiter.config.shardFor (limiter.label key.asKeyRef))) now) (seen : ℕ)
    (inner : I) {t : ℕ} (due : now + wait ≤ t) (last : t ≤ horizon) (seen' : ℕ) (inner' : I) :
    (RateLimited.call (B := B) limiter config callInner request t seen'
      (RateLimited.call (B := B) limiter config callInner request now seen store inner).2.1 inner').1.isInner =
        true := by
  have fits : limiter.Fits key.asKeyRef := by
    by_contra long
    exact finite (Decision.deny.inj (denied.symm.trans (RateLimiter.checkRef_of_tooLong store long _ _)))
  have asks : ∀ name ∈ some key.asKeyRef, name ∈ used := fun _ asked => Option.some.inj asked ▸ here
  have checked : QuotasKept quotaOf (limiter.checkRef store key.asKeyRef config.cost now).2 :=
    RateLimiter.call_quotasKept byName kept ⟨.check key.asKeyRef config.cost, now⟩ asks
  have looked : QuotasKept quotaOf
      (limiter.peekRef (limiter.checkRef store key.asKeyRef config.cost now).2 key.asKeyRef seen).2 :=
    RateLimiter.call_quotasKept byName checked ⟨.peek key.asKeyRef, seen⟩ asks
  refine (RateLimited.isInner_iff keyed _ _ _ _ _).2 ?_
  rw [RateLimited.call_of_denied keyed callInner seen inner denied]
  dsimp only
  rw [RateLimiter.peekRef_eq _ fits] at looked ⊢
  rw [RateLimiter.checkRef_byName byName here fits] at denied checked looked ⊢
  rw [RateLimiter.checkRef_byName byName here fits]
  rw [← byName _ here fits] at exact_
  have ready := kept.ready_of_denied wholeAgain (honest _) room denied finite (due.trans last)
    (exact_ _ (due.trans last))
  exact (ready.peek checked seen).check looked due (exact_ _ last)

/-- Whatever the limiter was called for before, the answer to a request that is not passed on tells the client
    what waiting is good for.  With `Retry-After`, the same request made when its seconds are over is passed
    on, if the shard of its key had room and nobody called the limiter meanwhile.  Without it, the request is
    never passed on, whatever the limiter is called for later. -/
def TruthfulAnswers (limiter : RateLimiter) (config : LayerConfig Req) (used : Set KeyRef)
    (callInner : Req → I → F × I) (S : Type) [KeyState S] (B : Type) [Inhabited B] (Exact : Quota → ℕ → Prop)
    (horizon : ℕ) : Prop :=
  ∀ (calls : List (Call KeyRef)) (request : Req) (now seen : ℕ) (inner : I),
    (∀ key ∈ keysInUse calls, key ∈ used) →
    (∀ key, config.keyOf request = .ok key →
      key.asKeyRef ∈ used ∧ ∀ t ≤ horizon, Exact (limiter.quotaOfRef key.asKeyRef) t) →
    now ≤ horizon →
    let store : Store limiter.config S := limiter.run Store.new calls
    let served : ResponseFuture F B × Store limiter.config S × I :=
      RateLimited.call limiter config callInner request now seen store inner
    let servedAt (store : Store limiter.config S) (t seen : ℕ) (inner : I) : ResponseFuture F B :=
      (RateLimited.call limiter config callInner request t seen store inner).1
    served.1.isInner = true ∨ ∃ response, served.1 = .limited (some response) ∧
      ((∃ key secs, config.keyOf request = .ok key ∧ 1 ≤ secs ∧
          response.headers .retryAfter = [Nat.toDigits 10 secs] ∧ response.status = tooManyRequests ∧
          (¬ NoRoom limiter.config (store (limiter.config.shardFor (limiter.label key.asKeyRef))) now →
            ∀ t, now + secs * nanosPerSec ≤ t → t ≤ horizon → ∀ seen inner,
              (servedAt served.2.1 t seen inner).isInner = true)) ∨
        response.headers .retryAfter = [] ∧
          ((∃ key, config.keyOf request = .ok key ∧ response.status = config.impossibleStatus) ∨
            ∃ status, config.keyOf request = .error status ∧ response = .ofStatus status ∧ served.2.1 = store) ∧
          ∀ later, (∀ key ∈ keysInUse later, key ∈ used) → ∀ t seen inner,
            (servedAt (limiter.run served.2.1 later) t seen inner).isInner = false)

theorem truthfulAnswers (wholeAgain : WholeAgain S) (oneQuota : limiter.OneQuotaPerName used)
    (runs : limiter.algorithm = LawfulKeyState.algorithm S) (callInner : Req → I → F × I) {horizon : ℕ}
    (short : horizon ≤ u64Max) (honest : ∀ quota, HonestDenials S quota horizon) :
    TruthfulAnswers limiter config used callInner S B (LawfulKeyState.Fits S) horizon := by
  intro calls request now seen inner within keyed before store served servedAt
  obtain ⟨quotaOf, byName⟩ := oneQuota.exists_quotasByName
  have kept : QuotasKept quotaOf store := RateLimiter.run_quotasKept byName (.new quotaOf) calls within
  cases named : config.keyOf request with
  | error status =>
      have rejected t seen (store : Store limiter.config S) inner :=
        @RateLimited.call_of_rejected Req S F B I _ _ limiter config request status named callInner t seen store inner
      refine .inr ⟨_, congrArg Prod.fst (rejected now seen store inner), .inr ⟨rfl, .inr ⟨status, rfl, rfl, ?_⟩, ?_⟩⟩
      · exact congrArg (fun answer => answer.2.1) (rejected now seen store inner)
      · intro later _ t seen' inner'
        exact congrArg (fun answer => answer.1.isInner) (rejected t seen' _ inner')
  | ok key =>
      obtain ⟨here, exact_⟩ := keyed key named
      have asks : ∀ name ∈ some key.asKeyRef, name ∈ used := fun _ asked => Option.some.inj asked ▸ here
      cases decided : (limiter.checkRef store key.asKeyRef config.cost now).1 with
      | allow => exact .inl ((RateLimited.isInner_iff named _ _ _ _ _).2 decided)
      | deny wait =>
          have checked : QuotasKept quotaOf (limiter.checkRef store key.asKeyRef config.cost now).2 :=
            RateLimiter.call_quotasKept byName kept ⟨.check key.asKeyRef config.cost, now⟩ asks
          have answered : served = _ := RateLimited.call_of_denied named callInner seen inner decided
          have looked : QuotasKept quotaOf served.2.1 := by
            rw [answered]
            exact RateLimiter.call_quotasKept byName checked ⟨.peek key.asKeyRef, seen⟩ asks
          obtain ⟨positive, -, impossible⟩ :=
            RateLimiter.checkRef_timely byName runs honest kept here before decided
          refine .inr ⟨_, congrArg Prod.fst answered, ?_⟩
          rw [LayerConfig.denial_retryAfter]
          by_cases finite : wait = durationMax
          · subst finite
            have hopeless := impossible rfl
            refine .inr ⟨rfl, .inl ⟨key, rfl, rfl⟩, fun later laterWithin t seen inner => ?_⟩
            have refuses := hopeless.never_allowed byName runs
              (RateLimiter.run_quotasKept byName looked later laterWithin) here config.cost_pos t
            exact Bool.eq_false_iff.2 fun passed => refuses ((RateLimited.isInner_iff named _ _ _ _ _).1 passed)
          · have header : (Decision.deny wait).retryAfterSecs = some (max (ceilSecs wait) 1) := if_pos finite
            refine .inl ⟨key, max (ceilSecs wait) 1, rfl, le_max_right _ _, ?_, ?_,
              fun room t due last seen' inner' => ?_⟩
            · rw [header]
              rfl
            · have possible : ¬ Decision.deny wait = .deny durationMax :=
                fun same => finite (Decision.deny.inj same)
              simp [LayerConfig.denial, Response.ofStatus, possible]
            · have bounded : max (ceilSecs wait) 1 * nanosPerSec ≤ u64Max := by omega
              have word : max (ceilSecs wait) 1 < u64Max := by
                have scale : nanosPerSec = 1000000000 := rfl
                have size : 0 < u64Max := by decide
                rw [scale] at bounded
                omega
              obtain ⟨-, covers⟩ := Decision.wait_le_of_retryAfterSecs header word
              exact RateLimited.passes_when_due wholeAgain byName honest named here exact_ callInner kept decided
                finite room seen inner (by omega) last seen' inner'

omit [KeyState S] [LawfulKeyState S] in
/-- The answers of a rate-limit layer are truthful, as long as no two keys in use that have one name have two
    quotas. -/
theorem retry_after_is_truthful (limiter : RateLimiter) (config : LayerConfig Req) (used : Set KeyRef)
    (oneQuota : limiter.OneQuotaPerName used) (callInner : Req → I → F × I) (horizon : ℕ) :
    (limiter.algorithm = .leakyBucket → horizon < u64Max →
      TruthfulAnswers limiter config used callInner Gcra B IntervalFits horizon) ∧
    (limiter.algorithm = .fixedWindow → horizon < u64Max →
      TruthfulAnswers limiter config used callInner FixedWindow B Always horizon) ∧
    (limiter.algorithm = .slidingWindowLog → horizon ≤ u64Max →
      TruthfulAnswers limiter config used callInner SlidingLog B Always horizon) ∧
    (limiter.algorithm = .slidingWindowCounter → horizon < u64Max →
      TruthfulAnswers limiter config used callInner SlidingCounter B Always horizon) :=
  ⟨fun runs clock => truthfulAnswers Gcra.wholeAgain oneQuota runs callInner clock.le fun quota =>
      gcra_honest quota clock,
    fun runs clock => truthfulAnswers FixedWindow.wholeAgain oneQuota runs callInner clock.le fun quota =>
      fixedWindow_honest quota clock,
    fun runs clock => truthfulAnswers SlidingLog.wholeAgain oneQuota runs callInner clock fun quota =>
      slidingLog_honest quota horizon,
    fun runs clock => truthfulAnswers SlidingCounter.wholeAgain oneQuota runs callInner clock.le fun quota =>
      slidingCounter_honest quota clock⟩

end Service

/-- The `Retry-After` of an answer given at once. -/
def ResponseFuture.retryAfter {F B : Type} : ResponseFuture F B → List (List Char)
  | .limited (some response) => response.headers .retryAfter
  | _ => []

/-- A client with one request a second makes a second one at once: it is told to wait a second, and is served
    when the second is over. -/
theorem retry_after_is_truthful_of_second_request :
    let limiter := RateLimiter.build .fixedWindow (.perSecond 1 (by decide)) 1 .unbounded ⟨none, none, none⟩
      (fun _ => 0) ⟨fun _ => 0, fun _ => 0⟩
    let config : LayerConfig Unit := .shared fun _ => some (.withKind .raw [7])
    let store : Store limiter.config FixedWindow := limiter.run Store.new [⟨.check ⟨.raw, [7]⟩ 1, 0⟩]
    let serve (store : Store limiter.config FixedWindow) (now : ℕ) : ResponseFuture Unit Unit × _ × Unit :=
      RateLimited.call limiter config (fun _ _ => ((), ())) () now now store ()
    (serve store 0).1.retryAfter = [Nat.toDigits 10 1] ∧ ∀ t, nanosPerSec ≤ t → t ≤ 2 * nanosPerSec →
      (serve (serve store 0).2.1 t).1.isInner = true := by
  intro limiter config store serve
  have denied : (serve store 0).1.isInner = false := by decide +kernel
  have header : (serve store 0).1.retryAfter = [Nat.toDigits 10 1] := by decide +kernel
  refine ⟨header, fun t due last => ?_⟩
  have truthful := (retry_after_is_truthful (B := Unit) limiter config Set.univ (fun _ _ _ _ _ _ _ => rfl)
    (fun _ _ => ((), ())) (2 * nanosPerSec)).2.1 rfl (by decide)
  rcases truthful [⟨.check ⟨.raw, [7]⟩ 1, 0⟩] () 0 0 () (fun _ _ => trivial) (fun _ _ => ⟨trivial, fun _ _ => trivial⟩)
    (Nat.zero_le _) with passed | ⟨response, limited, ⟨key, secs, ⟨⟩, -, told, -, served⟩ | ⟨untold, -, -⟩⟩
  · exact absurd passed (Bool.eq_false_iff.1 denied)
  · have digits : Nat.toDigits 10 secs = Nat.toDigits 10 1 := by
      rw [show (serve store 0).1 = _ from limited] at header
      exact List.singleton_inj.1 (told.symm.trans header)
    have read := congrArg (Nat.ofDigitChars 10 · 0) digits
    rw [Nat.ofDigitChars_toDigits (by decide) (by decide), Nat.ofDigitChars_toDigits (by decide) (by decide)] at read
    subst read
    exact served (fun full => absurd full.1 (by decide +kernel)) t (by simpa using due) last t ()
  · rw [show (serve store 0).1 = _ from limited] at header
    cases untold.symm.trans header

/-!
### The future of an answer
-/

section Polls

variable {F α B E : Type}

/-- What `k` polls of a future return. -/
def polls (poll : F → Poll α × F) : ℕ → F → List (Poll α)
  | 0, _ => []
  | k + 1, future => (poll future).1 :: polls poll k (poll future).2

/-- The first response among some results, with headers added. -/
def addToFirst (headers : Option HeaderMap) : List (Poll (Except E (Response B))) → List (Poll (Except E (Response B)))
  | [] => []
  | .ready (.ok response) :: rest =>
    .ready (.ok (headers.elim response fun extra => { response with headers := response.headers.extend extra })) ::
      rest
  | other :: rest => other :: addToFirst headers rest

theorem addToFirst_none : (results : List (Poll (Except E (Response B)))) → addToFirst none results = results
  | [] => rfl
  | .ready (.ok _) :: _ => rfl
  | .ready (.error _) :: rest => congrArg _ (addToFirst_none rest)
  | .pending :: rest => congrArg _ (addToFirst_none rest)

/-- The future of an admitted request returns what the inner service's own does, poll by poll, errors included;
    its first response has the headers added.  That of a denied request completes on its first poll and never
    again. -/
theorem response_future_transparent (pollInner : F → Poll (Except E (Response B)) × F) (k : ℕ) :
    (∀ future headers, polls (ResponseFuture.poll pollInner) k (.inner future headers) =
      addToFirst headers (polls pollInner k future)) ∧
    ∀ response, polls (ResponseFuture.poll pollInner) (k + 1) (.limited (some response)) =
      .ready (.ok response) :: List.replicate k .pending := by
  constructor
  · induction k with
    | zero => exact fun _ _ => rfl
    | succ k inductionHypothesis =>
        intro future headers
        unfold polls
        cases polled : pollInner future with
        | mk result future' =>
            rcases result with _ | error | response
            · simp only [ResponseFuture.poll, polled, addToFirst, inductionHypothesis]
            · simp only [ResponseFuture.poll, polled, addToFirst, inductionHypothesis]
            · simp only [ResponseFuture.poll, polled, addToFirst, inductionHypothesis, addToFirst_none]
  · intro response
    have done : ∀ k, polls (ResponseFuture.poll pollInner) k (.limited none) = List.replicate k .pending := by
      intro k
      induction k with
      | zero => rfl
      | succ k inductionHypothesis =>
          rw [List.replicate_succ, ← inductionHypothesis]
          rfl
    rw [← done]
    rfl

end Polls

end RateNet
