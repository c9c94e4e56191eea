/-
Module: RateNet.Proofs.ServedRequests
Purpose: What reaches the service behind a rate-limit layer. Threads serve requests with one limiter, which other
  code may use too, their checks and reads coming in any order. Every request passed on was charged its cost,
  once, to the key it was charged to; so where the limiter is one of leaky buckets whose shards do not fill,
  the requests of a client that reach the inner service in a stretch of time are bounded by its burst and the
  intervals of the stretch.
Trusted boundary: none
Main exports: grantedIn, passedIn, RateLimiter.Spends, RateLimited.call_serves, inner_service_load_bounded
-/
import RateNet.Net.Service
import RateNet.Proofs.LockedMeter
import RateNet.Proofs.KeyedWaits

namespace RateNet

open Interleaving VirtualScheduling

variable {Req S ι : Type} {limiter : RateLimiter} {config : LayerConfig Req}

/-!
### Requests and grants
-/

/-- The units one call was granted under `name`, if its reading lies in `[a, b]`. -/
def grantedBy (limiter : RateLimiter) (name : KeyRef) (a b : ℕ) : Call KeyRef × Reply → ℕ
  | (⟨.check key n, now⟩, .decided .allow) => if limiter.label key = name ∧ a ≤ now ∧ now ≤ b then n else 0
  | _ => 0

/-- The units granted under `name` at readings in `[a, b]`. -/
def grantedIn (limiter : RateLimiter) (name : KeyRef) (calls : List (Call KeyRef × Reply)) (a b : ℕ) : ℕ :=
  (calls.map (grantedBy limiter name a b)).sum

theorem grantedIn_snoc (name : KeyRef) (calls : List (Call KeyRef × Reply)) (call : Call KeyRef × Reply) (a b : ℕ) :
    grantedIn limiter name (calls ++ [call]) a b =
      grantedIn limiter name calls a b + grantedBy limiter name a b call := by
  simp [grantedIn]

/-- Whether a request passed on counts under `name` in `[a, b]`. -/
def Passed.counts (limiter : RateLimiter) (name : KeyRef) (a b : ℕ) (passed : Passed Req) : Bool :=
  limiter.label passed.key = name ∧ a ≤ passed.now ∧ passed.now ≤ b

/-- The requests passed on under `name`, checked at readings in `[a, b]`. -/
def passedIn (limiter : RateLimiter) (name : KeyRef) (passed : List (Passed Req)) (a b : ℕ) : ℕ :=
  passed.countP (Passed.counts limiter name a b)

/-- The requests a thread has had admitted under `name` in `[a, b]` and not passed on yet. -/
def ServicePc.pending (limiter : RateLimiter) (name : KeyRef) (a b : ℕ) : ServicePc Req → ℕ
  | .admitted request key now => if Passed.counts limiter name a b ⟨request, key.asKeyRef, now⟩ then 1 else 0
  | _ => 0

/-- A thread charges the key of its request. -/
def ServicePc.ChargesItsKey (config : LayerConfig Req) : ServicePc Req → Prop
  | .idle => True
  | .keyed request key | .admitted request key _ | .denied request key _ => config.keyOf request = .ok key

/-- Every request passed on, or about to be, was granted its cost. -/
structure Backed (limiter : RateLimiter) [KeyState S] [Fintype ι] (config : LayerConfig Req)
    (c : Config ι (ServiceMem Req limiter S) (ServicePc Req)) : Prop where
  charged : ∀ name a b, config.cost * (passedIn limiter name c.mem.passed a b +
    ∑ i, (c.loc i).pending limiter name a b) ≤ grantedIn limiter name c.mem.calls a b
  keys : ∀ i, (c.loc i).ChargesItsKey config
  own : ∀ passed ∈ c.mem.passed, ∃ key, config.keyOf passed.request = .ok key ∧ passed.key = key.asKeyRef

variable [KeyState S] [Fintype ι] [DecidableEq ι]

theorem passedIn_snoc (name : KeyRef) (passed : List (Passed Req)) (last : Passed Req) (a b : ℕ) :
    passedIn limiter name (passed ++ [last]) a b =
      passedIn limiter name passed a b + if last.counts limiter name a b then 1 else 0 := by
  rw [passedIn, List.countP_append, List.countP_singleton, passedIn]

theorem grantedIn_called (mem : ServiceMem Req limiter S) (call : Call KeyRef) (name : KeyRef) (a b : ℕ) :
    grantedIn limiter name (mem.called call).calls a b =
      grantedIn limiter name mem.calls a b + grantedBy limiter name a b (call, (limiter.call mem.store call).1) :=
  grantedIn_snoc _ _ _ _ _

/-- A check that is allowed grants its units. -/
theorem grantedBy_check {mem : ServiceMem Req limiter S} {request : Req} {key : Key} {n now : ℕ}
    (allowed : (limiter.checkRef mem.store key.asKeyRef n now).1 = .allow) (name : KeyRef) (a b : ℕ) :
    grantedBy limiter name a b (⟨.check key.asKeyRef n, now⟩,
        (limiter.call mem.store ⟨.check key.asKeyRef n, now⟩).1) =
      n * (ServicePc.admitted request key now).pending limiter name a b := by
  have reply : (limiter.call mem.store ⟨.check key.asKeyRef n, now⟩).1 = .decided .allow :=
    congrArg Reply.decided allowed
  rw [reply, grantedBy, ServicePc.pending]
  simp only [Passed.counts, decide_eq_true_eq]
  split
  · rw [Nat.mul_one]
  · rw [Nat.mul_zero]

/-- A step of a thread keeps every request backed. -/
theorem ServiceStep.backed {c : Config ι (ServiceMem Req limiter S) (ServicePc Req)} (backed : Backed limiter config c)
    {i : ι} {mem' : ServiceMem Req limiter S} {loc' : ServicePc Req}
    (step : ServiceStep limiter config c.mem (c.loc i) mem' loc') :
    Backed limiter config { mem := mem', loc := Function.update c.loc i loc' } := by
  have moved name a b := sum_update_add (fun _ => ServicePc.pending limiter name a b) c.loc i loc'
  have key := backed.keys i
  -- the account of a step that grants and passes on what its thread has pending
  have accounts (here : loc'.ChargesItsKey config)
      (own : ∀ passed ∈ mem'.passed, ∃ key, config.keyOf passed.request = .ok key ∧ passed.key = key.asKeyRef)
      (charged : ∀ name a b, ∃ paid, grantedIn limiter name mem'.calls a b =
          grantedIn limiter name c.mem.calls a b + paid ∧
        config.cost * (passedIn limiter name mem'.passed a b + loc'.pending limiter name a b) ≤
          config.cost * (passedIn limiter name c.mem.passed a b + (c.loc i).pending limiter name a b) + paid) :
      Backed limiter config { mem := mem', loc := Function.update c.loc i loc' } := by
    refine ⟨fun name a b => ?_, ?_, own⟩
    · obtain ⟨paid, more, enough⟩ := charged name a b
      have before := backed.charged name a b
      have sum := moved name a b
      simp only [Nat.mul_add] at before enough ⊢
      rw [more]
      have scaled := congrArg (config.cost * ·) sum
      simp only [Nat.mul_add] at scaled
      omega
    · exact (Function.forall_update_iff c.loc fun _ pc => pc.ChargesItsKey config).2
        ⟨here, fun j _ => backed.keys j⟩
  have passing {request : Req} {key : Key} {now : ℕ} (keyed : config.keyOf request = .ok key) :
      ∀ passed ∈ c.mem.passed ++ [⟨request, key.asKeyRef, now⟩],
        ∃ key, config.keyOf passed.request = .ok key ∧ passed.key = key.asKeyRef :=
    List.forall_mem_append.2 ⟨backed.own, List.forall_mem_singleton.2 ⟨key, keyed, rfl⟩⟩
  generalize here : c.loc i = pc at step key accounts
  cases step with
  | other call =>
      exact accounts trivial backed.own fun name a b => ⟨_, grantedIn_called _ _ _ _ _, Nat.le_add_right _ _⟩
  | reject request rejected => exact accounts trivial backed.own fun name a b => ⟨0, rfl, le_rfl⟩
  | arrive request keyed => exact accounts keyed backed.own fun name a b => ⟨0, rfl, le_rfl⟩
  | @grant request key' now allowed =>
      refine accounts key backed.own fun name a b => ⟨_, grantedIn_called _ _ _ _ _, ?_⟩
      rw [@grantedBy_check _ _ _ _ _ request _ _ _ allowed, Nat.mul_add, Nat.mul_add]
      exact Nat.add_le_add_right (Nat.le_add_right _ _) _
  | deny now refused denied =>
      exact accounts key backed.own fun name a b => ⟨_, grantedIn_called _ _ _ _ _, Nat.le_add_right _ _⟩
  | @passShown request key' now seen headers =>
      refine accounts trivial (passing key) fun name a b => ⟨_, grantedIn_called _ _ _ _ _, ?_⟩
      rw [passedIn_snoc]
      exact Nat.le_add_right _ _
  | @pass request key' now plain =>
      refine accounts trivial (passing key) fun name a b => ⟨0, rfl, ?_⟩
      rw [passedIn_snoc]
      exact le_rfl
  | answer seen =>
      exact accounts trivial backed.own fun name a b => ⟨_, grantedIn_called _ _ _ _ _, Nat.le_add_right _ _⟩

/-!
### The meter of a name
-/

/-- Calls that spend or read: checks of the keys in `used`, at readings short of the end of the bucket's clock,
    and peeks. -/
def RateLimiter.Spends (limiter : RateLimiter) (used : Finset KeyRef) (call : Call KeyRef) : Prop :=
  match call.request with
  | .check key _ => key ∈ used ∧ (limiter.Fits key →
      (GcraParams.new (limiter.quotaOfRef key)).intervalsAt (nanos call.now) + (limiter.quotaOfRef key).burst < 2 ^ 64)
  | .peek _ => True
  | _ => False

instance (limiter : RateLimiter) (used : Finset KeyRef) (call : Call KeyRef) :
    Decidable (limiter.Spends used call) := by
  unfold RateLimiter.Spends
  split <;> infer_instance

/-- The names under which the keys in `used` are stored. -/
def RateLimiter.namesOf (limiter : RateLimiter) (used : Finset KeyRef) : Finset KeyRef :=
  (used.filter limiter.Fits).image limiter.label

theorem RateLimiter.mem_namesOf {used : Finset KeyRef} {key : KeyRef} (here : key ∈ used) (fits : limiter.Fits key) :
    limiter.label key ∈ limiter.namesOf used :=
  Finset.mem_image.2 ⟨key, Finset.mem_filter.2 ⟨here, fits⟩, rfl⟩

/-- The store mirrors the buckets of the names checked so far, and the bucket of `name` meters what was granted
    under it. -/
def NameMetered (quotaOf : KeyRef → Quota) (names : Finset KeyRef) (name : KeyRef)
    (mem : ServiceMem Req limiter Gcra) : Prop :=
  ∃ effects, BucketsAccount quotaOf names name effects mem.store ∧
    grantedTo name effects = grantedIn limiter name mem.calls

section Metered

variable {used : Finset KeyRef} {quotaOf : KeyRef → Quota} (byName : limiter.QuotasByName used quotaOf)
  (roomy : Roomy limiter.config (limiter.namesOf used)) {name : KeyRef}
  (admits : admitsAnything .leakyBucket (quotaOf name) = true)
include byName roomy admits

theorem NameMetered.called {mem : ServiceMem Req limiter Gcra}
    (metered : NameMetered quotaOf (limiter.namesOf used) name mem) {call : Call KeyRef}
    (spends : limiter.Spends used call) : NameMetered quotaOf (limiter.namesOf used) name (mem.called call) := by
  obtain ⟨effects, account, granted⟩ := metered
  -- a call that changes nothing and grants nothing
  have nothing (store : (limiter.call mem.store call).2 = mem.store)
      (none_ : ∀ a b, grantedBy limiter name a b (call, (limiter.call mem.store call).1) = 0) :
      NameMetered quotaOf (limiter.namesOf used) name (mem.called call) := by
    refine ⟨effects, ?_, ?_⟩
    · show BucketsAccount quotaOf (limiter.namesOf used) name effects (limiter.call mem.store call).2
      rw [store]
      exact account
    · funext a b
      rw [grantedIn_called, none_, granted, Nat.add_zero]
  obtain ⟨request, now⟩ := call
  cases request with
  | check key n =>
      by_cases fits : limiter.Fits key
      · obtain ⟨here, unsaturated⟩ := spends
        have readable := unsaturated fits
        rw [← byName key here fits] at readable
        generalize outcome : mem.store.check (limiter.label key) n now
          (KeyState.create (quotaOf (limiter.label key))) = checked
        have accounted := account.check (n := n) roomy admits (limiter.mem_namesOf here fits) readable
        rw [outcome] at accounted
        have called : limiter.call mem.store ⟨.check key n, now⟩ = (.decided checked.1.decision, checked.2) := by
          simp only [RateLimiter.call, RateLimiter.checkRef_byName byName here fits, outcome]
        have store : (mem.called ⟨.check key n, now⟩).store = checked.2 := congrArg Prod.snd called
        rw [← store] at accounted
        refine ⟨_, accounted, ?_⟩
        funext a b
        rw [grantedIn_called, grantedTo_snoc, granted, called]
        congr 1
        cases decided : checked.1.decision with
        | allow => simp only [Effect.granted, grantedBy, decided, true_and]
        | deny retryAfter => simp only [Effect.granted, grantedBy, decided, reduceCtorEq, false_and, and_false, if_false]
      · have refused := RateLimiter.call_of_tooLong mem.store ⟨.check key n, now⟩ fun all => fits (all key rfl)
        refine nothing (congrArg Prod.snd refused) fun a b => ?_
        rw [refused]
        rfl
  | peek key =>
      refine nothing ?_ fun a b => rfl
      by_cases fits : limiter.Fits key
      · obtain ⟨ref, mirrors, -⟩ := account
        have same : (mem.store.peekRef .leakyBucket quotaOf (limiter.label key) now).2 = mem.store :=
          peek_unchanged mirrors.consistent .leakyBucket (limiter.label key) now
        show (limiter.peekRef mem.store key now).2 = mem.store
        rw [RateLimiter.peekRef_eq mem.store fits]
        exact same
      · rw [RateLimiter.call_of_tooLong mem.store ⟨.peek key, now⟩ fun all => fits (all key rfl)]
  | reset | remove | clear | retainRecent | shrinkToFit => exact spends.elim

theorem ServiceStep.nameMetered {mem mem' : ServiceMem Req limiter Gcra} {pc pc' : ServicePc Req}
    (step : ServiceStep limiter config mem pc mem' pc')
    (earlier : (∀ call ∈ mem.calls, limiter.Spends used call.1) →
      NameMetered quotaOf (limiter.namesOf used) name mem)
    (spends : ∀ call ∈ mem'.calls, limiter.Spends used call.1) :
    NameMetered quotaOf (limiter.namesOf used) name mem' := by
  have called {call : Call KeyRef} (spends : ∀ call' ∈ (mem.called call).calls, limiter.Spends used call'.1) :
      NameMetered quotaOf (limiter.namesOf used) name (mem.called call) := by
    have before := earlier fun call' member => spends call' (List.mem_append_left _ member)
    exact before.called byName roomy admits (spends _ (List.mem_append_right _ (List.mem_singleton.2 rfl)))
  cases step with
  | other call => exact called spends
  | grant now allowed => exact called spends
  | deny now refused denied => exact called spends
  | answer seen => exact called spends
  | passShown seen headers => exact called spends
  | reject request rejected => exact earlier spends
  | arrive request keyed => exact earlier spends
  | pass plain => exact earlier spends

end Metered

/-- What a thread can do by itself. -/
def Undisturbed (limiter : RateLimiter) (config : LayerConfig Req) :
    ServiceMem Req limiter S × ServicePc Req → ServiceMem Req limiter S × ServicePc Req → Prop :=
  Relation.ReflTransGen fun x y => ServiceStep limiter config x.1 x.2 y.1 y.2

theorem Undisturbed.step {start : ServiceMem Req limiter S × ServicePc Req} {mem mem' : ServiceMem Req limiter S}
    {pc pc' : ServicePc Req} (run : Undisturbed limiter config start (mem, pc))
    (step : ServiceStep limiter config mem pc mem' pc') : Undisturbed limiter config start (mem', pc') :=
  Relation.ReflTransGen.tail run step

/-- The sequential service is what a thread does undisturbed: the limiter is left the same, and the request is
    passed on exactly if the future is that of the inner service. -/
theorem RateLimited.call_serves {F B I : Type} [Inhabited B] (callInner : Req → I → F × I) (request : Req)
    (now seen : ℕ) (mem : ServiceMem Req limiter S) (inner : I) :
    let served : ResponseFuture F B × Store limiter.config S × I :=
      RateLimited.call limiter config callInner request now seen mem.store inner
    ∃ mem', Undisturbed limiter config (mem, .idle) (mem', .idle) ∧ mem'.store = served.2.1 ∧
      mem'.passed.map Passed.request =
        mem.passed.map Passed.request ++ if served.1.isInner then [request] else [] := by
  intro served
  cases keyed : config.keyOf request with
  | error status =>
      refine ⟨mem, .single (.reject request keyed), ?_⟩
      simp [served, RateLimited.call, keyed, ResponseFuture.isInner]
  | ok key =>
      have arrives : Undisturbed limiter config (mem, .idle) (mem, .keyed request key) :=
        .single (.arrive request keyed)
      cases decided : (limiter.checkRef mem.store key.asKeyRef config.cost now).1 with
      | allow =>
          have granted := arrives.step (.grant now decided)
          cases headers : config.headersOnSuccess with
          | false =>
              refine ⟨_, granted.step (.pass headers), ?_⟩
              simp [served, RateLimited.call, keyed, decided, headers, Decision.isAllow, ServiceMem.called, RateLimiter.call,
                ResponseFuture.isInner]
          | true =>
              refine ⟨_, granted.step (.passShown seen headers), ?_⟩
              simp [served, RateLimited.call, keyed, decided, headers, Decision.isAllow, ServiceMem.called, RateLimiter.call,
                ResponseFuture.isInner]
      | deny retryAfter =>
          refine ⟨_, (arrives.step (.deny now decided rfl)).step (.answer seen), ?_⟩
          simp [served, RateLimited.call, keyed, decided, Decision.isAllow, ServiceMem.called, RateLimiter.call,
            ResponseFuture.isInner]

/-- Whatever threads serve requests with a limiter of leaky buckets, and whoever else checks and reads it, with
    clock readings in any order: the requests charged under the name of a key that reach the inner service, checked
    at readings in `[a, b]`, cost together no more than the burst and the intervals between the two ends, as long
    as every shard has a place for each checked key that falls in it and no two checked keys that have one name
    have two quotas.  A request that is passed on was charged to the key of that request. -/
theorem inner_service_load_bounded (limiter : RateLimiter) (config : LayerConfig Req) {used : Finset KeyRef}
    (oneQuota : limiter.OneQuotaPerName used) (roomy : Roomy limiter.config (limiter.namesOf used))
    {c : Config ι (ServiceMem Req limiter Gcra) (ServicePc Req)}
    (reach : Reachable (serving limiter config) (ServiceConfig.new limiter) c)
    (spends : ∀ call ∈ c.mem.calls, limiter.Spends used call.1) {key : KeyRef} (here : key ∈ used)
    (fits : limiter.Fits key) (admits : admitsAnything .leakyBucket (limiter.quotaOfRef key) = true) {a b : ℕ}
    (order : a ≤ b) :
    config.cost * passedIn limiter (limiter.label key) c.mem.passed a b ≤ (limiter.quotaOfRef key).burst +
        (GcraParams.new (limiter.quotaOfRef key)).intervalsAt (nanos b) -
        (GcraParams.new (limiter.quotaOfRef key)).intervalsAt (nanos a) ∧
      ∀ passed ∈ c.mem.passed, ∃ key, config.keyOf passed.request = .ok key ∧ passed.key = key.asKeyRef := by
  obtain ⟨quotaOf, byName⟩ := oneQuota.exists_quotasByName
  have quota := byName key here fits
  rw [← quota] at admits ⊢
  have backed := reach.invariant (Backed limiter config)
    ⟨fun _ _ _ => by simp [passedIn, ServiceConfig.new, ServicePc.pending], fun _ => trivial,
      fun _ member => by cases member⟩
    (fun _ _ _ _ backed step => ServiceStep.backed backed step)
  obtain ⟨effects, ⟨ref, -, -, meters⟩, granted⟩ := reach.invariant
    (fun c => (∀ call ∈ c.mem.calls, limiter.Spends used call.1) →
      NameMetered quotaOf (limiter.namesOf used) (limiter.label key) c.mem)
    (fun _ => ⟨[], .new, rfl⟩)
    (fun _ _ _ _ earlier step => ServiceStep.nameMetered byName roomy admits step earlier) spends
  refine ⟨?_, backed.own⟩
  have burst := GcraParams.tolerance_add_one (GcraParams.new_isOpen_of_admits admits).not_closed
  have bound := meters.metered.bound order
  rw [burst, granted] at bound
  have charged := backed.charged (limiter.label key) a b
  rw [Nat.mul_add] at charged
  exact (Nat.le_of_add_right_le charged).trans bound

/-!
### Schedules
-/

/-- The step of a thread that serves `request` again and again, with the clock standing at `now`. -/
def ServicePc.turn (limiter : RateLimiter) (config : LayerConfig Req) (request : Req) (now : ℕ)
    (mem : ServiceMem Req limiter S) : ServicePc Req → ServiceMem Req limiter S × ServicePc Req
  | .idle =>
    match config.keyOf request with
    | .error _ => (mem, .idle)
    | .ok key => (mem, .keyed request key)
  | .keyed request key =>
    match (limiter.checkRef mem.store key.asKeyRef config.cost now).1 with
    | .allow => (mem.called ⟨.check key.asKeyRef config.cost, now⟩, .admitted request key now)
    | .deny retryAfter => (mem.called ⟨.check key.asKeyRef config.cost, now⟩, .denied request key (.deny retryAfter))
  | .admitted request key at_ =>
    let passed := mem.passed ++ [⟨request, key.asKeyRef, at_⟩]
    if config.headersOnSuccess then ({ mem.called ⟨.peek key.asKeyRef, now⟩ with passed }, .idle)
    else ({ mem with passed }, .idle)
  | .denied _ key _ => (mem.called ⟨.peek key.asKeyRef, now⟩, .idle)

omit [Fintype ι] [DecidableEq ι] in
theorem ServicePc.turn_step (limiter : RateLimiter) (config : LayerConfig Req) (request : Req) (now : ℕ)
    (mem : ServiceMem Req limiter S) (pc : ServicePc Req) :
    pc.turn limiter config request now mem = (mem, pc) ∨
      ServiceStep limiter config mem pc (pc.turn limiter config request now mem).1
        (pc.turn limiter config request now mem).2 := by
  cases pc with
  | idle =>
      unfold ServicePc.turn
      cases keyed : config.keyOf request with
      | error status => exact .inl rfl
      | ok key => exact .inr (.arrive request keyed)
  | keyed request key =>
      unfold ServicePc.turn
      right
      dsimp only
      cases decided : (limiter.checkRef mem.store key.asKeyRef config.cost now).1 with
      | allow => exact .grant now decided
      | deny retryAfter => exact .deny now decided rfl
  | admitted request key at_ =>
      unfold ServicePc.turn
      right
      dsimp only
      cases headers : config.headersOnSuccess with
      | true => exact .passShown now headers
      | false => exact .pass headers
  | denied request key decision => exact .inr (.answer now)

/-- Two threads serve a request of one client at the same time, whose burst is one: one of them passes it on. -/
theorem inner_service_load_bounded_of_two_threads :
    let limiter := RateLimiter.build .leakyBucket (.perSecond 1 (by decide)) 1 .unbounded ⟨none, none, none⟩
      (fun _ => 0) ⟨fun _ => 0, fun _ => 0⟩
    let config : LayerConfig Unit := .shared fun _ => some (.withKind .raw [7])
    let next (_ : Bool) (mem : ServiceMem Unit limiter Gcra) (pc : ServicePc Unit) := pc.turn limiter config () 0 mem
    let both := [false, true]
    let c := runSchedule next (both ++ both ++ both) (ServiceConfig.new limiter)
    c.mem.passed.length = 1 ∧ passedIn limiter ⟨.raw, [7]⟩ c.mem.passed 0 0 = 1 ∧
      config.cost * passedIn limiter ⟨.raw, [7]⟩ c.mem.passed 0 0 ≤ 1 := by
  intro limiter config next both c
  have reach : Reachable (serving limiter config) (ServiceConfig.new limiter) c :=
    Reachable.schedule (fun _ => ServicePc.turn_step _ _ _ _) _ _
  have roomy : Roomy limiter.config (limiter.namesOf {⟨.raw, [7]⟩}) := ⟨rfl, by decide +kernel⟩
  have bounded := @inner_service_load_bounded _ _ _ _ limiter config _ (fun _ _ _ _ _ _ _ => rfl) roomy c reach
    (by decide +kernel) ⟨.raw, [7]⟩ (by decide) rfl (by decide) 0 0 le_rfl
  exact ⟨by decide +kernel, by decide +kernel, bounded.1.trans (by decide +kernel)⟩

end RateNet
