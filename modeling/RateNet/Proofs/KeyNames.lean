/-
Module: RateNet.Proofs.KeyNames
Purpose: What the key-length policy does to the limits. Looking long keys up by their digests changes no
  answer, whatever the calls, the algorithm and the eviction policy, as long as no two keys in use have one
  name: the limiter is the limiter without digests, with another hasher. Whatever the calls, what the store
  keeps of its keys is bounded, and an over-long key leaves no trace. A key whose override does not validate
  is refused in every run.
Trusted boundary: none
Main exports: RateLimiter.label, RateLimiter.call_eq, digesting_is_invisible, stored_key_bytes_bounded,
  invalid_override_fails_closed
-/
import RateNet.Store.KeyPolicy
import RateNet.Proofs.KeyRenaming
import RateNet.Proofs.Linearizable

namespace RateNet

variable {K L S : Type}

/-- What a caller of the limiter sees of an answer of the store. -/
def Answer.reply : Answer K → Reply
  | .checked outcome => .decided outcome.decision
  | .peeked snapshot => .peeked snapshot
  | .found any => .found any
  | .removed keys => .removed keys
  | .done => .done

@[simp] theorem Answer.reply_rename (f : K → L) (answer : Answer K) :
    (answer.rename f).reply = answer.reply := by
  cases answer <;> rfl

/-!
### Names
-/

namespace RateLimiter

variable (limiter : RateLimiter) {key name : KeyRef}

/-- The key the store looks `key` up by. -/
def label (key : KeyRef) : KeyRef := (limiter.admitKey key).name.getD key

/-- The policy does not refuse `key`. -/
def Fits (key : KeyRef) : Prop := (limiter.admitKey key).name.isSome = true

instance (key : KeyRef) : Decidable (limiter.Fits key) := inferInstanceAs (Decidable (_ = true))

/-- The three ways the policy treats a key. -/
theorem admit_cases (key : KeyRef) :
    (limiter.options.maxKeyLen.any (· < key.bytes.length) = true ∧ limiter.admitKey key = .tooLong) ∨
      limiter.options.maxKeyLen.any (· < key.bytes.length) = false ∧
        ((limiter.admitKey key = .asIs key ∧ ∀ digester longest, limiter.digester = some digester →
            limiter.options.digestOver = some longest → key.bytes.length ≤ longest) ∨
          ∃ digester longest, limiter.digester = some digester ∧ limiter.options.digestOver = some longest ∧
            longest < key.bytes.length ∧ limiter.admitKey key = .digest (digester.digest key)) := by
  simp only [admitKey]
  cases tooLong : limiter.options.maxKeyLen.any (· < key.bytes.length) with
  | true => exact .inl ⟨rfl, rfl⟩
  | false =>
      refine .inr ⟨rfl, ?_⟩
      cases limiter.digester with
      | none => exact .inl ⟨rfl, by rintro _ _ ⟨⟩⟩
      | some digester =>
          cases limiter.options.digestOver with
          | none => exact .inl ⟨rfl, by rintro _ _ _ ⟨⟩⟩
          | some longest =>
              by_cases long : longest < key.bytes.length
              · exact .inr ⟨digester, longest, rfl, rfl, long, if_pos long⟩
              · refine .inl ⟨if_neg long, ?_⟩
                rintro _ _ _ ⟨⟩
                exact Nat.not_lt.1 long

variable {limiter}

theorem not_fits_iff : ¬ limiter.Fits key ↔ limiter.admitKey key = .tooLong := by
  rcases limiter.admit_cases key with ⟨-, admitted⟩ | ⟨-, ⟨admitted, -⟩ | ⟨_, _, -, -, -, admitted⟩⟩ <;>
    simp only [Fits, admitted, Admitted.name] <;> simp

theorem fits_iff : limiter.Fits key ↔ limiter.options.maxKeyLen.any (· < key.bytes.length) = false := by
  rcases limiter.admit_cases key with ⟨long, admitted⟩ | ⟨short, ⟨admitted, -⟩ | ⟨_, _, -, -, -, admitted⟩⟩
  · simp only [Fits, admitted, Admitted.name, long]
    decide
  · simp only [Fits, admitted, Admitted.name, short, Option.isSome_some]
  · simp only [Fits, admitted, Admitted.name, short, Option.isSome_some]

theorem admit_of_unlimited (unlimited : limiter.options.limitsLength = false) (key : KeyRef) :
    limiter.admitKey key = .asIs key := by
  simp only [KeyOptions.limitsLength, Bool.or_eq_false_iff, Option.isSome_eq_false_iff, Option.isNone_iff_eq_none]
    at unlimited
  rcases limiter.admit_cases key with ⟨long, -⟩ | ⟨-, ⟨admitted, -⟩ | ⟨_, _, -, digests, -, -⟩⟩
  · rw [unlimited.1] at long
    cases long
  · exact admitted
  · rw [unlimited.2] at digests
    cases digests

/-- An admitted key is looked up as it is, or by its digest. -/
theorem Fits.admitted (fits : limiter.Fits key) :
    (limiter.admitKey key = .asIs key ∧ limiter.label key = key) ∨
      ∃ bytes, limiter.admitKey key = .digest bytes ∧ limiter.label key = { kind := .digest, bytes } := by
  rcases limiter.admit_cases key with ⟨-, admitted⟩ | ⟨-, ⟨admitted, -⟩ | ⟨_, _, -, -, -, admitted⟩⟩
  · exact absurd fits (not_fits_iff.2 admitted)
  · exact .inl ⟨admitted, by rw [label, admitted]; rfl⟩
  · exact .inr ⟨_, admitted, by rw [label, admitted]; rfl⟩

/-!
### Calls by name
-/

variable (store : Store limiter.config S)

/-- An admitted key is checked by its name, under its own quota. -/
theorem checkRef_eq [KeyState S] (fits : limiter.Fits key) (n now : ℕ) :
    limiter.checkRef store key n now = limiter.checkStore store (limiter.label key) key n now := by
  cases limits : limiter.options.limitsLength with
  | false =>
      have admitted := admit_of_unlimited limits key
      simp only [checkRef, limits, label, admitted, Admitted.name, Option.getD_some]
      rfl
  | true =>
      simp only [checkRef, limits, checkWithPolicy]
      rcases fits.admitted with ⟨admitted, labelled⟩ | ⟨bytes, admitted, labelled⟩ <;>
      · rw [admitted, labelled]
        rfl

theorem peekRef_eq [KeyState S] (fits : limiter.Fits key) (now : ℕ) :
    limiter.peekRef store key now =
      (limiter.snapshotOf (S := S) key (store.peek (limiter.label key) now).1 now,
        (store.peek (limiter.label key) now).2) := by
  rcases fits.admitted with ⟨admitted, labelled⟩ | ⟨bytes, admitted, labelled⟩ <;>
    simp only [peekRef, admitted, labelled]

theorem reset_eq [KeyState S] (fits : limiter.Fits key) (now : ℕ) :
    limiter.reset store key now = store.reset (limiter.label key) now := by
  rcases fits.admitted with ⟨admitted, labelled⟩ | ⟨bytes, admitted, labelled⟩ <;>
    simp only [reset, admitted, labelled]

theorem remove_eq (fits : limiter.Fits key) (now : ℕ) :
    limiter.remove store key now = store.remove (limiter.label key) now := by
  rcases fits.admitted with ⟨admitted, labelled⟩ | ⟨bytes, admitted, labelled⟩ <;>
    simp only [remove, admitted, labelled]

variable [KeyState S]

/-- A call that names no over-long key is the call of the store under the keys' names, with the quotas of the
    keys themselves. -/
theorem call_eq (call : Call KeyRef) (quotaOf : KeyRef → Quota)
    (fits : ∀ key ∈ call.request.key, limiter.Fits key)
    (same : ∀ key ∈ call.request.key, quotaOf (limiter.label key) = limiter.quotaOfRef key) :
    limiter.call store call =
      ((store.call limiter.algorithm quotaOf (call.rename limiter.label)).1.reply,
        (store.call limiter.algorithm quotaOf (call.rename limiter.label)).2) := by
  obtain ⟨request, now⟩ := call
  cases request with
  | check key n =>
      have quota : quotaOf (limiter.label key) = limiter.quotaOfRef key := same key rfl
      simp only [call, checkRef_eq store (fits key rfl), checkStore, Call.rename, Request.rename, Store.call, quota,
        Answer.reply]
  | peek key =>
      have quota : quotaOf (limiter.label key) = limiter.quotaOfRef key := same key rfl
      simp only [call, peekRef_eq store (fits key rfl), Call.rename, Request.rename, Store.call, Store.peekRef, quota,
        Answer.reply]
      rfl
  | reset key => simp only [call, reset_eq store (fits key rfl), Call.rename, Request.rename, Store.call, Answer.reply]
  | remove key =>
      simp only [call, remove_eq store (fits key rfl), Call.rename, Request.rename, Store.call, Answer.reply]
  | clear => rfl
  | retainRecent => rfl
  | shrinkToFit => rfl

/-- What an over-long key is answered. -/
def refusal (request : Request KeyRef) : Reply :=
  match request with
  | .check _ _ => .decided (.deny durationMax)
  | .peek _ => .peeked .closed
  | _ => .found false

/-- An over-long key is refused before the store sees it. -/
theorem call_of_tooLong (call : Call KeyRef) (long : ¬ ∀ key ∈ call.request.key, limiter.Fits key) :
    limiter.call store call = (refusal call.request, store) := by
  obtain ⟨request, now⟩ := call
  simp only [not_forall, exists_prop] at long
  obtain ⟨key, asked, refused⟩ := long
  have admitted := not_fits_iff.1 refused
  cases request with
  | check key' n =>
      obtain rfl : key' = key := Option.some.inj asked
      cases limits : limiter.options.limitsLength with
      | false => cases (admit_of_unlimited limits key').symm.trans admitted
      | true =>
          simp only [call, checkRef, limits, checkWithPolicy, admitted]
          rfl
  | peek key' =>
      obtain rfl : key' = key := Option.some.inj asked
      simp only [call, peekRef, admitted, refusal]
  | reset key' =>
      obtain rfl : key' = key := Option.some.inj asked
      simp only [call, reset, admitted, refusal]
  | remove key' =>
      obtain rfl : key' = key := Option.some.inj asked
      simp only [call, remove, admitted, refusal]
  | clear => cases asked
  | retainRecent => cases asked
  | shrinkToFit => cases asked

theorem checkRef_of_tooLong {key : KeyRef} (long : ¬ limiter.Fits key) (n now : ℕ) :
    (limiter.checkRef store key n now).1 = .deny durationMax := by
  have refused := call_of_tooLong store ⟨.check key n, now⟩ fun all => long (all key rfl)
  exact Reply.decided.inj (congrArg Prod.fst refused)

end RateLimiter

/-!
### Calls on the keys in use
-/

theorem Call.rename_rename {M : Type} (f : K → L) (g : L → M) (call : Call K) :
    (call.rename f).rename g = call.rename fun key => g (f key) := by
  obtain ⟨request, now⟩ := call
  cases request <;> rfl

/-- A call about keys of a kind is a call on the keys of that kind. -/
theorem Call.exists_rename {P : K → Prop} (call : Call K) (all : ∀ key ∈ call.request.key, P key) :
    ∃ narrowed : Call { key // P key }, narrowed.rename Subtype.val = call := by
  obtain ⟨request, now⟩ := call
  cases request with
  | check key n => exact ⟨⟨.check ⟨key, all key rfl⟩ n, now⟩, rfl⟩
  | peek key => exact ⟨⟨.peek ⟨key, all key rfl⟩, now⟩, rfl⟩
  | reset key => exact ⟨⟨.reset ⟨key, all key rfl⟩, now⟩, rfl⟩
  | remove key => exact ⟨⟨.remove ⟨key, all key rfl⟩, now⟩, rfl⟩
  | clear => exact ⟨⟨.clear, now⟩, rfl⟩
  | retainRecent => exact ⟨⟨.retainRecent, now⟩, rfl⟩
  | shrinkToFit => exact ⟨⟨.shrinkToFit, now⟩, rfl⟩

theorem Request.key_rename (f : K → L) (request : Request K) :
    (request.rename f).key = request.key.map f := by
  cases request <;> rfl

namespace RateLimiter

variable [KeyState S] (limiter : RateLimiter) {P : KeyRef → Prop} {name : { key // P key } → KeyRef}

/-- On keys that have names of their own the limiter is a plain store of those keys. -/
theorem call_narrowed (fits : ∀ key, P key → limiter.Fits key) (named : ∀ key, limiter.label key.1 = name key)
    (injective : Function.Injective name) (store : Store (limiter.config.comap name) S)
    (call : Call { key // P key }) :
    limiter.call (store.rename name) (call.rename Subtype.val) =
      ((store.call limiter.algorithm (fun key => limiter.quotaOfRef key.1) call).1.reply,
        (store.call limiter.algorithm (fun key => limiter.quotaOfRef key.1) call).2.rename name) := by
  -- the quota of a call does not depend on the name its key is stored by
  let quota := call.request.key.elim limiter.quota fun key => limiter.quotaOfRef key.1
  have quotas : ∀ key ∈ call.request.key, quota = limiter.quotaOfRef key.1 := by
    intro key asked
    simp only [quota, Option.mem_def.1 asked, Option.elim_some]
  have renamed : (call.rename Subtype.val).rename limiter.label = call.rename name := by
    rw [Call.rename_rename]
    exact congrArg (call.rename ·) (funext named)
  have asked : ∀ key ∈ (call.rename Subtype.val).request.key, ∃ given ∈ call.request.key, given.1 = key := by
    intro key asked
    rw [show (call.rename Subtype.val).request.key = _ from Request.key_rename Subtype.val call.request] at asked
    exact Option.mem_map.1 asked
  rw [call_eq (store.rename name) (call.rename Subtype.val) fun _ => quota, renamed,
    Store.call_rename store injective limiter.algorithm _ _ call quotas, Answer.reply_rename]
  · intro key use
    obtain ⟨given, -, rfl⟩ := asked key use
    exact fits given.1 given.2
  · intro key use
    obtain ⟨given, member, rfl⟩ := asked key use
    exact quotas given member

/-!
### Digests
-/

/-- The limiter that keeps long keys as they are, hashing every key as its name is hashed. -/
def undigested : RateLimiter :=
  { limiter with
    options := { limiter.options with digestOver := none }
    digester := none
    hasher := fun key => limiter.hasher (limiter.label key) }

variable {limiter} in
theorem undigested_fits {key : KeyRef} : limiter.undigested.Fits key ↔ limiter.Fits key := by
  rw [fits_iff, fits_iff]
  rfl

theorem undigested_label (key : KeyRef) : limiter.undigested.label key = key := by
  rcases limiter.undigested.admit_cases key with ⟨-, admitted⟩ | ⟨-, ⟨admitted, -⟩ | ⟨_, _, digests, -⟩⟩
  · rw [label, admitted]
    rfl
  · rw [label, admitted]
    rfl
  · cases digests

end RateLimiter

/-- The keys calls are about. -/
def keysInUse (calls : List (Call K)) : List K := calls.filterMap fun call => call.request.key

theorem mem_keysInUse {calls : List (Call K)} {call : Call K} {key : K} (member : call ∈ calls)
    (asked : key ∈ call.request.key) : key ∈ keysInUse calls :=
  List.mem_filterMap.2 ⟨call, member, asked⟩

/-- No two of the keys calls are about, that the policy admits, have one name. -/
def RateLimiter.NamesApart (limiter : RateLimiter) (calls : List (Call KeyRef)) : Prop :=
  ∀ key ∈ keysInUse calls, ∀ key' ∈ keysInUse calls, limiter.Fits key → limiter.Fits key' →
    limiter.label key = limiter.label key' → key = key'

instance (limiter : RateLimiter) (calls : List (Call KeyRef)) : Decidable (limiter.NamesApart calls) :=
  List.decidableBAll _ _

/-- A key calls are about, that the policy admits. -/
abbrev RateLimiter.KeyInUse (limiter : RateLimiter) (calls : List (Call KeyRef)) : Type :=
  { key // key ∈ keysInUse calls ∧ limiter.Fits key }

/-- The name of a key in use. -/
def RateLimiter.nameInUse (limiter : RateLimiter) (calls : List (Call KeyRef)) (key : limiter.KeyInUse calls) :
    KeyRef := limiter.label key.1

theorem RateLimiter.NamesApart.injective {limiter : RateLimiter} {calls : List (Call KeyRef)}
    (apart : limiter.NamesApart calls) : Function.Injective (limiter.nameInUse calls) := fun a b same =>
  Subtype.ext (apart a.1 a.2.1 b.1 b.2.1 a.2.2 b.2.2 same)

/-- On the keys in use the limiter is a plain store of those keys. -/
theorem RateLimiter.NamesApart.call_eq [KeyState S] {limiter : RateLimiter} {calls : List (Call KeyRef)}
    (apart : limiter.NamesApart calls) (store : Store (limiter.config.comap (limiter.nameInUse calls)) S)
    (call : Call (limiter.KeyInUse calls)) :
    limiter.call (store.rename (limiter.nameInUse calls)) (call.rename Subtype.val) =
      ((store.call limiter.algorithm (fun key => limiter.quotaOfRef key.1) call).1.reply,
        (store.call limiter.algorithm (fun key => limiter.quotaOfRef key.1) call).2.rename
          (limiter.nameInUse calls)) :=
  limiter.call_narrowed (fun _ kept => kept.2) (fun _ => rfl) apart.injective store call

/-- A call of a run is on keys in use, or on an over-long key. -/
theorem RateLimiter.call_cases (limiter : RateLimiter) {calls : List (Call KeyRef)} {call : Call KeyRef}
    (member : call ∈ calls) :
    (∃ narrowed : Call (limiter.KeyInUse calls), narrowed.rename Subtype.val = call) ∨
      ¬ ∀ key ∈ call.request.key, limiter.Fits key := by
  by_cases fits : ∀ key ∈ call.request.key, limiter.Fits key
  · exact .inl (call.exists_rename fun key asked => ⟨mem_keysInUse member asked, fits key asked⟩)
  · exact .inr fits

/-- Whatever is called, a limiter that stores long keys by their digests answers as the limiter that stores
    them as they are, as long as no two keys in use that the policy admits have one name. -/
theorem digesting_is_invisible [KeyState S] (limiter : RateLimiter) (calls : List (Call KeyRef))
    (apart : limiter.NamesApart calls) :
    limiter.replies (Store.new : Store limiter.config S) calls =
      limiter.undigested.replies (Store.new : Store limiter.undigested.config S) calls := by
  -- both stores are renamings of one store of the keys themselves
  refine Runs.outputs_eq (fun (rest : List (Call KeyRef)) (stored : Store limiter.config S)
      (plain : Store limiter.undigested.config S) => (∀ call ∈ rest, call ∈ calls) ∧
    ∃ store : Store (limiter.config.comap (limiter.nameInUse calls)) S, stored = store.rename _ ∧
      plain = @Store.rename _ _ _ Subtype.val limiter.undigested.config store) ?_
    ⟨fun _ member => member, Store.new, rfl, rfl⟩
  rintro call rest _ _ ⟨used, store, rfl, rfl⟩
  have onward : ∀ call ∈ rest, call ∈ calls := fun _ member => used _ (List.mem_cons_of_mem _ member)
  rcases limiter.call_cases (used call List.mem_cons_self) with ⟨narrowed, rfl⟩ | long
  · have digested := apart.call_eq store narrowed
    have plain := limiter.undigested.call_narrowed (fun _ kept => RateLimiter.undigested_fits.2 kept.2)
      (fun key => limiter.undigested_label key.1) Subtype.val_injective store narrowed
    exact ⟨(congrArg Prod.fst digested).trans (congrArg Prod.fst plain).symm, onward, _,
      congrArg Prod.snd digested, congrArg Prod.snd plain⟩
  · have long' : ¬ ∀ key ∈ call.request.key, limiter.undigested.Fits key := by
      simpa only [RateLimiter.undigested_fits] using long
    have digested := RateLimiter.call_of_tooLong (store.rename (limiter.nameInUse calls)) call long
    have plain := RateLimiter.call_of_tooLong (@Store.rename _ _ _ Subtype.val limiter.undigested.config store)
      call long'
    exact ⟨(congrArg Prod.fst digested).trans (congrArg Prod.fst plain).symm, onward, store,
      congrArg Prod.snd digested, congrArg Prod.snd plain⟩

/-- Two long keys with digests of their own, and a short one. -/
theorem digesting_is_invisible_for_long_keys :
    let digester : Digester := ⟨fun key => .ofNat 64 key.bytes.length, fun _ => 0⟩
    let options : KeyOptions := ⟨some 3, some 1, none⟩
    let limiter := RateLimiter.build .fixedWindow unitPerNano 1 .unbounded options
      (fun key => key.bytes.length) digester
    let check (bytes : List AddressBits.Byte) : Call KeyRef := ⟨.check ⟨.raw, bytes⟩ 1, 0⟩
    let calls := [check [1], check [1, 2], check [1, 2, 3], check [1, 2], check [1, 2, 3, 4]]
    limiter.NamesApart calls ∧
      limiter.replies (Store.new : Store limiter.config FixedWindow) calls =
        [.decided .allow, .decided .allow, .decided .allow, .decided (.deny 1),
          .decided (.deny durationMax)] ∧
      limiter.replies (Store.new : Store limiter.config FixedWindow) calls =
        limiter.undigested.replies (Store.new : Store limiter.undigested.config FixedWindow) calls := by
  intro digester options limiter check calls
  have apart : limiter.NamesApart calls := by decide
  exact ⟨apart, by decide +kernel, digesting_is_invisible limiter calls apart⟩

/-!
### What is kept of the keys
-/

namespace RateLimiter

variable [KeyState S] [LawfulKeyState S] {limiter : RateLimiter}

/-- A key under which something may be stored. -/
def IsName (limiter : RateLimiter) (name : KeyRef) : Prop := ∃ key, limiter.Fits key ∧ limiter.label key = name

/-- In every run the shards are in order and every key kept is a name the policy gave. -/
theorem run_names (limiter : RateLimiter) (calls : List (Call KeyRef)) :
    (∀ i, Consistent limiter.config i (limiter.run (Store.new : Store limiter.config S) calls i)) ∧
      ∃ store : Store (limiter.config.comap (Subtype.val : { name // limiter.IsName name } → KeyRef)) S,
        limiter.run Store.new calls = store.rename Subtype.val := by
  induction calls using List.reverseRecOn with
  | nil => exact ⟨fun _ => .new, Store.new, rfl⟩
  | append_singleton calls call inductionHypothesis =>
      obtain ⟨consistent, store, named⟩ := inductionHypothesis
      rw [run, List.foldl_append]
      change (∀ i, Consistent limiter.config i ((limiter.call (limiter.run Store.new calls) call).2 i)) ∧
        ∃ store : Store (limiter.config.comap (Subtype.val : { name // limiter.IsName name } → KeyRef)) S,
          (limiter.call (limiter.run Store.new calls) call).2 = store.rename Subtype.val
      by_cases fits : ∀ key ∈ call.request.key, limiter.Fits key
      · let quota := call.request.key.elim limiter.quota limiter.quotaOfRef
        have quotas : ∀ key ∈ call.request.key, quota = limiter.quotaOfRef key := by
          intro key asked
          simp only [quota, Option.mem_def.1 asked, Option.elim_some]
        have names : ∀ name ∈ (call.rename limiter.label).request.key, limiter.IsName name := by
          intro name asked
          rw [show (call.rename limiter.label).request.key = _ from
            Request.key_rename limiter.label call.request] at asked
          obtain ⟨key, given, rfl⟩ := Option.mem_map.1 asked
          exact ⟨key, fits key given, rfl⟩
        rw [call_eq _ call (fun _ => quota) fits quotas]
        constructor
        · intro i
          exact (call_shardRun consistent limiter.algorithm (call.rename limiter.label) i).consistent (consistent i)
        · obtain ⟨narrowed, renamed⟩ := (call.rename limiter.label).exists_rename names
          rw [named, ← renamed, Store.call_rename store Subtype.val_injective limiter.algorithm (fun _ => quota)
            (fun _ => quota) narrowed fun _ _ => rfl]
          exact ⟨_, rfl⟩
      · rw [call_of_tooLong _ call fits]
        exact ⟨consistent, store, named⟩

/-- A name is no longer than the policy's length, or it is a digest of sixteen bytes. -/
theorem IsName.length_le {longest : ℕ} {name : KeyRef}
    (policy : limiter.options.maxKeyLen = some longest ∨
      limiter.digester.isSome = true ∧ limiter.options.digestOver = some longest)
    (isName : limiter.IsName name) : name.bytes.length ≤ max longest 16 := by
  obtain ⟨key, fits, rfl⟩ := isName
  rcases limiter.admit_cases key with ⟨-, admitted⟩ | ⟨short, ⟨admitted, kept⟩ | ⟨digester, _, -, -, -, admitted⟩⟩
  · exact absurd fits (not_fits_iff.2 admitted)
  · rw [label, admitted]
    refine le_trans ?_ (le_max_left _ _)
    rcases policy with limited | ⟨digests, over_⟩
    · rw [limited, Option.any_some, decide_eq_false_iff_not, Nat.not_lt] at short
      exact short
    · obtain ⟨digester, made⟩ := Option.isSome_iff_exists.1 digests
      exact kept digester longest made over_
  · rw [label, admitted]
    refine le_trans (le_of_eq ?_) (le_max_right _ _)
    show (digester.digest key).length = 16
    rw [Digester.digest, List.length_append, AddressBits.length_beBytes, AddressBits.length_beBytes]

/-- The calls that name no over-long key. -/
def admittedCalls (limiter : RateLimiter) (calls : List (Call KeyRef)) : List (Call KeyRef) :=
  calls.filter fun call => call.request.key.all (limiter.Fits ·)

omit [LawfulKeyState S] in
/-- A run leaves the store the run of its admitted calls leaves. -/
theorem run_admittedCalls (store : Store limiter.config S) (calls : List (Call KeyRef)) :
    limiter.run store calls = limiter.run store (limiter.admittedCalls calls) := by
  induction calls generalizing store with
  | nil => rfl
  | cons call calls inductionHypothesis =>
      rw [run, List.foldl_cons]
      refine (inductionHypothesis _).trans ?_
      rw [admittedCalls, admittedCalls, List.filter_cons]
      split_ifs with fits
      · rfl
      · rw [Option.all_eq_true] at fits
        rw [call_of_tooLong store call fun all => fits fun key asked => decide_eq_true (all key asked)]

end RateLimiter

/-- With a key-length policy, whatever keys are sent, the shards together keep no more bytes of keys than
    their caps of keys of the policy's length (or of a digest's, where that is longer); and a run leaves the
    store that it leaves without its over-long keys. -/
theorem stored_key_bytes_bounded [KeyState S] [LawfulKeyState S] (algorithm : Algorithm) (quota : Quota)
    (shards : ℕ) (eviction : Eviction) (options : KeyOptions) (hasher : KeyRef → ℕ) (digester : Digester)
    {longest : ℕ} (policy : options.maxKeyLen = some longest ∨ options.digestOver = some longest)
    (calls : List (Call KeyRef)) :
    let limiter := RateLimiter.build algorithm quota shards eviction options hasher digester
    let store := limiter.run (Store.new : Store limiter.config S) calls
    ∑ i, ((store i).slots.map fun slot => slot.key.bytes.length).sum ≤
        limiter.config.shardCount * (limiter.config.perShardCap * max longest 16) ∧
      store = limiter.run Store.new (limiter.admittedCalls calls) := by
  intro limiter store
  refine ⟨?_, limiter.run_admittedCalls Store.new calls⟩
  obtain ⟨consistent, names, named⟩ := limiter.run_names (S := S) calls
  have policy' : limiter.options.maxKeyLen = some longest ∨
      limiter.digester.isSome = true ∧ limiter.options.digestOver = some longest := by
    refine policy.imp_right fun digests => ⟨?_, digests⟩
    show (options.digestOver.map fun _ => digester).isSome = true
    rw [show options.digestOver = some longest from digests]
    rfl
  have shard : ∀ i, ((store i).slots.map fun slot => slot.key.bytes.length).sum ≤
      limiter.config.perShardCap * max longest 16 := by
    intro i
    have each : ∀ length ∈ (store i).slots.map fun slot => slot.key.bytes.length, length ≤ max longest 16 := by
      intro length member
      obtain ⟨slot, there, rfl⟩ := List.mem_map.1 member
      rw [show store i = (names i).rename Subtype.val from congrFun named i] at there
      obtain ⟨kept, -, rfl⟩ := List.mem_map.1 there
      exact kept.key.2.length_le policy'
    calc ((store i).slots.map fun slot => slot.key.bytes.length).sum
        ≤ ((store i).slots.map fun slot => slot.key.bytes.length).length • max longest 16 :=
          List.sum_le_card_nsmul _ _ each
      _ = (store i).slots.length * max longest 16 := by rw [List.length_map, smul_eq_mul]
      _ ≤ limiter.config.perShardCap * max longest 16 := Nat.mul_le_mul_right _ (consistent i).within
  calc ∑ i, ((store i).slots.map fun slot => slot.key.bytes.length).sum
      ≤ Finset.univ.card • (limiter.config.perShardCap * max longest 16) :=
        Finset.sum_le_card_nsmul _ _ _ fun i _ => shard i
    _ = limiter.config.shardCount * (limiter.config.perShardCap * max longest 16) := by
        rw [Finset.card_univ, Fintype.card_fin, smul_eq_mul]

/-- A flood of keys longer than the policy's length leaves one digest in the one shard. -/
theorem stored_key_bytes_bounded_for_long_keys :
    let options : KeyOptions := ⟨some 30, some 1, none⟩
    let limiter := RateLimiter.build .fixedWindow unitPerNano 1 ⟨some 1, none, .failClosed⟩ options
      (fun _ => 0) ⟨fun _ => 0, fun _ => 0⟩
    let check (length : ℕ) : Call KeyRef := ⟨.check ⟨.raw, List.replicate length 7⟩ 1, 0⟩
    let store := limiter.run (Store.new : Store limiter.config FixedWindow) [check 20, check 31, check 25]
    (∑ i, ((store i).slots.map fun slot => slot.key.bytes.length).sum = 16) ∧
      ∑ i, ((store i).slots.map fun slot => slot.key.bytes.length).sum ≤
        limiter.config.shardCount * (limiter.config.perShardCap * max 1 16) := by
  intro options limiter check store
  exact ⟨by decide +kernel, (stored_key_bytes_bounded _ _ _ _ options _ _ (.inr rfl) _).1⟩

/-!
### Overrides that do not validate
-/

section Shut

variable [DecidableEq K] [KeyState S] [LawfulKeyState S] {config : StoreConfig K} {quotaOf : K → Quota}
  {store : Store config S} {key : K}

/-- The shards are in order, and none of them holds `key`. -/
def Unstored (key : K) (store : Store config S) : Prop :=
  ∀ i, Consistent config i (store i) ∧ ∀ slot ∈ (store i).slots, slot.key ≠ key

omit [DecidableEq K] [KeyState S] [LawfulKeyState S] in
theorem Unstored.new (key : K) : Unstored key (Store.new : Store config S) :=
  fun _ => ⟨.new, fun _ member => by cases member⟩

omit [DecidableEq K] in
/-- A key whose quota admits nothing is nowhere stored. -/
theorem InGoodOrder.unstored (good : InGoodOrder quotaOf store)
    (shut : admitsAnything (LawfulKeyState.algorithm S) (quotaOf key) = false) : Unstored key store := by
  refine fun i => ⟨(good i).1, fun slot member same => ?_⟩
  have admitted := (good i).2 slot member
  rw [same, shut] at admitted
  cases admitted

/-- No call stores a key whose quota in that call admits nothing. -/
theorem Unstored.call (unstored : Unstored key store)
    (shut : admitsAnything (LawfulKeyState.algorithm S) (quotaOf key) = false) (algorithm : Algorithm)
    (call : Call K) : Unstored key (store.call algorithm quotaOf call).2 := by
  intro i
  have run : ShardRun config quotaOf i call.now (store i) _ _ :=
    call_shardRun (fun i => (unstored i).1) algorithm call i
  refine run.keeps (fun map => Consistent config i map ∧ ∀ slot ∈ map.slots, slot.key ≠ key)
    (fun step both => ⟨step.consistent both.1, step.keeps_keys (P := (· ≠ key)) both.1 ?_ both.2⟩) (unstored i)
  rintro _ state made rfl
  rw [create_of_shut shut] at made
  cases made

omit [KeyState S] [LawfulKeyState S] in
theorem Unstored.position (unstored : Unstored key store) :
    (store (config.shardFor key)).position (config.hasher key) key = none := by
  cases found : (store (config.shardFor key)).position (config.hasher key) key with
  | none => rfl
  | some pos =>
      obtain ⟨slot, held, same⟩ := (unstored _).1.position_iff.1 found
      exact absurd same ((unstored _).2 slot (List.mem_of_getElem? held))

/-- It is refused whatever it asks for, and shows an allowance that never comes. -/
theorem Unstored.check_shut (unstored : Unstored key store)
    (shut : admitsAnything (LawfulKeyState.algorithm S) (quotaOf key) = false) (n now : ℕ) :
    (store.check key n now (KeyState.create (quotaOf key))).1.decision = closed n := by
  have missed : ((store (config.shardFor key)).acquireStored config key n now) =
      (none, store (config.shardFor key)) := by
    rw [ShardMap.acquireStored, unstored.position]
  simp only [Store.check, missed, create_of_shut shut]
  rfl

theorem Unstored.peek_shut (unstored : Unstored key store)
    (shut : admitsAnything (LawfulKeyState.algorithm S) (quotaOf key) = false) (now : ℕ) :
    (store.peekRef (LawfulKeyState.algorithm S) quotaOf key now).1 = .closed := by
  have fresh : freshSnapshot (LawfulKeyState.algorithm S) (quotaOf key) = .closed := by
    have nothing : ¬ 0 < (freshSnapshot (LawfulKeyState.algorithm S) (quotaOf key)).limit :=
      of_decide_eq_false shut
    rw [freshSnapshot_eq] at nothing ⊢
    split_ifs with zero empty
    · rfl
    · rfl
    · rw [if_neg zero, if_neg empty] at nothing
      exact absurd (Nat.pos_of_ne_zero empty) nothing
  simp only [Store.peekRef, Store.peek, peekSection_absent unstored.position]
  cases (store (config.shardFor key)).recovery.peek (config.hasher key) (millis now) with
  | none => exact fresh
  | some charge =>
      show owedSnapshot S charge.debt (quotaOf key) now = .closed
      rw [owedSnapshot, create_of_shut shut]
      rfl

end Shut

/-- `reply` grants `key` nothing. -/
def GrantsNothing (key : KeyRef) (call : Call KeyRef) (reply : Reply) : Prop :=
  (∀ n, call.request = .check key n → 0 < n → reply = .decided (.deny durationMax)) ∧
    (call.request = .peek key → reply = .peeked .closed)

/-- If the policy admits `key`, no other admitted key that calls are about has its name. -/
def RateLimiter.OwnsName (limiter : RateLimiter) (key : KeyRef) (calls : List (Call KeyRef)) : Prop :=
  ∀ key' ∈ keysInUse calls, limiter.Fits key → limiter.Fits key' → limiter.label key' = limiter.label key →
    key' = key

instance (limiter : RateLimiter) (key : KeyRef) (calls : List (Call KeyRef)) :
    Decidable (limiter.OwnsName key calls) := List.decidableBAll _ _

theorem RateLimiter.refusal_grantsNothing (key : KeyRef) (call : Call KeyRef) :
    GrantsNothing key call (refusal call.request) := by
  refine ⟨fun n asked _ => ?_, fun asked => ?_⟩ <;> rw [asked] <;> rfl

section Shut

variable [KeyState S] [LawfulKeyState S] {limiter : RateLimiter} {key : KeyRef}

omit [LawfulKeyState S] in
/-- An over-long key is granted nothing. -/
theorem RateLimiter.call_grantsNothing (long : ¬ limiter.Fits key) (store : Store limiter.config S)
    (call : Call KeyRef) : GrantsNothing key call (limiter.call store call).1 := by
  by_cases about : key ∈ call.request.key
  · rw [RateLimiter.call_of_tooLong store call fun all => long (all key about)]
    exact RateLimiter.refusal_grantsNothing key call
  · refine ⟨fun n asked _ => absurd ?_ about, fun asked => absurd ?_ about⟩ <;> rw [asked] <;> rfl

/-- A call under the name of a key that is nowhere stored, and whose quota admits nothing. -/
theorem Unstored.reply_grantsNothing {store : Store limiter.config S} (unstored : Unstored (limiter.label key) store)
    (runs : limiter.algorithm = LawfulKeyState.algorithm S) {quotaOf : KeyRef → Quota}
    (shut : admitsAnything (LawfulKeyState.algorithm S) (quotaOf (limiter.label key)) = false) (call : Call KeyRef) :
    GrantsNothing key call (store.call limiter.algorithm quotaOf (call.rename limiter.label)).1.reply := by
  obtain ⟨request, now⟩ := call
  constructor
  · rintro n ⟨⟩ positive
    show Reply.decided (store.check (limiter.label key) n now (KeyState.create _)).1.decision = _
    rw [unstored.check_shut shut, closed, if_neg positive.ne']
  · rintro ⟨⟩
    have shown := unstored.peek_shut shut now
    rw [← runs] at shown
    exact congrArg Reply.peeked shown

/-- A key whose override does not validate is refused in every run: whatever else is called, none of its
    checks is granted a unit and every look at it shows a limit that admits nothing. -/
theorem invalid_override_fails_closed (limiter : RateLimiter)
    (runs : limiter.algorithm = LawfulKeyState.algorithm S) (calls : List (Call KeyRef)) {key : KeyRef}
    (owns : limiter.OwnsName key calls) {resolve : Key → Option Quota} {quota : Quota} {error : ConfigError}
    (resolver : limiter.options.quotaFor = some resolve)
    (override : resolve key.toKey = some quota) (invalid : limiter.algorithm.validate quota = .error error) :
    ∀ answered ∈ calls.zip (limiter.replies (Store.new : Store limiter.config S) calls),
      GrantsNothing key answered.1 answered.2 := by
  have shut : admitsAnything (LawfulKeyState.algorithm S) (limiter.quotaOfRef key) = false := by
    simp only [RateLimiter.quotaOfRef, resolver, override, invalid]
    rfl
  by_cases admitted : limiter.Fits key
  case neg =>
    refine Runs.answered (fun _ => True) (GrantsNothing key) ?_ trivial
    exact fun {store call} _ _ => ⟨RateLimiter.call_grantsNothing admitted store call, trivial⟩
  refine Runs.answered (fun store : Store limiter.config S => Unstored (limiter.label key) store)
    (GrantsNothing key) ?_ (.new _)
  intro store call member unstored
  by_cases fits : ∀ key ∈ call.request.key, limiter.Fits key
  · -- the name of the key has its quota, and the name of any other key of the call the quota of that one
    let quotaOf (name : KeyRef) : Quota :=
      if name = limiter.label key then limiter.quotaOfRef key
      else call.request.key.elim limiter.quota limiter.quotaOfRef
    have quotas : ∀ key' ∈ call.request.key, quotaOf (limiter.label key') = limiter.quotaOfRef key' := by
      intro key' asked
      by_cases same : limiter.label key' = limiter.label key
      · rw [owns key' (mem_keysInUse member asked) admitted (fits key' asked) same]
        exact if_pos rfl
      · refine (if_neg same).trans ?_
        rw [Option.mem_def.1 asked, Option.elim_some]
    have shut' : admitsAnything (LawfulKeyState.algorithm S) (quotaOf (limiter.label key)) = false := by
      rw [show quotaOf (limiter.label key) = limiter.quotaOfRef key from if_pos rfl]
      exact shut
    rw [RateLimiter.call_eq store call quotaOf fits quotas]
    exact ⟨unstored.reply_grantsNothing runs shut' call, unstored.call shut' limiter.algorithm _⟩
  · rw [RateLimiter.call_of_tooLong store call fits]
    exact ⟨RateLimiter.refusal_grantsNothing key call, unstored⟩

end Shut

/-- One key is given an override with a period of zero. -/
theorem invalid_override_fails_closed_for_zero_period :
    let resolve (key : Key) : Option Quota :=
      if key.asBytes = [1] then some { unitPerNano with period := 0, period_le := Nat.zero_le _ } else none
    let limiter := RateLimiter.build .fixedWindow unitPerNano 1 .unbounded ⟨none, none, some resolve⟩
      (fun _ => 0) ⟨fun _ => 0, fun _ => 0⟩
    let key : KeyRef := ⟨.raw, [1]⟩
    let calls : List (Call KeyRef) := [⟨.check key 1, 0⟩, ⟨.check ⟨.raw, [2]⟩ 1, 0⟩, ⟨.peek key, 0⟩]
    limiter.replies (Store.new : Store limiter.config FixedWindow) calls =
        [.decided (.deny durationMax), .decided .allow, .peeked .closed] ∧
      ∀ answered ∈ calls.zip (limiter.replies (Store.new : Store limiter.config FixedWindow) calls),
        GrantsNothing key answered.1 answered.2 := by
  intro resolve limiter key calls
  have owns : limiter.OwnsName key calls := by decide
  exact ⟨by decide +kernel, invalid_override_fails_closed limiter rfl calls owns rfl rfl rfl⟩

end RateNet
