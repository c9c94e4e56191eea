/-
Module: RateNet.Proofs.UnboundedStore
Purpose: A store that never has to make room. Its purpose is a map from keys to standalone states, each
  made at its key's first check: `Reference` is that map, without shards, slots, hints or a recovery
  table. While no shard is full and nothing expires, no key is evicted and the recovery tables stay
  blank, so a check acquires from the key's own state or stores a fresh one. The store then simulates
  the map, up to a relation between what it holds of a key and the key's standalone state.
Trusted boundary: none
Main exports: Reference, Reference.check, Reference.peek, Reference.after, makeRoom_roomy, firstState,
  firstState_eq, newcomer, check_newcomer, Store.states, Mirroring, Mirrors, Mirrors.check
-/
import RateNet.Proofs.ShardSteps

namespace RateNet

/-- One standalone state per key seen. -/
abbrev Reference (K S : Type) := K → Option S

namespace Reference

variable {K S : Type} [DecidableEq K] [KeyState S]

/-- A check of `n` units against the key's own state, made at its first check. -/
def check (quotaOf : K → Quota) (ref : Reference K S) (key : K) (n now : ℕ) : Decision × Reference K S :=
  match (ref key).or (KeyState.create (quotaOf key) now) with
  | none => (closed n, ref)
  | some state =>
    let (decision, state) := KeyState.acquire state n now
    (decision, Function.update ref key (some state))

omit [DecidableEq K] in
/-- What a key reports; a key not seen has its whole allowance. -/
def peek (algorithm : Algorithm) (quotaOf : K → Quota) (ref : Reference K S) (key : K) (now : ℕ) :
    Snapshot :=
  (ref key).elim (freshSnapshot algorithm (quotaOf key)) fun state => (KeyState.peek state now).1

/-- Only checks change a standalone state. -/
def call (quotaOf : K → Quota) (ref : Reference K S) (call : Call K) : Reference K S :=
  match call.request with
  | .check key n => (ref.check quotaOf key n call.now).2
  | _ => ref

def after (quotaOf : K → Quota) (ref : Reference K S) (calls : List (Call K)) : Reference K S :=
  calls.foldl (call quotaOf) ref

def new : Reference K S := fun _ => none

theorem after_snoc (quotaOf : K → Quota) (ref : Reference K S) (calls : List (Call K)) (last : Call K) :
    ref.after quotaOf (calls ++ [last]) = (ref.after quotaOf calls).call quotaOf last := by
  rw [after, List.foldl_append]
  rfl

theorem check_of_some {quotaOf : K → Quota} {ref : Reference K S} {key : K} {state : S} {now : ℕ}
    (found : (ref key).or (KeyState.create (quotaOf key) now) = some state) (n : ℕ) :
    ref.check quotaOf key n now = ((KeyState.acquire state n now).1,
      Function.update ref key (some (KeyState.acquire state n now).2)) := by
  rw [check, found]

end Reference

section Calls

variable {K S : Type} [DecidableEq K] [KeyState S] {config : StoreConfig K} {quotaOf : K → Quota}
  {key : K} {n now : ℕ}

omit [DecidableEq K] in
/-- A shard that is not full, in a store without an idle limit, has room as it is. -/
theorem makeRoom_roomy {map : ShardMap K S} (unlimited : config.idleTtlMs = none)
    (room : map.slots.length < config.perShardCap) (now nowMs : ℕ) :
    map.makeRoom config now nowMs = (.ok (), map, .zero) := by
  rw [ShardMap.makeRoom, unlimited]
  exact if_neg (Nat.not_le.2 room)

theorem acquireStored_absent {i : Fin config.shardCount} {map : ShardMap K S}
    (consistent : Consistent config i map) (absent : ∀ slot ∈ map.slots, slot.key ≠ key) (n now : ℕ) :
    (map.acquireStored config key n now).1 = none := by
  by_contra found
  obtain ⟨decision, hit⟩ := Option.ne_none_iff_exists'.1 found
  obtain ⟨pos, slot, -, held, own, -⟩ := acquireStored_some consistent hit
  exact absent slot (List.mem_of_getElem? held) own

omit [DecidableEq K] in
/-- What the first check of a key leaves of its fresh state, once its recovery hint has been read off. -/
def firstState (state : S) (n now : ℕ) : S :=
  (firstHint (KeyState.acquire state n now).2 true n (KeyState.acquire state n now).1 now (millis now)).2

/-- A state the boundary leaves as it is is stored as the check left it, or read once more at the check. -/
theorem firstState_eq [LawfulKeyState S] {state : S}
    (still : n = 0 ∨ (KeyState.acquire state n now).1.isDeny = true ∨
      (KeyState.peek (KeyState.acquire state n now).2 (fromMillis (satAdd (millis now) 1))).2 =
        (KeyState.acquire state n now).2) :
    firstState state n now = (KeyState.acquire state n now).2 ∨
      firstState state n now = (KeyState.peek (KeyState.acquire state n now).2 now).2 := by
  unfold firstState firstHint
  generalize KeyState.acquire state n now = acquired at still ⊢
  split
  · exact Or.inl rfl
  · rename_i spent
    rw [Bool.true_and, Bool.or_eq_true, beq_iff_eq, not_or] at spent
    have same := (still.resolve_left spent.1).resolve_left spent.2
    have state := LawfulKeyState.isFull_snd acquired.2 (fromMillis (satAdd (millis now) 1))
    rw [same] at state
    dsimp only
    rw [if_pos rfl]
    generalize KeyState.isFull acquired.2 (fromMillis (satAdd (millis now) 1)) = read at state ⊢
    obtain ⟨full, left⟩ := read
    obtain rfl : left = acquired.2 := state
    cases full with
    | true => exact Or.inl rfl
    | false =>
        right
        exact RateNet.recoversAt_snd acquired.2 now

/-- The slot a key is given when no debt is recorded for it. -/
def newcomer (config : StoreConfig K) (key : K) (n now : ℕ) (state : S) : Slot K S :=
  let (decision, state) := KeyState.acquire state n now
  let (hint, state) := firstHint state true n decision now (millis now)
  Slot.new (config.hasher key) key state false hint (millis now)

omit [DecidableEq K] in
theorem store_blank {map : ShardMap K S} (blank : map.recovery = .new) (key : K) (n now : ℕ) (state : S) :
    map.store config key n now state =
      (((KeyState.acquire state n now).1, false), map.insert (newcomer config key n now state)) := by
  obtain ⟨index, slots, hand, sweep, recovery⟩ := map
  obtain rfl : recovery = .new := blank
  rfl

/-- A check of an absent key that there is room for stores it. -/
theorem check_newcomer {store : Store config S} {state : S} (unlimited : config.idleTtlMs = none)
    (missed : ((store (config.shardFor key)).acquireStored config key n now).1 = none)
    (room : (store (config.shardFor key)).slots.length < config.perShardCap)
    (blank : (store (config.shardFor key)).recovery = .new)
    (made : KeyState.create (quotaOf key) now = some state) :
    (store.check key n now (KeyState.create (quotaOf key))).1.decision =
        (KeyState.acquire state n now).1 ∧
      (store.check key n now (KeyState.create (quotaOf key))).2 =
        Function.update store (config.shardFor key)
          ((store (config.shardFor key)).insert (newcomer config key n now state)) := by
  rw [Store.check]
  cases read : (store (config.shardFor key)).acquireStored config key n now with
  | mk found map =>
      rw [read] at missed
      obtain rfl : found = none := missed
      simp only [made, ShardMap.checkWrite, read, makeRoom_roomy unlimited room, store_blank blank, and_self]

/-- A check of an absent key whose quota admits nothing. -/
theorem check_closed {store : Store config S}
    (missed : ((store (config.shardFor key)).acquireStored config key n now).1 = none)
    (refused : (KeyState.create (quotaOf key) now : Option S) = none) :
    store.check key n now (KeyState.create (quotaOf key)) = (.plain (closed n), store) := by
  rw [Store.check]
  cases read : (store (config.shardFor key)).acquireStored config key n now with
  | mk found map =>
      rw [read] at missed
      obtain rfl : found = none := missed
      simp only [refused]

end Calls

/-!
### What the store holds of its keys
-/

section States

variable {K S : Type} [DecidableEq K] {config : StoreConfig K} {store : Store config S} {key : K}

/-- The states a store holds, by key. -/
def Store.states (store : Store config S) : Reference K S := fun key =>
  ((store (config.shardFor key)).get (config.hasher key) key).map Slot.state

theorem Store.states_eq_some
    (consistent : Consistent config (config.shardFor key) (store (config.shardFor key))) {state : S} :
    store.states key = some state ↔
      ∃ slot ∈ (store (config.shardFor key)).slots, slot.key = key ∧ slot.state = state := by
  rw [Store.states, Option.map_eq_some_iff]
  constructor
  · rintro ⟨slot, found, same⟩
    obtain ⟨member, own⟩ := consistent.get_iff.1 found
    exact ⟨slot, member, own, same⟩
  · rintro ⟨slot, member, own, same⟩
    exact ⟨slot, consistent.get_iff.2 ⟨member, own⟩, same⟩

theorem Store.states_eq_none
    (consistent : Consistent config (config.shardFor key) (store (config.shardFor key))) :
    store.states key = none ↔ ∀ slot ∈ (store (config.shardFor key)).slots, slot.key ≠ key := by
  rw [Option.eq_none_iff_forall_ne_some]
  constructor
  · intro absent slot member own
    exact absent slot.state ((states_eq_some consistent).2 ⟨slot, member, own, rfl⟩)
  · intro absent state held
    obtain ⟨slot, member, own, -⟩ := (states_eq_some consistent).1 held
    exact absent slot member own

/-- A shard written for one key holds what it held of the others. -/
theorem Store.states_update {map : ShardMap K S} {slot : Slot K S}
    (before : ∀ i, Consistent config i (store i)) (after : Consistent config (config.shardFor key) map)
    (others : ∀ found : Slot K S, found.key ≠ key →
      (found ∈ map.slots ↔ found ∈ (store (config.shardFor key)).slots))
    (written : slot ∈ map.slots) (own : slot.key = key) :
    Store.states (Function.update store (config.shardFor key) map) =
      Function.update store.states key (some slot.state) := by
  funext key'
  by_cases same : key' = key
  · subst same
    have here : Consistent config (config.shardFor key')
        (Function.update store (config.shardFor key') map (config.shardFor key')) := by
      rw [Function.update_self]
      exact after
    rw [Function.update_self, states_eq_some here, Function.update_self]
    exact ⟨slot, written, own, rfl⟩
  · rw [Function.update_of_ne same]
    by_cases shared : config.shardFor key' = config.shardFor key
    · rw [← shared] at after others ⊢
      have here : Consistent config (config.shardFor key')
          (Function.update store (config.shardFor key') map (config.shardFor key')) := by
        rw [Function.update_self]
        exact after
      ext state
      rw [states_eq_some here, states_eq_some (before _), Function.update_self]
      constructor
      · rintro ⟨found, member, rfl, rfl⟩
        exact ⟨found, (others found same).1 member, rfl, rfl⟩
      · rintro ⟨found, member, rfl, rfl⟩
        exact ⟨found, (others found same).2 member, rfl, rfl⟩
    · rw [Store.states, Store.states, Function.update_of_ne shared]

end States

/-!
### The simulation
-/

/-- `Rel` relates what a store that never makes room may hold of a key to the key's standalone state: the two
    decide alike, and stay related as time passes and as the key is checked.  `Good` is what a check that
    stores its key has to meet. -/
structure Mirroring {S : Type} [KeyState S] (Good : Quota → ℕ → ℕ → Prop)
    (Rel : Quota → ℕ → Option S → Option S → Prop) : Prop where
  unseen : ∀ quota now, Rel quota now none none
  later : ∀ {quota now later held own}, now ≤ later → Rel quota now held own → Rel quota later held own
  refused : ∀ {quota now own}, Rel quota now none own → (KeyState.create quota now : Option S) = none →
    own = none
  stored : ∀ {quota now own} {state : S} (n), Rel quota now (some state) own →
    ∃ state', own = some state' ∧ (KeyState.acquire state n now).1 = (KeyState.acquire state' n now).1 ∧
      Rel quota now (some (KeyState.acquire state n now).2) (some (KeyState.acquire state' n now).2)
  admitted : ∀ {quota now n own} {state : S}, Rel quota now none own → KeyState.create quota now = some state →
    Good quota n now →
    (KeyState.acquire state n now).1 = (KeyState.acquire (own.getD state) n now).1 ∧
      Rel quota now (some (firstState state n now)) (some (KeyState.acquire (own.getD state) n now).2)

section Simulation

variable {K S : Type} [DecidableEq K] [KeyState S] {config : StoreConfig K} {quotaOf : K → Quota}
  {Good : Quota → ℕ → ℕ → Prop} {Rel : Quota → ℕ → Option S → Option S → Prop} {now later : ℕ}
  {store : Store config S} {ref : Reference K S}

/-- The store's shards are in order and have recorded no debt, and what it holds of each key mirrors the key's
    standalone state. -/
structure Mirrors (Rel : Quota → ℕ → Option S → Option S → Prop) (quotaOf : K → Quota) (now : ℕ)
    (store : Store config S) (ref : Reference K S) : Prop where
  consistent : ∀ i, Consistent config i (store i)
  blank : ∀ i, (store i).recovery = .new
  alike : ∀ key, Rel (quotaOf key) now (store.states key) (ref key)

namespace Mirrors

theorem new (mirroring : Mirroring Good Rel) (quotaOf : K → Quota) :
    Mirrors Rel quotaOf 0 (Store.new : Store config S) Reference.new where
  consistent _ := .new
  blank _ := rfl
  alike key := mirroring.unseen (quotaOf key) 0

theorem of_le (mirroring : Mirroring Good Rel) (mirrors : Mirrors Rel quotaOf now store ref) (order : now ≤ later) :
    Mirrors Rel quotaOf later store ref :=
  { mirrors with alike := fun key => mirroring.later order (mirrors.alike key) }

omit [KeyState S] in
/-- A shard written for one key, whose standalone state has moved along. -/
theorem write (mirrors : Mirrors Rel quotaOf now store ref) {key : K} {map : ShardMap K S}
    {slot : Slot K S} {state : S} (after : Consistent config (config.shardFor key) map)
    (blank : map.recovery = .new)
    (others : ∀ found : Slot K S, found.key ≠ key →
      (found ∈ map.slots ↔ found ∈ (store (config.shardFor key)).slots))
    (written : slot ∈ map.slots) (own : slot.key = key)
    (related : Rel (quotaOf key) now (some slot.state) (some state)) :
    Mirrors Rel quotaOf now (Function.update store (config.shardFor key) map)
      (Function.update ref key (some state)) where
  consistent := by
    intro i
    by_cases here : i = config.shardFor key
    · subst here
      rw [Function.update_self]
      exact after
    · rw [Function.update_of_ne here]
      exact mirrors.consistent i
  blank := by
    intro i
    by_cases here : i = config.shardFor key
    · subst here
      rw [Function.update_self]
      exact blank
    · rw [Function.update_of_ne here]
      exact mirrors.blank i
  alike := by
    intro key'
    rw [Store.states_update mirrors.consistent after others written own]
    by_cases same : key' = key
    · subst same
      rw [Function.update_self, Function.update_self]
      exact related
    · rw [Function.update_of_ne same, Function.update_of_ne same]
      exact mirrors.alike key'

/-- A check of a key the store holds. -/
theorem check_held (mirroring : Mirroring Good Rel) (mirrors : Mirrors Rel quotaOf now store ref) {key : K}
    {slot : Slot K S} (member : slot ∈ (store (config.shardFor key)).slots) (own : slot.key = key) (n : ℕ) :
    (store.check key n now (KeyState.create (quotaOf key))).1.decision = (ref.check quotaOf key n now).1 ∧
      Mirrors Rel quotaOf now (store.check key n now (KeyState.create (quotaOf key))).2
        (ref.check quotaOf key n now).2 := by
  have consistent := mirrors.consistent (config.shardFor key)
  obtain ⟨pos, held⟩ := List.getElem?_of_mem member
  obtain ⟨slot', hash, same, state, checked⟩ :=
    check_stored consistent held own n now (KeyState.create (quotaOf key))
  have alike := mirrors.alike key
  rw [(Store.states_eq_some consistent).2 ⟨slot, member, own, rfl⟩] at alike
  obtain ⟨state', standalone, decision, related⟩ := mirroring.stored n alike
  have found : (ref key).or (KeyState.create (quotaOf key) now) = some state' := by
    rw [standalone, Option.some_or]
  rw [checked, Reference.check_of_some found]
  refine ⟨decision, mirrors.write (consistent.setSlot held hash same) (mirrors.blank _) ?_ ?_
    (same.trans own) ?_⟩
  · -- the overwritten slot was the key's, and so is the one written
    intro other different
    constructor
    · intro there
      rcases List.mem_or_eq_of_mem_set there with kept | rfl
      · exact kept
      · exact absurd (same.trans own) different
    · intro there
      obtain ⟨pos', held'⟩ := List.getElem?_of_mem there
      have elsewhere : pos ≠ pos' := by
        rintro rfl
        obtain rfl := Option.some.inj (held.symm.trans held')
        exact different own
      exact List.mem_of_getElem? ((List.getElem?_set_ne elsewhere).trans held')
  · exact List.mem_set (List.getElem?_eq_some_iff.1 held).1 slot'
  · rw [state]
    exact related

/-- A check of a key the store does not hold, with room for it. -/
theorem check_absent (mirroring : Mirroring Good Rel) (mirrors : Mirrors Rel quotaOf now store ref)
    (unlimited : config.idleTtlMs = none) {key : K}
    (absent : ∀ slot ∈ (store (config.shardFor key)).slots, slot.key ≠ key)
    (room : (store (config.shardFor key)).slots.length < config.perShardCap) {n : ℕ}
    (good : Good (quotaOf key) n now) :
    (store.check key n now (KeyState.create (quotaOf key))).1.decision = (ref.check quotaOf key n now).1 ∧
      Mirrors Rel quotaOf now (store.check key n now (KeyState.create (quotaOf key))).2
        (ref.check quotaOf key n now).2 := by
  have consistent := mirrors.consistent (config.shardFor key)
  have missed := acquireStored_absent consistent absent n now
  have alike := mirrors.alike key
  rw [(Store.states_eq_none consistent).2 absent] at alike
  cases made : (KeyState.create (quotaOf key) now : Option S) with
  | none =>
      have unseen := mirroring.refused alike made
      rw [check_closed missed made, Reference.check, unseen, made]
      exact ⟨rfl, mirrors⟩
  | some state =>
      have blank := mirrors.blank (config.shardFor key)
      obtain ⟨decision, after⟩ := check_newcomer unlimited missed room blank made
      obtain ⟨same, related⟩ := mirroring.admitted alike made good
      have found : (ref key).or (KeyState.create (quotaOf key) now) = some ((ref key).getD state) := by
        rw [made]
        cases ref key with
        | none => rfl
        | some own => rfl
      rw [decision, after, Reference.check_of_some found]
      have inserted : ((store (config.shardFor key)).insert (newcomer config key n now state)).slots =
          (store (config.shardFor key)).slots ++ [newcomer config key n now state] := rfl
      have stored : Rel (quotaOf key) now (some (newcomer config key n now state).state)
          (some (KeyState.acquire ((ref key).getD state) n now).2) := related
      refine ⟨same, mirrors.write (consistent.insert room rfl rfl absent) blank ?_ ?_ rfl stored⟩
      · intro other different
        rw [inserted, List.mem_append, List.mem_singleton]
        refine ⟨fun there => there.resolve_right ?_, Or.inl⟩
        rintro rfl
        exact different rfl
      · rw [inserted]
        exact List.mem_append_right _ (List.mem_singleton.2 rfl)

/-- A check answers as the key's standalone state does. -/
theorem check (mirroring : Mirroring Good Rel) (mirrors : Mirrors Rel quotaOf now store ref)
    (unlimited : config.idleTtlMs = none) (order : now ≤ later) {key : K} {n : ℕ}
    (meets : store.tracks key = false → Good (quotaOf key) n later ∧
      (store (config.shardFor key)).slots.length < config.perShardCap) :
    (store.check key n later (KeyState.create (quotaOf key))).1.decision =
        (ref.check quotaOf key n later).1 ∧
      Mirrors Rel quotaOf later (store.check key n later (KeyState.create (quotaOf key))).2
        (ref.check quotaOf key n later).2 := by
  have onward := mirrors.of_le mirroring order
  have consistent := mirrors.consistent (config.shardFor key)
  cases tracked : store.tracks key with
  | true =>
      obtain ⟨pos, found⟩ := Option.isSome_iff_exists.1 tracked
      obtain ⟨slot, held, own⟩ := consistent.position_iff.1 found
      exact onward.check_held mirroring (List.mem_of_getElem? held) own n
  | false =>
      obtain ⟨good, room⟩ := meets tracked
      rw [Store.tracks, Option.isSome_eq_false_iff, Option.isNone_iff_eq_none] at tracked
      have absent := consistent.position_none tracked
      exact onward.check_absent mirroring unlimited absent room good

end Mirrors

end Simulation

end RateNet
