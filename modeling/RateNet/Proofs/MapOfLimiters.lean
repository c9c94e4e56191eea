/-
Module: RateNet.Proofs.MapOfLimiters
Purpose: An unbounded limiter of leaky buckets or fixed windows is a map of independent limiters. States that
  have their whole allowance are interchangeable: they decide alike, read alike, and are one state once
  either is charged. So the store mirrors the map of standalone states up to whole states, and removing
  the whole ones is invisible. Two caps show: a leaky bucket's own snapshot saturates at the end of its
  clock, where that of a key not seen does not; and a shard that holds as many keys as it can index
  evicts one for a newcomer.
Trusted boundary: none
Main exports: Forgettable, WholeAlike, WholeAlike.mirroring, Mirrors.peek, Mirrors.retainRecent, KeepsToMap,
  AgreesWithMap, MapOfLimiters, limiter_is_map_of_limiters, crowd_denies, caps_of_unbounded_store_show
-/
import RateNet.Proofs.UnboundedStore
import RateNet.Proofs.RetainWalk
import RateNet.Proofs.PeekPromises
import RateNet.Proofs.RecoveredKeys

namespace RateNet

/-!
### Whole states are interchangeable
-/

section Whole

variable {S : Type} [KeyState S]

/-- Whether the state has its whole allowance. -/
def IsWhole (now : ℕ) (s : S) : Prop := (KeyState.isFull s now).1 = true

/-- A key state that a read leaves as it is and whose whole states are interchangeable. -/
structure Forgettable (S : Type) [KeyState S] [LawfulKeyState S] : Prop where
  peek_snd : ∀ (s : S) now, (KeyState.peek s now).2 = s
  whole_create : ∀ {quota now} {s : S}, KeyState.create quota now = some s → IsWhole now s
  whole_later : ∀ {quota now later} {s : S}, KeyState.ReadBy quota now s → now ≤ later → IsWhole now s →
    IsWhole later s
  /-- Two whole states decide alike, and are then one state or whole still. -/
  acquire_whole : ∀ {quota now} {s s' : S} (n), KeyState.ReadBy quota now s → KeyState.ReadBy quota now s' →
    IsWhole now s → IsWhole now s' →
    (KeyState.acquire s n now).1 = (KeyState.acquire s' n now).1 ∧
      ((KeyState.acquire s n now).2 = (KeyState.acquire s' n now).2 ∨
        IsWhole now (KeyState.acquire s n now).2 ∧ IsWhole now (KeyState.acquire s' n now).2)
  peek_whole : ∀ {quota now} {s s' : S}, KeyState.ReadBy quota now s → KeyState.ReadBy quota now s' →
    IsWhole now s → IsWhole now s' → (KeyState.peek s now).1 = (KeyState.peek s' now).1
  /-- A whole state reads as a key not seen. -/
  peek_fresh : ∀ {quota now} {s : S}, KeyState.ReadBy quota now s → LawfulKeyState.Fits S quota now →
    IsWhole now s → (KeyState.peek s now).1 = freshSnapshot (LawfulKeyState.algorithm S) quota

/-- Both absent; the same state, or whole states; or none held of a whole state. -/
def WholeAlike (quota : Quota) (now : ℕ) : Option S → Option S → Prop
  | none, none => True
  | none, some s' => KeyState.ReadBy quota now s' ∧ IsWhole now s'
  | some s, some s' => KeyState.ReadBy quota now s ∧ KeyState.ReadBy quota now s' ∧
      (s = s' ∨ IsWhole now s ∧ IsWhole now s')
  | some _, none => False

/-- Only a quota that admits anything has states. -/
theorem KeyState.Reached.admits [LawfulKeyState S] {quota : Quota} {last : ℕ} {s : S}
    (reached : KeyState.Reached quota last s) : admitsAnything (LawfulKeyState.algorithm S) quota = true := by
  induction reached with
  | @create now s made => rw [← LawfulKeyState.create_isSome (S := S) quota now, made, Option.isSome_some]
  | acquire n _ _ earlier => exact earlier
  | peek _ _ earlier => exact earlier

/-- Two states that are one, or both whole, decide alike and stay so. -/
theorem Forgettable.acquire_alike [LawfulKeyState S] (forgettable : Forgettable S) {quota : Quota} {now : ℕ}
    {s s' : S} (read : KeyState.ReadBy quota now s) (read' : KeyState.ReadBy quota now s')
    (alike : s = s' ∨ IsWhole now s ∧ IsWhole now s') (n : ℕ) :
    (KeyState.acquire s n now).1 = (KeyState.acquire s' n now).1 ∧
      WholeAlike quota now (some (KeyState.acquire s n now).2) (some (KeyState.acquire s' n now).2) := by
  rcases alike with rfl | ⟨whole, whole'⟩
  · exact ⟨rfl, read.acquire n, read.acquire n, Or.inl rfl⟩
  · obtain ⟨decision, states⟩ := forgettable.acquire_whole n read read' whole whole'
    exact ⟨decision, read.acquire n, read'.acquire n, states⟩

/-- Whole states mirror each other. -/
theorem WholeAlike.mirroring [LawfulKeyState S] (forgettable : Forgettable S) :
    Mirroring (fun _ _ _ => True) (WholeAlike : Quota → ℕ → Option S → Option S → Prop) where
  unseen _ _ := trivial
  later := by
    intro quota now later held own order alike
    match held, own, alike with
    | none, none, _ => trivial
    | none, some s', ⟨read, whole⟩ => exact ⟨read.of_le order, forgettable.whole_later read order whole⟩
    | some s, some s', ⟨read, read', states⟩ =>
        refine ⟨read.of_le order, read'.of_le order, ?_⟩
        rcases states with same | ⟨whole, whole'⟩
        · exact Or.inl same
        · exact Or.inr
            ⟨forgettable.whole_later read order whole, forgettable.whole_later read' order whole'⟩
  refused := by
    intro quota now own alike refused
    match own, alike with
    | none, _ => rfl
    | some s', ⟨⟨last, _, reached⟩, _⟩ =>
        -- a quota that has made a state makes one at every reading
        have made := LawfulKeyState.create_isSome (S := S) quota now
        rw [reached.admits, refused] at made
        cases made
  stored := by
    intro quota now own s n alike
    match own, alike with
    | some s', ⟨read, read', states⟩ =>
        obtain ⟨decision, after⟩ := forgettable.acquire_alike read read' states n
        exact ⟨s', rfl, decision, after⟩
  admitted := by
    intro quota now n own s alike made _
    have read : KeyState.ReadBy quota now s := ⟨now, le_rfl, .create made⟩
    have kept : firstState s n now = (KeyState.acquire s n now).2 := by
      rcases firstState_eq (Or.inr (Or.inr (forgettable.peek_snd (KeyState.acquire s n now).2 _)))
        with kept | reread
      · exact kept
      · rw [reread, forgettable.peek_snd]
    rw [kept]
    match own, alike with
    | none, _ => exact forgettable.acquire_alike read read (Or.inl rfl) n
    | some s', ⟨read', whole'⟩ =>
        exact forgettable.acquire_alike read read' (Or.inr ⟨forgettable.whole_create made, whole'⟩) n

end Whole

/-!
### The two algorithms
-/

namespace Gcra

variable {quota : Quota} {g g' : Gcra} {now : ℕ}

theorem isWhole_iff (under : g.Under quota) :
    IsWhole now g ↔ g.tat ≤ (GcraParams.new quota).intervalsAt (nanos now) := by
  show g.isFullAt now = true ↔ _
  rw [isFullAt, GcraParams.isFullIn, under.params, under.isOpen.not_closed, Bool.false_or,
    decide_eq_true_iff]

/-- Buckets that are whole, or of one arrival time, are alike. -/
theorem alike_of_max (under : g.Under quota) (under' : g'.Under quota)
    (same : max g.tat ((GcraParams.new quota).intervalsAt (nanos now)) =
      max g'.tat ((GcraParams.new quota).intervalsAt (nanos now))) :
    g = g' ∨ IsWhole now g ∧ IsWhole now g' := by
  rw [isWhole_iff under, isWhole_iff under']
  by_cases whole : g.tat ≤ (GcraParams.new quota).intervalsAt (nanos now)
  · right
    omega
  · left
    have arrival : g.tat = g'.tat := by omega
    have params := under.params.trans under'.params.symm
    obtain ⟨tat, p⟩ := g
    obtain ⟨tat', p'⟩ := g'
    obtain rfl : tat = tat' := arrival
    obtain rfl : p = p' := params
    rfl

theorem forgettable : Forgettable Gcra where
  peek_snd _ _ := rfl
  whole_create := by
    intro quota now g made
    obtain ⟨admits, rfl⟩ := Option.ite_some_none_eq_some.1 made
    exact (isWhole_iff ⟨rfl, admits⟩).2 (Nat.zero_le _)
  whole_later := by
    intro quota now later g read order whole
    have under : g.Under quota := read.under
    rw [isWhole_iff under] at whole ⊢
    exact whole.trans (GcraParams.intervalsAt_nanos_mono under.isOpen order)
  acquire_whole := by
    intro quota now g g' n read read' whole whole'
    have under : g.Under quota := read.under
    have under' : g'.Under quota := read'.under
    rw [isWhole_iff under] at whole
    rw [isWhole_iff under'] at whole'
    obtain ⟨decision, arrivals⟩ := @checkNAt_congr quota g g'
      ((GcraParams.new quota).intervalsAt (nanos now)) n now under under' le_rfl (by omega)
    exact ⟨decision, alike_of_max (under.checkNAt n now) (under'.checkNAt n now) arrivals⟩
  peek_whole := by
    intro quota now g g' read read' whole whole'
    have under : g.Under quota := read.under
    have under' : g'.Under quota := read'.under
    rw [isWhole_iff under] at whole
    rw [isWhole_iff under'] at whole'
    show g.peekAt now = g'.peekAt now
    rw [under.peekAt_eq, under'.peekAt_eq, max_eq_right whole, max_eq_right whole']
  peek_fresh := by
    intro quota now g read fits whole
    have under : g.Under quota := read.under
    have small := quota.burst_le
    rw [isWhole_iff under] at whole
    show g.peekAt now = freshSnapshot .leakyBucket quota
    have units : min ((GcraParams.new quota).intervalsAt (nanos now) + quota.burst -
        (GcraParams.new quota).intervalsAt (nanos now)) u32Max = quota.burst := by omega
    rw [freshSnapshot_eq_full under.admits, under.peekAt_eq, max_eq_right whole, if_pos rfl, satAdd_eq fits,
      units]
    rfl

end Gcra

namespace FixedWindow

variable {quota : Quota} {fw : FixedWindow} {now : ℕ}

theorem isWhole_iff (under : fw.Under quota) : IsWhole now fw ↔ fw.usedAt now = 0 := by
  have bound := under.usedAt_le now
  have positive := under.limit_pos
  show (fw.peek now |>.debt now).isNone = true ↔ _
  rw [Option.isNone_iff_eq_none, Snapshot.debt_eq_none, remaining_eq under, peek_eq under, Snapshot.new_limit]
  omega

/-- A whole window reached by `now` is idle from then on. -/
theorem idle_of_whole (read : KeyState.ReadBy quota now fw) (whole : IsWhole now fw) : fw.Idle quota now := by
  obtain ⟨last, before, reached⟩ := read
  have under : fw.Under quota := reached.under
  have windows : nanos last / nanos quota.period ≤ nanos now / nanos quota.period :=
    Nat.div_le_div_right (nanos_mono before)
  exact .of_used under ((latest_le_of_reached reached).trans windows) ((isWhole_iff under).1 whole)

theorem forgettable : Forgettable FixedWindow where
  peek_snd _ _ := rfl
  whole_create := by
    intro quota now fw made
    obtain ⟨admits, rfl⟩ := Option.ite_some_none_eq_some.1 made
    exact (isWhole_iff (new_under admits now)).2 (usedAt_new quota now now)
  whole_later := by
    intro quota now later fw read order whole
    exact (isWhole_iff read.under).2 ((idle_of_whole read whole).nothing later order)
  acquire_whole := by
    intro quota now fw fw' n read read' whole whole'
    obtain ⟨decision, same | ⟨kept, kept'⟩⟩ := @acquire_idle quota fw fw' n now now
      (idle_of_whole read whole) (idle_of_whole read' whole') le_rfl
    · exact ⟨decision, Or.inl same⟩
    · refine ⟨decision, Or.inr ?_⟩
      show IsWhole now (fw.acquire n now).2 ∧ IsWhole now (fw'.acquire n now).2
      rw [kept, kept']
      exact ⟨whole, whole'⟩
  peek_whole := by
    intro quota now fw fw' read read' whole whole'
    have used := (isWhole_iff read.under).1 whole
    have used' := (isWhole_iff read'.under).1 whole'
    show fw.peek now = fw'.peek now
    rw [peek_eq read.under, peek_eq read'.under, used, used', if_pos rfl, if_pos rfl]
  peek_fresh := by
    intro quota now fw read _ whole
    have used := (isWhole_iff read.under).1 whole
    obtain ⟨last, -, reached⟩ := read
    have admits : admitsAnything .fixedWindow quota = true := reached.admits
    show fw.peek now = freshSnapshot .fixedWindow quota
    rw [freshSnapshot_eq_full admits, peek_eq reached.under, used, if_pos rfl]
    rfl

end FixedWindow

/-!
### Reads and clean-ups
-/

namespace Reference

variable {K S : Type} [KeyState S]

/-- Whether the key's standalone state has its whole allowance. -/
def whole (ref : Reference K S) (key : K) (now : ℕ) : Bool :=
  (ref key).any fun state => (KeyState.isFull state now).1

end Reference

section Calls

variable {K S : Type} [DecidableEq K] [KeyState S] [LawfulKeyState S] {config : StoreConfig K}
  {quotaOf : K → Quota} {now : ℕ} {store : Store config S} {ref : Reference K S}

omit [KeyState S] [LawfulKeyState S] in
theorem Store.tracks_eq (consistent : ∀ i, Consistent config i (store i)) (key : K) :
    store.tracks key = (store.states key).isSome := by
  rw [Store.tracks, Store.states, Option.isSome_map, ShardMap.get]
  cases found : (store (config.shardFor key)).position (config.hasher key) key with
  | none => rfl
  | some pos =>
      obtain ⟨slot, held, -⟩ := (consistent _).position_iff.1 found
      rw [Option.bind_some, held, Option.isSome_some, Option.isSome_some]

/-- A read reports what the key's standalone state does, and leaves the store as it is. -/
theorem Mirrors.peek (forgettable : Forgettable S) (mirrors : Mirrors WholeAlike quotaOf now store ref)
    {key : K} (fits : store.tracks key = false → (ref key).isSome = true →
      LawfulKeyState.Fits S (quotaOf key) now) :
    store.peekRef (LawfulKeyState.algorithm S) quotaOf key now =
      (ref.peek (LawfulKeyState.algorithm S) quotaOf key now, store) := by
  have consistent := mirrors.consistent (config.shardFor key)
  have alike := mirrors.alike key
  rw [Store.tracks_eq mirrors.consistent] at fits
  cases held : store.states key with
  | some s =>
      rw [held] at alike
      obtain ⟨slot, member, own, rfl⟩ := (Store.states_eq_some consistent).1 held
      obtain ⟨pos, there⟩ := List.getElem?_of_mem member
      rw [peekRef_tracked quotaOf _ consistent there own, forgettable.peek_snd, setSlot_self there,
        Function.update_eq_self, Reference.peek]
      cases own' : ref key with
      | none =>
          rw [own'] at alike
          exact alike.elim
      | some s' =>
          rw [own'] at alike
          obtain ⟨read, read', states⟩ := alike
          rcases states with same | ⟨whole, whole'⟩
          · rw [same]
            rfl
          · rw [forgettable.peek_whole read read' whole whole']
            rfl
  | none =>
      rw [held] at alike fits
      have missing : (store (config.shardFor key)).position (config.hasher key) key = none := by
        have untracked := Store.tracks_eq mirrors.consistent key
        rw [held, Store.tracks] at untracked
        exact Option.isNone_iff_eq_none.1 (Option.isSome_eq_false_iff.1 untracked)
      rw [peekRef_absent quotaOf _ missing, mirrors.blank, Reference.peek]
      cases own : ref key with
      | none => rfl
      | some s' =>
          rw [own] at alike fits
          obtain ⟨read, whole⟩ := alike
          have fresh := forgettable.peek_fresh read (fits rfl rfl) whole
          rw [Option.elim_some, fresh]
          rfl

/-- A clean-up walks every shard once. -/
theorem Mirrors.walked (forgettable : Forgettable S) (mirrors : Mirrors WholeAlike quotaOf now store ref)
    (i : Fin config.shardCount) :
    Walked now 0 (ShardMap.retainShard now ((store i).slots.length + 1) u64Max (store i)).1 (store i)
      ((store.retainRecent now).2 i) := by
  have still : ∀ (s : S) now, (KeyState.isFull s now).2 = s := by
    intro s now
    rw [LawfulKeyState.isFull_snd, forgettable.peek_snd]
  have below : min u64Max (store i).slots.length = (store i).slots.length := by
    have within := (mirrors.consistent i).within.trans config.cap_le
    have far : maxSlots ≤ u64Max := by decide
    exact min_eq_right (within.trans far)
  rw [(retainRecent_eq store now).1 i]
  apply retainShard_walked still (mirrors.blank i)
  · rw [below]
    exact Nat.lt_succ_self _
  · rw [below, List.drop_length]
    exact fun slot member => absurd member List.not_mem_nil

theorem Mirrors.consistent_retainRecent (mirrors : Mirrors WholeAlike quotaOf now store ref)
    (i : Fin config.shardCount) : Consistent config i ((store.retainRecent now).2 i) :=
  (retainRecent_shardRun quotaOf store now i).consistent (mirrors.consistent i)

/-- A clean-up keeps of every key what is not whole. -/
theorem Mirrors.states_retainRecent (forgettable : Forgettable S)
    (mirrors : Mirrors WholeAlike quotaOf now store ref) (key : K) :
    (store.retainRecent now).2.states key =
      (store.states key).filter fun state => !(KeyState.isFull state now).1 := by
  ext state
  rw [Store.states_eq_some (mirrors.consistent_retainRecent _), Option.filter_eq_some_iff,
    Store.states_eq_some (mirrors.consistent _)]
  constructor
  · rintro ⟨slot, member, own, rfl⟩
    obtain ⟨there, recent⟩ := (mirrors.walked forgettable _).mem_iff.1 member
    exact ⟨⟨slot, there, own, rfl⟩, by rw [Bool.not_eq_true']; exact recent⟩
  · rintro ⟨⟨slot, there, own, rfl⟩, recent⟩
    rw [Bool.not_eq_true'] at recent
    exact ⟨slot, (mirrors.walked forgettable _).mem_iff.2 ⟨there, recent⟩, own, rfl⟩

omit [LawfulKeyState S] in
/-- A key the store holds is whole exactly when its standalone state is. -/
theorem Mirrors.whole_iff (mirrors : Mirrors WholeAlike quotaOf now store ref) {key : K} {s : S}
    (held : store.states key = some s) : (KeyState.isFull s now).1 = ref.whole key now := by
  have alike := mirrors.alike key
  rw [held] at alike
  rw [Reference.whole]
  match ref key, alike with
  | some s', ⟨_, _, states⟩ =>
      rcases states with same | ⟨whole, whole'⟩
      · rw [same]
        rfl
      · exact whole.trans whole'.symm

/-- A clean-up removes the keys whose standalone state is whole. -/
theorem Mirrors.tracks_retainRecent (forgettable : Forgettable S)
    (mirrors : Mirrors WholeAlike quotaOf now store ref) (key : K) :
    (store.retainRecent now).2.tracks key = (store.tracks key && !ref.whole key now) := by
  rw [Store.tracks_eq mirrors.consistent_retainRecent, Store.tracks_eq mirrors.consistent,
    mirrors.states_retainRecent forgettable]
  cases held : store.states key with
  | none => rfl
  | some s =>
      rw [Option.isSome_some, Bool.true_and, ← mirrors.whole_iff held, Option.filter_some]
      cases (KeyState.isFull s now).1 <;> rfl

/-- What a clean-up leaves still mirrors the standalone states. -/
theorem Mirrors.retainRecent (forgettable : Forgettable S)
    (mirrors : Mirrors WholeAlike quotaOf now store ref) :
    Mirrors WholeAlike quotaOf now (store.retainRecent now).2 ref where
  consistent := mirrors.consistent_retainRecent
  blank i := (mirrors.walked forgettable i).recovery.trans (mirrors.blank i)
  alike := by
    intro key
    have alike := mirrors.alike key
    rw [mirrors.states_retainRecent forgettable]
    cases held : store.states key with
    | none =>
        rw [held] at alike
        exact alike
    | some s =>
        have whole := mirrors.whole_iff held
        rw [held] at alike
        rw [Option.filter_some]
        cases removed : (KeyState.isFull s now).1 with
        | false => exact alike
        | true =>
            rw [removed, Reference.whole] at whole
            match ref key, alike, whole with
            | some s', ⟨_, read', _⟩, whole => exact ⟨read', whole.symm⟩

omit [KeyState S] [LawfulKeyState S] in
/-- The keys of the slots that meet a condition, over all shards: each key has one slot, at home. -/
theorem ncard_keys (consistent : ∀ i, Consistent config i (store i)) (P : Slot K S → Bool) :
    {key | ∃ slot ∈ (store (config.shardFor key)).slots, slot.key = key ∧ P slot = true}.ncard =
      ∑ i, (store i).slots.countP P := by
  set keys : Fin config.shardCount → List K := fun i => ((store i).slots.filter P).map Slot.key
    with hkeys
  have mem : ∀ {i key}, key ∈ keys i ↔ ∃ slot ∈ (store i).slots, slot.key = key ∧ P slot = true := by
    intro i key
    simp only [hkeys, List.mem_map, List.mem_filter]
    constructor
    · rintro ⟨slot, ⟨member, meets⟩, own⟩
      exact ⟨slot, member, own, meets⟩
    · rintro ⟨slot, member, own, meets⟩
      exact ⟨slot, ⟨member, meets⟩, own⟩
  have home : ∀ {i key}, key ∈ keys i → config.shardFor key = i := by
    intro i key member
    obtain ⟨slot, there, rfl, -⟩ := mem.1 member
    rw [StoreConfig.shardFor, ← (consistent i).hashed slot there]
    exact (consistent i).placed slot there
  have distinct : ∀ i, (keys i).Nodup := fun i =>
    (consistent i).distinct.sublist (List.filter_sublist.map Slot.key)
  have whole : {key | ∃ slot ∈ (store (config.shardFor key)).slots, slot.key = key ∧ P slot = true} =
      ((Finset.univ.biUnion fun i => (keys i).toFinset : Finset K) : Set K) := by
    ext key
    rw [Set.mem_ofPred_eq, Finset.mem_coe, Finset.mem_biUnion, ← mem]
    constructor
    · exact fun member => ⟨_, Finset.mem_univ _, List.mem_toFinset.2 member⟩
    · rintro ⟨i, -, member⟩
      have member := List.mem_toFinset.1 member
      rw [home member]
      exact member
  rw [whole, Set.ncard_coe_finset, Finset.card_biUnion]
  · apply Finset.sum_congr rfl
    intro i _
    rw [List.toFinset_card_of_nodup (distinct i), List.length_map, List.countP_eq_length_filter]
  · intro i _ j _ different
    refine Finset.disjoint_left.2 ?_
    intro key here there
    exact different ((home (List.mem_toFinset.1 here)).symm.trans (home (List.mem_toFinset.1 there)))

/-- A clean-up answers how many keys it removes. -/
theorem Mirrors.retainRecent_count (forgettable : Forgettable S)
    (mirrors : Mirrors WholeAlike quotaOf now store ref) :
    (store.retainRecent now).1 =
      {key | store.tracks key = true ∧ ref.whole key now = true}.ncard := by
  have removed : {key | store.tracks key = true ∧ ref.whole key now = true} =
      {key | ∃ slot ∈ (store (config.shardFor key)).slots, slot.key = key ∧ slot.isFullAt now = true} := by
    ext key
    rw [Set.mem_ofPred_eq, Set.mem_ofPred_eq, Store.tracks_eq mirrors.consistent, Option.isSome_iff_exists]
    constructor
    · rintro ⟨⟨s, held⟩, whole⟩
      rw [← mirrors.whole_iff held] at whole
      obtain ⟨slot, member, own, rfl⟩ := (Store.states_eq_some (mirrors.consistent _)).1 held
      exact ⟨slot, member, own, whole⟩
    · rintro ⟨slot, member, own, whole⟩
      have held := (Store.states_eq_some (mirrors.consistent _)).2 ⟨slot, member, own, rfl⟩
      exact ⟨⟨slot.state, held⟩, (mirrors.whole_iff held).symm.trans whole⟩
  rw [removed, ncard_keys mirrors.consistent, (retainRecent_eq store now).2]
  exact Finset.sum_congr rfl fun i _ => (mirrors.walked forgettable i).removed_eq

end Calls

/-!
### Whole runs
-/

section Runs

variable {K S : Type} [DecidableEq K] [KeyState S] [LawfulKeyState S] {config : StoreConfig K}

/-- A check, a read or a clean-up that meets neither cap: a newcomer finds its shard with fewer keys than it can
    index, and a key that was seen and then removed is read where its own snapshot would not saturate. -/
def KeepsToMap (quotaOf : K → Quota) (store : Store config S) (ref : Reference K S) (call : Call K) : Prop :=
  match call.request with
  | .check key _ => store.tracks key = false → (store (config.shardFor key)).slots.length < maxSlots
  | .peek key => store.tracks key = false → (ref key).isSome = true →
      LawfulKeyState.Fits S (quotaOf key) call.now
  | .retainRecent => True
  | _ => False

/-- The call answers what the map of standalone states does: the decision of a check and the snapshot of a read
    are the standalone state's, and a clean-up removes exactly the keys whose standalone state is whole and
    answers their number. -/
def AgreesWithMap (quotaOf : K → Quota) (store : Store config S) (ref : Reference K S) (call : Call K) :
    Prop :=
  match call.request with
  | .check key n => (store.check key n call.now (KeyState.create (quotaOf key))).1.decision =
      (ref.check quotaOf key n call.now).1
  | .peek key => (store.peekRef (LawfulKeyState.algorithm S) quotaOf key call.now).1 =
      ref.peek (LawfulKeyState.algorithm S) quotaOf key call.now
  | .retainRecent =>
      (∀ key, (store.retainRecent call.now).2.tracks key = (store.tracks key && !ref.whole key call.now)) ∧
      (store.retainRecent call.now).1 =
        {key | store.tracks key = true ∧ ref.whole key call.now = true}.ncard
  | _ => True

/-- One call of a store that mirrors the map. -/
theorem Mirrors.call (forgettable : Forgettable S) (unlimited : config.idleTtlMs = none)
    (unbounded : config.perShardCap = maxSlots) {quotaOf : K → Quota} {store : Store config S}
    {ref : Reference K S} {call : Call K} (mirrors : Mirrors WholeAlike quotaOf call.now store ref)
    (keeps : KeepsToMap quotaOf store ref call) :
    AgreesWithMap quotaOf store ref call ∧
      Mirrors WholeAlike quotaOf call.now
        (store.call (LawfulKeyState.algorithm S) quotaOf call).2 (ref.call quotaOf call) := by
  obtain ⟨request, now⟩ := call
  cases request with
  | check key n =>
      refine mirrors.check (WholeAlike.mirroring forgettable) unlimited le_rfl fun untracked => ?_
      rw [unbounded]
      exact ⟨trivial, keeps untracked⟩
  | peek key =>
      have read := mirrors.peek forgettable keeps
      have after : (store.call (LawfulKeyState.algorithm S) quotaOf ⟨.peek key, now⟩).2 = store :=
        congrArg Prod.snd read
      refine ⟨congrArg Prod.fst read, ?_⟩
      rw [after]
      exact mirrors
  | retainRecent =>
      exact ⟨⟨mirrors.tracks_retainRecent forgettable, mirrors.retainRecent_count forgettable⟩,
        mirrors.retainRecent forgettable⟩
  | reset key => exact keeps.elim
  | remove key => exact keeps.elim
  | clear => exact keeps.elim
  | shrinkToFit => exact keeps.elim

/-- A store that starts empty mirrors the map after every run of calls that meet no cap. -/
theorem run_mirrors (forgettable : Forgettable S) (unlimited : config.idleTtlMs = none)
    (unbounded : config.perShardCap = maxSlots) {quotaOf : K → Quota} {calls : List (Call K)}
    (order : InOrder calls)
    (keeps : Runs.Along (fun before call => KeepsToMap quotaOf
      (Store.run (LawfulKeyState.algorithm S) quotaOf (.new : Store config S) before)
      (Reference.after quotaOf .new before) call) calls)
    {t : ℕ} (last : ∀ call ∈ calls, call.now ≤ t) :
    Mirrors WholeAlike quotaOf t (Store.run (LawfulKeyState.algorithm S) quotaOf (.new : Store config S) calls)
      (Reference.after quotaOf .new calls) := by
  have mirroring := WholeAlike.mirroring forgettable
  induction calls using List.reverseRecOn generalizing t with
  | nil => exact (Mirrors.new mirroring quotaOf).of_le mirroring (Nat.zero_le t)
  | append_singleton calls call inductionHypothesis =>
      rw [Runs.along_snoc] at keeps
      obtain ⟨order', -, before⟩ := List.pairwise_append.1 order
      have reached := inductionHypothesis order' keeps.1
        fun earlier member => before earlier member call (List.mem_singleton.2 rfl)
      obtain ⟨-, after⟩ := reached.call forgettable unlimited unbounded keeps.2
      rw [Store.run_snoc, Reference.after_snoc]
      exact after.of_le mirroring (last call (List.mem_append.2 (Or.inr (List.mem_singleton.2 rfl))))

end Runs

/-- An unbounded limiter is a map of independent limiters: every call of a run of checks, reads and clean-ups
    with a clock that does not go back, none of which meets a cap, answers what the map of standalone states
    does, in which no state is ever removed. -/
def MapOfLimiters (S : Type) [KeyState S] [LawfulKeyState S] : Prop :=
  ∀ {K : Type} [DecidableEq K] (hasher : K → ℕ) (shards minIdle : ℕ) (quotaOf : K → Quota)
    (calls : List (Call K)), InOrder calls →
    Runs.Along (fun before call => KeepsToMap quotaOf
      (Store.run (LawfulKeyState.algorithm S) quotaOf
        (.new : Store (StoreConfig.new hasher shards .unbounded minIdle) S) before)
      (Reference.after quotaOf .new before) call) calls →
    Runs.Along (fun before call => AgreesWithMap quotaOf
      (Store.run (LawfulKeyState.algorithm S) quotaOf
        (.new : Store (StoreConfig.new hasher shards .unbounded minIdle) S) before)
      (Reference.after quotaOf .new before) call) calls

theorem Forgettable.mapOfLimiters {S : Type} [KeyState S] [LawfulKeyState S] (forgettable : Forgettable S) :
    MapOfLimiters S := by
  intro K _ hasher shards minIdle quotaOf calls order keeps before call rest split
  subst split
  obtain ⟨order', -, ahead⟩ := List.pairwise_append.1 order
  have mirrors := run_mirrors forgettable rfl rfl order' keeps.take
    fun earlier member => ahead earlier member call List.mem_cons_self
  exact (mirrors.call forgettable rfl rfl (keeps before call rest rfl)).1

/-- Leaky buckets and fixed windows. -/
theorem limiter_is_map_of_limiters : MapOfLimiters Gcra ∧ MapOfLimiters FixedWindow :=
  ⟨Gcra.forgettable.mapOfLimiters, FixedWindow.forgettable.mapOfLimiters⟩

/-- A window charged at 0, removed at two seconds and read there. -/
theorem limiter_is_map_of_limiters_past_a_removal :
    let quotaOf := fun _ : ℕ => Quota.perSecond 1 (by decide)
    let before : List (Call ℕ) := [⟨.check 7 1, 0⟩, ⟨.retainRecent, 2000000000⟩]
    let store : Store (StoreConfig.new id 1 .unbounded 0) FixedWindow :=
      Store.run .fixedWindow quotaOf .new before
    store.tracks 7 = false ∧
      (store.peekRef .fixedWindow quotaOf 7 2000000000).1 =
        Reference.peek .fixedWindow quotaOf (Reference.after quotaOf .new before : Reference ℕ FixedWindow) 7
          2000000000 := by
  have removed : Store.tracks (Store.run .fixedWindow (fun _ : ℕ => Quota.perSecond 1 (by decide))
      (.new : Store (StoreConfig.new id 1 .unbounded 0) FixedWindow)
      [⟨.check 7 1, 0⟩, ⟨.retainRecent, 2000000000⟩]) 7 = false := by decide +kernel
  intro quotaOf before store
  refine ⟨removed, limiter_is_map_of_limiters.2 id 1 0 quotaOf (before ++ [⟨.peek 7, 2000000000⟩]) (by decide)
    ?_ before ⟨.peek 7, 2000000000⟩ [] rfl⟩
  rw [Runs.along_snoc, Runs.along_cons, Runs.along_cons]
  refine ⟨⟨fun _ => by decide, trivial, ?_⟩, fun _ _ => trivial⟩
  intro start call rest split
  cases start <;> cases split

/-!
### A shard that holds as many keys as it can index

One unit per second, every key taking its unit at 0, and a hasher that sends all keys to one account of one
shard.  The key that finds the shard full has a debtor evicted for it, and is charged that key's debt.
-/

section Crowd

theorem one_le_u32Max : 1 ≤ u32Max := by decide

/-- One unit per second. -/
def onePerSecond : Quota := Quota.perSecond 1 one_le_u32Max

/-- A window whose unit has been taken at 0. -/
def spentWindow : FixedWindow := ((FixedWindow.new onePerSecond 0).acquire 1 0).2

theorem spentWindow_recoversAt : recoversAt spentWindow 0 = (1000, spentWindow) := by decide +kernel

/-- What it owes at 0. -/
def unitForASecond : Debt := { spent := 1, «until» := 1000000000 }

theorem spentWindow_debt : KeyState.debt spentWindow 0 = (some unitForASecond, spentWindow) := by
  decide +kernel

theorem spentWindow_denies : (KeyState.acquire spentWindow 1 0).1.isAllow = false := by decide +kernel

/-- Any debt still owed leaves nothing of one unit. -/
theorem restore_spent {debt : Debt} (spent : 1 ≤ debt.spent) (owes : 0 < debt.until) :
    KeyState.restore (FixedWindow.new onePerSecond 0) debt 0 = spentWindow := by
  have limit : (KeyState.peek (FixedWindow.new onePerSecond 0) 0).1.limit = 1 := by decide +kernel
  have default : KeyState.restore (FixedWindow.new onePerSecond 0) debt 0 =
      defaultRestore (FixedWindow.new onePerSecond 0) debt 0 := rfl
  rw [default, defaultRestore, if_neg (by omega), limit, min_eq_right spent, if_pos Nat.one_pos]
  rfl

/-- A slot of the crowd, its hint valid or not. -/
structure Owing (slot : Slot ℕ FixedWindow) : Prop where
  hash : slot.hash = 0
  state : slot.state = spentWindow
  hint : slot.recoversAtMs = 1000 ∨ slot.recoversAtMs = unknown

theorem Owing.spared {slot : Slot ℕ FixedWindow} (owing : Owing slot) : Owing slot.spared :=
  { owing with hint := Or.inr rfl }

theorem Owing.recoversAt {slot : Slot ℕ FixedWindow} (owing : Owing slot) :
    (slot.recoversAt 0 0).1 = 1000 ∧ Owing (slot.recoversAt 0 0).2 := by
  obtain ⟨state, referenced, seeded, lastSeenMs, recoversAtMs, hash, key⟩ := slot
  obtain ⟨rfl, rfl, hint⟩ := owing
  rw [Slot.recoversAt]
  split
  · rw [spentWindow_recoversAt]
    exact ⟨rfl, rfl, rfl, Or.inl rfl⟩
  · rename_i valid
    obtain rfl : recoversAtMs = 1000 := hint.resolve_right fun forgotten => valid (Or.inl forgotten)
    exact ⟨rfl, rfl, rfl, Or.inl rfl⟩

theorem second_le_untilMax : 1000 ≤ untilMax := by decide

/-- What a member of the crowd owes. -/
def crowdDebt (size : TableSize) : Obligation where
  account := accountOf size 0
  spent := 1
  untilMs := 1000
  spent_le := one_le_u32Max
  until_le := second_le_untilMax

theorem crowdDebt_due (size : TableSize) : 0 < (crowdDebt size).untilMs := Nat.succ_pos 999

/-- Making room in a crowd takes no one whose debt is not recorded. -/
theorem crowd_room {size : TableSize} (keep : size.forget = false) {map map' : ShardMap ℕ FixedWindow}
    {handed : List (Handover ℕ)} (run : RoomRun 0 0 size map handed map')
    (crowd : ∀ slot ∈ map.slots, Owing slot) (blank : map.recovery = .new) :
    map'.recovery.Valid size 0 ∧
      (map'.slots.length = map.slots.length ∨ map'.recovery.Covers size 0 (crowdDebt size)) := by
  have kept := run.invariant (fun map' => (∀ slot ∈ map'.slots, Owing slot) ∧ map'.recovery.Valid size 0 ∧
    (map'.slots.length = map.slots.length ∨ map'.recovery.Covers size 0 (crowdDebt size))) ?_
    ⟨crowd, by rw [blank]; exact Recovery.new_valid, Or.inl rfl⟩
  · exact kept.2
  · rintro map₁ map₂ handed step ⟨owing, valid, taken⟩
    cases step with
    | @refresh pos slot held =>
        exact ⟨ShardMap.forall_setSlot owing (owing slot (List.mem_of_getElem? held)).recoversAt.2, valid,
          taken.imp_left List.length_set.trans⟩
    | @spare pos slot held =>
        exact ⟨ShardMap.forall_setSlot owing (owing slot (List.mem_of_getElem? held)).spared, valid,
          taken.imp_left List.length_set.trans⟩
    | cursors hand sweep => exact ⟨owing, valid, taken⟩
    | @release pos slot held recovered =>
        rw [(owing slot (List.mem_of_getElem? held)).recoversAt.1] at recovered
        exact absurd recovered (by decide)
    | @settle pos slot held whole =>
        rw [(owing slot (List.mem_of_getElem? held)).state, spentWindow_debt] at whole
        cases whole
    | @handOver pos slot debt recorded held owes accepted =>
        have member := owing slot (List.mem_of_getElem? held)
        rw [member.state, spentWindow_debt] at owes
        obtain rfl := Option.some.inj owes
        rw [member.hash] at accepted ⊢
        refine ⟨ShardMap.forall_removeAt owing held, Recovery.valid_record valid _ _ _, Or.inr ?_⟩
        have spent : (crowdDebt size).spent ≤ unitForASecond.spent := le_rfl
        have deadline : (crowdDebt size).untilMs ≤ ceilMillis unitForASecond.until := by
          have rounded : ceilMillis unitForASecond.until = 1000 := by decide
          rw [rounded]
          exact le_rfl
        have mine : (crowdDebt size).account = accountOf size 0 := rfl
        have taken : (map₁.recovery.record 0 unitForASecond 0 size slot.seeded).1 ≠ none := by
          rw [accepted]
          exact Option.some_ne_none _
        exact Recovery.covers_recorded valid.sized keep (crowdDebt_due size) mine spent deadline taken

/-- A newcomer to a full crowd is denied. -/
theorem crowd_denies {config : StoreConfig ℕ} (keep : config.table.forget = false)
    {map : ShardMap ℕ FixedWindow} (crowd : ∀ slot ∈ map.slots, Owing slot) (blank : map.recovery = .new)
    (full : map.slots.length = config.perShardCap) {key : ℕ} (account : config.hasher key = 0)
    (missed : (map.acquireStored config key 1 0).1 = none) :
    (map.checkWrite config key 1 0 (FixedWindow.new onePerSecond 0)).1.decision.isAllow = false := by
  obtain ⟨⟨handed, run, -⟩, fewer⟩ := makeRoom_madeBy config map 0 0
  obtain ⟨valid, taken⟩ := crowd_room keep run crowd blank
  rw [ShardMap.checkWrite]
  generalize map.acquireStored config key 1 0 = acquired at missed
  rcases acquired with ⟨_ | decision, map₁⟩
  · have zero : millis 0 = 0 := by decide
    rw [zero]
    dsimp only
    generalize map.makeRoom config 0 0 = room at valid taken fewer
    rcases room with ⟨due | _, map₁, reclaimed⟩
    · rfl
    · have room := fewer rfl full.le
      have covered := taken.resolve_left (by dsimp only at room ⊢; omega)
      have mine : (crowdDebt config.table).account = accountOf config.table 0 := rfl
      obtain ⟨charge, charged, spent, deadline⟩ :=
        Recovery.peek_covers valid (crowdDebt_due config.table) mine covered
      have owes : 0 < charge.debt.until := lt_of_lt_of_le (by decide : 0 < fromMillis 1000) deadline
      have restored := restore_spent spent owes
      simp only [ShardMap.store, zero, account, Recovery.take_fst, charged, Option.elim_some, restored]
      exact spentWindow_denies
  · cases missed

/-- One shard, and one account for every key. -/
def crowdConfig : StoreConfig ℕ := StoreConfig.new (fun _ => 0) 1 .unbounded 0

/-- The keys below `count`, each taking its unit at 0. -/
def crowdCalls (count : ℕ) : List (Call ℕ) := (List.range count).map fun key => ⟨.check key 1, 0⟩

theorem crowdCalls_succ (count : ℕ) : crowdCalls (count + 1) = crowdCalls count ++ [⟨.check count 1, 0⟩] := by
  rw [crowdCalls, List.range_succ, List.map_append]
  rfl

/-- The store the crowd has come to. -/
def crowdStore (count : ℕ) : Store crowdConfig FixedWindow :=
  Store.run .fixedWindow (fun _ => onePerSecond) .new (crowdCalls count)

theorem crowdStore_consistent (count : ℕ) (i : Fin crowdConfig.shardCount) :
    Consistent crowdConfig i (crowdStore count i) :=
  (run_always .fixedWindow (fun _ _ => True) (fun _ => trivial) (fun _ _ _ => trivial) (crowdCalls count) i).1

theorem newcomer_owing (key : ℕ) : Owing (newcomer crowdConfig key 1 0 (FixedWindow.new onePerSecond 0)) := by
  have first : firstHint (KeyState.acquire (FixedWindow.new onePerSecond 0) 1 0).2 true 1
      (KeyState.acquire (FixedWindow.new onePerSecond 0) 1 0).1 0 (millis 0) = (1000, spentWindow) := by
    decide +kernel
  have slot : newcomer crowdConfig key 1 0 (FixedWindow.new onePerSecond 0) =
      Slot.new (crowdConfig.hasher key) key spentWindow false 1000 (millis 0) := by
    simp only [newcomer, first]
  rw [slot]
  exact ⟨rfl, rfl, Or.inl rfl⟩

/-- Every key of the crowd is stored and owes its unit. -/
theorem crowdStore_owing {count : ℕ} (fits : count ≤ maxSlots) :
    (∀ slot ∈ (crowdStore count (crowdConfig.shardFor 0)).slots, Owing slot ∧ slot.key < count) ∧
      (crowdStore count (crowdConfig.shardFor 0)).slots.length = count ∧
      (crowdStore count (crowdConfig.shardFor 0)).recovery = .new := by
  induction count with
  | zero => exact ⟨fun slot member => absurd member List.not_mem_nil, rfl, rfl⟩
  | succ count inductionHypothesis =>
      obtain ⟨owing, length, blank⟩ := inductionHypothesis (Nat.le_of_succ_le fits)
      have absent : ∀ slot ∈ (crowdStore count (crowdConfig.shardFor count)).slots, slot.key ≠ count :=
        fun slot member => (owing slot member).2.ne
      have missed := acquireStored_absent (crowdStore_consistent count _) absent 1 0
      have room : (crowdStore count (crowdConfig.shardFor count)).slots.length < crowdConfig.perShardCap :=
        lt_of_eq_of_lt length fits
      have made : (KeyState.create onePerSecond 0 : Option FixedWindow) =
          some (FixedWindow.new onePerSecond 0) := rfl
      obtain ⟨-, after⟩ := @check_newcomer ℕ FixedWindow _ _ crowdConfig (fun _ => onePerSecond) count 1 0
        (crowdStore count) _ rfl missed room blank made
      have inserted : crowdStore (count + 1) (crowdConfig.shardFor 0) =
          (crowdStore count (crowdConfig.shardFor 0)).insert
            (newcomer crowdConfig count 1 0 (FixedWindow.new onePerSecond 0)) := by
        rw [crowdStore, crowdCalls_succ, Store.run_snoc]
        exact (congrFun after (crowdConfig.shardFor 0)).trans (Function.update_self _ _ _)
      have slots : (crowdStore (count + 1) (crowdConfig.shardFor 0)).slots =
          (crowdStore count (crowdConfig.shardFor 0)).slots ++
            [newcomer crowdConfig count 1 0 (FixedWindow.new onePerSecond 0)] := by
        rw [inserted]
        rfl
      refine ⟨?_, ?_, ?_⟩
      · intro slot member
        rw [slots, List.mem_append, List.mem_singleton] at member
        rcases member with there | rfl
        · exact ⟨(owing slot there).1, Nat.lt_succ_of_lt (owing slot there).2⟩
        · exact ⟨newcomer_owing count, Nat.lt_succ_self count⟩
      · rw [slots, List.length_append, length, List.length_singleton]
      · rw [inserted]
        exact blank

/-- The map of standalone states has no state for a key the crowd does not include. -/
theorem crowd_reference {count key : ℕ} (beyond : count ≤ key) :
    Reference.after (fun _ => onePerSecond) (Reference.new : Reference ℕ FixedWindow) (crowdCalls count) key =
      none := by
  induction count with
  | zero => rfl
  | succ count inductionHypothesis =>
      rw [crowdCalls_succ, Reference.after_snoc]
      have earlier := inductionHypothesis (Nat.le_of_succ_le beyond)
      generalize Reference.after (fun _ => onePerSecond) (Reference.new : Reference ℕ FixedWindow)
        (crowdCalls count) = ref at earlier
      obtain ⟨state, found⟩ : ∃ state, (ref count).or (KeyState.create onePerSecond 0) = some state := by
        cases ref count with
        | none => exact ⟨_, rfl⟩
        | some state => exact ⟨state, rfl⟩
      have checked : ref.call (fun _ => onePerSecond) ⟨.check count 1, 0⟩ =
          Function.update ref count (some (KeyState.acquire state 1 0).2) :=
        congrArg Prod.snd (@Reference.check_of_some ℕ FixedWindow _ _ (fun _ => onePerSecond) ref count state
          0 found 1)
      rw [checked, Function.update_of_ne (Nat.ne_of_gt beyond)]
      exact earlier

/-- The newcomer that finds the shard full is denied, though the map admits it. -/
theorem crowd_turns_newcomer_away {count : ℕ} (full : count = maxSlots) :
    (Store.check (crowdStore count) count 1 0 (KeyState.create onePerSecond)).1.decision.isAllow = false ∧
      (Reference.check (fun _ => onePerSecond) (Reference.after (fun _ => onePerSecond)
        (Reference.new : Reference ℕ FixedWindow) (crowdCalls count)) count 1 0).1 = .allow := by
  have made : (KeyState.create onePerSecond 0 : Option FixedWindow) =
      some (FixedWindow.new onePerSecond 0) := rfl
  constructor
  · obtain ⟨owing, length, blank⟩ := crowdStore_owing full.le
    have home : crowdConfig.shardFor count = crowdConfig.shardFor 0 := rfl
    have absent : ∀ slot ∈ (crowdStore count (crowdConfig.shardFor 0)).slots, slot.key ≠ count :=
      fun slot member => (owing slot member).2.ne
    have missed := acquireStored_absent (crowdStore_consistent count _) absent 1 0
    have denied := crowd_denies rfl (fun slot member => (owing slot member).1) blank (length.trans full) rfl
      missed
    simp only [Store.check, home]
    generalize (crowdStore count (crowdConfig.shardFor 0)).acquireStored crowdConfig count 1 0 = acquired
      at missed
    rcases acquired with ⟨_ | decision, map₁⟩
    · simp only [made]
      exact denied
    · cases missed
  · have unseen := crowd_reference (le_refl count)
    have fresh : (KeyState.acquire (FixedWindow.new onePerSecond 0) 1 0).1 = .allow := by decide +kernel
    rw [Reference.check, unseen, made, Option.none_or]
    exact fresh

end Crowd

/-- Both caps show.  A leaky bucket of one unit per nanosecond is charged, recovers and is removed; at the end of
    the clock the store reports the whole allowance of a key not seen, where the standalone bucket's sum
    saturates and it reports nothing.  And once a shard holds as many keys as it can index, each owing its
    unit, the store denies a newcomer that the map admits. -/
theorem caps_of_unbounded_store_show :
    (let quotaOf := fun _ : ℕ => unitPerNano
      let calls : List (Call ℕ) := [⟨.check 7 1, 0⟩, ⟨.retainRecent, 1⟩]
      let store : Store (StoreConfig.new id 1 .unbounded 0) Gcra := Store.run .leakyBucket quotaOf .new calls
      (store.peekRef .leakyBucket quotaOf 7 u64Max).1.remaining = 1 ∧
        (Reference.peek .leakyBucket quotaOf (Reference.after quotaOf .new calls : Reference ℕ Gcra) 7
          u64Max).remaining = 0) ∧
    ((Store.check (crowdStore maxSlots) maxSlots 1 0 (KeyState.create onePerSecond)).1.decision.isAllow = false ∧
      (Reference.check (fun _ => onePerSecond) (Reference.after (fun _ => onePerSecond)
        (Reference.new : Reference ℕ FixedWindow) (crowdCalls maxSlots)) maxSlots 1 0).1 = .allow) := by
  exact ⟨by decide +kernel, crowd_turns_newcomer_away rfl⟩

end RateNet
