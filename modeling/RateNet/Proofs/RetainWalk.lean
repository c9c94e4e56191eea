/-
Module: RateNet.Proofs.RetainWalk
Purpose: What `retain_recent` removes. The walk goes down the slots in chunks and swaps the last slot into
  the place of each one it removes; whatever is swapped in has been examined and kept, so the walk
  removes exactly the slots whose state is full, and counts them. This is for states that a read leaves
  as they are.
Trusted boundary: none
Main exports: Slot.isFullAt, Walked, retainSlots_walked, retainShard_walked, retainRecent_eq, Walked.mem_iff
-/
import RateNet.Proofs.ShardSteps

namespace RateNet

open DenseIndex

section Walk

variable {K S : Type} [KeyState S] {now : ℕ} {map map' map₁ : ShardMap K S}

/-- Whether the slot's key has its whole allowance. -/
def Slot.isFullAt (now : ℕ) (slot : Slot K S) : Bool := (KeyState.isFull slot.state now).1

/-- What a walk down to position `stop` has done: the slots below `stop` are as they were, those from
    `stop` on are not full, and what is gone was full and has been counted. -/
structure Walked (now stop removed : ℕ) (map map' : ShardMap K S) : Prop where
  recovery : map'.recovery = map.recovery
  length : stop ≤ map'.slots.length
  below : map'.slots.take stop = map.slots.take stop
  kept : ∀ slot ∈ map'.slots.drop stop, slot.isFullAt now = false
  gone : ∃ gone : List (Slot K S), (map.slots : Multiset (Slot K S)) = map'.slots + gone ∧
    (∀ slot ∈ gone, slot.isFullAt now = true) ∧ gone.length = removed

theorem take_swapRemove {E : Type} {entries : List E} {i : ℕ} (inside : i < entries.length) :
    (swapRemove entries i).take i = entries.take i := by
  rcases List.eq_nil_or_concat entries with rfl | ⟨init, last, rfl⟩
  · rfl
  · rw [List.concat_eq_append] at inside ⊢
    rw [List.length_append, List.length_singleton] at inside
    rcases Nat.lt_or_ge i init.length with inner | outer
    · rw [swapRemove_inner inner, List.take_append_of_le_length inner.le]
      rw [List.take_set_of_le le_rfl]
    · obtain rfl : i = init.length := by omega
      rw [swapRemove_last, List.take_left, List.take_length]

/-- A walk that goes on. -/
theorem Walked.trans {stop stop' removed removed' : ℕ} (first : Walked now stop removed map map₁)
    (second : Walked now stop' removed' map₁ map') (down : stop' ≤ stop) :
    Walked now stop' (removed + removed') map map' where
  recovery := second.recovery.trans first.recovery
  length := second.length
  below := by
    have below := congrArg (List.take stop') first.below
    rw [List.take_take, List.take_take, min_eq_left down] at below
    exact second.below.trans below
  kept := second.kept
  gone := by
    obtain ⟨gone, parts, full, count⟩ := first.gone
    obtain ⟨gone', parts', full', count'⟩ := second.gone
    refine ⟨gone' ++ gone, ?_, ?_, ?_⟩
    · rw [parts, parts', ← Multiset.coe_add, Multiset.add_assoc]
    · intro slot member
      rcases List.mem_append.1 member with there | here
      · exact full' slot there
      · exact full slot here
    · rw [List.length_append, count, count', Nat.add_comm]

omit [KeyState S] in
theorem setSlot_self {pos : ℕ} {slot : Slot K S} (held : map.slots[pos]? = some slot) :
    map.setSlot pos slot = map := by
  obtain ⟨inside, rfl⟩ := List.getElem?_eq_some_iff.1 held
  rw [ShardMap.setSlot, List.set_getElem_self]

theorem Walked.nothing {cursor : ℕ} (inside : cursor ≤ map.slots.length)
    (examined : ∀ slot ∈ map.slots.drop cursor, slot.isFullAt now = false) :
    Walked now cursor 0 map map where
  recovery := rfl
  length := inside
  below := rfl
  kept := examined
  gone := ⟨[], by rw [Multiset.coe_nil, add_zero], fun _ member => absurd member List.not_mem_nil, rfl⟩

/-- A slot that is not full is passed over. -/
theorem Walked.pass {pos : ℕ} {slot : Slot K S} (held : map.slots[pos]? = some slot)
    (recent : slot.isFullAt now = false)
    (examined : ∀ slot ∈ map.slots.drop (pos + 1), slot.isFullAt now = false) :
    Walked now pos 0 map map := by
  obtain ⟨inside, rfl⟩ := List.getElem?_eq_some_iff.1 held
  apply Walked.nothing inside.le
  rw [List.drop_eq_getElem_cons inside]
  intro slot member
  rcases List.mem_cons.1 member with rfl | there
  · exact recent
  · exact examined slot there

/-- A full slot goes, and the slot that takes its place has been examined. -/
theorem Walked.removal {pos : ℕ} {slot : Slot K S} (held : map.slots[pos]? = some slot)
    (full : slot.isFullAt now = true)
    (examined : ∀ slot ∈ map.slots.drop (pos + 1), slot.isFullAt now = false) :
    Walked now pos 1 map (map.removeAt pos).2 := by
  obtain ⟨inside, here⟩ := List.getElem?_eq_some_iff.1 held
  have slots := ShardMap.removeAt_slots held
  have below : (map.removeAt pos).2.slots.take pos = map.slots.take pos := by
    rw [slots, take_swapRemove inside]
  have parts : slot ::ₘ ((map.removeAt pos).2.slots : Multiset (Slot K S)) = map.slots := by
    rw [slots, coe_swapRemove held]
  -- the two lists agree below, so they hold the same slots from here on
  have above : ((map.removeAt pos).2.slots.drop pos : Multiset (Slot K S)) =
      map.slots.drop (pos + 1) := by
    have before : (map.slots : Multiset (Slot K S)) =
        map.slots.take pos + slot ::ₘ (map.slots.drop (pos + 1) : Multiset (Slot K S)) := by
      rw [Multiset.cons_coe, Multiset.coe_add, ← here, ← List.drop_eq_getElem_cons inside,
        List.take_append_drop]
    have after : ((map.removeAt pos).2.slots : Multiset (Slot K S)) =
        map.slots.take pos + (map.removeAt pos).2.slots.drop pos := by
      rw [← below, Multiset.coe_add, List.take_append_drop]
    rw [before, after, Multiset.add_cons, Multiset.cons_inj_right] at parts
    exact add_left_cancel parts
  refine ⟨ShardMap.removeAt_recovery map pos, ?_, below, ?_, [slot], ?_, ?_, rfl⟩
  · rw [slots, length_swapRemove]
    omega
  · intro found member
    rw [← Multiset.mem_coe, above] at member
    exact examined found member
  · rw [← parts, Multiset.coe_singleton, add_comm, Multiset.singleton_add]
  · intro found member
    rw [List.mem_singleton.1 member]
    exact full

variable (still : ∀ (s : S) now, (KeyState.isFull s now).2 = s)
include still

/-- The walk examines every slot once, from the top down. -/
theorem retainSlots_walked {steps cursor : ℕ} (down : steps ≤ cursor)
    (inside : cursor ≤ map.slots.length)
    (examined : ∀ slot ∈ map.slots.drop cursor, slot.isFullAt now = false) :
    Walked now (cursor - steps) (ShardMap.retainSlots now steps cursor map).1 map
      (ShardMap.retainSlots now steps cursor map).2 := by
  induction steps generalizing cursor map with
  | zero => exact .nothing inside examined
  | succ steps inductionHypothesis =>
      obtain ⟨pos, rfl⟩ : ∃ pos, cursor = pos + 1 := ⟨cursor - 1, by omega⟩
      have held : map.slots[pos]? = some map.slots[pos] := List.getElem?_eq_getElem inside
      have untouched : map.setSlot pos
          { map.slots[pos] with state := (KeyState.isFull map.slots[pos].state now).2 } = map := by
        rw [still]
        exact setSlot_self held
      rw [ShardMap.retainSlots, Nat.add_sub_cancel, held]
      dsimp only
      rw [untouched]
      have onward : pos + 1 - (steps + 1) = pos - steps := by omega
      rw [onward]
      split
      · rename_i full
        have step := Walked.removal held full examined
        have rest := inductionHypothesis (by omega) step.length step.kept
        have removed : (map.removeAt pos).1.isSome = true := by
          obtain ⟨lastSlot, -, removed⟩ := ShardMap.removeAt_eq held
          rw [removed]
          rfl
        have both := step.trans rest (Nat.sub_le _ _)
        rw [Nat.add_comm] at both
        simp only [removed, if_true]
        exact both
      · rename_i recent
        have step := Walked.pass held (Bool.eq_false_of_not_eq_true recent) examined
        have rest := inductionHypothesis (by omega) step.length step.kept
        have both := step.trans rest (Nat.sub_le _ _)
        rw [Nat.zero_add] at both
        exact both

/-- One chunk of the walk, in a shard without records. -/
theorem retainChunk_walked {cursor : ℕ} (blank : map.recovery = .new)
    (examined : ∀ slot ∈ map.slots.drop (min cursor map.slots.length), slot.isFullAt now = false) :
    Walked now (map.retainChunk cursor now).1.2 (map.retainChunk cursor now).1.1 map
        (map.retainChunk cursor now).2 ∧
      (map.retainChunk cursor now).1.2 = min cursor map.slots.length - retainChunkSlots := by
  rw [ShardMap.retainChunk]
  have inside : min cursor map.slots.length ≤ map.slots.length := min_le_right _ _
  generalize min cursor map.slots.length = cursor at inside examined ⊢
  have walked := retainSlots_walked still (Nat.sub_le cursor (cursor - retainChunkSlots)) inside examined
  have stop : cursor - (cursor - (cursor - retainChunkSlots)) = cursor - retainChunkSlots := by omega
  rw [stop] at walked
  dsimp only
  generalize ShardMap.retainSlots now (cursor - (cursor - retainChunkSlots)) cursor map = result at walked ⊢
  split
  · exact ⟨{ walked with recovery := blank.symm }, rfl⟩
  · exact ⟨walked, rfl⟩

/-- The walk of a whole shard. -/
theorem retainShard_walked {fuel cursor : ℕ} (blank : map.recovery = .new)
    (enough : min cursor map.slots.length < fuel)
    (examined : ∀ slot ∈ map.slots.drop (min cursor map.slots.length), slot.isFullAt now = false) :
    Walked now 0 (ShardMap.retainShard now fuel cursor map).1 map
      (ShardMap.retainShard now fuel cursor map).2 := by
  induction fuel generalizing cursor map with
  | zero => exact absurd enough (Nat.not_lt_zero _)
  | succ fuel inductionHypothesis =>
      rw [ShardMap.retainShard]
      obtain ⟨walked, stopped⟩ := retainChunk_walked still blank examined
      generalize map.retainChunk cursor now = result at walked stopped ⊢
      obtain ⟨⟨removed, stop⟩, map₁⟩ := result
      dsimp only at walked stopped ⊢
      have width : 0 < retainChunkSlots := by decide
      split
      · rename_i done
        rw [done] at walked
        exact walked
      · rename_i more
        have here : min stop map₁.slots.length = stop := min_eq_left walked.length
        have kept := walked.kept
        rw [← here] at kept
        have rest := inductionHypothesis (walked.recovery.trans blank) (by omega) kept
        exact walked.trans rest (Nat.zero_le _)

omit still

/-- A whole walk keeps exactly the slots that are not full. -/
theorem Walked.mem_iff {removed : ℕ} {slot : Slot K S} (walked : Walked now 0 removed map map') :
    slot ∈ map'.slots ↔ slot ∈ map.slots ∧ slot.isFullAt now = false := by
  obtain ⟨gone, parts, full, -⟩ := walked.gone
  have kept := walked.kept
  rw [List.drop_zero] at kept
  rw [← Multiset.mem_coe (l := map.slots), parts, Multiset.mem_add]
  constructor
  · exact fun member => ⟨Or.inl member, kept slot member⟩
  · rintro ⟨there | left, recent⟩
    · exact there
    · rw [full slot left] at recent
      cases recent

theorem Walked.removed_eq {removed : ℕ} (walked : Walked now 0 removed map map') :
    removed = map.slots.countP (Slot.isFullAt now) := by
  obtain ⟨gone, parts, full, count⟩ := walked.gone
  have kept := walked.kept
  rw [List.drop_zero] at kept
  have total : map.slots.countP (Slot.isFullAt now) =
      map'.slots.countP (Slot.isFullAt now) + gone.countP (Slot.isFullAt now) := by
    have same := congrArg (Multiset.countP fun slot => Slot.isFullAt now slot = true) parts
    rw [Multiset.countP_add, Multiset.coe_countP, Multiset.coe_countP, Multiset.coe_countP] at same
    simpa using same
  have none_left : map'.slots.countP (Slot.isFullAt now) = 0 := by
    rw [List.countP_eq_zero]
    exact fun slot member => by rw [kept slot member]; exact Bool.false_ne_true
  have all_gone : gone.countP (Slot.isFullAt now) = gone.length := List.countP_eq_length.2 full
  omega

end Walk

section Recent

variable {K S : Type} [KeyState S] {config : StoreConfig K}

/-- The walk over all shards walks each once. -/
theorem retainRecent_eq (store : Store config S) (now : ℕ) :
    (∀ i, (store.retainRecent now).2 i =
      (ShardMap.retainShard now ((store i).slots.length + 1) u64Max (store i)).2) ∧
    (store.retainRecent now).1 =
      ∑ i, (ShardMap.retainShard now ((store i).slots.length + 1) u64Max (store i)).1 := by
  set walk := fun (map : ShardMap K S) => ShardMap.retainShard now (map.slots.length + 1) u64Max map
    with hwalk
  have fold : ∀ (shards : List (Fin config.shardCount)) (walked : ℕ × Store config S), shards.Nodup →
      (∀ i, (shards.foldl (Store.retainAt now) walked).2 i =
        if i ∈ shards then (walk (walked.2 i)).2 else walked.2 i) ∧
      (shards.foldl (Store.retainAt now) walked).1 =
        walked.1 + (shards.map fun i => (walk (walked.2 i)).1).sum := by
    intro shards
    induction shards with
    | nil => exact fun walked _ => ⟨fun _ => rfl, rfl⟩
    | cons j rest inductionHypothesis =>
        intro walked distinct
        obtain ⟨fresh, distinct⟩ := List.nodup_cons.1 distinct
        obtain ⟨shards', count⟩ := inductionHypothesis (Store.retainAt now walked j) distinct
        have elsewhere : ∀ i, i ≠ j → (Store.retainAt now walked j).2 i = walked.2 i := by
          intro i different
          rw [Store.retainAt_snd, Function.update_of_ne different]
        rw [List.foldl_cons]
        constructor
        · intro i
          rw [shards' i]
          by_cases same : i = j
          · subst same
            rw [if_neg fresh, if_pos List.mem_cons_self, Store.retainAt_snd, Function.update_self]
          · rw [elsewhere i same]
            simp only [List.mem_cons, same, false_or]
        · have first : (Store.retainAt now walked j).1 = walked.1 + (walk (walked.2 j)).1 := rfl
          have later : rest.map (fun i => (walk ((Store.retainAt now walked j).2 i)).1) =
              rest.map fun i => (walk (walked.2 i)).1 := by
            apply List.map_congr_left
            intro i member
            rw [elsewhere i fun same => fresh (same ▸ member)]
          rw [count, first, later, List.map_cons, List.sum_cons, Nat.add_assoc]
  obtain ⟨shards, count⟩ := fold (List.finRange config.shardCount) (0, store) (List.nodup_finRange _)
  constructor
  · intro i
    rw [Store.retainRecent, shards i, if_pos (List.mem_finRange i)]
  · rw [Store.retainRecent, count, Nat.zero_add, Fin.sum_univ_def]

end Recent

end RateNet
