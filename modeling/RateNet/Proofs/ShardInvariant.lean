/-
Module: RateNet.Proofs.ShardInvariant
Purpose: The representation invariant of a shard and the memory bound, over every interleaving of the lock
  sections of any number of calls. A shard is consistent when its index holds exactly the positions of
  its slots, each under its slot's own hash, no key is stored twice, every slot belongs to the shard,
  and the slots fit its share of the cap. Each primitive change of a shard keeps this, so each lock
  section does, whatever keys, units and times it is given.
Trusted boundary: none
Main exports: Consistent, Consistent.get_iff, CheckEffect, check_effect, StoreCall, StorePc, SectionStep,
  shards_consistent_and_bounded
-/
import RateNet.Lib.Interleaving
import RateNet.Algo.Gcra
import RateNet.Proofs.RoomSteps

namespace RateNet

open DenseIndex

section Shard

variable {K S : Type} {config : StoreConfig K}

/-- What every lock section leaves of shard `i`. -/
structure Consistent (config : StoreConfig K) (i : Fin config.shardCount) (map : ShardMap K S) : Prop where
  /-- The index holds the positions `0 .. slots.length`, each once and under its slot's own hash. -/
  indexed : Indexed Slot.hash map.index map.slots
  distinct : (map.slots.map Slot.key).Nodup
  hashed : ∀ slot ∈ map.slots, slot.hash = config.hasher slot.key
  placed : ∀ slot ∈ map.slots, config.shardOf slot.hash = i
  within : map.slots.length ≤ config.perShardCap

namespace Consistent

variable {i : Fin config.shardCount} {map map' : ShardMap K S} {pos : ℕ} {slot slot' : Slot K S} {key : K}

theorem new : Consistent config i (ShardMap.new : ShardMap K S) :=
  { indexed := .empty
    distinct := List.nodup_nil
    hashed := fun _ member => by cases member
    placed := fun _ member => by cases member
    within := Nat.zero_le _ }

/-- The cursors and the recovery table play no part. -/
theorem of_same (consistent : Consistent config i map) (index : map'.index = map.index)
    (slots : map'.slots = map.slots) : Consistent config i map' :=
  { indexed := by rw [index, slots]; exact consistent.indexed
    distinct := by rw [slots]; exact consistent.distinct
    hashed := by rw [slots]; exact consistent.hashed
    placed := by rw [slots]; exact consistent.placed
    within := by rw [slots]; exact consistent.within }

theorem withRecovery (consistent : Consistent config i map) (recovery : Recovery) :
    Consistent config i { map with recovery } := consistent.of_same rfl rfl

/-- A slot changed under its own key and hash. -/
theorem setSlot (consistent : Consistent config i map) (held : map.slots[pos]? = some slot)
    (hash : slot'.hash = slot.hash) (key : slot'.key = slot.key) :
    Consistent config i (map.setSlot pos slot') := by
  have inside := (List.getElem?_eq_some_iff.1 held).1
  have member := List.mem_of_getElem? held
  have old : ∀ found ∈ map.slots.set pos slot', found = slot' ∨ found ∈ map.slots := by
    intro found there
    exact (List.mem_or_eq_of_mem_set there).symm
  have keys : (map.slots.set pos slot').map Slot.key = map.slots.map Slot.key := by
    have filed : (map.slots.map Slot.key)[pos]? = some slot'.key := by
      rw [List.getElem?_map, held, key]
      rfl
    rw [List.map_set]
    apply List.ext_getElem?
    intro j
    rw [List.getElem?_set]
    split
    · rename_i same
      subst same
      rw [filed, if_pos]
      rw [List.length_map]
      exact inside
    · rfl
  constructor
  · exact consistent.indexed.set held hash
  · show ((map.slots.set pos slot').map Slot.key).Nodup
    rw [keys]
    exact consistent.distinct
  · intro found there
    rcases old found there with rfl | there
    · rw [hash, key]
      exact consistent.hashed slot member
    · exact consistent.hashed found there
  · intro found there
    rcases old found there with rfl | there
    · rw [hash]
      exact consistent.placed slot member
    · exact consistent.placed found there
  · exact List.length_set.le.trans consistent.within

/-- Positions fit the index's words. -/
theorem pos_le (consistent : Consistent config i map) (inside : pos < map.slots.length) :
    min pos u32Max = pos := by
  apply min_eq_left
  exact (inside.le.trans consistent.within).trans config.cap_le

/-- A slot swapped out. -/
theorem removeAt (consistent : Consistent config i map) (pos : ℕ) :
    Consistent config i (map.removeAt pos).2 := by
  cases held : map.slots[pos]? with
  | none =>
      apply consistent.of_same
      · rw [ShardMap.removeAt, held]
        cases map.slots.getLast? <;> rfl
      · rw [ShardMap.removeAt, held]
        cases map.slots.getLast? <;> rfl
  | some slot =>
      have inside := (List.getElem?_eq_some_iff.1 held).1
      obtain ⟨lastSlot, last, removed⟩ := ShardMap.removeAt_eq held
      have kept := coe_swapRemove held
      have old : ∀ found ∈ swapRemove map.slots pos, found ∈ map.slots := by
        intro found there
        rw [← Multiset.mem_coe, ← kept]
        exact Multiset.mem_cons_of_mem there
      rw [removed]
      constructor
      · -- the swap moves the last slot, unless it is the one that goes
        obtain ⟨init, hslots⟩ : ∃ init, map.slots = init ++ [lastSlot] := by
          refine ⟨map.slots.dropLast, ?_⟩
          have shown : map.slots.getLast? = some lastSlot := by rw [List.getLast?_eq_getElem?, last]
          exact (List.dropLast_append_getLast? lastSlot shown).symm
        have indexed := consistent.indexed
        have fits := consistent.pos_le inside
        dsimp only
        rw [fits]
        clear removed kept old last
        rw [hslots] at held inside indexed ⊢
        rw [List.length_append, List.length_singleton] at inside ⊢
        rw [Nat.add_sub_cancel]
        split
        · rename_i atEnd
          subst atEnd
          obtain rfl : lastSlot = slot := by simpa using held
          exact indexed.swapRemove_last
        · rename_i inner
          rw [List.getElem?_append_left (by omega)] at held
          exact indexed.swapRemove_inner held
      · have nodup := consistent.distinct
        rw [← Multiset.coe_nodup, ← Multiset.map_coe, ← kept, Multiset.map_cons,
          Multiset.nodup_cons] at nodup
        rw [← Multiset.coe_nodup, ← Multiset.map_coe]
        exact nodup.2
      · exact fun found there => consistent.hashed found (old found there)
      · exact fun found there => consistent.placed found (old found there)
      · show (swapRemove map.slots pos).length ≤ _
        rw [length_swapRemove]
        exact (Nat.sub_le _ _).trans consistent.within

/-- A newcomer appended where there is room. -/
theorem insert (consistent : Consistent config i map) (room : map.slots.length < config.perShardCap)
    (hash : slot.hash = config.hasher slot.key) (home : config.shardOf slot.hash = i)
    (absent : ∀ found ∈ map.slots, found.key ≠ slot.key) : Consistent config i (map.insert slot) := by
  have fits : min map.slots.length u32Max = map.slots.length :=
    min_eq_left (room.le.trans config.cap_le)
  constructor
  · simp only [ShardMap.insert, fits]
    exact consistent.indexed.push slot
  · simp only [ShardMap.insert, List.map_append, List.map_singleton]
    apply List.Nodup.append consistent.distinct (List.nodup_singleton _)
    intro other stored new
    obtain rfl := List.mem_singleton.1 new
    obtain ⟨found, member, same⟩ := List.mem_map.1 stored
    exact absent found member same
  · intro found there
    rcases List.mem_append.1 there with there | there
    · exact consistent.hashed found there
    · obtain rfl := List.mem_singleton.1 there
      exact hash
  · intro found there
    rcases List.mem_append.1 there with there | there
    · exact consistent.placed found there
    · obtain rfl := List.mem_singleton.1 there
      exact home
  · simp only [ShardMap.insert, List.length_append, List.length_singleton]
    exact room

/-- No key is stored at two positions. -/
theorem pos_unique (consistent : Consistent config i map) {pos pos' : ℕ} {slot slot' : Slot K S}
    (held : map.slots[pos]? = some slot) (held' : map.slots[pos']? = some slot')
    (same : slot.key = slot'.key) : pos = pos' := by
  have inside := (List.getElem?_eq_some_iff.1 held).1
  rw [← List.length_map Slot.key] at inside
  apply (List.getElem?_inj inside consistent.distinct).1
  rw [List.getElem?_map, List.getElem?_map, held, held', Option.map_some, Option.map_some, same]

/-- A search finds a key exactly where it is stored. -/
theorem position_iff [DecidableEq K] (consistent : Consistent config i map) :
    map.position (config.hasher key) key = some pos ↔
      ∃ slot, map.slots[pos]? = some slot ∧ slot.key = key := by
  have sound : ∀ {pos : ℕ}, map.position (config.hasher key) key = some pos →
      ∃ slot, map.slots[pos]? = some slot ∧ slot.key = key := by
    intro pos found
    obtain ⟨-, holds⟩ := HashTable.find_eq_some found
    cases held : map.slots[pos]? with
    | none =>
        rw [held] at holds
        cases holds
    | some slot =>
        rw [held, Option.any_some, Bool.and_eq_true, beq_iff_eq, beq_iff_eq] at holds
        exact ⟨slot, rfl, holds.2⟩
  refine ⟨sound, ?_⟩
  rintro ⟨slot, held, rfl⟩
  have hash := consistent.hashed slot (List.mem_of_getElem? held)
  have filed : (config.hasher slot.key, pos) ∈ map.index :=
    consistent.indexed.mem_iff.2 ⟨slot, held, hash⟩
  cases found : map.position (config.hasher slot.key) slot.key with
  | none =>
      have missed := HashTable.find_eq_none.1 found pos filed
      rw [held, Option.any_some, hash, beq_self_eq_true, beq_self_eq_true] at missed
      cases missed
  | some pos' =>
      obtain ⟨slot', held', same⟩ := sound found
      rw [consistent.pos_unique held' held same]

theorem position_none [DecidableEq K] (consistent : Consistent config i map)
    (absent : map.position (config.hasher key) key = none) : ∀ slot ∈ map.slots, slot.key ≠ key := by
  intro slot member same
  obtain ⟨pos, held⟩ := List.getElem?_of_mem member
  rw [consistent.position_iff.2 ⟨slot, held, same⟩] at absent
  cases absent

/-- Looking a key up finds its slot exactly when it is stored. -/
theorem get_iff [DecidableEq K] (consistent : Consistent config i map) :
    map.get (config.hasher key) key = some slot ↔ slot ∈ map.slots ∧ slot.key = key := by
  rw [ShardMap.get, Option.bind_eq_some_iff]
  constructor
  · rintro ⟨pos, found, held⟩
    obtain ⟨slot', held', same⟩ := consistent.position_iff.1 found
    obtain rfl : slot' = slot := Option.some.inj (held'.symm.trans held)
    exact ⟨List.mem_of_getElem? held, same⟩
  · rintro ⟨member, same⟩
    obtain ⟨pos, held⟩ := List.getElem?_of_mem member
    exact ⟨pos, consistent.position_iff.2 ⟨slot, held, same⟩, held⟩

end Consistent

/-!
### The lock sections
-/

variable [KeyState S] {i : Fin config.shardCount} {map map' : ShardMap K S}

/-- Every step of room-making keeps a shard consistent. -/
theorem RoomStep.consistent {now nowMs : ℕ} {size : TableSize} {handed : List (Handover K)}
    (step : RoomStep now nowMs size map handed map') (consistent : Consistent config i map) :
    Consistent config i map' := by
  cases step with
  | @refresh pos slot held =>
      obtain ⟨hash, key, -⟩ := slot.recoversAt_marks now nowMs
      exact consistent.setSlot held hash key
  | spare held => exact consistent.setSlot held rfl rfl
  | cursors hand sweep => exact consistent.of_same rfl rfl
  | release held => exact consistent.removeAt _
  | settle held => exact consistent.removeAt _
  | handOver held => exact (consistent.removeAt _).withRecovery _

theorem RoomRun.consistent {now nowMs : ℕ} {size : TableSize} {handed : List (Handover K)}
    (run : RoomRun now nowMs size map handed map') (consistent : Consistent config i map) :
    Consistent config i map' :=
  run.invariant (Consistent config i) (fun step => step.consistent) consistent

/-- Making room does not bring an absent key back. -/
theorem RoomRun.absent {now nowMs : ℕ} {size : TableSize} {handed : List (Handover K)} {key : K}
    (run : RoomRun now nowMs size map handed map') (absent : ∀ slot ∈ map.slots, slot.key ≠ key) :
    ∀ slot ∈ map'.slots, slot.key ≠ key := by
  apply run.invariant (fun map => ∀ slot ∈ map.slots, slot.key ≠ key) _ absent
  intro map map' handed step absent slot member
  obtain ⟨old, there, same, -⟩ := step.from_old member
  rw [← same]
  exact absent old there

variable [DecidableEq K]

theorem acquireStored_consistent (consistent : Consistent config i map) (key : K) (n now : ℕ) :
    Consistent config i (map.acquireStored config key n now).2 := by
  rw [ShardMap.acquireStored]
  split
  · exact consistent
  · split
    · exact consistent
    · rename_i slot held
      apply consistent.setSlot held
      · split
        · rw [Slot.touchIdle]
          split <;> rfl
        · rfl
      · split
        · rw [Slot.touchIdle]
          split <;> rfl
        · rfl

/-- A check that misses saw that the key is not stored. -/
theorem acquireStored_none (consistent : Consistent config i map) {key : K} {n now : ℕ}
    (missed : (map.acquireStored config key n now).1 = none) : ∀ slot ∈ map.slots, slot.key ≠ key := by
  rw [ShardMap.acquireStored] at missed
  split at missed
  · rename_i absent
    exact consistent.position_none absent
  · rename_i pos found
    obtain ⟨slot, held, -⟩ := consistent.position_iff.1 found
    rw [held] at missed
    cases missed

/-- What a check of a stored key did: it found the slot, and acquired from its state. -/
theorem acquireStored_some (consistent : Consistent config i map) {key : K} {n now : ℕ}
    {decision : Decision} (found : (map.acquireStored config key n now).1 = some decision) :
    ∃ pos slot slot', map.slots[pos]? = some slot ∧ slot.key = key ∧
      (map.acquireStored config key n now).2 = map.setSlot pos slot' ∧
      slot'.hash = slot.hash ∧ slot'.key = slot.key ∧ slot'.referenced = true ∧
      decision = (KeyState.acquire slot.state n now).1 ∧
      slot'.state = (KeyState.acquire slot.state n now).2 := by
  cases position : map.position (config.hasher key) key with
  | none =>
      rw [ShardMap.acquireStored, position] at found
      cases found
  | some pos =>
      obtain ⟨slot, held, same⟩ := consistent.position_iff.1 position
      rw [ShardMap.acquireStored, position] at found ⊢
      simp only [held] at found ⊢
      refine ⟨pos, slot, _, held, same, rfl, ?_⟩
      have idle : ∀ slot : Slot K S, (slot.touchIdle (millis now)).hash = slot.hash ∧
          (slot.touchIdle (millis now)).key = slot.key ∧
          (slot.touchIdle (millis now)).referenced = slot.referenced ∧
          (slot.touchIdle (millis now)).state = slot.state := by
        intro slot
        rw [Slot.touchIdle]
        split <;> exact ⟨rfl, rfl, rfl, rfl⟩
      obtain ⟨hash, key, referenced, state⟩ := idle slot.touch
      split at found
      · rename_i tracked
        rw [if_pos tracked]
        rw [state] at found ⊢
        exact ⟨hash, key, referenced, (Option.some.inj found).symm, rfl⟩
      · rename_i untracked
        rw [if_neg untracked]
        exact ⟨rfl, rfl, rfl, (Option.some.inj found).symm, rfl⟩

/-- A key is tracked exactly when a check finds it. -/
theorem tracks_iff {store : Store config S} {key : K} {n now : ℕ}
    (consistent : Consistent config (config.shardFor key) (store (config.shardFor key))) :
    store.tracks key = true ↔
      ((store (config.shardFor key)).acquireStored config key n now).1 ≠ none := by
  rw [Store.tracks, ShardMap.acquireStored]
  cases found : (store (config.shardFor key)).position (config.hasher key) key with
  | none => simp
  | some pos =>
      obtain ⟨slot, held, -⟩ := consistent.position_iff.1 found
      simp [held]

/-- A check of a stored key acquires from its state. -/
theorem check_stored {store : Store config S} {key : K} {pos : ℕ} {slot : Slot K S}
    (consistent : Consistent config (config.shardFor key) (store (config.shardFor key)))
    (held : (store (config.shardFor key)).slots[pos]? = some slot) (same : slot.key = key) (n now : ℕ)
    (makeState : ℕ → Option S) :
    ∃ slot', slot'.hash = slot.hash ∧ slot'.key = slot.key ∧
      slot'.state = (KeyState.acquire slot.state n now).2 ∧
      store.check key n now makeState = (.plain (KeyState.acquire slot.state n now).1,
        Function.update store (config.shardFor key) ((store (config.shardFor key)).setSlot pos slot')) := by
  cases read : ((store (config.shardFor key)).acquireStored config key n now).1 with
  | none => exact absurd same (acquireStored_none consistent read slot (List.mem_of_getElem? held))
  | some decision =>
      obtain ⟨pos', slot₁, slot', held', same', after, hash, key', -, decided, state⟩ :=
        acquireStored_some consistent read
      obtain rfl := consistent.pos_unique held held' (same.trans same'.symm)
      obtain rfl := Option.some.inj (held.symm.trans held')
      refine ⟨slot', hash, key', state, ?_⟩
      rw [Store.check, ← decided, ← after]
      cases whole : (store (config.shardFor key)).acquireStored config key n now with
      | mk found map =>
          rw [whole] at read
          obtain rfl : found = some decision := read
          rfl

/-- The four things a check can do to the shard of its key. -/
inductive CheckEffect (config : StoreConfig K) (map : ShardMap K S) (key : K) (n now : ℕ)
    (makeState : ℕ → Option S) : Outcome K → ShardMap K S → Prop where
  /-- The key is stored, and acquires. -/
  | found {decision : Decision} (held : (map.acquireStored config key n now).1 = some decision) :
      CheckEffect config map key n now makeState (.plain decision) (map.acquireStored config key n now).2
  /-- There is no state for a new key. -/
  | closed (missed : (map.acquireStored config key n now).1 = none) (unmade : makeState now = none) :
      CheckEffect config map key n now makeState (.plain (closed n)) map
  /-- No room can be made. -/
  | refused {state : S} {due : ℕ} (missed : (map.acquireStored config key n now).1 = none)
      (made : makeState now = some state) (full : (map.makeRoom config now (millis now)).1 = .error due) :
      CheckEffect config map key n now makeState
        { decision := .deny (fromMillis (max (due - millis now) 1)), inserted := none, refused := true
          reclaimed := (map.makeRoom config now (millis now)).2.2 }
        (map.makeRoom config now (millis now)).2.1
  /-- The key is stored where room has been made. -/
  | stored {state : S} (missed : (map.acquireStored config key n now).1 = none)
      (made : makeState now = some state) (room : (map.makeRoom config now (millis now)).1 = .ok ()) :
      CheckEffect config map key n now makeState
        { decision := ((map.makeRoom config now (millis now)).2.1.store config key n now state).1.1
          inserted := some ((map.makeRoom config now (millis now)).2.1.store config key n now state).1.2
          refused := false
          reclaimed := (map.makeRoom config now (millis now)).2.2 }
        ((map.makeRoom config now (millis now)).2.1.store config key n now state).2

theorem checkWrite_effect (map : ShardMap K S) (key : K) (n : ℕ) {now : ℕ} {makeState : ℕ → Option S}
    {state : S} (made : makeState now = some state) :
    CheckEffect config map key n now makeState (map.checkWrite config key n now state).1
      (map.checkWrite config key n now state).2 := by
  rw [ShardMap.checkWrite]
  split
  · rename_i decision map₁ held
    obtain rfl : (map.acquireStored config key n now).2 = map₁ := by rw [held]
    exact .found (congrArg Prod.fst held)
  · rename_i map₀ missed
    have missed := congrArg Prod.fst missed
    split
    · rename_i due map₁ reclaimed full
      obtain rfl : (map.makeRoom config now (millis now)).2.1 = map₁ := by rw [full]
      obtain rfl : (map.makeRoom config now (millis now)).2.2 = reclaimed := by rw [full]
      exact .refused missed made (congrArg Prod.fst full)
    · rename_i map₁ reclaimed room
      obtain rfl : (map.makeRoom config now (millis now)).2.1 = map₁ := by rw [room]
      obtain rfl : (map.makeRoom config now (millis now)).2.2 = reclaimed := by rw [room]
      exact .stored missed made (congrArg Prod.fst room)

/-- A check changes the shard of its key alone, in one of the four ways. -/
theorem check_effect (store : Store config S) (key : K) (n now : ℕ) (makeState : ℕ → Option S) :
    ∃ map', (store.check key n now makeState).2 = Function.update store (config.shardFor key) map' ∧
      CheckEffect config (store (config.shardFor key)) key n now makeState
        (store.check key n now makeState).1 map' := by
  rw [Store.check]
  dsimp only
  split
  · rename_i decision map' held
    obtain rfl : ((store (config.shardFor key)).acquireStored config key n now).2 = map' := by rw [held]
    exact ⟨_, rfl, .found (congrArg Prod.fst held)⟩
  · rename_i map₀ missed
    have missed := congrArg Prod.fst missed
    split
    · rename_i unmade
      exact ⟨_, (Function.update_eq_self _ _).symm, .closed missed unmade⟩
    · rename_i state made
      exact ⟨_, rfl, checkWrite_effect _ key n made⟩

omit [DecidableEq K] in
/-- Storing a newcomer where there is room. -/
theorem store_consistent {key : K} (consistent : Consistent config (config.shardFor key) map)
    (room : map.slots.length < config.perShardCap) (absent : ∀ slot ∈ map.slots, slot.key ≠ key)
    (n now : ℕ) (state : S) :
    Consistent config (config.shardFor key) (map.store config key n now state).2 := by
  rw [ShardMap.store]
  exact (consistent.withRecovery _).insert room rfl rfl absent

/-- Whatever a check does, it stores a key only where there is room, and never twice. -/
theorem CheckEffect.consistent {key : K} {n now : ℕ} {makeState : ℕ → Option S} {outcome : Outcome K}
    (effect : CheckEffect config map key n now makeState outcome map')
    (consistent : Consistent config (config.shardFor key) map) :
    Consistent config (config.shardFor key) map' := by
  obtain ⟨⟨handed, run, -⟩, fits⟩ := makeRoom_madeBy config map now (millis now)
  cases effect with
  | found held => exact acquireStored_consistent consistent key n now
  | closed missed unmade => exact consistent
  | refused missed made full => exact run.consistent consistent
  | stored missed made room =>
      exact store_consistent (run.consistent consistent) (fits room consistent.within)
        (run.absent (acquireStored_none consistent missed)) n now _

theorem checkWrite_consistent {key : K} (consistent : Consistent config (config.shardFor key) map)
    (n now : ℕ) (state : S) :
    Consistent config (config.shardFor key) (map.checkWrite config key n now state).2 := by
  have effect : CheckEffect config map key n now (fun _ => some state)
      (map.checkWrite config key n now state).1 _ := checkWrite_effect map key n rfl
  exact effect.consistent consistent

theorem peekSection_consistent (consistent : Consistent config i map) (key : K) (now : ℕ) :
    Consistent config i (map.peekSection config key now).2 := by
  rw [ShardMap.peekSection]
  split
  · exact consistent
  · split
    · exact consistent
    · rename_i slot held
      exact consistent.setSlot held rfl rfl

theorem resetRead_consistent (consistent : Consistent config i map) (key : K) (now : ℕ) :
    Consistent config i (map.resetRead config key now).2 := by
  rw [ShardMap.resetRead]
  split
  · exact consistent
  · split
    · exact consistent
    · rename_i slot held
      exact consistent.setSlot held rfl rfl

omit [KeyState S] in
theorem removeSection_consistent (consistent : Consistent config i map) (key : K) (now : ℕ) :
    Consistent config i (map.removeSection config key now).2 := by
  rw [ShardMap.removeSection]
  dsimp only
  cases map.position (config.hasher key) key with
  | none => exact consistent.withRecovery _
  | some pos => exact (consistent.removeAt pos).withRecovery _

omit [DecidableEq K] in
theorem retainSlots_consistent (consistent : Consistent config i map) (now steps cursor : ℕ) :
    Consistent config i (ShardMap.retainSlots now steps cursor map).2 := by
  induction steps generalizing cursor map with
  | zero => exact consistent
  | succ steps inductionHypothesis =>
      rw [ShardMap.retainSlots]
      split
      · exact inductionHypothesis consistent _
      · rename_i slot held
        have kept : Consistent config i
            (map.setSlot (cursor - 1) { slot with state := (KeyState.isFull slot.state now).2 }) :=
          consistent.setSlot held rfl rfl
        dsimp only
        split
        · exact inductionHypothesis (kept.removeAt _) _
        · exact inductionHypothesis kept _

omit [DecidableEq K] in
theorem retainChunk_consistent (consistent : Consistent config i map) (cursor now : ℕ) :
    Consistent config i (map.retainChunk cursor now).2 := by
  rw [ShardMap.retainChunk]
  generalize min cursor map.slots.length = cursor
  have walked := retainSlots_consistent consistent now (cursor - (cursor - retainChunkSlots)) cursor
  dsimp only
  generalize ShardMap.retainSlots now (cursor - (cursor - retainChunkSlots)) cursor map = result at walked ⊢
  split
  · exact walked.withRecovery _
  · exact walked

omit [KeyState S] [DecidableEq K] in
/-- Every slot is already filed under its own hash, so rehashing changes nothing. -/
theorem shrinkSection_consistent (consistent : Consistent config i map) :
    Consistent config i map.shrinkSection :=
  consistent.of_same consistent.indexed.rehash rfl

end Shard

/-!
### Concurrent calls
-/

/-- A call on the store.  A check reads the clock itself, under way. -/
inductive StoreCall (K : Type) where
  | check (key : K) (n : ℕ)
  | peek (key : K) (now : ℕ)
  | reset (key : K) (now : ℕ)
  | remove (key : K) (now : ℕ)
  | clear
  | retainRecent (now : ℕ)
  | shrinkToFit

/-- The lock section a call has to run next. -/
inductive StorePc (K S : Type) where
  | checking (key : K) (n : ℕ)
  /-- The key was missing at the last look, and `state` has been made for it. -/
  | storing (key : K) (n now : ℕ) (state : S)
  | peeking (key : K) (now : ℕ)
  | resetting (key : K) (now : ℕ)
  | forgetting (key : K) (now : ℕ)
  | removing (key : K) (now : ℕ)
  | clearing (i : ℕ)
  | retaining (i cursor now : ℕ)
  | shrinking (i : ℕ)
  | returned

/-- Where a call starts.  The walks over all shards start at the first one. -/
def StoreCall.start {K S : Type} : StoreCall K → StorePc K S
  | check key n => .checking key n
  | peek key now => .peeking key now
  | reset key now => .resetting key now
  | remove key now => .removing key now
  | clear => .clearing 0
  | retainRecent now => .retaining 0 u64Max now
  | shrinkToFit => .shrinking 0

section Calls

variable {K S : Type} [DecidableEq K] [KeyState S]

/-- One lock section of a call.  The clock readings of a check, and the state made for a new key, are
    whatever the caller's clock and quota resolver give. -/
inductive SectionStep (config : StoreConfig K) :
    Store config S → StorePc K S → Store config S → StorePc K S → Prop where
  | checkHit {store : Store config S} {key : K} {n : ℕ} {decision : Decision} (now : ℕ)
      (found : ((store (config.shardFor key)).acquireStored config key n now).1 = some decision) :
      SectionStep config store (.checking key n)
        (Function.update store (config.shardFor key)
          ((store (config.shardFor key)).acquireStored config key n now).2) .returned
  | checkMiss {store : Store config S} {key : K} {n : ℕ} (now : ℕ) (state : S)
      (missed : ((store (config.shardFor key)).acquireStored config key n now).1 = none) :
      SectionStep config store (.checking key n) store (.storing key n now state)
  /-- A quota that admits nothing is denied without a write section. -/
  | checkClosed {store : Store config S} {key : K} {n : ℕ} (now : ℕ)
      (missed : ((store (config.shardFor key)).acquireStored config key n now).1 = none) :
      SectionStep config store (.checking key n) store .returned
  | checkWrite {store : Store config S} {key : K} {n now : ℕ} {state : S} :
      SectionStep config store (.storing key n now state)
        (Function.update store (config.shardFor key)
          ((store (config.shardFor key)).checkWrite config key n now state).2) .returned
  | peek {store : Store config S} {key : K} {now : ℕ} :
      SectionStep config store (.peeking key now)
        (Function.update store (config.shardFor key)
          ((store (config.shardFor key)).peekSection config key now).2) .returned
  | resetHit {store : Store config S} {key : K} {now : ℕ}
      (found : ((store (config.shardFor key)).resetRead config key now).1 = true) :
      SectionStep config store (.resetting key now)
        (Function.update store (config.shardFor key)
          ((store (config.shardFor key)).resetRead config key now).2) .returned
  | resetMiss {store : Store config S} {key : K} {now : ℕ}
      (missed : ((store (config.shardFor key)).resetRead config key now).1 = false) :
      SectionStep config store (.resetting key now) store (.forgetting key now)
  | resetWrite {store : Store config S} {key : K} {now : ℕ} :
      SectionStep config store (.forgetting key now)
        (Function.update store (config.shardFor key)
          ((store (config.shardFor key)).resetWrite config key now).2) .returned
  | remove {store : Store config S} {key : K} {now : ℕ} :
      SectionStep config store (.removing key now)
        (Function.update store (config.shardFor key)
          ((store (config.shardFor key)).removeSection config key now).2) .returned
  | clear {store : Store config S} (i : Fin config.shardCount) :
      SectionStep config store (.clearing i) (Function.update store i .new) (.clearing (i + 1))
  | retain {store : Store config S} (i : Fin config.shardCount) {cursor now : ℕ} :
      SectionStep config store (.retaining i cursor now)
        (Function.update store i ((store i).retainChunk cursor now).2)
        (if ((store i).retainChunk cursor now).1.2 = 0 then .retaining (i + 1) u64Max now
          else .retaining i ((store i).retainChunk cursor now).1.2 now)
  | shrink {store : Store config S} (i : Fin config.shardCount) :
      SectionStep config store (.shrinking i) (Function.update store i (store i).shrinkSection)
        (.shrinking (i + 1))

/-- Any number of threads, each running one call. -/
def storeProgram (ι : Type) (config : StoreConfig K) :
    Interleaving.Program ι (Store config S) (StorePc K S) :=
  fun _ store pc store' pc' => SectionStep config store pc store' pc'

variable {config : StoreConfig K}

/-- Every lock section keeps every shard consistent. -/
theorem SectionStep.consistent {store store' : Store config S} {pc pc' : StorePc K S}
    (step : SectionStep config store pc store' pc') (consistent : ∀ i, Consistent config i (store i)) :
    ∀ i, Consistent config i (store' i) := by
  have update : ∀ (j : Fin config.shardCount) (map : ShardMap K S), Consistent config j map →
      ∀ i, Consistent config i (Function.update store j map i) := by
    intro j map kept
    exact (Function.forall_update_iff store (Consistent config)).2 ⟨kept, fun i _ => consistent i⟩
  cases step with
  | @checkHit key n _ now =>
      exact update _ _ (acquireStored_consistent (consistent _) key n now)
  | checkMiss => exact consistent
  | checkClosed => exact consistent
  | @checkWrite key n now state => exact update _ _ (checkWrite_consistent (consistent _) n now state)
  | @peek key now => exact update _ _ (peekSection_consistent (consistent _) key now)
  | @resetHit key now => exact update _ _ (resetRead_consistent (consistent _) key now)
  | resetMiss => exact consistent
  | resetWrite => exact update _ _ ((consistent _).withRecovery _)
  | @remove key now => exact update _ _ (removeSection_consistent (consistent _) key now)
  | clear i => exact update i _ .new
  | @retain i cursor now => exact update i _ (retainChunk_consistent (consistent i) cursor now)
  | shrink i => exact update i _ (shrinkSection_consistent (consistent i))

end Calls

/-!
### The memory bound
-/

/-- The shards' shares of a cap add up to little more than the cap. -/
theorem shardCount_mul_capFor_le {eviction : Eviction} {maxKeys : ℕ} (capped : eviction.maxKeys = some maxKeys)
    {shardCount : ℕ} (positive : 0 < shardCount) :
    shardCount * StoreConfig.capFor shardCount eviction ≤ maxKeys + shardCount := by
  have share : StoreConfig.capFor shardCount eviction ≤ max 1 (maxKeys ⌈/⌉ shardCount) := by
    rw [StoreConfig.capFor, capped]
    exact max_le_max_left _ (min_le_left _ _)
  have rounded : shardCount * (maxKeys ⌈/⌉ shardCount) ≤ maxKeys + shardCount := by
    rw [Nat.ceilDiv_eq_add_pred_div]
    have cut := Nat.mul_div_le (maxKeys + shardCount - 1) shardCount
    omega
  apply (Nat.mul_le_mul_left shardCount share).trans
  rcases le_total 1 (maxKeys ⌈/⌉ shardCount) with several | one
  · rw [max_eq_right several]
    exact rounded
  · rw [max_eq_left one]
    omega

section Bound

variable {K S : Type} [DecidableEq K] [KeyState S]

/-- In every state that any interleaving of the lock sections of any calls reaches, every shard is
    consistent, looking a key up finds its slot exactly when it is stored, and a store with
    `max_keys = m` tracks at most `m + shard_count` keys. -/
theorem shards_consistent_and_bounded {ι : Type} [DecidableEq ι] (hasher : K → ℕ) (shards : ℕ)
    (eviction : Eviction) (minIdle : ℕ) (calls : ι → StoreCall K)
    {c : Interleaving.Config ι (Store (StoreConfig.new hasher shards eviction minIdle) S) (StorePc K S)}
    (reach : Interleaving.Reachable (storeProgram ι (StoreConfig.new hasher shards eviction minIdle))
      { mem := Store.new, loc := fun i => (calls i).start } c) :
    (∀ i, Consistent (StoreConfig.new hasher shards eviction minIdle) i (c.mem i)) ∧
      (∀ (i : Fin _) (key : K) (slot : Slot K S), slot ∈ (c.mem i).slots ∧ slot.key = key ↔
        i = (StoreConfig.new hasher shards eviction minIdle).shardFor key ∧
          (c.mem i).get (hasher key) key = some slot) ∧
      ∀ m, eviction.maxKeys = some m →
        Store.len c.mem ≤ m + (StoreConfig.new hasher shards eviction minIdle).shardCount := by
  have consistent : ∀ i, Consistent (StoreConfig.new hasher shards eviction minIdle) i (c.mem i) := by
    apply reach.invariant (fun c => ∀ i, Consistent _ i (c.mem i))
    · exact fun i => .new
    · exact fun c _ _ _ consistent step => SectionStep.consistent step consistent
  refine ⟨consistent, ?_, ?_⟩
  · intro i key slot
    constructor
    · rintro ⟨member, rfl⟩
      have home := (consistent i).placed slot member
      rw [(consistent i).hashed slot member] at home
      exact ⟨home.symm, (consistent i).get_iff.2 ⟨member, rfl⟩⟩
    · rintro ⟨-, found⟩
      exact (consistent i).get_iff.1 found
  · intro m capped
    calc Store.len c.mem
        ≤ ∑ _i : Fin (StoreConfig.new hasher shards eviction minIdle).shardCount,
            (StoreConfig.new hasher shards eviction minIdle).perShardCap :=
          Finset.sum_le_sum fun i _ => (consistent i).within
      _ = (StoreConfig.new hasher shards eviction minIdle).shardCount *
            (StoreConfig.new hasher shards eviction minIdle).perShardCap := by
          rw [Finset.sum_const, Finset.card_univ, Fintype.card_fin, smul_eq_mul]
      _ ≤ m + (StoreConfig.new hasher shards eviction minIdle).shardCount :=
          shardCount_mul_capFor_le capped (StoreConfig.shardCountFor_pos shards eviction)

end Bound

/-- Two threads race to store one key in a store of one key: both miss, and only one stores it. -/
theorem shards_consistent_and_bounded_racing_checks :
    let eviction : Eviction := { maxKeys := some 1, idleTtl := none, overflow := .failClosed }
    let config := StoreConfig.new (id : ℕ → ℕ) 1 eviction 0
    ∃ c : Interleaving.Config (Fin 2) (Store config Gcra) (StorePc ℕ Gcra),
      Interleaving.Reachable (storeProgram (Fin 2) config)
        { mem := Store.new, loc := fun _ => (StoreCall.check 7 1).start } c ∧
      (∀ i, c.loc i matches .returned) ∧ Store.len c.mem = 1 ∧ Store.len c.mem ≤ 1 + config.shardCount := by
  intro eviction config
  let state := Gcra.new (.perSecond 1 (by decide))
  let start : Interleaving.Config (Fin 2) (Store config Gcra) (StorePc ℕ Gcra) :=
    { mem := Store.new, loc := fun _ => (StoreCall.check 7 1).start }
  let c₁ : Interleaving.Config (Fin 2) (Store config Gcra) (StorePc ℕ Gcra) :=
    { mem := start.mem, loc := Function.update start.loc 0 (.storing 7 1 0 state) }
  let c₂ : Interleaving.Config (Fin 2) (Store config Gcra) (StorePc ℕ Gcra) :=
    { mem := start.mem, loc := Function.update c₁.loc 1 (.storing 7 1 0 state) }
  let written (store : Store config Gcra) : Store config Gcra :=
    Function.update store (config.shardFor 7)
      ((store (config.shardFor 7)).checkWrite config 7 1 0 state).2
  let c₃ : Interleaving.Config (Fin 2) (Store config Gcra) (StorePc ℕ Gcra) :=
    { mem := written c₂.mem, loc := Function.update c₂.loc 0 .returned }
  let c₄ : Interleaving.Config (Fin 2) (Store config Gcra) (StorePc ℕ Gcra) :=
    { mem := written c₃.mem, loc := Function.update c₃.loc 1 .returned }
  have missed : ((Store.new (config.shardFor 7) : ShardMap ℕ Gcra).acquireStored config 7 1 0).1 = none :=
    rfl
  have first : Interleaving.Step (storeProgram (Fin 2) config) start c₁ :=
    .thread start 0 (SectionStep.checkMiss 0 state missed)
  have second : Interleaving.Step (storeProgram (Fin 2) config) c₁ c₂ :=
    .thread c₁ 1 (SectionStep.checkMiss 0 state missed)
  have third : Interleaving.Step (storeProgram (Fin 2) config) c₂ c₃ := .thread c₂ 0 .checkWrite
  have fourth : Interleaving.Step (storeProgram (Fin 2) config) c₃ c₄ := .thread c₃ 1 .checkWrite
  have reach : Interleaving.Reachable (storeProgram (Fin 2) config) start c₄ :=
    (((Relation.ReflTransGen.single first).tail second).tail third).tail fourth
  refine ⟨c₄, reach, by decide, by decide, ?_⟩
  exact (shards_consistent_and_bounded id 1 eviction 0 (fun _ => StoreCall.check 7 1) reach).2.2 1 rfl

end RateNet
