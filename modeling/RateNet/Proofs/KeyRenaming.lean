/-
Module: RateNet.Proofs.KeyRenaming
Purpose: The store is indifferent to what its keys are. It hashes a key, compares it with stored ones and
  keeps it, and does nothing else with it; so a store whose keys are renamed one to one, with the hashes
  kept, does to the renamed keys exactly what it did to the originals: the same decisions, the same
  evictions at the same places, the same records.
Trusted boundary: none
Main exports: ShardMap.rename, StoreConfig.comap, Store.rename, Store.check_rename, Store.call_rename
-/
import RateNet.Store.Limiter

namespace RateNet

open DenseIndex

variable {K L S : Type} (f : K → L)

/-!
### Renaming
-/

namespace Slot

/-- The slot with its key renamed. -/
def rename (slot : Slot K S) : Slot L S := { slot with key := f slot.key }

variable (slot : Slot K S)

@[simp] theorem state_rename : (slot.rename f).state = slot.state := rfl

@[simp] theorem hash_rename : (slot.rename f).hash = slot.hash := rfl

@[simp] theorem seeded_rename : (slot.rename f).seeded = slot.seeded := rfl

@[simp] theorem referenced_rename : (slot.rename f).referenced = slot.referenced := rfl

@[simp] theorem isExpired_rename (nowMs : ℕ) (ttlMs : Option ℕ) :
    (slot.rename f).isExpired nowMs ttlMs = slot.isExpired nowMs ttlMs := rfl

theorem recoversAt_rename [KeyState S] (now nowMs : ℕ) :
    (slot.rename f).recoversAt now nowMs =
      ((slot.recoversAt now nowMs).1, (slot.recoversAt now nowMs).2.rename f) := by
  unfold recoversAt rename
  split_ifs
  · rfl
  · rcases KeyState.isFull slot.state now with ⟨full | full, state⟩ <;> rfl
  · rfl

theorem touchIdle_rename (nowMs : ℕ) :
    (slot.rename f).touchIdle nowMs = (slot.touchIdle nowMs).rename f := by
  unfold touchIdle rename
  split_ifs <;> rfl

end Slot

def Handover.rename (handover : Handover K) : Handover L := { handover with key := f handover.key }

def Reclaimed.rename (out : Reclaimed K) : Reclaimed L :=
  { out with handed := out.handed.map (Handover.rename f) }

theorem Reclaimed.count_rename (out : Reclaimed K) (handover : Handover K) (recorded : Recorded) :
    (out.rename f).count (handover.rename f) recorded = (out.count handover recorded).rename f := by
  cases recorded <;> simp only [count, rename, List.map_append, List.map_cons, List.map_nil]

def Outcome.rename (outcome : Outcome K) : Outcome L :=
  { outcome with reclaimed := outcome.reclaimed.rename f }

theorem swapRemove_map {E E' : Type} (g : E → E') (entries : List E) (i : ℕ) :
    swapRemove (entries.map g) i = (swapRemove entries i).map g := by
  simp only [swapRemove, List.getLast?_map]
  cases entries.getLast? with
  | none => rfl
  | some last => simp only [Option.map_some, ← List.map_set, List.map_dropLast]

/-!
### One shard
-/

namespace ShardMap

/-- The shard with its keys renamed. -/
def rename (map : ShardMap K S) : ShardMap L S := { map with slots := map.slots.map (Slot.rename f) }

theorem hashAt_rename (slots : List (Slot K S)) (p : ℕ) :
    ((slots.map (Slot.rename f))[p]?).elim 0 Slot.hash = (slots[p]?).elim 0 Slot.hash := by
  rw [List.getElem?_map]
  cases slots[p]? <;> rfl

variable (map : ShardMap K S)

@[simp] theorem slots_rename : (map.rename f).slots = map.slots.map (Slot.rename f) := rfl

@[simp] theorem sweep_rename : (map.rename f).sweep = map.sweep := rfl

@[simp] theorem recovery_rename : (map.rename f).recovery = map.recovery := rfl

@[simp] theorem recovery_setSlot (pos : ℕ) (slot : Slot K S) : (map.setSlot pos slot).recovery = map.recovery :=
  rfl

theorem length_rename : (map.rename f).slots.length = map.slots.length := List.length_map _

theorem setSlot_rename (pos : ℕ) (slot : Slot K S) :
    (map.rename f).setSlot pos (slot.rename f) = (map.setSlot pos slot).rename f := by
  simp only [setSlot, rename, List.map_set]

theorem insert_rename (slot : Slot K S) : (map.rename f).insert (slot.rename f) = (map.insert slot).rename f := by
  have pushed : map.slots.map (Slot.rename f) ++ [slot.rename f] = (map.slots ++ [slot]).map (Slot.rename f) := by
    rw [List.map_append, List.map_cons, List.map_nil]
  simp only [insert, rename, pushed, hashAt_rename, List.length_map]
  rfl

theorem removeAt_rename (pos : ℕ) :
    (map.rename f).removeAt pos =
      ((map.removeAt pos).1.map (Slot.rename f), (map.removeAt pos).2.rename f) := by
  simp only [removeAt, rename, List.getLast?_map, List.getElem?_map, List.length_map, swapRemove_map]
  cases map.slots.getLast? with
  | none => rfl
  | some last => cases map.slots[pos]? <;> rfl

theorem shrinkSection_rename : (map.rename f).shrinkSection = map.shrinkSection.rename f := by
  simp only [shrinkSection, rename, hashAt_rename]

variable {f} in
theorem position_rename [DecidableEq K] [DecidableEq L] (injective : Function.Injective f) (hash : ℕ) (key : K) :
    (map.rename f).position hash (f key) = map.position hash key := by
  simp only [position, slots_rename, List.getElem?_map, Option.any_map]
  congr 1
  funext pos
  congr 1
  funext slot
  -- the keys compare alike
  have keys : (f slot.key == f key) = (slot.key == key) := by
    rw [Bool.eq_iff_iff, beq_iff_eq, beq_iff_eq, injective.eq_iff]
  simp only [Slot.rename, keys]

/-!
### Making room
-/

variable [KeyState S]

theorem evictable_rename (pos now nowMs : ℕ) :
    (map.rename f).evictable pos now nowMs =
      ((map.evictable pos now nowMs).1, (map.evictable pos now nowMs).2.rename f) := by
  simp only [evictable, slots_rename, List.getElem?_map]
  cases map.slots[pos]? with
  | none => rfl
  | some slot =>
      simp only [Option.map_some, Slot.recoversAt_rename, setSlot_rename]
      unfold rename Slot.rename
      split_ifs <;> rfl

omit [KeyState S] in
theorem setSlot_removeAt_rename (pos : ℕ) (slot : Slot K S) :
    (((map.rename f).setSlot pos (slot.rename f)).removeAt pos).2 =
      ((map.setSlot pos slot).removeAt pos).2.rename f := by
  rw [setSlot_rename, removeAt_rename]

theorem evictAt_rename (pos : ℕ) (recovered : Bool) (now nowMs : ℕ) (size : TableSize) (out : Reclaimed K) :
    (map.rename f).evictAt pos recovered now nowMs size (out.rename f) =
      ((map.evictAt pos recovered now nowMs size out).1.rename f,
        (map.evictAt pos recovered now nowMs size out).2.rename f) := by
  cases recovered with
  | true => simp only [evictAt, removeAt_rename]
  | false =>
      simp only [evictAt, slots_rename, List.getElem?_map]
      cases map.slots[pos]? with
      | none => simp only [Option.map_none, removeAt_rename]
      | some slot =>
          simp only [Option.map_some, Slot.state_rename, Slot.hash_rename, Slot.seeded_rename, recovery_setSlot,
            recovery_rename]
          rcases KeyState.debt slot.state now with ⟨_ | debt, state⟩
          · exact congrArg (·, out.rename f) (setSlot_removeAt_rename f map pos { slot with state })
          · simp only
            let handover : Handover K :=
              { key := slot.key, hash := slot.hash, seeded := slot.seeded, debt, before := map.recovery }
            rcases map.recovery.record slot.hash debt nowMs size slot.seeded with ⟨_ | recorded, recovery⟩
            · exact congrArg (·, out.rename f)
                (setSlot_rename f { map with recovery } pos { slot with state })
            · exact Prod.ext (setSlot_removeAt_rename f { map with recovery } pos { slot with state })
                (out.count_rename f handover recorded)

theorem sweepIdle_rename (now nowMs ttlMs : ℕ) (size : TableSize) (steps : ℕ) (map : ShardMap K S)
    (out : Reclaimed K) :
    sweepIdle now nowMs ttlMs size steps (map.rename f) (out.rename f) =
      ((sweepIdle now nowMs ttlMs size steps map out).1.rename f,
        (sweepIdle now nowMs ttlMs size steps map out).2.rename f) := by
  induction steps generalizing map out with
  | zero => rfl
  | succ steps inductionHypothesis =>
      have wrapped : (if map.slots.length ≤ map.sweep then { map.rename f with sweep := 0 } else map.rename f) =
          (if map.slots.length ≤ map.sweep then { map with sweep := 0 } else map).rename f := by
        split_ifs <;> rfl
      have gone (map₁ : ShardMap K S) (recovered : Bool) :
          let evicted := (map₁.rename f).evictAt map₁.sweep recovered now nowMs size (out.rename f)
          let evicted₁ := map₁.evictAt map₁.sweep recovered now nowMs size out
          let left := sweepIdle now nowMs ttlMs size steps evicted₁.1
            { evicted₁.2 with expired := evicted₁.2.expired + 1 }
          sweepIdle now nowMs ttlMs size steps evicted.1 { evicted.2 with expired := evicted.2.expired + 1 } =
            (left.1.rename f, left.2.rename f) := by
        intro evicted evicted₁ left
        rw [show evicted = _ from evictAt_rename f map₁ map₁.sweep recovered now nowMs size out]
        exact inductionHypothesis evicted₁.1 { evicted₁.2 with expired := evicted₁.2.expired + 1 }
      simp only [sweepIdle, length_rename, sweep_rename, wrapped]
      generalize (if map.slots.length ≤ map.sweep then { map with sweep := 0 } else map) = here
      simp only [slots_rename, List.getElem?_map, Option.any_map, Slot.isExpired_rename, evictable_rename]
      split_ifs
      · rfl
      · rcases here.evictable here.sweep now nowMs with ⟨_ | _ | due, map₁⟩
        · exact gone map₁ true
        · exact gone map₁ false
        · exact inductionHypothesis { map₁ with sweep := map₁.sweep + 1 } out
      · exact inductionHypothesis { here with sweep := here.sweep + 1 } out

omit [KeyState S] in
theorem clockWindow_rename : (map.rename f).clockWindow = map.clockWindow := by
  simp only [clockWindow, length_rename]
  rfl

theorem scanUnreferenced_rename (now nowMs : ℕ) (ttlMs : Option ℕ) (window : List ℕ) (owing : Option ℕ)
    (earliest : ℕ) (map : ShardMap K S) :
    (map.rename f).scanUnreferenced now nowMs ttlMs window owing earliest =
      ((map.scanUnreferenced now nowMs ttlMs window owing earliest).1,
        (map.scanUnreferenced now nowMs ttlMs window owing earliest).2.rename f) := by
  induction window generalizing owing earliest map with
  | nil => rfl
  | cons pos rest inductionHypothesis =>
      simp only [scanUnreferenced, slots_rename, List.getElem?_map]
      cases map.slots[pos]? with
      | none => exact inductionHypothesis owing earliest map
      | some slot =>
          simp only [Option.map_some, Slot.isExpired_rename, Slot.referenced_rename, evictable_rename]
          split_ifs
          · exact inductionHypothesis owing earliest (map.setSlot pos slot.spared) ▸
              congrArg _ (setSlot_rename f map pos slot.spared)
          · rcases map.evictable pos now nowMs with ⟨_ | _ | due, map₁⟩
            · rfl
            · exact inductionHypothesis _ _ _
            · exact inductionHypothesis _ _ _

theorem scanAny_rename (now nowMs : ℕ) (window : List ℕ) (earliest : ℕ) (map : ShardMap K S) :
    (map.rename f).scanAny now nowMs window earliest =
      ((map.scanAny now nowMs window earliest).1, (map.scanAny now nowMs window earliest).2.rename f) := by
  induction window generalizing earliest map with
  | nil => rfl
  | cons pos rest inductionHypothesis =>
      simp only [scanAny, evictable_rename]
      rcases map.evictable pos now nowMs with ⟨_ | _ | due, map₁⟩
      · rfl
      · rfl
      · exact inductionHypothesis _ _

theorem finishEviction_rename (candidate : Candidate) (now nowMs : ℕ) (size : TableSize) (out : Reclaimed K) :
    (map.rename f).finishEviction candidate now nowMs size (out.rename f) =
      ((map.finishEviction candidate now nowMs size out).1.rename f,
        (map.finishEviction candidate now nowMs size out).2.rename f) := by
  simp only [finishEviction, evictAt_rename]
  rfl

theorem evictOne_rename (now nowMs : ℕ) (ttlMs : Option ℕ) (size : TableSize) (out : Reclaimed K) :
    (map.rename f).evictOne now nowMs ttlMs size (out.rename f) =
      ((map.evictOne now nowMs ttlMs size out).1, (map.evictOne now nowMs ttlMs size out).2.1.rename f,
        (map.evictOne now nowMs ttlMs size out).2.2.rename f) := by
  simp only [evictOne, length_rename, clockWindow_rename, scanUnreferenced_rename]
  split_ifs
  · rfl
  · rcases map.scanUnreferenced now nowMs ttlMs map.clockWindow none unknown with ⟨⟨_ | candidate, earliest⟩, map₁⟩
    · simp only [scanAny_rename]
      rcases map₁.scanAny now nowMs map.clockWindow earliest with ⟨⟨_ | candidate, earliest⟩, map₂⟩
      · rfl
      · simp only [finishEviction_rename]
    · simp only [finishEviction_rename]

/-!
### Lock sections
-/

end ShardMap

/-- The configuration of a store of unrenamed keys: a key hashes as its new name does. -/
abbrev StoreConfig.comap (config : StoreConfig L) : StoreConfig K :=
  { config with hasher := fun key => config.hasher (f key) }

namespace ShardMap

variable {f} (config : StoreConfig L) (map : ShardMap K S)

theorem resetWrite_rename (key : K) (now : ℕ) :
    (map.rename f).resetWrite config (f key) now =
      ((map.resetWrite (config.comap f) key now).1, (map.resetWrite (config.comap f) key now).2.rename f) := rfl

variable [KeyState S]

theorem makeRoom_rename (now nowMs : ℕ) :
    (map.rename f).makeRoom config now nowMs =
      ((map.makeRoom (config.comap f) now nowMs).1, (map.makeRoom (config.comap f) now nowMs).2.1.rename f,
        (map.makeRoom (config.comap f) now nowMs).2.2.rename f) := by
  simp only [makeRoom]
  cases config.idleTtlMs with
  | none =>
      simp only [length_rename]
      split_ifs
      · exact evictOne_rename f map now nowMs none config.table .zero
      · rfl
  | some ttlMs =>
      have swept : sweepIdle now nowMs ttlMs config.table ttlSweep (map.rename f) .zero = _ :=
        sweepIdle_rename f now nowMs ttlMs config.table ttlSweep map .zero
      simp only [swept, length_rename, evictOne_rename]
      split_ifs <;> rfl

theorem store_rename (key : K) (n now : ℕ) (state : S) :
    (map.rename f).store config (f key) n now state =
      ((map.store (config.comap f) key n now state).1,
        (map.store (config.comap f) key n now state).2.rename f) := by
  simp only [store, recovery_rename, ← insert_rename]
  rfl

variable (f) in
theorem retainSlots_rename (now steps cursor : ℕ) (map : ShardMap K S) :
    retainSlots now steps cursor (map.rename f) =
      ((retainSlots now steps cursor map).1, (retainSlots now steps cursor map).2.rename f) := by
  induction steps generalizing cursor map with
  | zero => rfl
  | succ steps inductionHypothesis =>
      simp only [retainSlots, slots_rename, List.getElem?_map]
      cases map.slots[cursor - 1]? with
      | none => exact inductionHypothesis (cursor - 1) map
      | some slot =>
          have read := setSlot_rename f map (cursor - 1)
            { slot with state := (KeyState.isFull slot.state now).2 }
          unfold Slot.rename at read ⊢
          simp only [Option.map_some, read, removeAt_rename, inductionHypothesis, Option.isSome_map]
          split_ifs <;> rfl

variable (f) in
theorem retainChunk_rename (cursor now : ℕ) :
    (map.rename f).retainChunk cursor now =
      ((map.retainChunk cursor now).1, (map.retainChunk cursor now).2.rename f) := by
  simp only [retainChunk, length_rename, retainSlots_rename, recovery_rename]
  generalize retainSlots now _ _ map = left
  split_ifs
  · exact Prod.ext rfl rfl
  · rfl

variable (f) in
theorem retainShard_rename (now fuel cursor : ℕ) (map : ShardMap K S) :
    retainShard now fuel cursor (map.rename f) =
      ((retainShard now fuel cursor map).1, (retainShard now fuel cursor map).2.rename f) := by
  induction fuel generalizing cursor map with
  | zero => rfl
  | succ fuel inductionHypothesis =>
      simp only [retainShard, retainChunk_rename, inductionHypothesis]
      generalize map.retainChunk cursor now = chunk
      split_ifs <;> rfl

variable [DecidableEq K] [DecidableEq L] (injective : Function.Injective f)

include injective in
theorem acquireStored_rename (key : K) (n now : ℕ) :
    (map.rename f).acquireStored config (f key) n now =
      ((map.acquireStored (config.comap f) key n now).1,
        (map.acquireStored (config.comap f) key n now).2.rename f) := by
  simp only [acquireStored, position_rename map injective,
    slots_rename, List.getElem?_map]
  cases map.position (config.hasher (f key)) key with
  | none => rfl
  | some pos =>
      simp only
      cases map.slots[pos]? with
      | none => rfl
      | some slot =>
          simp only [Option.map_some]
          have touched : (if config.idleTtlMs.isSome = true then (slot.rename f).touch.touchIdle (millis now)
              else (slot.rename f).touch) = (if config.idleTtlMs.isSome = true then slot.touch.touchIdle (millis now)
              else slot.touch).rename f := by
            split_ifs
            · exact Slot.touchIdle_rename f slot.touch (millis now)
            · rfl
          rw [touched]
          generalize (if config.idleTtlMs.isSome = true then slot.touch.touchIdle (millis now)
            else slot.touch) = marked
          exact congrArg (some _, ·) (setSlot_rename f map pos { marked with state := _ })

include injective in
theorem checkWrite_rename (key : K) (n now : ℕ) (state : S) :
    (map.rename f).checkWrite config (f key) n now state =
      ((map.checkWrite (config.comap f) key n now state).1.rename f,
        (map.checkWrite (config.comap f) key n now state).2.rename f) := by
  simp only [checkWrite, acquireStored_rename config map injective]
  rcases map.acquireStored (config.comap f) key n now with ⟨_ | decision, map₁⟩
  · simp only [makeRoom_rename]
    rcases map.makeRoom (config.comap f) now (millis now) with ⟨due | ⟨⟩, map₂, reclaimed⟩
    · rfl
    · simp only [store_rename]
      rfl
  · rfl

include injective in
theorem peekSection_rename (key : K) (now : ℕ) :
    (map.rename f).peekSection config (f key) now =
      ((map.peekSection (config.comap f) key now).1, (map.peekSection (config.comap f) key now).2.rename f) := by
  simp only [peekSection, peekSection.owed, position_rename map injective, slots_rename,
    List.getElem?_map, recovery_rename]
  cases map.position (config.hasher (f key)) key with
  | none => rfl
  | some pos =>
      simp only
      cases map.slots[pos]? with
      | none => rfl
      | some slot => exact congrArg (_, ·) (setSlot_rename f map pos { slot with state := _ })

include injective in
theorem resetRead_rename (key : K) (now : ℕ) :
    (map.rename f).resetRead config (f key) now =
      ((map.resetRead (config.comap f) key now).1, (map.resetRead (config.comap f) key now).2.rename f) := by
  simp only [resetRead, position_rename map injective, slots_rename, List.getElem?_map]
  cases map.position (config.hasher (f key)) key with
  | none => rfl
  | some pos =>
      simp only
      cases map.slots[pos]? with
      | none => rfl
      | some slot => exact congrArg (_, ·) (setSlot_rename f map pos { slot with state := _ })

omit [KeyState S] in
include injective in
theorem removeSection_rename (key : K) (now : ℕ) :
    (map.rename f).removeSection config (f key) now =
      ((map.removeSection (config.comap f) key now).1,
        (map.removeSection (config.comap f) key now).2.rename f) := by
  simp only [removeSection, position_rename map injective]
  cases map.position (config.hasher (f key)) key with
  | none => rfl
  | some pos =>
      simp only [removeAt_rename, Option.isSome_map]
      rfl

end ShardMap

/-!
### Whole calls
-/

def Request.rename : Request K → Request L
  | .check key n => .check (f key) n
  | .peek key => .peek (f key)
  | .reset key => .reset (f key)
  | .remove key => .remove (f key)
  | .clear => .clear
  | .retainRecent => .retainRecent
  | .shrinkToFit => .shrinkToFit

def Call.rename (call : Call K) : Call L := { call with request := call.request.rename f }

def Answer.rename : Answer K → Answer L
  | .checked outcome => .checked (outcome.rename f)
  | .peeked snapshot => .peeked snapshot
  | .found any => .found any
  | .removed keys => .removed keys
  | .done => .done

namespace Store

variable {config : StoreConfig L}

/-- The store with its keys renamed. -/
def rename (store : Store (config.comap f) S) : Store config S := fun i => (store i).rename f

variable (store : Store (config.comap f) S)

theorem rename_apply (i : Fin config.shardCount) : store.rename f i = (store i).rename f := rfl

theorem shardFor_comap (key : K) : (config.comap f).shardFor key = config.shardFor (f key) := rfl

theorem update_rename (i : Fin config.shardCount) (map : ShardMap K S) :
    Function.update (store.rename f) i (map.rename f) = rename f (Function.update store i map) := by
  funext j
  exact (Function.apply_update (fun _ => ShardMap.rename f) store i map j).symm

variable [KeyState S]

theorem retainRecent_rename (now : ℕ) :
    (store.rename f).retainRecent now = ((store.retainRecent now).1, (store.retainRecent now).2.rename f) := by
  have walked (shards : List (Fin config.shardCount)) (count : ℕ) (store : Store (config.comap f) S) :
      shards.foldl (retainAt now) (count, store.rename f) =
        ((shards.foldl (retainAt now) (count, store)).1,
          rename f (shards.foldl (retainAt now) (count, store)).2) := by
    induction shards generalizing count store with
    | nil => rfl
    | cons i rest inductionHypothesis =>
        have shard : retainAt now (count, store.rename f) i =
            ((retainAt now (count, store) i).1, rename f (retainAt now (count, store) i).2) := by
          simp only [retainAt, rename_apply, ShardMap.length_rename, ShardMap.retainShard_rename, update_rename]
        rw [List.foldl_cons, List.foldl_cons, shard]
        exact inductionHypothesis _ _
  exact walked _ 0 store

omit [KeyState S] in
theorem shrinkToFit_rename : (store.rename f).shrinkToFit = store.shrinkToFit.rename f :=
  funext fun i => (store i).shrinkSection_rename f

variable {f} [DecidableEq K] [DecidableEq L] (injective : Function.Injective f)

include injective

theorem check_rename (key : K) (n now : ℕ) (makeState : ℕ → Option S) :
    (store.rename f).check (f key) n now makeState =
      ((store.check key n now makeState).1.rename f, (store.check key n now makeState).2.rename f) := by
  simp only [check, rename_apply, shardFor_comap, ShardMap.acquireStored_rename _ _ injective]
  rcases (store (config.shardFor (f key))).acquireStored (config.comap f) key n now with ⟨_ | decision, map⟩
  · cases makeState now with
    | none => rfl
    | some state => simp only [ShardMap.checkWrite_rename _ _ injective, update_rename]
  · exact Prod.ext rfl (update_rename f store _ map)

theorem peek_rename (key : K) (now : ℕ) :
    (store.rename f).peek (f key) now = ((store.peek key now).1, (store.peek key now).2.rename f) := by
  simp only [peek, rename_apply, shardFor_comap, ShardMap.peekSection_rename _ _ injective, update_rename]

theorem reset_rename (key : K) (now : ℕ) :
    (store.rename f).reset (f key) now = ((store.reset key now).1, (store.reset key now).2.rename f) := by
  simp only [reset, rename_apply, shardFor_comap, ShardMap.resetRead_rename _ _ injective,
    ShardMap.resetWrite_rename]
  rcases (store (config.shardFor (f key))).resetRead (config.comap f) key now with ⟨_ | _, map⟩
  · simp only [update_rename]
  · simp only [update_rename]

omit [KeyState S] in
theorem remove_rename (key : K) (now : ℕ) :
    (store.rename f).remove (f key) now = ((store.remove key now).1, (store.remove key now).2.rename f) := by
  simp only [remove, rename_apply, shardFor_comap, ShardMap.removeSection_rename _ _ injective, update_rename]

theorem peekRef_rename (algorithm : Algorithm) {quotaOf : K → Quota} {quotaOf' : L → Quota} {key : K}
    (same : quotaOf' (f key) = quotaOf key) (now : ℕ) :
    (store.rename f).peekRef algorithm quotaOf' (f key) now =
      ((store.peekRef algorithm quotaOf key now).1, (store.peekRef algorithm quotaOf key now).2.rename f) := by
  simp only [peekRef, peek_rename _ injective, same]

/-- A store of renamed keys does what the store of the original keys does, and answers alike. -/
theorem call_rename (algorithm : Algorithm) (quotaOf : K → Quota) (quotaOf' : L → Quota) (call : Call K)
    (same : ∀ key ∈ call.request.key, quotaOf' (f key) = quotaOf key) :
    (store.rename f).call algorithm quotaOf' (call.rename f) =
      ((store.call algorithm quotaOf call).1.rename f, (store.call algorithm quotaOf call).2.rename f) := by
  obtain ⟨request, now⟩ := call
  cases request with
  | check key n =>
      have quota : quotaOf' (f key) = quotaOf key := same key rfl
      simp only [call, Call.rename, Request.rename, check_rename _ injective, quota, Answer.rename]
  | peek key =>
      have quota : quotaOf' (f key) = quotaOf key := same key rfl
      simp only [call, Call.rename, Request.rename, peekRef_rename _ injective _ quota, Answer.rename]
  | reset key => simp only [call, Call.rename, Request.rename, reset_rename _ injective, Answer.rename]
  | remove key => simp only [call, Call.rename, Request.rename, remove_rename _ injective, Answer.rename]
  | clear => rfl
  | retainRecent => simp only [call, Call.rename, Request.rename, retainRecent_rename, Answer.rename]
  | shrinkToFit => simp only [call, Call.rename, Request.rename, shrinkToFit_rename, Answer.rename]

end Store

end RateNet
