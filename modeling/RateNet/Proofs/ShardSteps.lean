/-
Module: RateNet.Proofs.ShardSteps
Purpose: Whole calls of the limiter, taken apart. Whatever a call does to a shard is a sequence of a few
  kinds of step: a stored key is checked, read or reset, room is made, a newcomer is stored, a slot or a
  record goes, the table is released, the shard is cleared or its index rehashed. An invariant of a shard
  is checked against these steps once, and then holds after every run of calls at readings that do not
  go back.
Trusted boundary: none
Main exports: ShardStep, ShardRun, ShardStep.consistent, call_shardRun, InOrder, run_always,
  Store.handedOver, run_records, run_keeps, StatesKept, run_statesKept
-/
import RateNet.Lib.Runs
import RateNet.Algo.Lawful
import RateNet.Store.Limiter
import RateNet.Proofs.ShardInvariant

namespace RateNet

section Steps

variable {K S : Type} [DecidableEq K] [KeyState S]

/-- One change of shard `i` by a call made at `now`, with the debts it hands over. -/
inductive ShardStep (config : StoreConfig K) (quotaOf : K → Quota) (i : Fin config.shardCount) (now : ℕ) :
    ShardMap K S → List (Handover K) → ShardMap K S → Prop where
  | acquire {map : ShardMap K S} {key : K} {n : ℕ} {decision : Decision}
      (found : (map.acquireStored config key n now).1 = some decision) :
      ShardStep config quotaOf i now map [] (map.acquireStored config key n now).2
  | room {map map' : ShardMap K S} {handed : List (Handover K)}
      (step : RoomStep now (millis now) config.table map handed map') :
      ShardStep config quotaOf i now map handed map'
  | store {map : ShardMap K S} {key : K} {n : ℕ} {state : S} (home : config.shardFor key = i)
      (absent : ∀ slot ∈ map.slots, slot.key ≠ key) (room : map.slots.length < config.perShardCap)
      (made : KeyState.create (quotaOf key) now = some state) :
      ShardStep config quotaOf i now map [] (map.store config key n now state).2
  | read {map : ShardMap K S} {pos : ℕ} {slot : Slot K S} (held : map.slots[pos]? = some slot) :
      ShardStep config quotaOf i now map []
        (map.setSlot pos { slot with state := (KeyState.peek slot.state now).2 })
  | reset {map : ShardMap K S} {pos : ℕ} {slot : Slot K S} (held : map.slots[pos]? = some slot) :
      ShardStep config quotaOf i now map []
        (map.setSlot pos { slot with state := KeyState.reset slot.state now })
  | forget {map : ShardMap K S} (hash : ℕ) :
      ShardStep config quotaOf i now map []
        { map with recovery := (map.recovery.forget hash (millis now)).2 }
  | remove {map : ShardMap K S} {pos : ℕ} {slot : Slot K S} (held : map.slots[pos]? = some slot) :
      ShardStep config quotaOf i now map [] (map.removeAt pos).2
  /-- A table that holds nothing live is released. -/
  | release {map : ShardMap K S} (spent : map.recovery.isSpent (millis now) = true) :
      ShardStep config quotaOf i now map [] { map with recovery := .new }
  | clear {map : ShardMap K S} : ShardStep config quotaOf i now map [] .new
  | shrink {map : ShardMap K S} : ShardStep config quotaOf i now map [] map.shrinkSection

/-- What a call does to a shard. -/
abbrev ShardRun (config : StoreConfig K) (quotaOf : K → Quota) (i : Fin config.shardCount) (now : ℕ) :
    ShardMap K S → List (Handover K) → ShardMap K S → Prop :=
  Runs.Labelled (ShardStep config quotaOf i now)

variable {config : StoreConfig K} {quotaOf : K → Quota} {i : Fin config.shardCount} {now : ℕ}
  {map map' : ShardMap K S} {handed : List (Handover K)}

theorem ShardStep.consistent (step : ShardStep config quotaOf i now map handed map')
    (consistent : Consistent config i map) : Consistent config i map' := by
  cases step with
  | @acquire key n decision found => exact acquireStored_consistent consistent key n now
  | room step => exact step.consistent consistent
  | @store key n state home absent room made =>
      subst home
      exact store_consistent consistent room absent n now state
  | read held => exact consistent.setSlot held rfl rfl
  | reset held => exact consistent.setSlot held rfl rfl
  | forget hash => exact consistent.withRecovery _
  | remove held => exact consistent.removeAt _
  | release spent => exact consistent.withRecovery _
  | clear => exact .new
  | shrink => exact shrinkSection_consistent consistent

theorem ShardRun.consistent (run : ShardRun config quotaOf i now map handed map')
    (consistent : Consistent config i map) : Consistent config i map' :=
  run.keeps (Consistent config i) (fun step => step.consistent) consistent

/-- Room-making is made of steps. -/
theorem RoomRun.shardRun (i : Fin config.shardCount) (quotaOf : K → Quota)
    (run : RoomRun now (millis now) config.table map handed map') :
    ShardRun config quotaOf i now map handed map' := by
  induction run with
  | done => exact .done _
  | step _ step inductionHypothesis => exact .step inductionHypothesis (.room step)

/-!
### Calls are made of the steps
-/

/-- What a check does is made of the steps, whichever of its four ways it goes. -/
theorem CheckEffect.shardRun {key : K} {n : ℕ} {outcome : Outcome K}
    (effect : CheckEffect config map key n now (KeyState.create (quotaOf key)) outcome map')
    (consistent : Consistent config (config.shardFor key) map) :
    ShardRun config quotaOf (config.shardFor key) now map outcome.reclaimed.handed map' := by
  obtain ⟨⟨handed, run, lists⟩, fits⟩ := makeRoom_madeBy config map now (millis now)
  have lists : (map.makeRoom config now (millis now)).2.2.handed = handed := lists
  have made_room := run.shardRun (config.shardFor key) quotaOf
  rw [← lists] at made_room
  cases effect with
  | found held => exact .single (.acquire held)
  | closed missed unmade => exact .done map
  | refused missed made full => exact made_room
  | stored missed made room =>
      have absent := run.absent (acquireStored_none consistent missed)
      have stored := made_room.step (.store (n := n) rfl absent (fits room consistent.within) made)
      rw [List.append_nil] at stored
      exact stored

omit [DecidableEq K] in
/-- A debt handed over belongs to the shard it comes from. -/
theorem RoomRun.handed_home {nowMs : ℕ} {size : TableSize} (run : RoomRun now nowMs size map handed map')
    (consistent : Consistent config i map) : ∀ handover ∈ handed, config.shardOf handover.hash = i := by
  induction run with
  | done => exact fun _ member => by cases member
  | step before step inductionHypothesis =>
      have kept := before.consistent consistent
      intro handover member
      rcases List.mem_append.1 member with earlier | last
      · exact inductionHypothesis handover earlier
      · cases step with
        | handOver held owes accepted =>
            obtain rfl := List.mem_singleton.1 last
            exact kept.placed _ (List.mem_of_getElem? held)
        | refresh | spare | cursors | release | settle => cases last

theorem CheckEffect.handed_home {key : K} {n : ℕ} {makeState : ℕ → Option S} {outcome : Outcome K}
    (effect : CheckEffect config map key n now makeState outcome map') (consistent : Consistent config i map) :
    ∀ handover ∈ outcome.reclaimed.handed, config.shardOf handover.hash = i := by
  obtain ⟨⟨handed, run, lists⟩, -⟩ := makeRoom_madeBy config map now (millis now)
  have lists : (map.makeRoom config now (millis now)).2.2.handed = handed := lists
  have home := run.handed_home consistent
  rw [← lists] at home
  cases effect with
  | found held => exact fun _ member => absurd member List.not_mem_nil
  | closed missed unmade => exact fun _ member => absurd member List.not_mem_nil
  | refused missed made full => exact home
  | stored missed made room => exact home

variable [LawfulKeyState S]

omit [DecidableEq K] in
/-- Examining a slot reads it. -/
theorem examined_eq (slot : Slot K S) (now : ℕ) :
    { slot with state := (KeyState.isFull slot.state now).2 } =
      { slot with state := (KeyState.peek slot.state now).2 } := by
  rw [LawfulKeyState.isFull_snd]

theorem retainSlots_shardRun (quotaOf : K → Quota) (i : Fin config.shardCount) (steps cursor : ℕ)
    (map : ShardMap K S) :
    ShardRun config quotaOf i now map [] (ShardMap.retainSlots now steps cursor map).2 := by
  induction steps generalizing cursor map with
  | zero => exact .done map
  | succ steps inductionHypothesis =>
      rw [ShardMap.retainSlots]
      cases held : map.slots[cursor - 1]? with
      | none => exact inductionHypothesis _ map
      | some slot =>
          have inside := (List.getElem?_eq_some_iff.1 held).1
          have read : ShardRun config quotaOf i now map [] (map.setSlot (cursor - 1)
              { slot with state := (KeyState.isFull slot.state now).2 }) := by
            rw [examined_eq]
            exact .single (.read held)
          dsimp only
          split
          · have held' : (map.setSlot (cursor - 1)
                { slot with state := (KeyState.isFull slot.state now).2 }).slots[cursor - 1]? = _ :=
              List.getElem?_set_self inside
            exact (read.trans (.single (.remove held'))).trans (inductionHypothesis _ _)
          · exact read.trans (inductionHypothesis _ _)

theorem retainChunk_shardRun (quotaOf : K → Quota) (i : Fin config.shardCount) (cursor : ℕ)
    (map : ShardMap K S) : ShardRun config quotaOf i now map [] (map.retainChunk cursor now).2 := by
  rw [ShardMap.retainChunk]
  generalize min cursor map.slots.length = cursor
  have walked := @retainSlots_shardRun _ _ _ _ config now _ quotaOf i
    (cursor - (cursor - retainChunkSlots)) cursor map
  dsimp only
  generalize ShardMap.retainSlots now (cursor - (cursor - retainChunkSlots)) cursor map = result at walked ⊢
  split
  · rename_i finished
    exact walked.trans (.single (.release finished.2))
  · exact walked

theorem retainShard_shardRun (quotaOf : K → Quota) (i : Fin config.shardCount) (fuel cursor : ℕ)
    (map : ShardMap K S) :
    ShardRun config quotaOf i now map [] (ShardMap.retainShard now fuel cursor map).2 := by
  induction fuel generalizing cursor map with
  | zero => exact .done map
  | succ fuel inductionHypothesis =>
      rw [ShardMap.retainShard]
      have chunk := @retainChunk_shardRun _ _ _ _ config now _ quotaOf i cursor map
      generalize map.retainChunk cursor now = result at chunk ⊢
      obtain ⟨⟨removed, cursor'⟩, map'⟩ := result
      dsimp only
      split
      · exact chunk
      · exact chunk.trans (inductionHypothesis _ _)

/-- The debts a call handed to the table of shard `i`. -/
def Answer.handedTo (config : StoreConfig K) (i : Fin config.shardCount) : Answer K → List (Handover K)
  | .checked outcome => outcome.reclaimed.handed.filter fun handover => config.shardOf handover.hash = i
  | _ => []

omit [LawfulKeyState S] in
/-- What a check does to the shard of its key, and that the debts it hands over are this shard's. -/
theorem check_shardRun {store : Store config S} (consistent : ∀ i, Consistent config i (store i)) (key : K)
    (n now : ℕ) (i : Fin config.shardCount) :
    ShardRun config quotaOf i now (store i)
      ((Answer.checked (store.check key n now (KeyState.create (quotaOf key))).1).handedTo config i)
      ((store.check key n now (KeyState.create (quotaOf key))).2 i) := by
  obtain ⟨map', changed, effect⟩ := check_effect store key n now (KeyState.create (quotaOf key))
  have home := effect.handed_home (consistent (config.shardFor key))
  rw [changed, Answer.handedTo]
  by_cases same : i = config.shardFor key
  · subst same
    rw [Function.update_self, List.filter_eq_self.2]
    · exact effect.shardRun (consistent _)
    · exact fun handover member => decide_eq_true (home handover member)
  · rw [Function.update_of_ne same, List.filter_eq_nil_iff.2]
    · exact .done _
    · intro handover member elsewhere
      exact same ((of_decide_eq_true elsewhere).symm.trans (home handover member))

omit [LawfulKeyState S] in
/-- Steps of one shard, with nothing handed over, are steps or none of each. -/
theorem ShardRun.updated {store : Store config S} {j : Fin config.shardCount} {map : ShardMap K S} {now : ℕ}
    (run : ShardRun config quotaOf j now (store j) [] map) (i : Fin config.shardCount) :
    ShardRun config quotaOf i now (store i) [] (Function.update store j map i) := by
  refine (Function.forall_update_iff store fun i map => ShardRun config quotaOf i now (store i) [] map).2
    ⟨run, ?_⟩ i
  exact fun i _ => .done _

/-- What the walk over all shards does to each. -/
theorem retainRecent_shardRun (quotaOf : K → Quota) (store : Store config S) (now : ℕ)
    (i : Fin config.shardCount) :
    ShardRun config quotaOf i now (store i) [] ((store.retainRecent now).2 i) := by
  have walk : ∀ (shards : List (Fin config.shardCount)) (walked : ℕ × Store config S),
      ShardRun config quotaOf i now (walked.2 i) [] ((shards.foldl (Store.retainAt now) walked).2 i) := by
    intro shards
    induction shards with
    | nil => exact fun _ => .done _
    | cons j rest inductionHypothesis =>
        intro walked
        have here : ShardRun config quotaOf i now (walked.2 i) [] ((Store.retainAt now walked j).2 i) := by
          rw [Store.retainAt_snd]
          exact (retainShard_shardRun quotaOf j _ _ _).updated i
        rw [List.foldl_cons]
        exact here.trans (inductionHypothesis _)
  exact walk _ (0, store)

/-- Every call is made of steps. -/
theorem call_shardRun {store : Store config S} (consistent : ∀ i, Consistent config i (store i))
    (algorithm : Algorithm) (call : Call K) (i : Fin config.shardCount) :
    ShardRun config quotaOf i call.now (store i)
      ((store.call algorithm quotaOf call).1.handedTo config i)
      ((store.call algorithm quotaOf call).2 i) := by
  obtain ⟨request, now⟩ := call
  cases request with
  | check key n => exact check_shardRun consistent key n now i
  | peek key =>
      show ShardRun config quotaOf i now (store i) [] (Function.update store (config.shardFor key)
        ((store (config.shardFor key)).peekSection config key now).2 i)
      refine ShardRun.updated ?_ i
      rw [ShardMap.peekSection]
      cases found : (store (config.shardFor key)).position (config.hasher key) key with
      | none => exact .done _
      | some pos =>
          obtain ⟨slot, held, -⟩ := (consistent _).position_iff.1 found
          simp only [held]
          exact .single (.read held)
  | reset key =>
      show ShardRun config quotaOf i now (store i) [] ((store.reset key now).2 i)
      rw [Store.reset, ShardMap.resetRead]
      cases found : (store (config.shardFor key)).position (config.hasher key) key with
      | none => exact ShardRun.updated (.single (.forget _)) i
      | some pos =>
          obtain ⟨slot, held, -⟩ := (consistent _).position_iff.1 found
          simp only [held]
          exact ShardRun.updated (.single (.reset held)) i
  | remove key =>
      show ShardRun config quotaOf i now (store i) [] (Function.update store (config.shardFor key)
        ((store (config.shardFor key)).removeSection config key now).2 i)
      refine ShardRun.updated ?_ i
      rw [ShardMap.removeSection]
      cases found : (store (config.shardFor key)).position (config.hasher key) key with
      | none => exact .single (.forget _)
      | some pos =>
          obtain ⟨slot, held, -⟩ := (consistent _).position_iff.1 found
          exact (Runs.Labelled.single (ShardStep.remove held)).step (.forget _)
  | clear => exact .single .clear
  | retainRecent =>
      show ShardRun config quotaOf i now (store i) [] ((store.retainRecent now).2 i)
      exact retainRecent_shardRun quotaOf store now i
  | shrinkToFit => exact .single .shrink

/-!
### Runs of calls
-/

omit [DecidableEq K] in
/-- The readings of the calls do not go back. -/
def InOrder (calls : List (Call K)) : Prop := calls.Pairwise fun earlier later => earlier.now ≤ later.now

instance (calls : List (Call K)) : Decidable (InOrder calls) :=
  inferInstanceAs (Decidable (List.Pairwise _ _))

omit [LawfulKeyState S] in
theorem Store.run_snoc (algorithm : Algorithm) (quotaOf : K → Quota) (store : Store config S)
    (calls : List (Call K)) (call : Call K) : store.run algorithm quotaOf (calls ++ [call]) =
      ((store.run algorithm quotaOf calls).call algorithm quotaOf call).2 := by
  rw [Store.run, List.foldl_append]
  rfl

/-- A property of a shard that every step keeps holds after every run of calls, in whatever order their
    readings come. -/
theorem run_always (algorithm : Algorithm) (Inv : Fin config.shardCount → ShardMap K S → Prop)
    (new : ∀ i, Inv i .new)
    (keep : ∀ {i now map handed map'}, ShardStep config quotaOf i now map handed map' →
      Consistent config i map → Inv i map → Inv i map') (calls : List (Call K)) :
    ∀ i, Consistent config i (Store.run algorithm quotaOf (.new : Store config S) calls i) ∧
      Inv i (Store.run algorithm quotaOf .new calls i) := by
  induction calls using List.reverseRecOn with
  | nil => exact fun i => ⟨.new, new i⟩
  | append_singleton calls call inductionHypothesis =>
      intro i
      rw [Store.run_snoc]
      have run : ShardRun config quotaOf i call.now _ _ _ :=
        call_shardRun (fun i => (inductionHypothesis i).1) algorithm call i
      exact run.keeps (fun map => Consistent config i map ∧ Inv i map)
        (fun step both => ⟨step.consistent both.1, keep step both.1 both.2⟩) (inductionHypothesis i)

omit [LawfulKeyState S] in
/-- The debts a run of calls hands to the table of shard `i`, each with its reading. -/
def Store.handedOver (algorithm : Algorithm) (quotaOf : K → Quota) (i : Fin config.shardCount) :
    Store config S → List (Call K) → List (ℕ × Handover K)
  | _, [] => []
  | store, call :: rest =>
    ((store.call algorithm quotaOf call).1.handedTo config i).map (call.now, ·) ++
      handedOver algorithm quotaOf i (store.call algorithm quotaOf call).2 rest

omit [LawfulKeyState S] in
theorem Store.handedOver_snoc (algorithm : Algorithm) (quotaOf : K → Quota) (i : Fin config.shardCount)
    (store : Store config S) (calls : List (Call K)) (call : Call K) :
    store.handedOver algorithm quotaOf i (calls ++ [call]) =
      store.handedOver algorithm quotaOf i calls ++
        (((store.run algorithm quotaOf calls).call algorithm quotaOf call).1.handedTo config i).map
          (call.now, ·) := by
  induction calls generalizing store with
  | nil => exact List.append_nil _
  | cons first rest inductionHypothesis =>
      rw [List.cons_append, Store.handedOver, inductionHypothesis, Store.handedOver, List.append_assoc]
      rfl

/-- A property of a shard and of the debts handed to its table so far that time and every step keep holds
    after every run of calls in order. -/
theorem run_records {algorithm : Algorithm}
    (Inv : Fin config.shardCount → ℕ → List (ℕ × Handover K) → ShardMap K S → Prop)
    (new : ∀ i t, Inv i t [] .new)
    (later : ∀ {i t t' records map}, t ≤ t' → Inv i t records map → Inv i t' records map)
    (keep : ∀ {i now records map handed map'}, ShardStep config quotaOf i now map handed map' →
      Consistent config i map → Inv i now records map →
      Inv i now (records ++ handed.map (now, ·)) map')
    {calls : List (Call K)} (order : InOrder calls) {t : ℕ} (last : ∀ call ∈ calls, call.now ≤ t) :
    ∀ i, Consistent config i (Store.run algorithm quotaOf (.new : Store config S) calls i) ∧
      Inv i t (Store.handedOver algorithm quotaOf i (.new : Store config S) calls)
        (Store.run algorithm quotaOf .new calls i) := by
  induction calls using List.reverseRecOn generalizing t with
  | nil => exact fun i => ⟨.new, new i t⟩
  | append_singleton calls call inductionHypothesis =>
      obtain ⟨order', -, before⟩ := List.pairwise_append.1 order
      have reached := inductionHypothesis order'
        fun earlier member => before earlier member call (List.mem_singleton.2 rfl)
      intro i
      rw [Store.run_snoc, Store.handedOver_snoc]
      have run : ShardRun config quotaOf i call.now _ _ _ :=
        call_shardRun (fun i => (reached i).1) algorithm call i
      have both := @Runs.Labelled.invariant _ _ _ _ _ _ (fun labels map => Consistent config i map ∧
        Inv i call.now (Store.handedOver algorithm quotaOf i (.new : Store config S) calls ++
          labels.map (call.now, ·)) map) ?_ run [] ?_
      · exact ⟨both.1, later (last call (List.mem_append.2 (Or.inr (List.mem_singleton.2 rfl)))) both.2⟩
      · rintro labels handed map map' step ⟨consistent, kept⟩
        refine ⟨step.consistent consistent, ?_⟩
        rw [List.map_append, ← List.append_assoc]
        exact keep step consistent kept
      · rw [List.map_nil, List.append_nil]
        exact reached i

/-- A property of a shard that time and every step keep holds after every run of calls in order. -/
theorem run_keeps (algorithm : Algorithm) (Inv : Fin config.shardCount → ℕ → ShardMap K S → Prop)
    (new : ∀ i t, Inv i t .new) (later : ∀ {i t t' map}, t ≤ t' → Inv i t map → Inv i t' map)
    (keep : ∀ {i now map handed map'}, ShardStep config quotaOf i now map handed map' →
      Consistent config i map → Inv i now map → Inv i now map')
    {calls : List (Call K)} (order : InOrder calls) {t : ℕ} (last : ∀ call ∈ calls, call.now ≤ t) :
    ∀ i, Consistent config i (Store.run algorithm quotaOf (.new : Store config S) calls i) ∧
      Inv i t (Store.run algorithm quotaOf .new calls i) :=
  run_records (fun i t _ => Inv i t) new later keep order last

/-!
### Stored states
-/

omit [DecidableEq K]

theorem recoversAt_fst (s : S) (now : ℕ) :
    (recoversAt s now).1 = (KeyState.debt s now).1.elim 0 fun debt => ceilMillis debt.until := by
  rw [recoversAt, LawfulKeyState.recoversAt_eq]
  cases (KeyState.debt s now).1 with
  | none => rfl
  | some debt => rfl

theorem recoversAt_snd (s : S) (now : ℕ) : (recoversAt s now).2 = (KeyState.peek s now).2 := by
  rw [recoversAt, LawfulKeyState.recoversAt_eq]

/-- Looking at a slot's hint leaves its state as it is, or reads it. -/
theorem Slot.recoversAt_state (slot : Slot K S) (now nowMs : ℕ) :
    (slot.recoversAt now nowMs).2.state = slot.state ∨
      (slot.recoversAt now nowMs).2.state = (KeyState.peek slot.state now).2 := by
  unfold Slot.recoversAt
  split
  · exact Or.inr (RateNet.recoversAt_snd slot.state now)
  · split
    · have state := LawfulKeyState.isFull_snd slot.state now
      right
      rw [← state]
      cases KeyState.isFull slot.state now with
      | mk full state' =>
          cases full with
          | true => rfl
          | false => rfl
    · exact Or.inl rfl

theorem Slot.recoversAt_under {quota : Quota} (slot : Slot K S)
    (under : LawfulKeyState.Under quota slot.state) (now nowMs : ℕ) :
    LawfulKeyState.Under quota (slot.recoversAt now nowMs).2.state := by
  rcases slot.recoversAt_state now nowMs with same | read
  · rw [same]
    exact under
  · rw [read]
    exact LawfulKeyState.peek_under now under

/-- Every stored state is kept under its key's quota. -/
def StatesKept (quotaOf : K → Quota) (map : ShardMap K S) : Prop :=
  ∀ slot ∈ map.slots, LawfulKeyState.Under (quotaOf slot.key) slot.state

theorem RoomStep.statesKept {nowMs : ℕ} {size : TableSize} (step : RoomStep now nowMs size map handed map')
    (kept : StatesKept quotaOf map) : StatesKept quotaOf map' := by
  cases step with
  | @refresh pos slot held =>
      have under := kept slot (List.mem_of_getElem? held)
      refine ShardMap.forall_setSlot kept ?_
      rw [(slot.recoversAt_marks now nowMs).2.1]
      exact slot.recoversAt_under under now nowMs
  | spare held =>
      have under := kept _ (List.mem_of_getElem? held)
      exact ShardMap.forall_setSlot kept under
  | cursors hand sweep => exact kept
  | release held => exact ShardMap.forall_removeAt kept held
  | settle held => exact ShardMap.forall_removeAt kept held
  | handOver held => exact ShardMap.forall_removeAt kept held

theorem RoomRun.statesKept {nowMs : ℕ} {size : TableSize} (run : RoomRun now nowMs size map handed map')
    (kept : StatesKept quotaOf map) : StatesKept quotaOf map' :=
  run.invariant (StatesKept quotaOf) (fun step => step.statesKept) kept

/-- The state of a key being stored is the one its check left, read or not. -/
theorem firstHint_reads {P : S → Prop} {s : S} (checked : P s)
    (read : ∀ {s} (t : ℕ), P s → P (KeyState.peek s t).2) (fresh : Bool) (n : ℕ) (outcome : Decision)
    (now nowMs : ℕ) : P (firstHint s fresh n outcome now nowMs).2 := by
  unfold firstHint
  split
  · exact checked
  · dsimp only
    have state := LawfulKeyState.isFull_snd s (fromMillis (satAdd nowMs 1))
    split
    · cases hfull : KeyState.isFull s (fromMillis (satAdd nowMs 1)) with
      | mk full s' =>
          rw [hfull] at state
          obtain rfl : s' = _ := state
          cases full with
          | true => exact read _ checked
          | false =>
              dsimp only
              rw [RateNet.recoversAt_snd]
              exact read now (read _ checked)
    · rw [RateNet.recoversAt_snd]
      exact read now checked

/-- A new state stays under its quota whatever debt was recorded for it. -/
theorem restored_under {quota : Quota} {state : S} (made : KeyState.create quota now = some state)
    (charge : Option Charge) :
    LawfulKeyState.Under quota
      (charge.elim state fun charge => KeyState.restore state charge.debt now) := by
  have under := LawfulKeyState.create_under made
  cases charge with
  | none => exact under
  | some charge => exact LawfulKeyState.restore_under charge.debt now under

theorem ShardStep.statesKept [DecidableEq K] (step : ShardStep config quotaOf i now map handed map')
    (consistent : Consistent config i map) (kept : StatesKept quotaOf map) : StatesKept quotaOf map' := by
  cases step with
  | acquire found =>
      obtain ⟨pos, slot, slot', held, rfl, after, -, same, -, -, state⟩ :=
        acquireStored_some consistent found
      rw [after]
      refine ShardMap.forall_setSlot kept ?_
      rw [same, state]
      exact LawfulKeyState.acquire_under _ now (kept slot (List.mem_of_getElem? held))
  | room step => exact step.statesKept kept
  | @store key n state home absent room made =>
      rw [ShardMap.store]
      generalize map.recovery.take (config.hasher key) (millis now) = taken
      obtain ⟨charge, recovery⟩ := taken
      have restored := restored_under made charge
      intro found member
      rcases List.mem_append.1 member with there | new
      · exact kept found there
      · obtain rfl := List.mem_singleton.1 new
        exact firstHint_reads (LawfulKeyState.acquire_under n now restored)
          (fun t => LawfulKeyState.peek_under t) _ n _ now _
  | read held =>
      exact ShardMap.forall_setSlot kept (LawfulKeyState.peek_under now (kept _ (List.mem_of_getElem? held)))
  | reset held =>
      exact ShardMap.forall_setSlot kept (LawfulKeyState.reset_under now (kept _ (List.mem_of_getElem? held)))
  | forget hash => exact kept
  | remove held => exact ShardMap.forall_removeAt kept held
  | release spent => exact kept
  | clear => exact fun _ member => by cases member
  | shrink => exact kept

/-- After every run of calls, every shard is consistent and keeps its states under their quotas. -/
theorem run_statesKept [DecidableEq K] (algorithm : Algorithm) (calls : List (Call K)) :
    ∀ i, Consistent config i (Store.run algorithm quotaOf (.new : Store config S) calls i) ∧
      StatesKept quotaOf (Store.run algorithm quotaOf (.new : Store config S) calls i) :=
  run_always algorithm (fun _ => StatesKept quotaOf) (fun _ _ member => by cases member)
    (fun step consistent kept => step.statesKept consistent kept) calls

end Steps

end RateNet
