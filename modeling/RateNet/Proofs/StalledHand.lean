/-
Module: RateNet.Proofs.StalledHand
Purpose: A full shard asked for room again and again at one instant. A failed call leaves the hand where it
  was, so the next one examines the same slots; and a slot that stayed through two calls stays for good.
  So one of several calls finds room exactly when one of the slots the hand stands before can go, however
  many slots the shard has and whatever the others are.
Trusted boundary: none
Main exports: Immovable, FailedCall, ShardMap.makeRooms, HandStalled,
  room_iff_hand_before_evictable, blocked_stretch_refuses_forever
-/
import RateNet.Proofs.TrivialRequests

namespace RateNet

section Looks

variable {K S : Type} [KeyState S] {now nowMs : ℕ} {slot : Slot K S} {recovery : Recovery}

/-- A slot that cannot go however often it is examined: it was charged from the sketch, its debt has no place
    in the exact table, and it is due later; if only at the next millisecond, its state is not whole. -/
structure Immovable (now nowMs : ℕ) (recovery : Recovery) (slot : Slot K S) : Prop where
  seeded : slot.seeded = true
  no_place : recovery.hasExactRoom slot.hash nowMs = false
  owing : nowMs < slot.dueMs now
  not_whole : slot.dueMs now = satAdd nowMs 1 → slot.dueMs now ≠ unknown →
    (KeyState.isFull slot.state now).1 = false

/-- The slot as a failed call leaves it: the first pass goes over it, and the second examines it. -/
def examined (now nowMs : ℕ) (slot : Slot K S) : Slot K S :=
  ((passedOver now nowMs none slot).recoversAt now nowMs).2

omit [KeyState S] in
theorem inUse_iff : InUse nowMs none slot ↔ slot.referenced = true := by
  rw [InUse]
  exact and_iff_right rfl

theorem Immovable.blocked (immovable : Immovable now nowMs recovery slot) : Blocked now nowMs recovery slot :=
  ⟨immovable.seeded, immovable.no_place, immovable.owing, fun _ => immovable.not_whole⟩

/-- A slot that is not in use and is blocked is immovable. -/
theorem Blocked.immovable (blocked : Blocked now nowMs recovery slot) (idle : slot.referenced = false) :
    Immovable now nowMs recovery slot :=
  ⟨blocked.seeded, blocked.no_place, blocked.owing, blocked.not_whole idle⟩

/-- Sparing a referenced slot does not change the time the hand goes by. -/
theorem immovable_spared (used : slot.referenced = true) :
    Immovable now nowMs recovery slot.spared ↔ Immovable now nowMs recovery slot := by
  have due : slot.spared.dueMs now = slot.dueMs now := dueMs_spared used
  constructor
  · rintro ⟨seeded, no_place, owing, not_whole⟩
    rw [due] at owing not_whole
    exact ⟨seeded, no_place, owing, not_whole⟩
  · rintro ⟨seeded, no_place, owing, not_whole⟩
    rw [← due] at owing not_whole
    exact ⟨seeded, no_place, owing, not_whole⟩

variable [LawfulKeyState S] {quota : Quota} (wholeAgain : WholeAgain S)
  (under : LawfulKeyState.Under quota slot.state)

include wholeAgain under in
/-- An immovable slot that is not in use stays immovable at a look. -/
theorem Immovable.look (immovable : Immovable now nowMs recovery slot) (idle : slot.referenced = false) :
    Immovable now nowMs recovery (slot.recoversAt now nowMs).2 :=
  (immovable.blocked.look wholeAgain under).immovable ((slot.recoversAt_marks now nowMs).2.2.2.trans idle)

include wholeAgain under in
/-- A failed call leaves an immovable slot immovable. -/
theorem Immovable.call (immovable : Immovable now nowMs recovery slot) :
    Immovable now nowMs recovery (examined now nowMs slot) := by
  rw [examined, passedOver]
  by_cases used : InUse nowMs none slot
  · rw [if_pos used]
    have kept : LawfulKeyState.Under quota slot.spared.state := under
    exact ((immovable_spared (inUse_iff.1 used)).2 immovable).look wholeAgain kept rfl
  · rw [if_neg used]
    have idle : slot.referenced = false := by simpa [inUse_iff] using used
    have still : (slot.recoversAt now nowMs).2.referenced = false :=
      (slot.recoversAt_marks now nowMs).2.2.2.trans idle
    exact (immovable.look wholeAgain under idle).look wholeAgain (slot.recoversAt_under under now nowMs) still

include wholeAgain under in
/-- A slot blocked through two calls is immovable. -/
theorem immovable_of_blocked (first : Blocked now nowMs recovery slot)
    (second : Blocked now nowMs recovery (examined now nowMs slot)) : Immovable now nowMs recovery slot := by
  by_cases used : InUse nowMs none slot
  · rw [examined, passedOver, if_pos used] at second
    have kept : LawfulKeyState.Under quota slot.spared.state := under
    have spared := ((blocked_iff wholeAgain under none recovery).1 first).2
    rw [passedOver, if_pos used] at spared
    apply (immovable_spared (inUse_iff.1 used)).1
    exact ((spared.blocked_iff_look wholeAgain kept).1 second).immovable rfl
  · exact first.immovable (by simpa [inUse_iff] using used)

end Looks

/-!
### A failed call
-/

section Calls

variable {K S : Type} [KeyState S] {now nowMs : ℕ} {map : ShardMap K S}

theorem evictable_hand (map : ShardMap K S) (pos now nowMs : ℕ) :
    (map.evictable pos now nowMs).2.hand = map.hand := by
  unfold ShardMap.evictable
  split
  · rfl
  · dsimp only
    split
    · rfl
    · split <;> rfl

/-- The first pass does not move the hand. -/
theorem scanUnreferenced_hand (ttlMs : Option ℕ) (window : List ℕ) (owing : Option ℕ) (earliest : ℕ)
    (map : ShardMap K S) :
    (ShardMap.scanUnreferenced now nowMs ttlMs window owing earliest map).2.hand = map.hand := by
  induction window generalizing owing earliest map with
  | nil => rfl
  | cons pos rest inductionHypothesis =>
      have hand := evictable_hand map pos now nowMs
      rw [ShardMap.scanUnreferenced]
      split
      · exact inductionHypothesis _ _ _
      · split
        · exact inductionHypothesis _ _ _
        · split
          · rename_i answer
            rw [answer] at hand
            exact hand
          · rename_i answer
            rw [answer] at hand
            exact (inductionHypothesis _ _ _).trans hand
          · rename_i answer
            rw [answer] at hand
            exact (inductionHypothesis _ _ _).trans hand

/-- What the second pass leaves when it comes back empty-handed: every slot of its window looked at. -/
structure SecondPass (now nowMs : ℕ) (window : List ℕ) (map map' : ShardMap K S) : Prop where
  hand : map'.hand = map.hand
  recovery : map'.recovery = map.recovery
  slots : ∀ pos, map'.slots[pos]? =
    if pos ∈ window then map.slots[pos]?.map fun slot => (slot.recoversAt now nowMs).2 else map.slots[pos]?

theorem scanAny_secondPass {window : List ℕ} (distinct : window.Nodup) (earliest : ℕ) (map : ShardMap K S)
    (empty : (ShardMap.scanAny now nowMs window earliest map).1.1 = none) :
    SecondPass now nowMs window map (ShardMap.scanAny now nowMs window earliest map).2 := by
  induction window generalizing earliest map with
  | nil => exact ⟨rfl, rfl, fun _ => rfl⟩
  | cons pos rest inductionHypothesis =>
      obtain ⟨elsewhere, distinct'⟩ := List.nodup_cons.1 distinct
      rw [ShardMap.scanAny] at empty ⊢
      cases held : map.slots[pos]? with
      | none =>
          rw [evictable_missing held] at empty ⊢
          obtain ⟨hand, recovery, slots⟩ := inductionHypothesis distinct' _ map empty
          refine ⟨hand, recovery, fun pos' => ?_⟩
          rw [slots]
          by_cases same : pos' = pos
          · subst same
            rw [if_neg elsewhere, if_pos List.mem_cons_self, held]
            rfl
          · simp only [List.mem_cons, same, false_or]
      | some slot =>
          have inside := (List.getElem?_eq_some_iff.1 held).1
          rcases evictable_cases held now nowMs with ⟨_, answer, -⟩ | ⟨_, answer, -⟩ | ⟨due, _, answer, rfl⟩
          · rw [answer] at empty
            cases empty
          · rw [answer] at empty
            cases empty
          · rw [answer] at empty ⊢
            obtain ⟨hand, recovery, slots⟩ := inductionHypothesis distinct' _ _ empty
            refine ⟨hand, recovery, fun pos' => ?_⟩
            rw [slots]
            by_cases same : pos = pos'
            · subst same
              have set : (map.setSlot pos (slot.recoversAt now nowMs).2).slots[pos]? =
                  some (slot.recoversAt now nowMs).2 := List.getElem?_set_self inside
              rw [if_neg elsewhere, if_pos List.mem_cons_self, set, held, Option.map_some]
            · have other : (map.setSlot pos (slot.recoversAt now nowMs).2).slots[pos']? = map.slots[pos']? :=
                List.getElem?_set_ne same
              rw [other]
              simp only [List.mem_cons, Ne.symm same, false_or]

/-- What a failed call leaves: the hand and the table as they were, and every slot before the hand
    examined. -/
structure FailedCall (now nowMs : ℕ) (map map' : ShardMap K S) : Prop where
  hand : map'.hand = map.hand
  recovery : map'.recovery = map.recovery
  slots : ∀ pos, map'.slots[pos]? =
    if pos ∈ map.clockWindow then map.slots[pos]?.map (examined now nowMs) else map.slots[pos]?

theorem evictOne_failedCall {size : TableSize} {out : Reclaimed K} {due : ℕ} (occupied : map.slots.length ≠ 0)
    (failed : (map.evictOne now nowMs none size out).1 = .error due) :
    FailedCall now nowMs map (map.evictOne now nowMs none size out).2.1 := by
  have first := @scanUnreferenced_firstPass _ _ _ now nowMs none _ (clockWindow_nodup map) none unknown map
  have hand := @scanUnreferenced_hand _ _ _ now nowMs none map.clockWindow none unknown map
  rw [ShardMap.evictOne, if_neg occupied] at failed ⊢
  dsimp only at failed ⊢
  generalize ShardMap.scanUnreferenced now nowMs none map.clockWindow none unknown map = scanned at *
  obtain ⟨⟨candidate, earliest⟩, map₁⟩ := scanned
  cases candidate with
  | some candidate => cases failed
  | none =>
      have second := @scanAny_secondPass _ _ _ now nowMs _ (clockWindow_nodup map) earliest map₁
      dsimp only at failed ⊢
      generalize ShardMap.scanAny now nowMs map.clockWindow earliest map₁ = scanned at *
      obtain ⟨⟨candidate, earliest'⟩, map₂⟩ := scanned
      cases candidate with
      | some candidate => cases failed
      | none =>
          obtain ⟨hand', recovery', slots'⟩ := second rfl
          refine ⟨hand'.trans hand, recovery'.trans (first.recovery rfl), fun pos => ?_⟩
          rw [slots', first.slots rfl]
          by_cases member : pos ∈ map.clockWindow
          · simp only [if_pos member, Option.map_map]
            rfl
          · simp only [if_neg member]

namespace FailedCall

variable {map' : ShardMap K S}

theorem length (failed : FailedCall now nowMs map map') : map'.slots.length = map.slots.length := by
  have missing : ∀ pos : ℕ, map'.slots[pos]? = none ↔ map.slots[pos]? = none := by
    intro pos
    rw [failed.slots]
    split
    · rw [Option.map_eq_none_iff]
    · rfl
  have here := (missing map'.slots.length).1 (List.getElem?_eq_none le_rfl)
  have there := (missing map.slots.length).2 (List.getElem?_eq_none le_rfl)
  rw [List.getElem?_eq_none_iff] at here there
  omega

/-- The next call examines the same positions. -/
theorem clockWindow (failed : FailedCall now nowMs map map') : map'.clockWindow = map.clockWindow := by
  rw [ShardMap.clockWindow, ShardMap.clockWindow, failed.length, failed.hand]

end FailedCall

/-- The results of `count` calls for room at `now`, one after the other. -/
def ShardMap.makeRooms (config : StoreConfig K) (now : ℕ) : ℕ → ShardMap K S → List (Except ℕ Unit)
  | 0, _ => []
  | count + 1, map =>
      (map.makeRoom config now (millis now)).1 ::
        makeRooms config now count (map.makeRoom config now (millis now)).2.1

variable [LawfulKeyState S] {config : StoreConfig K} {quotaOf : K → Quota}

/-- Every slot the hand stands before is immovable. -/
def HandStalled (now : ℕ) (map : ShardMap K S) : Prop :=
  ∀ pos ∈ map.clockWindow, ∀ slot, map.slots[pos]? = some slot →
    Immovable now (millis now) map.recovery slot

omit [LawfulKeyState S] in
/-- Without an idle sweep, a failed call is a failed eviction. -/
theorem makeRoom_failedCall (untimed : config.idleTtlMs = none) {due : ℕ}
    (full : config.perShardCap ≤ map.slots.length)
    (failed : (map.makeRoom config now (millis now)).1 = .error due) :
    FailedCall now (millis now) map (map.makeRoom config now (millis now)).2.1 := by
  have occupied := (lt_of_lt_of_le config.cap_pos full).ne'
  have swept : map.swept config now = (map, .zero) := by rw [ShardMap.swept, untimed]
  rw [makeRoom_eq, swept, untimed, if_pos full] at failed ⊢
  exact evictOne_failedCall occupied failed

theorem makeRoom_statesKept (kept : StatesKept quotaOf map) (config : StoreConfig K) (now : ℕ) :
    StatesKept quotaOf (map.makeRoom config now (millis now)).2.1 := by
  obtain ⟨⟨handed, run, -⟩, -⟩ := makeRoom_madeBy config map now (millis now)
  exact run.statesKept kept

theorem makeRoom_fails_iff (wholeAgain : WholeAgain S) (untimed : config.idleTtlMs = none)
    (kept : StatesKept quotaOf map) (full : map.slots.length = config.perShardCap) :
    (∃ due, (map.makeRoom config now (millis now)).1 = .error due) ↔ HandBlocked now (millis now) map := by
  rw [makeRoom_error_iff wholeAgain config kept full.le]
  refine ⟨NoRoom.hand, fun hand => ⟨full.ge, ?_, hand⟩⟩
  rw [untimed]
  exact fun _ member => by cases member

/-- A stalled hand stays stalled. -/
theorem HandStalled.call (wholeAgain : WholeAgain S) (untimed : config.idleTtlMs = none)
    (kept : StatesKept quotaOf map) (full : map.slots.length = config.perShardCap)
    (stalled : HandStalled now map) : ∃ due, (map.makeRoom config now (millis now)).1 = .error due ∧
      FailedCall now (millis now) map (map.makeRoom config now (millis now)).2.1 ∧
      HandStalled now (map.makeRoom config now (millis now)).2.1 := by
  obtain ⟨due, failed⟩ := (makeRoom_fails_iff wholeAgain untimed kept full).2
    fun pos member slot held => (stalled pos member slot held).blocked
  have after := makeRoom_failedCall untimed full.ge failed
  refine ⟨due, failed, after, ?_⟩
  intro pos member slot held
  rw [after.clockWindow] at member
  rw [after.slots, if_pos member] at held
  obtain ⟨before, there, rfl⟩ := Option.map_eq_some_iff.1 held
  rw [after.recovery]
  exact (stalled pos member before there).call wholeAgain (kept before (List.mem_of_getElem? there))

theorem HandStalled.makeRooms (wholeAgain : WholeAgain S) (untimed : config.idleTtlMs = none)
    (kept : StatesKept quotaOf map) (full : map.slots.length = config.perShardCap)
    (stalled : HandStalled now map) (count : ℕ) :
    ∀ result ∈ map.makeRooms config now count, ∃ due, result = .error due := by
  induction count generalizing map with
  | zero =>
      intro result member
      cases member
  | succ count inductionHypothesis =>
      obtain ⟨due, failed, after, still⟩ := stalled.call wholeAgain untimed kept full
      intro result member
      rw [ShardMap.makeRooms, List.mem_cons] at member
      rcases member with rfl | later
      · exact ⟨due, failed⟩
      · exact inductionHypothesis (makeRoom_statesKept kept config now) (after.length.trans full) still result
          later

/-- A hand that fails twice is stalled. -/
theorem handStalled_of_two_failures (wholeAgain : WholeAgain S) (untimed : config.idleTtlMs = none)
    (kept : StatesKept quotaOf map) (full : map.slots.length = config.perShardCap)
    (failures : ∀ result ∈ map.makeRooms config now 2, ∃ due, result = .error due) : HandStalled now map := by
  obtain ⟨due, first⟩ := failures (map.makeRoom config now (millis now)).1 List.mem_cons_self
  have second := failures _ (List.mem_cons_of_mem _ List.mem_cons_self)
  have after := makeRoom_failedCall untimed full.ge first
  have blocked := (makeRoom_fails_iff wholeAgain untimed kept full).1 ⟨due, first⟩
  have again := (makeRoom_fails_iff wholeAgain untimed (makeRoom_statesKept kept config now)
    (after.length.trans full)).1 second
  intro pos member slot held
  have examined_held := after.slots pos
  rw [if_pos member, held, Option.map_some] at examined_held
  have stays := again pos (after.clockWindow ▸ member) _ examined_held
  rw [after.recovery] at stays
  exact immovable_of_blocked wholeAgain (kept slot (List.mem_of_getElem? held)) (blocked pos member slot held) stays

omit [LawfulKeyState S] in
/-- More calls make the same results first. -/
theorem mem_makeRooms_two (config : StoreConfig K) (now count : ℕ) (map : ShardMap K S) :
    ∀ result ∈ map.makeRooms config now 2, result ∈ map.makeRooms config now (count + 2) := by
  intro result member
  rw [ShardMap.makeRooms, ShardMap.makeRooms, ShardMap.makeRooms] at member
  rw [ShardMap.makeRooms, ShardMap.makeRooms]
  rcases List.mem_cons.1 member with first | rest
  · exact List.mem_cons.2 (Or.inl first)
  · have second := List.mem_singleton.1 rest
    exact List.mem_cons_of_mem _ (List.mem_cons.2 (Or.inl second))

end Calls

/-- For every full shard whose states are kept under their quotas: one of as many calls as the hand would need
    to go around, and one more, finds room exactly when one of the slots the hand stands before can go. -/
def RoomIffBeforeHand (S : Type) [KeyState S] [LawfulKeyState S] {K : Type} (config : StoreConfig K)
    (quotaOf : K → Quota) (now : ℕ) : Prop :=
  ∀ map : ShardMap K S, StatesKept quotaOf map → map.slots.length = config.perShardCap →
    (.ok () ∈ map.makeRooms config now (map.slots.length ⌈/⌉ clockScan + 1) ↔
      ∃ pos ∈ map.clockWindow, ∃ slot, map.slots[pos]? = some slot ∧
        ¬ Immovable now (millis now) map.recovery slot)

theorem roomIffBeforeHand (S : Type) [KeyState S] [LawfulKeyState S] (wholeAgain : WholeAgain S) {K : Type}
    (config : StoreConfig K) (quotaOf : K → Quota) (now : ℕ) (untimed : config.idleTtlMs = none) :
    RoomIffBeforeHand S config quotaOf now := by
  intro map kept full
  have stalled_iff : HandStalled now map ↔ ¬ ∃ pos ∈ map.clockWindow, ∃ slot, map.slots[pos]? = some slot ∧
      ¬ Immovable now (millis now) map.recovery slot := by
    rw [HandStalled]
    push Not
    rfl
  have positive : 1 ≤ map.slots.length ⌈/⌉ clockScan := by
    have occupied := config.cap_pos
    simp only [Nat.ceilDiv_eq_add_pred_div, clockScan]
    omega
  obtain ⟨count, calls⟩ := Nat.exists_eq_add_of_le positive
  have more : map.slots.length ⌈/⌉ clockScan + 1 = count + 2 := by omega
  rw [more, ← not_iff_not, ← stalled_iff]
  constructor
  · intro refused
    apply handStalled_of_two_failures wholeAgain untimed kept full
    intro result member
    have later := mem_makeRooms_two config now count map result member
    cases result with
    | ok => exact absurd later refused
    | error due => exact ⟨due, rfl⟩
  · intro stalled found
    obtain ⟨due, failed⟩ := stalled.makeRooms wholeAgain untimed kept full _ _ found
    cases failed

theorem room_iff_hand_before_evictable {K : Type} (config : StoreConfig K) (quotaOf : K → Quota) (now : ℕ)
    (untimed : config.idleTtlMs = none) :
    RoomIffBeforeHand Gcra config quotaOf now ∧ RoomIffBeforeHand FixedWindow config quotaOf now ∧
      RoomIffBeforeHand SlidingLog config quotaOf now ∧ RoomIffBeforeHand SlidingCounter config quotaOf now :=
  ⟨roomIffBeforeHand Gcra Gcra.wholeAgain config quotaOf now untimed,
    roomIffBeforeHand FixedWindow FixedWindow.wholeAgain config quotaOf now untimed,
    roomIffBeforeHand SlidingLog SlidingLog.wholeAgain config quotaOf now untimed,
    roomIffBeforeHand SlidingCounter SlidingCounter.wholeAgain config quotaOf now untimed⟩

/-!
### A blocked stretch
-/

/-- One shard of 33 keys. -/
def stretchStore : StoreConfig ℕ :=
  StoreConfig.new id 1 { maxKeys := some 33, idleTtl := none, overflow := .failClosed } 0

/-- A table full of marked debts, due in an hour. -/
def markedTable : Recovery :=
  { buckets := (List.range 32).map fun b =>
      { entries := (List.range 4).map fun i =>
          { tag := 100 + 4 * b + i, spent := 1, untilMs := inheritedBit + 3600000 }
        size := by simp [bucketRecords] }
    cells := List.replicate 256 0
    turn := 0
    backoff := 0 }

/-- Key 32 is untouched; every other one was charged from the sketch, and owes its unit for an hour. -/
def stretchSlot (key : ℕ) : Slot ℕ FixedWindow :=
  if key = 32 then .new key key (.new unitPerHour 0) false 0 0
  else .new key key ((FixedWindow.new unitPerHour 0).acquire 1 0).2 true 3600000 0

/-- The shard of those keys. -/
def stretchShard (hand : ℕ) : ShardMap ℕ FixedWindow :=
  { index := (List.range 33).map fun key => (key, key)
    slots := (List.range 33).map stretchSlot
    hand
    sweep := 0
    recovery := markedTable }

theorem stretchShard_statesKept (hand : ℕ) : StatesKept (fun _ => unitPerHour) (stretchShard hand) := by
  intro slot member
  obtain ⟨key, -, rfl⟩ := List.mem_map.1 member
  have fresh : (FixedWindow.new unitPerHour 0).Under unitPerHour := FixedWindow.new_under (by decide) 0
  rw [stretchSlot]
  split
  · exact fresh
  · exact fresh.acquire 1 0

/-- The hand stands before 32 blocked slots of 33. The last slot is whole and can be evicted, and no call
    finds it. -/
theorem blocked_stretch_refuses_forever :
    Consistent stretchStore (stretchStore.shardFor 0) (stretchShard 0) ∧
      StatesKept (fun _ => unitPerHour) (stretchShard 0) ∧
      (stretchShard 0).recovery.Valid stretchStore.table 0 ∧ stretchStore.table.forget = false ∧
      stretchStore.idleTtlMs = none ∧ (stretchShard 0).slots.length = stretchStore.perShardCap ∧
      ((stretchShard 0).evictable 32 0 0).1 = .recovered ∧
      .ok () ∉ (stretchShard 0).makeRooms stretchStore 0 ((stretchShard 0).slots.length ⌈/⌉ clockScan + 1) := by
  refine ⟨⟨?_, ?_, ?_, ?_, ?_⟩, stretchShard_statesKept 0, ⟨Or.inr ?_, ?_⟩, rfl, rfl, ?_, ?_, ?_⟩
  · rfl
  · decide +kernel
  · decide +kernel
  · decide +kernel
  · decide +kernel
  · decide +kernel
  · decide +kernel
  · decide +kernel
  · decide +kernel
  · decide +kernel

/-- With the hand before the last slot, the first call finds it. -/
theorem room_iff_hand_before_evictable_of_last_slot :
    .ok () ∈ (stretchShard 32).makeRooms stretchStore 0 ((stretchShard 32).slots.length ⌈/⌉ clockScan + 1) := by
  refine ((room_iff_hand_before_evictable stretchStore (fun _ => unitPerHour) 0 rfl).2.1 (stretchShard 32)
    (stretchShard_statesKept 32) (by decide +kernel)).2 ?_
  refine ⟨32, by decide +kernel, stretchSlot 32, by decide +kernel, fun immovable => ?_⟩
  exact absurd immovable.seeded (by decide +kernel)

end RateNet
