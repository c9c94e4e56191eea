/-
Module: RateNet.Proofs.RoomSteps
Purpose: Making room in a shard, taken apart. Whatever the idle sweep and the CLOCK hand do is a sequence
  of five kinds of step: a slot's hint is refreshed, a referenced slot is spared, a cursor moves, a slot
  that has recovered is released, and a slot that may still owe hands its debt over and goes. An
  invariant of a shard is checked against these steps once. Room-making that succeeds has really made
  room: a slot is only picked for a hand-over its debt is sure to be accepted in.
Trusted boundary: none
Main exports: RoomStep, RoomRun, RoomRun.invariant, record_accepted, makeRoom_madeBy
-/
import RateNet.Store.Store
import RateNet.Proofs.RecoveryCover

namespace RateNet

open DenseIndex

/-!
### A debt the table has room for is accepted
-/

namespace Recovery

variable {t : Recovery} {hash nowMs : ℕ} {size : TableSize}

/-- Searching the candidate buckets for a record that is not live and inherited. -/
theorem hasExactRoom_eq_false {probe : Probe} (probed : t.probe hash = some probe)
    (absent : t.own probe nowMs = none)
    (full : ∀ b ∈ probe.buckets, ∀ record, (b, record) ∈ t.buckets.contents →
      record.isLive nowMs = true ∧ record.isInherited = true) :
    t.hasExactRoom hash nowMs = false := by
  simp only [hasExactRoom, probed, absent, Option.isSome_none, Bool.false_or, List.any_eq_false]
  intro b candidate
  rw [Bool.not_eq_true, Option.any_eq_false_iff_get]
  intro some_bucket
  rw [List.any_eq_false]
  intro record member
  obtain ⟨r, held⟩ := List.getElem?_of_mem member
  have entry : t.buckets.entry b r = some record := by
    rw [Buckets.Table.entry, ← Option.some_get some_bucket]
    exact held
  obtain ⟨live, inherited⟩ := full b candidate record (Buckets.Table.mem_contents.2 ⟨r, entry⟩)
  simp [live, inherited]

theorem allocate_of_probe (size : TableSize) {probe : Probe} (probed : t.probe hash = some probe) :
    t.allocate size = t ∧ probe = Probe.new hash t.buckets.length t.cells.length := by
  unfold Recovery.probe at probed
  split at probed
  · cases probed
  · rename_i allocated
    exact ⟨if_neg allocated, (Option.some.inj probed).symm⟩

/-- A table just allocated has free records in every bucket. -/
theorem allocate_free (size : TableSize) (nowMs : ℕ) (unallocated : t.probe hash = none) :
    ∃ record, (((Probe.new hash (t.allocate size).buckets.length (t.allocate size).cells.length).first,
      record) ∈ (t.allocate size).buckets.contents) ∧ record.isLive nowMs = false := by
  have empty : t.buckets.isEmpty = true := by
    unfold Recovery.probe at unallocated
    split at unallocated
    · assumption
    · cases unallocated
  obtain ⟨i, hi⟩ := size.buckets_eq
  have fresh : (t.allocate size).buckets =
      List.replicate (2 ^ (i + 1)) (Buckets.Bucket.filled bucketRecords Record.empty) := by
    rw [allocate, if_pos empty, hi]
  refine ⟨.empty, ?_, rfl⟩
  rw [Buckets.Table.mem_contents, fresh]
  refine ⟨0, ?_⟩
  have inside : (Probe.new hash (2 ^ (i + 1)) (t.allocate size).cells.length).first < 2 ^ (i + 1) :=
    pick_lt _ _
  rw [List.length_replicate, Buckets.Table.entry, List.getElem?_replicate_of_lt inside]
  rfl

/-- A debt of the key's own, or one the exact table has room for, is always accepted. -/
theorem record_accepted (size : TableSize) {inherited : Bool}
    (room : inherited = false ∨ t.hasExactRoom hash nowMs = true) (debt : Debt) :
    ∃ recorded, (t.record hash debt nowMs size inherited).1 = some recorded := by
  rw [record]
  have effect := place_effect (t.allocate size) hash debt nowMs inherited
  generalize houtcome : (t.allocate size).place _ debt nowMs inherited = outcome at effect ⊢
  cases effect with
  | merge => exact ⟨_, rfl⟩
  | settle absent settles =>
      cases settles with
      | placed => exact ⟨_, rfl⟩
      | displaced => exact ⟨_, rfl⟩
  | refuse shape same absent marked full =>
      exfalso
      rcases room with rfl | room
      · have plain : (newRecord (Probe.new hash (t.allocate size).buckets.length
            (t.allocate size).cells.length) debt false).isInherited = false :=
          Record.isInherited_mark (untilMs_lt _) false
        rw [plain] at marked
        cases marked
      · cases hprobe : t.probe hash with
        | none =>
            obtain ⟨record, member, dead⟩ := allocate_free size nowMs hprobe
            have live := (full _ List.mem_cons_self record member).1
            rw [dead] at live
            cases live
        | some probe =>
            obtain ⟨allocated, rfl⟩ := allocate_of_probe size hprobe
            rw [allocated] at absent full
            rw [hasExactRoom_eq_false hprobe (own_eq_none_iff.2 absent) full] at room
            cases room

end Recovery

/-!
### Removing a slot
-/

namespace ShardMap

variable {K S : Type} {map : ShardMap K S} {pos : ℕ} {slot slot' : Slot K S}

theorem removeAt_eq (held : map.slots[pos]? = some slot) :
    ∃ lastSlot, map.slots[map.slots.length - 1]? = some lastSlot ∧
      map.removeAt pos = (some slot,
        { map with
          index :=
            if pos = map.slots.length - 1 then map.index.remove slot.hash (· == pos)
            else (map.index.remove slot.hash (· == pos)).replace lastSlot.hash
              (· == map.slots.length - 1) (min pos u32Max)
          slots := swapRemove map.slots pos }) := by
  have inside := (List.getElem?_eq_some_iff.1 held).1
  have last : map.slots.length - 1 < map.slots.length := by omega
  refine ⟨map.slots[map.slots.length - 1], List.getElem?_eq_getElem last, ?_⟩
  rw [removeAt, List.getLast?_eq_getElem?, List.getElem?_eq_getElem last, held]

theorem removeAt_slots (held : map.slots[pos]? = some slot) :
    (map.removeAt pos).2.slots = swapRemove map.slots pos := by
  obtain ⟨lastSlot, -, removed⟩ := removeAt_eq held
  rw [removed]

theorem removeAt_recovery (map : ShardMap K S) (pos : ℕ) :
    (map.removeAt pos).2.recovery = map.recovery := by
  rw [removeAt]
  split <;> rfl

theorem removeAt_withRecovery (map : ShardMap K S) (pos : ℕ) (recovery : Recovery) :
    (ShardMap.removeAt { map with recovery } pos).2 = { (map.removeAt pos).2 with recovery } := by
  unfold removeAt
  dsimp only
  cases map.slots.getLast? with
  | none => rfl
  | some lastSlot =>
      cases map.slots[pos]? with
      | none => rfl
      | some slot => rfl

/-- What becomes of a slot on its way out does not matter. -/
theorem removeAt_setSlot (held : map.slots[pos]? = some slot) (same : slot'.hash = slot.hash) :
    ((map.setSlot pos slot').removeAt pos).2 = (map.removeAt pos).2 := by
  have inside := (List.getElem?_eq_some_iff.1 held).1
  have held' : (map.setSlot pos slot').slots[pos]? = some slot' := List.getElem?_set_self inside
  obtain ⟨lastSlot, last, removed⟩ := removeAt_eq held
  obtain ⟨lastSlot', last', removed'⟩ := removeAt_eq held'
  have length : (map.setSlot pos slot').slots.length = map.slots.length := List.length_set
  rw [length] at last' removed'
  rw [removed, removed']
  have slots : swapRemove (map.setSlot pos slot').slots pos = swapRemove map.slots pos :=
    swapRemove_set map.slots pos slot'
  rw [slots, same]
  by_cases atEnd : pos = map.slots.length - 1
  · simp only [if_pos atEnd]
    rfl
  · have unmoved : lastSlot' = lastSlot := by
      have elsewhere : (map.setSlot pos slot').slots[map.slots.length - 1]? = _ :=
        List.getElem?_set_ne atEnd
      rw [elsewhere, last] at last'
      exact (Option.some.inj last').symm
    simp only [if_neg atEnd, unmoved]
    rfl

theorem mem_removeAt {found : Slot K S} (held : map.slots[pos]? = some slot)
    (member : found ∈ (map.removeAt pos).2.slots) : found ∈ map.slots := by
  rw [removeAt_slots held] at member
  rw [← Multiset.mem_coe, ← coe_swapRemove held]
  exact Multiset.mem_cons_of_mem member

theorem length_removeAt (held : map.slots[pos]? = some slot) :
    (map.removeAt pos).2.slots.length + 1 = map.slots.length := by
  have inside := (List.getElem?_eq_some_iff.1 held).1
  rw [removeAt_slots held, length_swapRemove]
  omega

end ShardMap

/-!
### The steps
-/

section Steps

variable {K S : Type} [KeyState S]

/-- What a slot hands to the recovery table of its shard. -/
def Slot.handover (slot : Slot K S) (debt : Debt) (before : Recovery) : Handover K :=
  { key := slot.key, hash := slot.hash, seeded := slot.seeded, debt, before }

theorem Slot.recoversAt_marks (slot : Slot K S) (now nowMs : ℕ) :
    (slot.recoversAt now nowMs).2.hash = slot.hash ∧ (slot.recoversAt now nowMs).2.key = slot.key ∧
      (slot.recoversAt now nowMs).2.seeded = slot.seeded ∧
      (slot.recoversAt now nowMs).2.referenced = slot.referenced := by
  unfold Slot.recoversAt
  split
  · exact ⟨rfl, rfl, rfl, rfl⟩
  · split
    · split <;> exact ⟨rfl, rfl, rfl, rfl⟩
    · exact ⟨rfl, rfl, rfl, rfl⟩

/-- One step of room-making at `now`, with the debts it hands over. -/
inductive RoomStep (now nowMs : ℕ) (size : TableSize) :
    ShardMap K S → List (Handover K) → ShardMap K S → Prop where
  /-- The hint of a slot is read, and refreshed from its state if it has to be. -/
  | refresh {map : ShardMap K S} {pos : ℕ} {slot : Slot K S} (held : map.slots[pos]? = some slot) :
      RoomStep now nowMs size map [] (map.setSlot pos (slot.recoversAt now nowMs).2)
  /-- The hand passes over a referenced slot. -/
  | spare {map : ShardMap K S} {pos : ℕ} {slot : Slot K S} (held : map.slots[pos]? = some slot) :
      RoomStep now nowMs size map [] (map.setSlot pos slot.spared)
  | cursors {map : ShardMap K S} (hand sweep : ℕ) :
      RoomStep now nowMs size map [] { map with hand, sweep }
  /-- A slot whose hint says it has recovered goes. -/
  | release {map : ShardMap K S} {pos : ℕ} {slot : Slot K S} (held : map.slots[pos]? = some slot)
      (recovered : (slot.recoversAt now nowMs).1 ≤ nowMs) :
      RoomStep now nowMs size map [] (map.removeAt pos).2
  /-- A slot whose state owes nothing goes. -/
  | settle {map : ShardMap K S} {pos : ℕ} {slot : Slot K S} (held : map.slots[pos]? = some slot)
      (whole : (KeyState.debt slot.state now).1 = none) :
      RoomStep now nowMs size map [] (map.removeAt pos).2
  /-- A slot whose debt has been recorded goes. -/
  | handOver {map : ShardMap K S} {pos : ℕ} {slot : Slot K S} {debt : Debt} {recorded : Recorded}
      (held : map.slots[pos]? = some slot) (owes : (KeyState.debt slot.state now).1 = some debt)
      (accepted : (map.recovery.record slot.hash debt nowMs size slot.seeded).1 = some recorded) :
      RoomStep now nowMs size map [slot.handover debt map.recovery]
        { (map.removeAt pos).2 with
          recovery := (map.recovery.record slot.hash debt nowMs size slot.seeded).2 }

/-- Any number of steps, with the debts they hand over in order. -/
inductive RoomRun (now nowMs : ℕ) (size : TableSize) :
    ShardMap K S → List (Handover K) → ShardMap K S → Prop where
  | done (map : ShardMap K S) : RoomRun now nowMs size map [] map
  | step {map map₁ map₂ : ShardMap K S} {handed handed' : List (Handover K)}
      (run : RoomRun now nowMs size map handed map₁) (step : RoomStep now nowMs size map₁ handed' map₂) :
      RoomRun now nowMs size map (handed ++ handed') map₂

variable {now nowMs : ℕ} {size : TableSize} {map map₁ map₂ : ShardMap K S}
  {handed handed' : List (Handover K)}

theorem RoomStep.run (step : RoomStep now nowMs size map handed map₁) :
    RoomRun now nowMs size map handed map₁ := RoomRun.step (.done map) step

theorem RoomRun.trans (first : RoomRun now nowMs size map handed map₁)
    (second : RoomRun now nowMs size map₁ handed' map₂) :
    RoomRun now nowMs size map (handed ++ handed') map₂ := by
  induction second with
  | done =>
      rw [List.append_nil]
      exact first
  | step _ step inductionHypothesis =>
      rw [← List.append_assoc]
      exact .step inductionHypothesis step

omit [KeyState S] in
theorem ShardMap.mem_setSlot {pos : ℕ} {slot found : Slot K S}
    (member : found ∈ (map.setSlot pos slot).slots) : found = slot ∨ found ∈ map.slots :=
  (List.mem_or_eq_of_mem_set member).symm

omit [KeyState S] in
/-- What every slot has, and the one written too, every slot has afterwards. -/
theorem ShardMap.forall_setSlot {Has : Slot K S → Prop} {pos : ℕ} {slot : Slot K S}
    (kept : ∀ found ∈ map.slots, Has found) (new : Has slot) : ∀ found ∈ (map.setSlot pos slot).slots, Has found := by
  intro found member
  rcases ShardMap.mem_setSlot member with rfl | there
  · exact new
  · exact kept found there

omit [KeyState S] in
theorem ShardMap.forall_removeAt {Has : Slot K S → Prop} {pos : ℕ} {slot : Slot K S}
    (kept : ∀ found ∈ map.slots, Has found) (held : map.slots[pos]? = some slot) :
    ∀ found ∈ (map.removeAt pos).2.slots, Has found :=
  fun found member => kept found (ShardMap.mem_removeAt held member)

/-- No step brings a key, or changes whose debt a slot carries. -/
theorem RoomStep.from_old (step : RoomStep now nowMs size map handed map₁) {found : Slot K S}
    (member : found ∈ map₁.slots) :
    ∃ old ∈ map.slots, old.key = found.key ∧ old.hash = found.hash ∧ old.seeded = found.seeded := by
  have unchanged : found ∈ map.slots →
      ∃ old ∈ map.slots, old.key = found.key ∧ old.hash = found.hash ∧ old.seeded = found.seeded :=
    fun there => ⟨found, there, rfl, rfl, rfl⟩
  cases step with
  | @refresh pos slot held =>
      obtain ⟨hash, key, seeded, -⟩ := slot.recoversAt_marks now nowMs
      rcases ShardMap.mem_setSlot member with rfl | there
      · exact ⟨slot, List.mem_of_getElem? held, key.symm, hash.symm, seeded.symm⟩
      · exact unchanged there
  | @spare pos slot held =>
      rcases ShardMap.mem_setSlot member with rfl | there
      · exact ⟨slot, List.mem_of_getElem? held, rfl, rfl, rfl⟩
      · exact unchanged there
  | cursors hand sweep => exact unchanged member
  | release held => exact unchanged (ShardMap.mem_removeAt held member)
  | settle held => exact unchanged (ShardMap.mem_removeAt held member)
  | handOver held => exact unchanged (ShardMap.mem_removeAt held member)

/-- What a step does to the table: nothing, or it records the debt of one slot. -/
theorem RoomStep.hands_over (step : RoomStep now nowMs size map handed map₁) :
    handed = [] ∧ map₁.recovery = map.recovery ∨
      ∃ slot ∈ map.slots, ∃ debt recorded,
        (map.recovery.record slot.hash debt nowMs size slot.seeded).1 = some recorded ∧
        handed = [slot.handover debt map.recovery] ∧
        map₁.recovery = (map.recovery.record slot.hash debt nowMs size slot.seeded).2 := by
  cases step with
  | refresh held => exact Or.inl ⟨rfl, rfl⟩
  | spare held => exact Or.inl ⟨rfl, rfl⟩
  | cursors hand sweep => exact Or.inl ⟨rfl, rfl⟩
  | release held recovered => exact Or.inl ⟨rfl, ShardMap.removeAt_recovery _ _⟩
  | settle held whole => exact Or.inl ⟨rfl, ShardMap.removeAt_recovery _ _⟩
  | handOver held owes accepted => exact Or.inr ⟨_, List.mem_of_getElem? held, _, _, accepted, rfl, rfl⟩

/-- A property every step keeps holds after any number of them. -/
theorem RoomRun.invariant (Inv : ShardMap K S → Prop)
    (keep : ∀ {map map' : ShardMap K S} {handed : List (Handover K)},
      RoomStep now nowMs size map handed map' → Inv map → Inv map')
    (run : RoomRun now nowMs size map handed map₁) (init : Inv map) : Inv map₁ := by
  induction run with
  | done => exact init
  | step _ step inductionHypothesis => exact keep step inductionHypothesis

/-- Room-making never adds a slot. -/
theorem RoomRun.length_le (run : RoomRun now nowMs size map handed map₁) :
    map₁.slots.length ≤ map.slots.length := by
  induction run with
  | done => exact le_rfl
  | step _ step inductionHypothesis =>
      apply le_trans _ inductionHypothesis
      cases step with
      | refresh held => exact List.length_set.le
      | spare held => exact List.length_set.le
      | cursors hand sweep => exact le_rfl
      | release held => exact (Nat.le_succ _).trans (ShardMap.length_removeAt held).le
      | settle held => exact (Nat.le_succ _).trans (ShardMap.length_removeAt held).le
      | handOver held => exact (Nat.le_succ _).trans (ShardMap.length_removeAt held).le

/-!
### Room-making is made of the steps
-/

/-- The debt of the slot at `pos` is sure to be accepted. -/
def Ready (nowMs : ℕ) (map : ShardMap K S) (pos : ℕ) : Prop :=
  ∃ slot, map.slots[pos]? = some slot ∧
    (slot.seeded = false ∨ map.recovery.hasExactRoom slot.hash nowMs = true)

/-- The slot at `pos` has just been found to have recovered. -/
def Recovered (now nowMs : ℕ) (map map₁ : ShardMap K S) (pos : ℕ) : Prop :=
  ∃ slot, map.slots[pos]? = some slot ∧ (slot.recoversAt now nowMs).1 ≤ nowMs ∧
    map₁ = map.setSlot pos (slot.recoversAt now nowMs).2

omit [KeyState S] in
/-- Changing a slot's marks leaves every slot as ready as it was. -/
theorem Ready.setSlot {pos pos' : ℕ} {slot slot' : Slot K S} (ready : Ready nowMs map pos')
    (held : map.slots[pos]? = some slot) (hash : slot'.hash = slot.hash)
    (seeded : slot'.seeded = slot.seeded) : Ready nowMs (map.setSlot pos slot') pos' := by
  obtain ⟨found, there, accepted⟩ := ready
  have inside := (List.getElem?_eq_some_iff.1 held).1
  by_cases same : pos = pos'
  · subst same
    obtain rfl : found = slot := Option.some.inj (there.symm.trans held)
    refine ⟨slot', List.getElem?_set_self inside, ?_⟩
    rw [hash, seeded]
    exact accepted
  · exact ⟨found, (List.getElem?_set_ne same).trans there, accepted⟩

/-- Where there is no slot there is nothing to evict. -/
theorem evictable_missing {pos : ℕ} (absent : map.slots[pos]? = none) {now nowMs : ℕ} :
    map.evictable pos now nowMs = (.no unknown, map) := by
  rw [ShardMap.evictable, absent]

/-- The three answers of `evictable` about a slot that is there. -/
theorem evictable_cases {pos : ℕ} {slot : Slot K S} (held : map.slots[pos]? = some slot) (now nowMs : ℕ) :
    (∃ map₁, map.evictable pos now nowMs = (.recovered, map₁) ∧ Recovered now nowMs map map₁ pos) ∨
      (∃ map₁, map.evictable pos now nowMs = (.owing, map₁) ∧
        map₁ = map.setSlot pos (slot.recoversAt now nowMs).2 ∧ Ready nowMs map₁ pos) ∨
      ∃ due map₁, map.evictable pos now nowMs = (.no due, map₁) ∧
        map₁ = map.setSlot pos (slot.recoversAt now nowMs).2 := by
  obtain ⟨hash, key, seeded, -⟩ := slot.recoversAt_marks now nowMs
  have inside := (List.getElem?_eq_some_iff.1 held).1
  simp only [ShardMap.evictable, held]
  by_cases recovered : (slot.recoversAt now nowMs).1 ≤ nowMs
  · left
    rw [if_pos recovered]
    exact ⟨_, rfl, slot, held, recovered, rfl⟩
  · right
    rw [if_neg recovered]
    split
    · rename_i accepted
      left
      refine ⟨_, rfl, rfl, (slot.recoversAt now nowMs).2, List.getElem?_set_self inside, ?_⟩
      rw [Bool.or_eq_true, Bool.not_eq_true'] at accepted
      exact accepted
    · right
      exact ⟨_, _, rfl, rfl⟩

/-- A slot that has recovered is released. -/
theorem evictAt_recovered (size : TableSize) {pos : ℕ} (found : Recovered now nowMs map map₁ pos) (out : Reclaimed K) :
    ∃ map₂, map₁.evictAt pos true now nowMs size out = (map₂, out) ∧
      RoomStep now nowMs size map [] map₂ ∧ map₂.slots.length + 1 = map.slots.length := by
  obtain ⟨slot, held, recovered, rfl⟩ := found
  refine ⟨_, rfl, ?_, ?_⟩
  · rw [ShardMap.removeAt_setSlot held (slot.recoversAt_marks now nowMs).1]
    exact .release held recovered
  · rw [ShardMap.removeAt_setSlot held (slot.recoversAt_marks now nowMs).1]
    exact ShardMap.length_removeAt held

/-- A slot that is ready hands over what it owes, and goes. -/
theorem evictAt_ready (now : ℕ) (size : TableSize) {pos : ℕ} (ready : Ready nowMs map pos) (out : Reclaimed K) :
    ∃ map₂ out₂ handed, map.evictAt pos false now nowMs size out = (map₂, out₂) ∧
      RoomStep now nowMs size map handed map₂ ∧ map₂.slots.length + 1 = map.slots.length ∧
      out₂.handed = out.handed ++ handed := by
  obtain ⟨slot, held, room⟩ := ready
  simp only [ShardMap.evictAt, held]
  cases howed : KeyState.debt slot.state now with
  | mk owed state =>
      have gone : ((map.setSlot pos { slot with state }).removeAt pos).2 = (map.removeAt pos).2 :=
        ShardMap.removeAt_setSlot held rfl
      cases owed with
      | none =>
          refine ⟨_, _, [], rfl, ?_, ?_, (List.append_nil _).symm⟩
          · rw [gone]
            exact .settle held (by rw [howed])
          · rw [gone]
            exact ShardMap.length_removeAt held
      | some debt =>
          have owes : (KeyState.debt slot.state now).1 = some debt := by rw [howed]
          have kept : (map.setSlot pos { slot with state }).recovery = map.recovery := rfl
          obtain ⟨recorded, accepted⟩ := Recovery.record_accepted size room debt
          have step := RoomStep.handOver held owes accepted
          simp only [kept]
          cases hrecord : map.recovery.record slot.hash debt nowMs size slot.seeded with
          | mk outcome recovery =>
              rw [hrecord] at accepted step
              obtain rfl : outcome = some recorded := accepted
              refine ⟨_, _, [slot.handover debt map.recovery], rfl, ?_, ?_, ?_⟩
              · rw [ShardMap.removeAt_withRecovery, gone]
                exact step
              · rw [ShardMap.removeAt_withRecovery, gone]
                exact ShardMap.length_removeAt held
              · cases recorded <;> rfl

/-- A shard and the counters reached by steps, the counters listing what the steps handed over. -/
def MadeBy (now nowMs : ℕ) (size : TableSize) (map : ShardMap K S) (out : Reclaimed K)
    (result : ShardMap K S × Reclaimed K) : Prop :=
  ∃ handed, RoomRun now nowMs size map handed result.1 ∧ result.2.handed = out.handed ++ handed

theorem MadeBy.refl (map : ShardMap K S) (out : Reclaimed K) : MadeBy now nowMs size map out (map, out) :=
  ⟨[], .done map, (List.append_nil _).symm⟩

theorem RoomStep.madeBy {out out₁ : Reclaimed K} {result : ShardMap K S × Reclaimed K}
    (step : RoomStep now nowMs size map handed map₁) (lists : out₁.handed = out.handed ++ handed)
    (rest : MadeBy now nowMs size map₁ out₁ result) : MadeBy now nowMs size map out result := by
  obtain ⟨handed', run, lists'⟩ := rest
  refine ⟨handed ++ handed', step.run.trans run, ?_⟩
  rw [lists', lists, List.append_assoc]

/-- The idle sweep. -/
theorem sweepIdle_madeBy (ttlMs steps : ℕ) (map : ShardMap K S) (out : Reclaimed K) :
    MadeBy now nowMs size map out (ShardMap.sweepIdle now nowMs ttlMs size steps map out) := by
  induction steps generalizing map out with
  | zero => exact .refl map out
  | succ steps inductionHypothesis =>
      rw [ShardMap.sweepIdle]
      split
      · exact .refl map out
      · -- a cursor past the end starts over
        have restart : RoomStep now nowMs size map []
            (if map.slots.length ≤ map.sweep then { map with sweep := 0 } else map) := by
          split
          · exact .cursors map.hand 0
          · exact .cursors map.hand map.sweep
        apply restart.madeBy (List.append_nil _).symm
        generalize (if map.slots.length ≤ map.sweep then { map with sweep := 0 } else map) = map
        dsimp only
        have advance : ∀ (map : ShardMap K S) (out : Reclaimed K), MadeBy now nowMs size map out
            (ShardMap.sweepIdle now nowMs ttlMs size steps { map with sweep := map.sweep + 1 } out) := by
          intro map out
          have moved : RoomStep now nowMs size map [] { map with sweep := map.sweep + 1 } :=
            .cursors map.hand (map.sweep + 1)
          exact moved.madeBy (List.append_nil _).symm (inductionHypothesis _ _)
        cases held : map.slots[map.sweep]? with
        | none => exact advance map out
        | some slot =>
            split
            · rcases evictable_cases held now nowMs with ⟨map₁, answer, found⟩ |
                ⟨map₁, answer, rfl, ready⟩ | ⟨due, map₁, answer, rfl⟩
              · have cursor : map₁.sweep = map.sweep := by
                  obtain ⟨_, _, _, rfl⟩ := found
                  rfl
                obtain ⟨map₂, evicted, step, -⟩ := evictAt_recovered size found out
                simp only [answer, cursor, beq_self_eq_true, evicted]
                exact step.madeBy (List.append_nil _).symm (inductionHypothesis _ _)
              · obtain ⟨map₂, out₂, handed, evicted, step, -, lists⟩ := evictAt_ready now size ready out
                have still : (Evictable.owing == Evictable.recovered) = false := rfl
                have cursor : (map.setSlot map.sweep (slot.recoversAt now nowMs).2).sweep =
                    map.sweep := rfl
                simp only [answer, cursor, still, evicted]
                apply (RoomStep.refresh held).madeBy (List.append_nil _).symm
                exact step.madeBy lists (inductionHypothesis _ _)
              · simp only [answer]
                exact (RoomStep.refresh held).madeBy (List.append_nil _).symm (advance _ out)
            · exact advance map out

/-- What a scan may come back with, and how the shard got there. -/
inductive Found (now nowMs : ℕ) (size : TableSize) (map : ShardMap K S) :
    Option ShardMap.Candidate → ShardMap K S → Prop where
  | nothing {map₂ : ShardMap K S} (run : RoomRun now nowMs size map [] map₂) :
      Found now nowMs size map none map₂
  | recovered {map₁ map₂ : ShardMap K S} {pos : ℕ} (run : RoomRun now nowMs size map [] map₁)
      (found : Recovered now nowMs map₁ map₂ pos) : Found now nowMs size map (some (pos, true)) map₂
  | owing {map₂ : ShardMap K S} {pos : ℕ} (run : RoomRun now nowMs size map [] map₂)
      (ready : Ready nowMs map₂ pos) : Found now nowMs size map (some (pos, false)) map₂

theorem Found.after {candidate : Option ShardMap.Candidate} (run : RoomRun now nowMs size map [] map₁)
    (found : Found now nowMs size map₁ candidate map₂) : Found now nowMs size map candidate map₂ := by
  cases found with
  | nothing rest => exact .nothing (run.trans rest)
  | recovered rest found => exact .recovered (run.trans rest) found
  | owing rest ready => exact .owing (run.trans rest) ready

/-- The first pass.  A slot it noted as owing stays ready while it passes over the others. -/
theorem scanUnreferenced_found (now nowMs : ℕ) (size : TableSize) (ttlMs : Option ℕ)
    (window : List ℕ) (owing : Option ℕ) (earliest : ℕ) (map : ShardMap K S) (noted : ∀ pos ∈ owing, Ready nowMs map pos) :
    Found now nowMs size map
      (ShardMap.scanUnreferenced now nowMs ttlMs window owing earliest map).1.1
      (ShardMap.scanUnreferenced now nowMs ttlMs window owing earliest map).2 := by
  induction window generalizing owing earliest map with
  | nil =>
      cases owing with
      | none => exact .nothing (.done map)
      | some pos => exact .owing (.done map) (noted pos rfl)
  | cons pos rest inductionHypothesis =>
      rw [ShardMap.scanUnreferenced]
      cases held : map.slots[pos]? with
      | none => exact inductionHypothesis owing earliest map noted
      | some slot =>
          dsimp only
          split
          · apply Found.after (RoomStep.spare held).run
            apply inductionHypothesis
            exact fun pos' member => (noted pos' member).setSlot held rfl rfl
          · obtain ⟨hash, -, seeded, -⟩ := slot.recoversAt_marks now nowMs
            have refreshed : RoomRun now nowMs size map [] (map.setSlot pos (slot.recoversAt now nowMs).2) :=
              (RoomStep.refresh held).run
            rcases evictable_cases held now nowMs with ⟨map₁, answer, found⟩ |
              ⟨map₁, answer, rfl, ready⟩ | ⟨due, map₁, answer, rfl⟩
            · rw [answer]
              exact .recovered (.done map) found
            · rw [answer]
              apply Found.after refreshed
              apply inductionHypothesis
              intro pos' member
              cases owing with
              | none =>
                  obtain rfl : pos = pos' := Option.some.inj member
                  exact ready
              | some first => exact (noted pos' member).setSlot held hash seeded
            · rw [answer]
              apply Found.after refreshed
              apply inductionHypothesis
              exact fun pos' member => (noted pos' member).setSlot held hash seeded

/-- The second pass. -/
theorem scanAny_found (now nowMs : ℕ) (size : TableSize) (window : List ℕ) (earliest : ℕ)
    (map : ShardMap K S) :
    Found now nowMs size map (ShardMap.scanAny now nowMs window earliest map).1.1
      (ShardMap.scanAny now nowMs window earliest map).2 := by
  induction window generalizing earliest map with
  | nil => exact .nothing (.done map)
  | cons pos rest inductionHypothesis =>
      rw [ShardMap.scanAny]
      cases held : map.slots[pos]? with
      | none =>
          rw [evictable_missing held]
          exact inductionHypothesis _ map
      | some slot =>
          have refreshed : RoomRun now nowMs size map [] (map.setSlot pos (slot.recoversAt now nowMs).2) :=
              (RoomStep.refresh held).run
          rcases evictable_cases held now nowMs with ⟨map₁, answer, found⟩ |
            ⟨map₁, answer, rfl, ready⟩ | ⟨due, map₁, answer, rfl⟩
          · rw [answer]
            exact .recovered (.done map) found
          · rw [answer]
            exact .owing refreshed ready
          · rw [answer]
            exact .after refreshed (inductionHypothesis _ _)

/-- Evicting what a scan found is made of steps, and leaves one slot fewer. -/
theorem finishEviction_madeBy {candidate : ShardMap.Candidate}
    (found : Found now nowMs size map (some candidate) map₁) (out : Reclaimed K) :
    MadeBy now nowMs size map out (map₁.finishEviction candidate now nowMs size out) ∧
      (map₁.finishEviction candidate now nowMs size out).1.slots.length < map.slots.length := by
  cases found with
  | @recovered map₀ _ pos run found =>
      obtain ⟨map₂, evicted, step, fewer⟩ := evictAt_recovered size found out
      have shorter := run.length_le
      rw [ShardMap.finishEviction, evicted]
      refine ⟨⟨[], ?_, (List.append_nil _).symm⟩, ?_⟩
      · exact (run.trans step.run).trans (RoomStep.cursors (pos + 1) map₂.sweep).run
      · exact lt_of_lt_of_le (Nat.lt_of_succ_le fewer.le) shorter
  | @owing _ pos run ready =>
      obtain ⟨map₂, out₂, handed, evicted, step, fewer, lists⟩ := evictAt_ready now size ready out
      have shorter := run.length_le
      rw [ShardMap.finishEviction, evicted]
      refine ⟨⟨handed, ?_, lists⟩, ?_⟩
      · have moved := (run.trans step.run).trans (RoomStep.cursors (pos + 1) map₂.sweep).run
        rw [List.nil_append, List.append_nil] at moved
        exact moved
      · exact lt_of_lt_of_le (Nat.lt_of_succ_le fewer.le) shorter

/-- Evicting one entry is made of steps, and unless it fails a full shard has one slot fewer. -/
theorem evictOne_madeBy (now nowMs : ℕ) (size : TableSize) (ttlMs : Option ℕ) (map : ShardMap K S)
    (out : Reclaimed K) (occupied : map.slots.length ≠ 0) :
    MadeBy now nowMs size map out (map.evictOne now nowMs ttlMs size out).2 ∧
      ((map.evictOne now nowMs ttlMs size out).1 = .ok () →
        (map.evictOne now nowMs ttlMs size out).2.1.slots.length < map.slots.length) := by
  rw [ShardMap.evictOne, if_neg occupied]
  dsimp only
  have first := scanUnreferenced_found now nowMs size ttlMs map.clockWindow none unknown map
    (fun _ member => by cases member)
  generalize ShardMap.scanUnreferenced now nowMs ttlMs map.clockWindow none unknown map = scanned at first
  rcases scanned with ⟨⟨candidate | candidate, earliest⟩, map₁⟩
  · cases first with
    | nothing run =>
        have second := scanAny_found now nowMs size map.clockWindow earliest map₁
        dsimp only
        generalize ShardMap.scanAny now nowMs map.clockWindow earliest map₁ = scanned at second
        rcases scanned with ⟨⟨candidate | candidate, earliest'⟩, map₂⟩
        · cases second with
          | nothing rest =>
              refine ⟨⟨[], run.trans rest, (List.append_nil _).symm⟩, ?_⟩
              intro failed
              cases failed
        · obtain ⟨made, fewer⟩ := finishEviction_madeBy (second.after run) out
          exact ⟨made, fun _ => fewer⟩
  · obtain ⟨made, fewer⟩ := finishEviction_madeBy first out
    exact ⟨made, fun _ => fewer⟩

/-- Making room is made of steps, and a shard that has made room has room. -/
theorem makeRoom_madeBy (config : StoreConfig K) (map : ShardMap K S) (now nowMs : ℕ) :
    MadeBy now nowMs config.table map .zero (map.makeRoom config now nowMs).2 ∧
      ((map.makeRoom config now nowMs).1 = .ok () → map.slots.length ≤ config.perShardCap →
        (map.makeRoom config now nowMs).2.1.slots.length < config.perShardCap) := by
  have afterSweep : ∀ swept : ShardMap K S × Reclaimed K,
      MadeBy now nowMs config.table map .zero swept →
        let room := if config.perShardCap ≤ swept.1.slots.length then
            swept.1.evictOne now nowMs config.idleTtlMs config.table swept.2
          else (.ok (), swept.1, swept.2)
        MadeBy now nowMs config.table map .zero room.2 ∧
          (room.1 = .ok () → map.slots.length ≤ config.perShardCap →
            room.2.1.slots.length < config.perShardCap) := by
    rintro ⟨map₁, out₁⟩ ⟨handed, run, lists⟩
    dsimp only at run lists ⊢
    split
    · rename_i full
      have occupied : map₁.slots.length ≠ 0 := (lt_of_lt_of_le config.cap_pos full).ne'
      obtain ⟨⟨handed', run', lists'⟩, fewer⟩ :=
        evictOne_madeBy now nowMs config.table config.idleTtlMs map₁ out₁ occupied
      refine ⟨⟨handed ++ handed', run.trans run', ?_⟩, ?_⟩
      · rw [lists', lists, List.append_assoc]
      · exact fun ok within => lt_of_lt_of_le (fewer ok) (run.length_le.trans within)
    · rename_i room
      exact ⟨⟨handed, run, lists⟩, fun _ _ => Nat.lt_of_not_le room⟩
  rw [ShardMap.makeRoom]
  split
  rename_i map₁ out₁ swept
  apply afterSweep (map₁, out₁)
  rw [← swept]
  split
  · exact sweepIdle_madeBy _ _ map _
  · exact .refl map _

end Steps

end RateNet
