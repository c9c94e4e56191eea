/-
Module: RateNet.Proofs.RecoveryContents
Purpose: What a recovery table holds, record by record and cell by cell, whether live or not. Every
  operation only writes new, merged and empty records, moves records about, and overflows a record into
  cells; so a property of records that the empty record and every debt recorded have, and a property of
  cells that zero has and overflowing keeps, hold of the table along every run of limiter calls.
Trusted boundary: none
Main exports: Recovery.Holds, Recovery.Accepts, Recovery.record_holds, TableStep, ShardStep.table,
  TableStep.valid, TableStep.holds
-/
import RateNet.Proofs.ShardSteps

namespace RateNet

open Buckets

namespace Recovery

/-- Every record of the table has `P`, and every cell of its sketch has `Q`. -/
structure Holds (P : Record → Prop) (Q : ℕ → Prop) (t : Recovery) : Prop where
  records : ∀ held ∈ t.buckets.contents, P held.2
  cells : ∀ cell ∈ t.cells, Q cell

/-- A debt whose record has `P`, and which keeps `P` when it is merged. -/
structure Accepts (P : Record → Prop) (debt : Debt) (inherited : Bool) : Prop where
  new : ∀ probe, P (newRecord probe debt inherited)
  merged : ∀ record, P record → P (mergedRecord debt inherited record)

section Contents

variable {P : Record → Prop} {Q : ℕ → Prop} {t : Recovery} {nowMs hash b r : ℕ} {record old : Record}

theorem Holds.entry (holds : t.Holds P Q) (found : t.buckets.entry b r = some old) : P old :=
  holds.records (b, old) (Table.mem_contents.2 ⟨r, found⟩)

theorem Holds.write (holds : t.Holds P Q) (found : t.buckets.entry b r = some old) (new : P record) :
    Holds P Q { t with buckets := t.buckets.put b r record } where
  records := by
    intro held member
    have there : held ∈ (b, old) ::ₘ (t.buckets.put b r record).contents := Multiset.mem_cons_of_mem member
    rw [Table.contents_put found] at there
    rcases Multiset.mem_cons.1 there with rfl | before
    · exact new
    · exact holds.records held before
  cells := holds.cells

theorem Holds.put (holds : t.Holds P Q) (empty : P .empty) (b r : ℕ) (new : P record) :
    P (t.put b r record).1 ∧ (t.put b r record).2.Holds P Q := by
  cases found : t.buckets.entry b r with
  | none =>
      rw [Recovery.put, found]
      exact ⟨empty, holds⟩
  | some old =>
      rw [put_eq found]
      exact ⟨holds.entry found, holds.write found new⟩

/-- The offset and the back-off count are no part of what the table holds. -/
theorem Holds.marks (holds : t.Holds P Q) (turn backoff : ℕ) : Holds P Q { t with turn, backoff } :=
  { records := holds.records, cells := holds.cells }

/-- What the search for a place leaves: the table, and the record it may have left homeless. -/
def OutcomeHolds (P : Record → Prop) (Q : ℕ → Prop) (outcome : Placement × Recovery) : Prop :=
  outcome.2.Holds P Q ∧ ∀ record b, outcome.1 = .homeless record b → P record

theorem OutcomeHolds.homeless (holds : t.Holds P Q) (new : P record) :
    OutcomeHolds P Q (.homeless record b, t) := by
  refine ⟨holds, ?_⟩
  intro other b' same
  obtain ⟨rfl, -⟩ := Placement.homeless.inj same
  exact new

theorem walk_holds (empty : P .empty) (kicks : ℕ) (holds : t.Holds P Q) (b r : ℕ) (new : P record) :
    OutcomeHolds P Q (walk nowMs kicks t b r record) := by
  induction kicks generalizing t b r record with
  | zero => exact .homeless (holds.marks t.turn walkBackoff) new
  | succ kicks inductionHypothesis =>
      obtain ⟨displaced, left⟩ := holds.put empty b r new
      rw [walk]
      generalize t.put b r record = swapped at displaced left
      obtain ⟨homeless, t₁⟩ := swapped
      dsimp only at displaced left ⊢
      split
      · exact ⟨(left.put empty _ _ displaced).2, fun _ _ other => by cases other⟩
      · split
        · exact .homeless (left.marks t₁.turn walkBackoff) displaced
        · split
          · rename_i next t₂ search
            obtain ⟨turn, rfl⟩ := movableIn_snd search
            exact inductionHypothesis (left.marks turn t₁.backoff) _ next displaced
          · rename_i t₂ search
            obtain ⟨turn, rfl⟩ := movableIn_snd search
            exact .homeless (left.marks turn walkBackoff) displaced

theorem relocate_holds (empty : P .empty) (holds : t.Holds P Q) (probe : Probe) (new : P record)
    (budget : ℕ) (inherited : Bool) :
    OutcomeHolds P Q (t.relocate probe record budget nowMs inherited) := by
  rw [relocate, movableStart]
  cases first : t.movableIn probe.first nowMs with
  | mk found t₁ =>
      obtain ⟨turn, rfl⟩ := movableIn_snd first
      have turned := holds.marks turn t.backoff
      cases found with
      | some r => exact walk_holds empty budget turned _ _ new
      | none =>
          dsimp only
          cases second : Recovery.movableIn { t with turn } probe.second nowMs with
          | mk found t₂ =>
              obtain ⟨turn', rfl⟩ := movableIn_snd second
              have turned := turned.marks turn' t.backoff
              cases found with
              | some r => exact walk_holds empty budget turned _ _ new
              | none =>
                  dsimp only
                  split
                  · exact ⟨turned, fun _ _ other => by cases other⟩
                  · exact .homeless turned new

theorem place_holds (empty : P .empty) (holds : t.Holds P Q) (probe : Probe) {debt : Debt}
    {inherited : Bool} (accepts : Accepts P debt inherited) :
    OutcomeHolds P Q (t.place probe debt nowMs inherited) := by
  have exact_ : ∀ {t' : Recovery}, t'.Holds P Q → OutcomeHolds P Q (.exact, t') :=
    fun kept => ⟨kept, fun _ _ other => by cases other⟩
  have new := accepts.new probe
  rw [place]
  split
  · split
    · rename_i record found
      exact exact_ (holds.write found (accepts.merged record (holds.entry found)))
    · exact exact_ holds
  · dsimp only
    split
    · exact exact_ (holds.put empty _ _ new).2
    · have waited := holds.marks t.turn (t.backoff - 1)
      split
      · split
        · exact .homeless waited new
        · exact relocate_holds empty waited probe new 1 inherited
      · exact relocate_holds empty holds probe new maxKicks inherited

/-- What overflowing does to cells, it does to the cells of the table. -/
theorem overflow_holds (holds : t.Holds P Q)
    (spill : ∀ cell, Q cell → Q (overflowCell record nowMs cell)) (b : ℕ) :
    (t.overflow record b nowMs).Holds P Q where
  records := by
    rw [overflow_buckets]
    exact holds.records
  cells := by
    have modified : ∀ (cells : List ℕ) (i : ℕ), (∀ cell ∈ cells, Q cell) →
        ∀ cell ∈ cells.modify i (overflowCell record nowMs), Q cell := by
      intro cells i before cell member
      obtain ⟨k, held⟩ := List.getElem?_of_mem member
      rw [List.getElem?_modify] at held
      obtain ⟨old, there, rfl⟩ := Option.map_eq_some_iff.1 held
      have kept := before old (List.mem_of_getElem? there)
      split
      · exact spill old kept
      · exact kept
    exact modified _ _ (modified _ _ holds.cells)

theorem allocate_holds (empty : P .empty) (zero : Q 0) (holds : t.Holds P Q) (size : TableSize) :
    (t.allocate size).Holds P Q := by
  rw [allocate]
  split
  · constructor
    · rintro ⟨b, record⟩ member
      obtain rfl := Table.eq_of_mem_contents_replicate member
      exact empty
    · intro cell member
      obtain rfl := List.eq_of_mem_replicate member
      exact zero
  · exact holds

theorem record_holds {size : TableSize} (empty : P .empty) (zero : Q 0) (holds : t.Holds P Q) {debt : Debt}
    {inherited : Bool} (accepts : Accepts P debt inherited)
    (spill : size.forget = false → ∀ record cell, P record → Q cell → Q (overflowCell record nowMs cell)) :
    (t.record hash debt nowMs size inherited).2.Holds P Q := by
  have placed : OutcomeHolds P Q ((t.allocate size).place
      (Probe.new hash (t.allocate size).buckets.length (t.allocate size).cells.length) debt nowMs
      inherited) := place_holds empty (allocate_holds empty zero holds size) _ accepts
  rw [Recovery.record]
  generalize (t.allocate size).place _ debt nowMs inherited = outcome at placed ⊢
  obtain ⟨placement, t'⟩ := outcome
  cases placement with
  | exact => exact placed.1
  | refused => exact placed.1
  | homeless record b =>
      cases forget : size.forget with
      | true =>
          simp only [dispose, Recovery.spill, forget, if_true]
          exact placed.1
      | false =>
          simp only [dispose, Recovery.spill, forget, Bool.false_eq_true, if_false]
          exact overflow_holds placed.1 (fun cell => spill forget record cell (placed.2 record b rfl)) b

theorem forget_holds (empty : P .empty) (holds : t.Holds P Q) (hash nowMs : ℕ) :
    (t.forget hash nowMs).2.Holds P Q := by
  rw [Recovery.forget]
  split
  · exact holds
  · split
    · exact holds
    · exact (holds.put empty _ _ empty).2

theorem take_holds (empty : P .empty) (holds : t.Holds P Q) (hash nowMs : ℕ) :
    (t.take hash nowMs).2.Holds P Q := by
  rcases t.take_snd hash nowMs with same | cleared
  · rw [same]
    exact holds
  · rw [cleared]
    exact forget_holds empty holds hash nowMs

theorem new_holds : new.Holds P Q :=
  { records := fun _ member => absurd member (Multiset.notMem_zero _)
    cells := fun _ member => absurd member List.not_mem_nil }

end Contents

end Recovery

/-!
### Along the steps of a shard
-/

section Steps

variable {K S : Type} [KeyState S] {config : StoreConfig K} {quotaOf : K → Quota}
  {i : Fin config.shardCount} {now : ℕ} {map map' : ShardMap K S} {handed : List (Handover K)}

/-- What a step may do to a shard's table, with the debts it hands over. -/
inductive TableStep (config : StoreConfig K) (now : ℕ) (t : Recovery) :
    List (Handover K) → Recovery → Prop where
  | same : TableStep config now t [] t
  | record (handover : Handover K) {recorded : Recorded} (before : handover.before = t)
      (accepted : (t.record handover.hash handover.debt (millis now) config.table
        handover.seeded).1 = some recorded) :
      TableStep config now t [handover]
        (t.record handover.hash handover.debt (millis now) config.table handover.seeded).2
  | take (hash : ℕ) : TableStep config now t [] (t.take hash (millis now)).2
  | forget (hash : ℕ) : TableStep config now t [] (t.forget hash (millis now)).2
  | release : TableStep config now t [] .new

theorem RoomStep.table (step : RoomStep now (millis now) config.table map handed map') :
    TableStep config now map.recovery handed map'.recovery := by
  rcases step.hands_over with ⟨rfl, same⟩ | ⟨slot, -, debt, recorded, accepted, rfl, after⟩
  · rw [same]
    exact .same
  · rw [after]
    exact .record (slot.handover debt map.recovery) rfl accepted

theorem acquireStored_recovery [DecidableEq K] (map : ShardMap K S) (key : K) (n now : ℕ) :
    (map.acquireStored config key n now).2.recovery = map.recovery := by
  rw [ShardMap.acquireStored]
  split
  · rfl
  · split
    · rfl
    · rfl

theorem ShardStep.table [DecidableEq K] (step : ShardStep config quotaOf i now map handed map') :
    TableStep config now map.recovery handed map'.recovery := by
  cases step with
  | acquire found =>
      rw [acquireStored_recovery]
      exact .same
  | room step => exact step.table
  | store home absent room made => exact .take _
  | read held => exact .same
  | reset held => exact .same
  | forget hash => exact .forget hash
  | remove held =>
      rw [ShardMap.removeAt_recovery]
      exact .same
  | release spent => exact .release
  | clear => exact .release
  | shrink => exact .same

namespace TableStep

variable {t t' : Recovery}

theorem valid (step : TableStep config now t handed t') (valid : t.Valid config.table (millis now)) :
    t'.Valid config.table (millis now) := by
  cases step with
  | same => exact valid
  | record handover before accepted => exact Recovery.valid_record valid _ _ _
  | take hash => exact Recovery.valid_take valid hash
  | forget hash => exact Recovery.valid_forget valid hash
  | release => exact Recovery.new_valid

theorem holds {P : Record → Prop} {Q : ℕ → Prop} (step : TableStep config now t handed t')
    (empty : P .empty) (zero : Q 0)
    (accepts : ∀ handover ∈ handed, Recovery.Accepts P handover.debt handover.seeded)
    (spill : config.table.forget = false →
      ∀ record cell, P record → Q cell → Q (Recovery.overflowCell record (millis now) cell))
    (holds : t.Holds P Q) : t'.Holds P Q := by
  cases step with
  | same => exact holds
  | record handover before accepted =>
      exact Recovery.record_holds empty zero holds (accepts _ (List.mem_singleton.2 rfl)) spill
  | take hash => exact Recovery.take_holds empty holds hash _
  | forget hash => exact Recovery.forget_holds empty holds hash _
  | release => exact Recovery.new_holds

end TableStep

end Steps

end RateNet
