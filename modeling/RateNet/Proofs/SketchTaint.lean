/-
Module: RateNet.Proofs.SketchTaint
Purpose: Where debts charged from the shared sketch go. A tracked key is tainted when its charge came in
  part from the sketch, or from a record a tainted key's eviction wrote or merged into. The store tells
  tainted keys and records from others by a mark, and a marked debt is never spilled. But a returning
  key is marked from its sketch cells alone: a marked record that outlives them is restored into an
  unmarked slot, and its debt reaches the sketch again. As long as every newcomer with a marked record
  finds its cells live, taint never outruns the marks and never reaches the sketch.
Trusted boundary: none
Main exports: Taint, TracedStore, TracedStore.Contained, MarkCovered, Recovery.spilledAccount_plain,
  Marked, RoomRun.marked, taint_contained_while_marks_covered, taint_outlives_cells
-/
import RateNet.Proofs.ForgetMode
import RateNet.Proofs.SpilledDeadlines
import RateNet.Proofs.RecoveryHints

namespace RateNet

open Buckets

/-!
### Following the debts
-/

namespace Recovery

/-- The account whose debt recording `debt` writes to the sketch, if any. -/
def spilledAccount (t : Recovery) (hash : ℕ) (debt : Debt) (nowMs : ℕ) (size : TableSize)
    (inherited : Bool) : Option Account :=
  let t := t.allocate size
  match (t.place (Probe.new hash t.buckets.length t.cells.length) debt nowMs inherited).1 with
  | .homeless record bucket =>
    if size.forget then none else some (record.account t.buckets.length bucket)
  | .exact => none
  | .refused => none

/-- Whether the sketch has anything to charge the key. -/
def sketched (t : Recovery) (hash nowMs : ℕ) : Bool :=
  (t.probe hash).any fun probe => (t.shared probe nowMs).isSome

/-- Whether the key's own live record carries the mark of the sketch. -/
def marked (t : Recovery) (hash nowMs : ℕ) : Bool :=
  (t.probe hash).any fun probe =>
    ((t.own probe nowMs).bind fun place => t.buckets.entry place.1 place.2).any Record.isInherited

end Recovery

/-- The tainted keys, and the accounts whose record, if they have one, is tainted. -/
structure Taint (K : Type) where
  keys : K → Bool
  records : Account → Bool

namespace Taint

variable {K : Type} (size : TableSize) (nowMs : ℕ)

def new : Taint K := { keys := fun _ => false, records := fun _ => false }

/-- Whether handing a debt over writes the debt of a tainted key to the sketch: its own, or one whose
    record it displaces. -/
def reachesSketch (taint : Taint K) (handover : Handover K) : Bool :=
  match handover.before.spilledAccount handover.hash handover.debt nowMs size handover.seeded with
  | none => false
  | some account =>
    if account = accountOf size handover.hash then taint.keys handover.key else taint.records account

/-- The record an evicted key leaves is tainted if the key is, or the record it was merged into. -/
def evict (taint : Taint K) (handover : Handover K) : Taint K :=
  let account := accountOf size handover.hash
  { taint with
    records := Function.update taint.records account
      (handover.before.owns handover.hash nowMs && taint.records account || taint.keys handover.key) }

/-- No debt handed over in turn writes the debt of a tainted key to the sketch. -/
def Clean (taint : Taint K) (handed : List (Handover K)) : Prop :=
  Runs.Along (fun before handover => (before.foldl (evict size nowMs) taint).reachesSketch size nowMs
    handover = false) handed

instance (taint : Taint K) (handed : List (Handover K)) : Decidable (taint.Clean size nowMs handed) := by
  unfold Clean
  infer_instance

theorem clean_nil (taint : Taint K) : taint.Clean size nowMs [] := by
  intro before handover rest split
  cases before <;> cases split

/-- Whether what `t` charges the key comes in part from the sketch or from a tainted record. -/
def charged (taint : Taint K) (t : Recovery) (hash : ℕ) : Bool :=
  t.sketched hash nowMs || t.owns hash nowMs && taint.records (accountOf size hash)

/-- A key stored with its charge. -/
def stored [DecidableEq K] (taint : Taint K) (key : K) (tainted : Bool) : Taint K :=
  { taint with keys := Function.update taint.keys key tainted }

/-- The taint of a shard after a check of `key`: the evictions in order, then the key if it was stored, with
    the charge read off `recovery`, the table once room had been made. -/
def checked [DecidableEq K] (taint : Taint K) (outcome : Outcome K) (key : K) (hash : ℕ)
    (recovery : Recovery) : Taint K :=
  let taint := outcome.reclaimed.handed.foldl (evict size nowMs) taint
  if outcome.inserted.isSome then taint.stored key (taint.charged size nowMs recovery hash) else taint

theorem evict_records_self (taint : Taint K) (handover : Handover K) :
    (taint.evict size nowMs handover).records (accountOf size handover.hash) =
      (handover.before.owns handover.hash nowMs && taint.records (accountOf size handover.hash) ||
        taint.keys handover.key) := Function.update_self _ _ _

theorem evict_records_of_ne (taint : Taint K) {handover : Handover K} {account : Account}
    (other : account ≠ accountOf size handover.hash) :
    (taint.evict size nowMs handover).records account = taint.records account :=
  Function.update_of_ne other _ _

theorem stored_keys_self [DecidableEq K] (taint : Taint K) (key : K) (tainted : Bool) :
    (taint.stored key tainted).keys key = tainted := Function.update_self _ _ _

theorem stored_keys_of_ne [DecidableEq K] (taint : Taint K) {key other : K} (tainted : Bool)
    (differ : other ≠ key) : (taint.stored key tainted).keys other = taint.keys other :=
  Function.update_of_ne differ _ _

end Taint

/-- A store, and the taint in each of its shards. -/
structure TracedStore {K : Type} (config : StoreConfig K) (S : Type) where
  shards : Store config S
  taint : Fin config.shardCount → Taint K

namespace TracedStore

variable {K S : Type} [DecidableEq K] [KeyState S] {config : StoreConfig K} (quotaOf : K → Quota)

def new : TracedStore config S := { shards := .new, taint := fun _ => .new }

/-- The check as the store makes it. -/
def answer (store : TracedStore config S) (check : Check K) : Outcome K × Store config S :=
  store.shards.check check.key check.n check.now (KeyState.create (quotaOf check.key))

/-- The taint of the key's shard after a check. -/
def taintAfter (store : TracedStore config S) (check : Check K) : Taint K :=
  let i := config.shardFor check.key
  let nowMs := millis check.now
  (store.taint i).checked config.table nowMs (store.answer quotaOf check).1 check.key
    (config.hasher check.key) ((store.shards i).makeRoom config check.now nowMs).2.1.recovery

def check (store : TracedStore config S) (check : Check K) : TracedStore config S :=
  { shards := (store.answer quotaOf check).2
    taint := Function.update store.taint (config.shardFor check.key) (store.taintAfter quotaOf check) }

def after (checks : List (Check K)) : TracedStore config S := checks.foldl (check quotaOf) new

/-- A check writes no tainted debt to the sketch, and a key it stores with a tainted charge it stores
    marked. -/
def Contained (store : TracedStore config S) (check : Check K) : Prop :=
  let i := config.shardFor check.key
  let outcome := (store.answer quotaOf check).1
  (store.taint i).Clean config.table (millis check.now) outcome.reclaimed.handed ∧
    (outcome.inserted.isSome = true → (store.taintAfter quotaOf check).keys check.key = true →
      ∀ slot ∈ ((store.answer quotaOf check).2 i).slots, slot.key = check.key → slot.seeded = true)

instance (store : TracedStore config S) (check : Check K) : Decidable (store.Contained quotaOf check) := by
  unfold Contained
  infer_instance

end TracedStore

/-- A mark the newcomer may inherit shows in its sketch cells: they are live, or its record carries no mark
    and no marked key shares its account. -/
def MarkCovered {K S : Type} (size : TableSize) (map : ShardMap K S) (hash nowMs : ℕ) : Prop :=
  map.recovery.sketched hash nowMs = true ∨
    map.recovery.marked hash nowMs = false ∧
      ∀ slot ∈ map.slots, slot.seeded = true → accountOf size slot.hash ≠ accountOf size hash

/-- The condition a check has to meet: its key is tracked, or its mark is covered. -/
def TracedStore.Covered {K S : Type} [DecidableEq K] {config : StoreConfig K} (store : TracedStore config S)
    (check : Check K) : Prop :=
  store.shards.tracks check.key = true ∨
    MarkCovered config.table (store.shards (config.shardFor check.key)) (config.hasher check.key)
      (millis check.now)

instance {K S : Type} [DecidableEq K] {config : StoreConfig K} (store : TracedStore config S)
    (check : Check K) : Decidable (store.Covered check) := by
  unfold TracedStore.Covered MarkCovered
  infer_instance

/-!
### What the table shows of an account
-/

namespace Recovery

variable {t : Recovery} {size : TableSize} {nowMs hash : ℕ} {debt : Debt} {inherited : Bool}

/-- The mark `marked` looks for is that of the account's live record. -/
theorem marked_iff (valid : t.Valid size nowMs) :
    t.marked hash nowMs = true ↔
      ∃ record, (accountOf size hash, record) ∈ t.ledger nowMs ∧ record.isInherited = true := by
  rcases probe_cases valid.sized hash nowMs with ⟨none, nothing, -⟩ | ⟨probed, buckets, cells⟩
  · simp [marked, none, nothing]
  · have own := @own_entry_iff t nowMs hash valid.single
    rw [buckets, cells] at own
    have mine : (Probe.new hash size.buckets size.cells).account = accountOf size hash := rfl
    rw [mine] at own
    simp only [marked, probed, Option.any_some, Option.any_eq_true, own]

/-- The sketch charges a key exactly while both cells of its account are live. -/
theorem sketched_iff (sized : t.Sized size) :
    t.sketched hash nowMs = true ↔
      nowMs < (unpack (t.cell (cellsFor size (accountOf size hash)).1)).1 ∧
        nowMs < (unpack (t.cell (cellsFor size (accountOf size hash)).2)).1 := by
  rcases probe_cases sized hash nowMs with ⟨none, -, cells⟩ | ⟨probed, -, -⟩
  · have blank : ∀ c, (unpack (t.cell c)).1 = 0 := by
      intro c
      rw [cell, cells, List.getElem?_nil]
      decide
    simp [sketched, none, blank]
  · have mine : (Probe.new hash size.buckets size.cells).cells = cellsFor size (accountOf size hash) := rfl
    simp only [sketched, probed, Option.any_some, shared, mine]
    split
    · rename_i live
      exact iff_of_true rfl live
    · rename_i expired
      exact iff_of_false Bool.false_ne_true expired

/-- A key stored with its charge is marked exactly when the sketch charges it. -/
theorem take_shared (t : Recovery) (hash nowMs : ℕ) :
    (t.take hash nowMs).1.any Charge.shared = t.sketched hash nowMs := by
  rw [take_fst, peek, sketched]
  cases t.probe hash with
  | none => rfl
  | some probe =>
      rw [Option.any_some]
      dsimp only
      cases ((t.own probe nowMs).bind fun place => t.buckets.entry place.1 place.2).map Record.debt with
      | none => cases t.shared probe nowMs <;> rfl
      | some own => cases t.shared probe nowMs <;> rfl

theorem take_capped (capped : t.Capped) (hash nowMs : ℕ) : (t.take hash nowMs).2.Capped :=
  take_holds trivial capped hash nowMs

/-- Recording a debt keeps what both cells of an account show. -/
theorem sketched_record {owed : Obligation} (sized : t.Sized size) (due : nowMs < owed.untilMs)
    (shown : t.Sketched size owed) :
    (t.record hash debt nowMs size inherited).2.Sketched size owed := by
  obtain ⟨-, cells⟩ := allocate_sized sized
  have allocated : (t.allocate size).Sketched size owed := by
    rw [Sketched, allocate_cell sized, allocate_cell sized]
    exact shown
  rw [record]
  generalize t.allocate size = t₁ at cells allocated ⊢
  have shape := (place_effect t₁ hash debt nowMs inherited).shape
  generalize t₁.place _ debt nowMs inherited = outcome at shape ⊢
  have placed := sketched_of_shape shape allocated
  rcases dispose_cases nowMs size outcome with same | ⟨record, b, spilled⟩
  · rw [same]
    exact placed
  · rw [spilled]
    exact sketched_overflow record (shape.cells ▸ cells) due placed

/-- Cells that are live stay live when a debt is recorded. -/
theorem record_keeps_sketched {hash' : ℕ} (valid : t.Valid size nowMs) (capped : t.Capped)
    (sketched : t.sketched hash' nowMs = true) :
    (t.record hash debt nowMs size inherited).2.sketched hash' nowMs = true := by
  obtain ⟨first, second⟩ := (sketched_iff valid.sized).1 sketched
  let owed : Obligation :=
    { account := accountOf size hash', spent := 0, untilMs := nowMs + 1
      spent_le := Nat.zero_le _, until_le := first.trans_le (cell_capped capped _) }
  have shown : t.Sketched size owed := ⟨⟨first, Nat.zero_le _⟩, ⟨second, Nat.zero_le _⟩⟩
  have kept : (t.record hash debt nowMs size inherited).2.Sketched size owed :=
    sketched_record valid.sized (Nat.lt_succ_self nowMs) shown
  exact (sketched_iff (valid_record valid hash debt inherited).sized).2 ⟨kept.1.1, kept.2.1⟩

/-!
### What is spilled is plain
-/

/-- A walk leaves a live record over. -/
theorem walk_homeless_live {kicks b r : ℕ} {old homeless record : Record} {bucket : ℕ}
    (found : t.buckets.entry b r = some old) (movable : old.isMovable nowMs = true)
    (left : (walk nowMs (kicks + 1) t b r homeless).1 = .homeless record bucket) :
    record.isLive nowMs = true := by
  have live : ∀ {old : Record}, old.isMovable nowMs = true → old.isLive nowMs = true := by
    intro old movable
    exact (Bool.and_eq_true_iff.1 movable).1
  induction kicks generalizing t b r old homeless with
  | zero =>
      rw [walk, put_eq found] at left
      dsimp only at left
      split at left
      · cases left
      · rw [if_pos rfl] at left
        cases left
        exact live movable
  | succ kicks inductionHypothesis =>
      rw [walk, put_eq found] at left
      dsimp only at left
      split at left
      · cases left
      · rw [if_neg (Nat.succ_ne_zero kicks)] at left
        split at left
        · -- the displaced record walks on
          rename_i next t₁ hmovable
          obtain ⟨record₁, there, movable₁⟩ := movableIn_eq_some hmovable
          obtain ⟨turn, rfl⟩ := movableIn_snd hmovable
          exact inductionHypothesis there movable₁ left
        · cases left
          exact live movable

theorem relocate_homeless {probe : Probe} {new record : Record} {budget bucket : ℕ}
    (left : (t.relocate probe new (budget + 1) nowMs inherited).1 = .homeless record bucket) :
    record.isLive nowMs = true ∨ inherited = false ∧ record = new ∧ bucket = probe.first := by
  rw [relocate] at left
  rcases movableStart_cases t probe nowMs with
    ⟨b, r, turn, old, start, -, found, movable⟩ | ⟨turn, start, -⟩
  · rw [start] at left
    exact Or.inl (walk_homeless_live (t := { t with turn }) found movable left)
  · rw [start] at left
    cases inherited with
    | true => cases left
    | false =>
        cases left
        exact Or.inr ⟨rfl, rfl, rfl⟩

/-- What the search for a place leaves homeless: a live record, or the new one, unmarked. -/
theorem place_homeless {probe : Probe} {record : Record} {bucket : ℕ}
    (left : (t.place probe debt nowMs inherited).1 = .homeless record bucket) :
    record.isLive nowMs = true ∨
      inherited = false ∧ record = newRecord probe debt inherited ∧ bucket = probe.first := by
  rw [place] at left
  dsimp only at left
  split at left
  · split at left <;> cases left
  · split at left
    · cases left
    · split at left
      · cases inherited with
        | false =>
            cases left
            exact Or.inr ⟨rfl, rfl, rfl⟩
        | true => exact relocate_homeless left
      · exact relocate_homeless left

/-- A debt is written to the sketch for the key that hands it over, unmarked, or for an account whose record
    carries no mark. -/
theorem spilledAccount_plain {account : Account} (valid : t.Valid size nowMs)
    (spilled : t.spilledAccount hash debt nowMs size inherited = some account) :
    account = accountOf size hash ∧ inherited = false ∨
      account ≠ accountOf size hash ∧
        ∃ record, (account, record) ∈ t.ledger nowMs ∧ record.isInherited = false := by
  obtain ⟨buckets, cells⟩ := allocate_sized valid.sized
  rw [← allocate_ledger t size]
  unfold spilledAccount at spilled
  dsimp only at spilled
  generalize t.allocate size = t₁ at buckets cells spilled ⊢
  have effect := place_effect t₁ hash debt nowMs inherited
  have left := @place_homeless t₁ nowMs debt inherited (Probe.new hash t₁.buckets.length t₁.cells.length)
  have mark : (newRecord (Probe.new hash size.buckets size.cells) debt inherited).isInherited = inherited :=
    Record.isInherited_mark (untilMs_lt _) inherited
  have mine : (Probe.new hash size.buckets size.cells).account = accountOf size hash := rfl
  rw [buckets, cells] at effect left spilled
  generalize t₁.place _ debt nowMs inherited = outcome at effect left spilled
  rcases outcome with ⟨_ | ⟨record, bucket⟩ | _, t'⟩
  · cases spilled
  · dsimp only at spilled
    split at spilled
    · cases spilled
    · obtain rfl := Option.some.inj spilled
      rcases left rfl with live | ⟨unmarked, rfl, rfl⟩
      · cases effect with
        | settle absent settles =>
            cases settles with
            | displaced shape plain traded =>
                rw [claimed_of_live _ live, mine, buckets] at traded
                have there : (record.account size.buckets bucket, record) ∈
                    claimed nowMs (accountOf size hash)
                      (newRecord (Probe.new hash size.buckets size.cells) debt inherited) +
                        t₁.ledger nowMs := by
                  rw [← traded]
                  exact Multiset.mem_add.2 (Or.inl (Multiset.mem_singleton_self _))
                rcases Multiset.mem_add.1 there with new | before
                · obtain ⟨-, same⟩ := mem_claimed.1 new
                  obtain ⟨own, rfl⟩ := Prod.mk.inj same
                  exact Or.inl ⟨own, mark.symm.trans plain⟩
                · refine Or.inr ⟨?_, record, before, plain⟩
                  intro own
                  rw [own, ← mine] at before
                  exact absent record before
      · exact Or.inl ⟨Record.account_eq_iff.2 ⟨rfl, List.mem_cons_self⟩, unmarked⟩
  · cases spilled

end Recovery

/-!
### Taint keeps to the marks
-/

section Marks

variable {K S : Type} [KeyState S] {config : StoreConfig K} {i : Fin config.shardCount} {now hash : ℕ}
  {map map' : ShardMap K S} {handed : List (Handover K)} {taint : Taint K}

/-- Every tainted key and every tainted record of a shard carries the mark. -/
structure Marked (config : StoreConfig K) (now : ℕ) (taint : Taint K) (map : ShardMap K S) : Prop where
  valid : map.recovery.Valid config.table (millis now)
  capped : map.recovery.Capped
  keys : ∀ slot ∈ map.slots, taint.keys slot.key = true → slot.seeded = true
  records : ∀ item ∈ map.recovery.ledger (millis now), taint.records item.1 = true →
    item.2.isInherited = true

omit [KeyState S] in
theorem Marked.new (now : ℕ) : Marked config now .new (.new : ShardMap K S) where
  valid := Recovery.new_valid
  capped := Recovery.new_holds
  keys := fun _ member => absurd member List.not_mem_nil
  records := fun _ member => absurd member (Multiset.notMem_zero _)

omit [KeyState S] in
theorem Marked.later {now' : ℕ} (marked : Marked config now taint map) (later : now ≤ now') :
    Marked config now' taint map where
  valid := marked.valid.later (millis_mono later)
  capped := marked.capped
  keys := marked.keys
  records := fun item member =>
    marked.records item (Multiset.mem_of_le (map.recovery.ledger_le_of_le (millis_mono later)) member)

/-- The record an evicted key leaves carries the mark if it is tainted. -/
theorem evict_marked {t : Recovery} (handover : Handover K) {recorded : Recorded}
    (before : handover.before = t) (valid : t.Valid config.table (millis now))
    (accepted : (t.record handover.hash handover.debt (millis now) config.table handover.seeded).1 =
      some recorded)
    (key : taint.keys handover.key = true → handover.seeded = true)
    (records : ∀ item ∈ t.ledger (millis now), taint.records item.1 = true → item.2.isInherited = true) :
    ∀ item ∈ (t.record handover.hash handover.debt (millis now) config.table handover.seeded).2.ledger
        (millis now),
      (taint.evict config.table (millis now) handover).records item.1 = true →
        item.2.isInherited = true := by
  rintro ⟨account, record⟩ member tainted
  rcases Recovery.mem_ledger_record valid accepted member with ⟨other, there⟩ | ⟨rfl, own⟩
  · rw [Taint.evict_records_of_ne _ _ _ other] at tainted
    exact records _ there tainted
  · rw [Taint.evict_records_self, before, Bool.or_eq_true, Bool.and_eq_true] at tainted
    rcases own with ⟨old, there, rfl⟩ | ⟨absent, rfl⟩
    · -- merged: the mark of either is kept
      rw [Recovery.mergedRecord, Record.isInherited_merge _ (Recovery.untilMs_lt _), Bool.or_eq_true]
      exact tainted.imp (fun both => records _ there both.2) key
    · rw [Recovery.newRecord, Record.isInherited_mark (Recovery.untilMs_lt _)]
      rcases tainted with ⟨owns, -⟩ | tainted
      · obtain ⟨old, there⟩ := (Recovery.owns_iff_of_sized valid.sized).1 owns
        exact absurd there (absent old)
      · exact key tainted

/-- A hand-over writes no tainted debt to the sketch while every taint is marked. -/
theorem reachesSketch_of_marked (handover : Handover K)
    (valid : handover.before.Valid config.table (millis now))
    (key : taint.keys handover.key = true → handover.seeded = true)
    (records : ∀ item ∈ handover.before.ledger (millis now), taint.records item.1 = true →
      item.2.isInherited = true) :
    taint.reachesSketch config.table (millis now) handover = false := by
  unfold Taint.reachesSketch
  split
  · rfl
  · rename_i account spilled
    rcases Recovery.spilledAccount_plain valid spilled with ⟨rfl, unmarked⟩ | ⟨other, record, there, plain⟩
    · rw [if_pos rfl, ← Bool.not_eq_true]
      intro tainted
      rw [key tainted] at unmarked
      cases unmarked
    · rw [if_neg other, ← Bool.not_eq_true]
      intro tainted
      rw [records _ there tainted] at plain
      cases plain

/-- What one step of room-making does to the taint: nothing, or one eviction, which keeps to the marks. -/
theorem RoomStep.marked (step : RoomStep now (millis now) config.table map handed map')
    (marked : Marked config now taint map) :
    Marked config now (handed.foldl (Taint.evict config.table (millis now)) taint) map' ∧
      (handed = [] ∨ ∃ handover, handed = [handover] ∧
        taint.reachesSketch config.table (millis now) handover = false) := by
  have valid := step.table.valid marked.valid
  have keys : ∀ slot ∈ map'.slots, taint.keys slot.key = true → slot.seeded = true := by
    intro slot member tainted
    obtain ⟨old, there, key, -, seeded⟩ := step.from_old member
    rw [← seeded]
    exact marked.keys old there (key ▸ tainted)
  rcases step.hands_over with ⟨rfl, same⟩ | ⟨slot, there, debt, recorded, accepted, rfl, after⟩
  · refine ⟨⟨valid, ?_, keys, ?_⟩, Or.inl rfl⟩
    · rw [same]
      exact marked.capped
    · rw [same]
      exact marked.records
  · have key := marked.keys slot there
    let handover := slot.handover debt map.recovery
    refine ⟨⟨valid, ?_, keys, ?_⟩, Or.inr ⟨handover, rfl, ?_⟩⟩
    · rw [after]
      exact Recovery.record_capped marked.capped _
    · rw [after]
      exact evict_marked handover rfl marked.valid accepted key marked.records
    · exact reachesSketch_of_marked handover marked.valid key marked.records

/-- Making room keeps taint to the marks, eviction by eviction. -/
theorem RoomRun.marked (run : RoomRun now (millis now) config.table map handed map')
    (marked : Marked config now taint map) :
    Marked config now (handed.foldl (Taint.evict config.table (millis now)) taint) map' ∧
      taint.Clean config.table (millis now) handed := by
  induction run with
  | done => exact ⟨marked, Taint.clean_nil _ _ _⟩
  | step _ last inductionHypothesis =>
      obtain ⟨kept, along⟩ := inductionHypothesis
      obtain ⟨kept', handing⟩ := last.marked kept
      rw [List.foldl_append]
      refine ⟨kept', ?_⟩
      rcases handing with rfl | ⟨handover, rfl, clean⟩
      · rw [List.append_nil]
        exact along
      · exact Runs.along_snoc.2 ⟨along, clean⟩

/-- Making room keeps the newcomer's mark covered: cells stay live, and an account without marks gains
    none. -/
theorem RoomStep.markCovered (step : RoomStep now (millis now) config.table map handed map')
    (valid : map.recovery.Valid config.table (millis now)) (capped : map.recovery.Capped)
    (covered : MarkCovered config.table map hash (millis now)) :
    MarkCovered config.table map' hash (millis now) := by
  have slots : (∀ slot ∈ map.slots, slot.seeded = true →
        accountOf config.table slot.hash ≠ accountOf config.table hash) →
      ∀ slot ∈ map'.slots, slot.seeded = true →
        accountOf config.table slot.hash ≠ accountOf config.table hash := by
    intro apart slot member seeded
    obtain ⟨old, there, -, same, mark⟩ := step.from_old member
    rw [← same]
    exact apart old there (mark.trans seeded)
  rcases step.hands_over with ⟨-, unchanged⟩ | ⟨slot, there, debt, recorded, accepted, -, after⟩
  · rw [MarkCovered, unchanged]
    exact covered.imp_right (And.imp_right slots)
  · rw [MarkCovered, after]
    refine covered.imp (Recovery.record_keeps_sketched valid capped) ?_
    rintro ⟨unmarked, apart⟩
    refine ⟨?_, slots apart⟩
    rw [← Bool.not_eq_true, Recovery.marked_iff (Recovery.valid_record valid _ _ _)]
    rw [← Bool.not_eq_true, Recovery.marked_iff valid] at unmarked
    rintro ⟨record, member, inherited⟩
    rcases Recovery.mem_ledger_record valid accepted member with ⟨-, before⟩ | ⟨same, own⟩
    · exact unmarked ⟨record, before, inherited⟩
    · -- the newcomer's own account: the slot that hands over is unmarked, and so is what it merges with
      have plain : slot.seeded = false := by
        rw [← Bool.not_eq_true]
        exact fun seeded => apart slot there seeded same.symm
      rw [plain] at own
      rcases own with ⟨old, before, rfl⟩ | ⟨-, rfl⟩
      · rw [Recovery.mergedRecord, Record.isInherited_merge _ (Recovery.untilMs_lt _),
          Bool.or_false] at inherited
        exact unmarked ⟨old, before, inherited⟩
      · rw [Recovery.newRecord, Record.isInherited_mark (Recovery.untilMs_lt _)] at inherited
        cases inherited

theorem RoomRun.markCovered (run : RoomRun now (millis now) config.table map handed map')
    (marked : Marked config now taint map) (covered : MarkCovered config.table map hash (millis now)) :
    MarkCovered config.table map' hash (millis now) := by
  induction run with
  | done => exact covered
  | step earlier last inductionHypothesis =>
      obtain ⟨kept, -⟩ := earlier.marked marked
      exact last.markCovered kept.valid kept.capped inductionHypothesis

/-- A newcomer whose mark is covered is stored marked if its charge is tainted. -/
theorem store_marked [DecidableEq K] {key : K} (marked : Marked config now taint map)
    (absent : ∀ slot ∈ map.slots, slot.key ≠ key)
    (covered : MarkCovered config.table map (config.hasher key) (millis now)) (n : ℕ) (state : S) :
    Marked config now
      (taint.stored key (taint.charged config.table (millis now) map.recovery (config.hasher key)))
      (map.store config key n now state).2 := by
  have seeded : taint.charged config.table (millis now) map.recovery (config.hasher key) = true →
      map.recovery.sketched (config.hasher key) (millis now) = true := by
    intro charged
    rw [Taint.charged, Bool.or_eq_true, Bool.and_eq_true] at charged
    rcases charged with sketched | ⟨owns, tainted⟩
    · exact sketched
    · -- a tainted record carries the mark, so the newcomer's cells must be live
      obtain ⟨record, there⟩ := (Recovery.owns_iff_of_sized marked.valid.sized).1 owns
      have mark := (Recovery.marked_iff marked.valid).2 ⟨record, there, marked.records _ there tainted⟩
      refine covered.resolve_right fun unmarked => ?_
      rw [unmarked.1] at mark
      cases mark
  constructor
  · exact Recovery.valid_take marked.valid _
  · exact Recovery.take_capped marked.capped _ _
  · intro slot member tainted
    rcases List.mem_append.1 member with there | new
    · rw [Taint.stored_keys_of_ne _ _ (absent slot there)] at tainted
      exact marked.keys slot there tainted
    · obtain rfl := List.mem_singleton.1 new
      have charged := (taint.stored_keys_self key _).symm.trans tainted
      exact (Recovery.take_shared _ _ _).trans (seeded charged)
  · exact fun item member =>
      marked.records item (Multiset.mem_of_le (Recovery.take_ledger_le _ _ _) member)

end Marks

/-!
### Whole checks
-/

section Checks

variable {K S : Type} [DecidableEq K] [KeyState S] {config : StoreConfig K} {quotaOf : K → Quota}

/-- A check whose key is tracked, or whose mark is covered, writes no tainted debt to the sketch and keeps
    taint to the marks. -/
theorem CheckEffect.marked {map map' : ShardMap K S} {key : K} {n now : ℕ} {makeState : ℕ → Option S}
    {outcome : Outcome K} {taint : Taint K}
    (effect : CheckEffect config map key n now makeState outcome map')
    (consistent : Consistent config (config.shardFor key) map) (marked : Marked config now taint map)
    (covered : (map.acquireStored config key n now).1 = none →
      MarkCovered config.table map (config.hasher key) (millis now)) :
    Marked config now
        (taint.checked config.table (millis now) outcome key (config.hasher key)
          (map.makeRoom config now (millis now)).2.1.recovery) map' ∧
      taint.Clean config.table (millis now) outcome.reclaimed.handed := by
  obtain ⟨⟨handed, run, lists⟩, -⟩ := makeRoom_madeBy config map now (millis now)
  have lists : (map.makeRoom config now (millis now)).2.2.handed = handed := lists
  obtain ⟨made, clean⟩ := run.marked marked
  cases effect with
  | found held =>
      refine ⟨⟨?_, ?_, ?_, ?_⟩, Taint.clean_nil _ _ _⟩
      · rw [acquireStored_recovery]
        exact marked.valid
      · rw [acquireStored_recovery]
        exact marked.capped
      · intro slot member tainted
        obtain ⟨old, there, key, seeded⟩ := acquireStored_from_old member
        rw [← seeded]
        exact marked.keys old there (key ▸ tainted)
      · rw [acquireStored_recovery]
        exact marked.records
  | closed missed unmade => exact ⟨marked, Taint.clean_nil _ _ _⟩
  | refused missed created full =>
      unfold Taint.checked
      dsimp only
      rw [lists]
      exact ⟨made, clean⟩
  | stored missed created room =>
      unfold Taint.checked
      dsimp only
      rw [lists]
      have absent := run.absent (acquireStored_none consistent missed)
      exact ⟨store_marked made absent (run.markCovered marked (covered missed)) n _, clean⟩

/-- Every shard is consistent, and taint keeps to the marks in it at any time past the checks. -/
def TracedStore.Kept (checks : List (Check K)) (store : TracedStore config S) : Prop :=
  ∀ now, (∀ check ∈ checks, check.now ≤ now) → ∀ i,
    Consistent config i (store.shards i) ∧ Marked config now (store.taint i) (store.shards i)

/-- A check that comes after the others and meets the condition is contained, and leaves every shard kept. -/
theorem check_kept {store : TracedStore config S} {before : List (Check K)} {check : Check K}
    (kept : store.Kept before) (covered : store.Covered check)
    (last : ∀ earlier ∈ before, earlier.now ≤ check.now) :
    store.Contained quotaOf check ∧ (store.check quotaOf check).Kept (before ++ [check]) := by
  obtain ⟨consistent, marked⟩ := kept check.now last (config.shardFor check.key)
  obtain ⟨map', changed, effect⟩ := check_effect store.shards check.key check.n check.now
    (KeyState.create (quotaOf check.key))
  have changed : (store.answer quotaOf check).2 = Function.update store.shards _ map' := changed
  have untracked : ((store.shards (config.shardFor check.key)).acquireStored config check.key check.n
        check.now).1 = none →
      MarkCovered config.table (store.shards (config.shardFor check.key)) (config.hasher check.key)
        (millis check.now) :=
    fun missed => covered.resolve_left fun tracked => (tracks_iff consistent).1 tracked missed
  obtain ⟨after, clean⟩ := effect.marked consistent marked untracked
  have after : Marked config check.now (store.taintAfter quotaOf check) map' := after
  refine ⟨⟨clean, ?_⟩, ?_⟩
  · intro _ tainted slot member same
    rw [changed, Function.update_self] at member
    exact after.keys slot member (same ▸ tainted)
  · intro now bound i
    have passed := List.forall_mem_append.1 bound
    unfold TracedStore.check
    dsimp only
    rw [changed]
    by_cases here : i = config.shardFor check.key
    · subst here
      rw [Function.update_self, Function.update_self]
      exact ⟨effect.consistent consistent, after.later (passed.2 check (List.mem_singleton_self check))⟩
    · rw [Function.update_of_ne here, Function.update_of_ne here]
      exact kept now passed.1 i

/-- Along checks in order of time that all meet the condition, every shard is kept. -/
theorem after_kept {checks : List (Check K)}
    (along : Runs.Along
      (fun before check => (.after quotaOf before : TracedStore config S).Covered check ∧
        ∀ earlier ∈ before, earlier.now ≤ check.now) checks) :
    TracedStore.Kept checks (.after quotaOf checks : TracedStore config S) := by
  have start : TracedStore.Kept [] (.new : TracedStore config S) := fun now _ i => ⟨.new, .new now⟩
  exact Runs.invariant start (fun _ _ kept meets => (check_kept kept meets.1 meets.2).2) along

/-- In every run of checks in order of time in which each newcomer's mark is covered, no check writes the debt
    of a tainted key to the sketch, and every key stored with a tainted charge is stored marked. -/
theorem taint_contained_while_marks_covered (config : StoreConfig K) (quotaOf : K → Quota)
    (checks : List (Check K)) (ordered : checks.Pairwise fun earlier later => earlier.now ≤ later.now)
    (covered : Runs.Along
      (fun before check => (.after quotaOf before : TracedStore config S).Covered check) checks) :
    Runs.Along (fun before check => (.after quotaOf before : TracedStore config S).Contained quotaOf check)
      checks := by
  have meets : Runs.Along
      (fun before check => (.after quotaOf before : TracedStore config S).Covered check ∧
        ∀ earlier ∈ before, earlier.now ≤ check.now) checks := by
    rintro before check rest rfl
    refine ⟨covered before check rest rfl, ?_⟩
    intro earlier member
    exact (List.pairwise_append.1 ordered).2.2 earlier member check List.mem_cons_self
  rintro before check rest rfl
  obtain ⟨here, last⟩ := meets before check rest rfl
  exact (check_kept (after_kept meets.take) here last).1

end Checks

/-!
### A key that returns twice
-/

/-- Key two spends a unit and nine others crowd it out, first to the table and then to the sketch. It returns,
    spends another and goes again. -/
def returningKey : List (Check ℕ) :=
  ⟨2, 1, 0⟩ :: [4, 6, 8, 10, 11, 12, 13, 15, 16].map (fun key => ⟨key, 2, 0⟩) ++
    [⟨2, 1, 0⟩, ⟨17, 2, 0⟩]

/-- Its cells last until 500 ms and its record until 1 s. It is back at 600 ms, and others crowd it out once
    more. -/
def outlivingKey : List (Check ℕ) :=
  returningKey ++ ⟨2, 1, 600000000⟩ :: [18, 19, 21, 22, 23].map (fun key => ⟨key, 2, 600000000⟩)

/-- On its first return key two finds its cells live, and its taint is contained. -/
theorem taint_contained_on_return :
    Runs.Along (fun before check =>
      (.after (fun _ => .perSecond 2 (by decide)) before : TracedStore oneKeyStore Gcra).Contained
        (fun _ => .perSecond 2 (by decide)) check) returningKey :=
  taint_contained_while_marks_covered oneKeyStore (fun _ => .perSecond 2 (by decide)) returningKey
    (by decide) (by decide +kernel)

/-- On its second return key two is charged its marked record and stored unmarked. Its debt then goes to the
    table unmarked, and is written to the sketch when key 22 hands its own over. -/
theorem taint_outlives_cells :
    let quotaOf : ℕ → Quota := fun _ => .perSecond 2 (by decide)
    let second : TracedStore oneKeyStore Gcra := .after quotaOf (outlivingKey.take 12)
    let last : TracedStore oneKeyStore Gcra := .after quotaOf (outlivingKey.take 17)
    outlivingKey.Pairwise (fun earlier later => earlier.now ≤ later.now) ∧
      (outlivingKey[12]? = some ⟨2, 1, 600000000⟩ ∧
        (second.taintAfter quotaOf ⟨2, 1, 600000000⟩).keys 2 = true ∧
        ((second.answer quotaOf ⟨2, 1, 600000000⟩).2 (oneKeyStore.shardFor 2)).slots.map
          (fun slot => (slot.key, slot.seeded)) = [(2, false)] ∧
        ¬ second.Contained quotaOf ⟨2, 1, 600000000⟩) ∧
      outlivingKey[17]? = some ⟨23, 2, 600000000⟩ ∧
        (last.answer quotaOf ⟨23, 2, 600000000⟩).1.reclaimed.handed.map
          (fun handover => (handover.key, handover.before.spilledAccount handover.hash handover.debt 600
            oneKeyStore.table handover.seeded)) = [(22, some (accountOf oneKeyStore.table 2))] ∧
        ¬ last.Contained quotaOf ⟨23, 2, 600000000⟩ := by
  decide +kernel

end RateNet
