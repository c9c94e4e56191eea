/-
Module: RateNet.Proofs.RecoveryCover
Purpose: No debt is lost by the recovery table. An obligation is what an account must still show until a
  deadline; a table covers it when the account's own record or both of its sketch cells show at least
  that much. Recording, for any account, keeps every obligation covered, and so do time and clearing
  another account's record; with one live record per account, whatever is covered is read back.
Trusted boundary: none
Main exports: Obligation, Recovery.Covers, Recovery.Valid, covers_record, covers_recorded, peek_covers,
  RecoveryCall, recovery_keeps_debt
-/
import RateNet.Proofs.RecoveryLedger

namespace RateNet

/-- What an account must show until a deadline.  Both counts fit the fields of a sketch cell. -/
structure Obligation where
  account : Account
  spent : ℕ
  untilMs : ℕ
  spent_le : spent ≤ u32Max
  until_le : untilMs ≤ untilMax

namespace Obligation

variable (owed : Obligation)

/-- A ledger item that shows the obligation. -/
def ShownBy (item : Account × Record) : Prop :=
  item.1 = owed.account ∧ owed.spent ≤ item.2.spent ∧ owed.untilMs ≤ item.2.until

/-- A sketch cell that shows the obligation. -/
def ShownIn (cell : ℕ) : Prop :=
  owed.untilMs ≤ (unpack cell).1 ∧ owed.spent ≤ (unpack cell).2

variable {owed}

/-- Overflowing any record into a cell keeps what the cell shows. -/
theorem ShownIn.overflowCell {cell nowMs : ℕ} (shown : owed.ShownIn cell) (due : nowMs < owed.untilMs)
    (record : Record) : owed.ShownIn (Recovery.overflowCell record nowMs cell) := by
  have live : (unpack cell).1 > nowMs := lt_of_lt_of_le due shown.1
  simp only [Recovery.overflowCell, if_pos live]
  exact le_unpack_pack owed.until_le owed.spent_le (le_max_of_le_left shown.1)
    (le_max_of_le_left shown.2)

/-- A cell shows the record overflowed into it. -/
theorem shownIn_overflowCell {item : Account × Record} (shown : owed.ShownBy item) (nowMs cell : ℕ) :
    owed.ShownIn (Recovery.overflowCell item.2 nowMs cell) := by
  simp only [Recovery.overflowCell]
  split
  · exact le_unpack_pack owed.until_le owed.spent_le (le_max_of_le_right shown.2.2)
      (le_max_of_le_right shown.2.1)
  · exact le_unpack_pack owed.until_le owed.spent_le shown.2.2 shown.2.1

end Obligation

namespace Recovery

variable {t t' : Recovery} {size : TableSize} {nowMs hash : ℕ} {owed : Obligation}

/-- A table not allocated yet, or allocated with the given size. -/
def Sized (size : TableSize) (t : Recovery) : Prop :=
  t.buckets = [] ∧ t.cells = [] ∨ t.buckets.length = size.buckets ∧ t.cells.length = size.cells

/-- The two sketch cells of an account. -/
def cellsFor (size : TableSize) (account : Account) : ℕ × ℕ :=
  cellsOf account.tag account.low size.cells

/-- Both cells of the account show the obligation. -/
def Sketched (size : TableSize) (t : Recovery) (owed : Obligation) : Prop :=
  owed.ShownIn (t.cell (cellsFor size owed.account).1) ∧
    owed.ShownIn (t.cell (cellsFor size owed.account).2)

/-- The account's own record or both of its cells show the obligation. -/
def Covers (size : TableSize) (nowMs : ℕ) (t : Recovery) (owed : Obligation) : Prop :=
  (∃ item ∈ t.ledger nowMs, owed.ShownBy item) ∨ t.Sketched size owed

/-- The table has its size, and no account has two live records. -/
structure Valid (size : TableSize) (nowMs : ℕ) (t : Recovery) : Prop where
  sized : t.Sized size
  single : ((t.ledger nowMs).map Prod.fst).Nodup

/-!
### Allocation
-/

theorem new_valid : Valid size nowMs new :=
  { sized := Or.inl ⟨rfl, rfl⟩, single := Multiset.nodup_zero }

theorem allocate_sized (sized : t.Sized size) :
    (t.allocate size).buckets.length = size.buckets ∧ (t.allocate size).cells.length = size.cells := by
  obtain ⟨i, hi⟩ := size.buckets_eq
  have positive : 0 < size.buckets := by
    rw [hi]
    exact Nat.two_pow_pos _
  rw [allocate]
  rcases sized with ⟨unallocated, -⟩ | ⟨buckets, cells⟩
  · rw [unallocated]
    exact ⟨List.length_replicate, List.length_replicate⟩
  · have allocated : t.buckets.isEmpty = false := by
      rw [List.isEmpty_eq_false_iff, ← List.length_pos_iff, buckets]
      exact positive
    rw [allocated]
    exact ⟨buckets, cells⟩

/-- A fresh table has nothing on its ledger. -/
theorem allocate_ledger (t : Recovery) (size : TableSize) (nowMs : ℕ) :
    (t.allocate size).ledger nowMs = t.ledger nowMs := by
  rw [allocate]
  split
  · rename_i unallocated
    have empty : t.ledger nowMs = 0 := by
      rw [ledger, List.isEmpty_iff.1 unallocated]
      rfl
    rw [empty]
    apply Multiset.eq_zero_of_forall_notMem
    rintro ⟨account, record⟩ member
    obtain ⟨live, b, held, -⟩ := mem_ledger.1 member
    obtain rfl := Buckets.Table.eq_of_mem_contents_replicate held
    cases live
  · rfl

theorem allocate_cell (sized : t.Sized size) (c : ℕ) : (t.allocate size).cell c = t.cell c := by
  rw [allocate]
  split
  · rename_i unallocated
    rcases sized with ⟨-, cells⟩ | ⟨buckets, -⟩
    · by_cases inside : c < size.cells
      · simp [cell, cells, inside]
      · simp [cell, cells, inside]
    · obtain ⟨i, hi⟩ := size.buckets_eq
      rw [List.isEmpty_iff.1 unallocated, hi] at buckets
      exact absurd buckets.symm (Nat.two_pow_pos _).ne'
  · rfl

theorem covers_allocate (sized : t.Sized size) (covered : t.Covers size nowMs owed) :
    (t.allocate size).Covers size nowMs owed := by
  unfold Covers Sketched at covered ⊢
  rw [allocate_ledger, allocate_cell sized, allocate_cell sized]
  exact covered

/-!
### The sketch
-/

/-- The cells a record spilled from bucket `b` is written to. -/
def spilledTo (t : Recovery) (record : Record) (b : ℕ) : ℕ × ℕ :=
  cellsOf record.tag (min b (altBucket b record.tag t.buckets.length)) t.cells.length

theorem cell_modify (cells : List ℕ) (f : ℕ → ℕ) (i : ℕ) {c : ℕ} (inside : c < cells.length) :
    ((cells.modify i f)[c]?).getD 0 = (if i = c then f else id) ((cells[c]?).getD 0) := by
  rw [List.getElem?_modify, List.getElem?_eq_getElem inside]
  split <;> rfl

/-- Overflowing a record writes its two cells, one after the other. -/
theorem overflow_cell (t : Recovery) (record : Record) (b nowMs : ℕ) {c : ℕ}
    (inside : c < t.cells.length) :
    (t.overflow record b nowMs).cell c =
      (if (t.spilledTo record b).2 = c then overflowCell record nowMs else id)
        ((if (t.spilledTo record b).1 = c then overflowCell record nowMs else id) (t.cell c)) := by
  have later : c < (t.cells.modify (t.spilledTo record b).1 (overflowCell record nowMs)).length := by
    rw [List.length_modify]
    exact inside
  rw [cell, cell, ← cell_modify t.cells _ _ inside, ← cell_modify _ _ _ later]
  rfl

theorem buckets_withCells (t : Recovery) (cells : List ℕ) :
    Recovery.buckets { t with cells } = t.buckets := rfl

theorem overflow_buckets (t : Recovery) (record : Record) (b nowMs : ℕ) :
    (t.overflow record b nowMs).buckets = t.buckets := buckets_withCells t _

theorem overflow_cells_length (t : Recovery) (record : Record) (b nowMs : ℕ) :
    (t.overflow record b nowMs).cells.length = t.cells.length := by
  rw [overflow, List.length_modify, List.length_modify]

/-- The sketch is no part of the ledger. -/
theorem ledger_overflow (t : Recovery) (record : Record) (b nowMs : ℕ) :
    (t.overflow record b nowMs).ledger nowMs = t.ledger nowMs := by
  rw [ledger, overflow_buckets, ledger]

theorem shownIn_overflow {c b : ℕ} (record : Record) (inside : c < t.cells.length)
    (due : nowMs < owed.untilMs) (shown : owed.ShownIn (t.cell c)) :
    owed.ShownIn ((t.overflow record b nowMs).cell c) := by
  have keeps : ∀ (hit : Prop) [Decidable hit] (cell : ℕ), owed.ShownIn cell →
      owed.ShownIn ((if hit then overflowCell record nowMs else id) cell) := by
    intro hit _ cell shown
    split
    · exact shown.overflowCell due record
    · exact shown
  rw [overflow_cell t record b nowMs inside]
  exact keeps _ _ (keeps _ _ shown)

theorem cellsFor_lt (size : TableSize) (account : Account) :
    (cellsFor size account).1 < size.cells ∧ (cellsFor size account).2 < size.cells := by
  obtain ⟨i, hi⟩ := size.cells_eq
  rw [cellsFor, hi]
  exact cellsOf_lt _ _

theorem sketched_overflow {b : ℕ} (record : Record) (cells : t.cells.length = size.cells)
    (due : nowMs < owed.untilMs) (shown : t.Sketched size owed) :
    (t.overflow record b nowMs).Sketched size owed := by
  obtain ⟨first, second⟩ := cellsFor_lt size owed.account
  rw [← cells] at first second
  exact ⟨shownIn_overflow record first due shown.1, shownIn_overflow record second due shown.2⟩

/-- A record spilled from any of its buckets lands in the cells of its account. -/
theorem overflow_sketches {account : Account} {record : Record} {b : ℕ}
    (buckets : t.buckets.length = size.buckets) (cells : t.cells.length = size.cells)
    (shown : owed.ShownBy (account, record)) (home : record.account size.buckets b = account)
    (due : nowMs < owed.untilMs) : (t.overflow record b nowMs).Sketched size owed := by
  have same : account = owed.account := shown.1
  have target : t.spilledTo record b = cellsFor size owed.account := by
    rw [← same, ← home, spilledTo, buckets, cells]
    rfl
  obtain ⟨first, second⟩ := cellsFor_lt size owed.account
  rw [← cells] at first second
  constructor
  · rw [overflow_cell t record b nowMs first, target, if_pos rfl]
    -- the two cells may coincide, and then the second write must keep what the first shows
    have shows := owed.shownIn_overflowCell shown nowMs (t.cell (cellsFor size owed.account).1)
    split
    · exact shows.overflowCell due record
    · exact shows
  · rw [overflow_cell t record b nowMs second, target, if_pos rfl]
    exact owed.shownIn_overflowCell shown nowMs _

/-!
### Recording
-/

theorem sketched_of_shape (shape : SameShape t t') (shown : t.Sketched size owed) :
    t'.Sketched size owed := by
  unfold Sketched cell at shown ⊢
  rw [shape.cells]
  exact shown

/-- A held item traded for a better one leaves something as good behind. -/
theorem exists_of_trade {Item : Type*} {shows : Item → Prop} {old new : Item} {before after : Multiset Item}
    (traded : old ::ₘ after = new ::ₘ before) (held : old ∈ before) (better : shows old → shows new)
    (shown : ∃ item ∈ new ::ₘ before, shows item) : ∃ item ∈ after, shows item := by
  obtain ⟨item, member, shown⟩ := shown
  rw [← traded] at member
  rcases Multiset.mem_cons.1 member with rfl | member
  · have arrived : new ∈ item ::ₘ after := by
      rw [traded]
      exact Multiset.mem_cons_self _ _
    rcases Multiset.mem_cons.1 arrived with rfl | arrived
    · rw [(Multiset.cons_inj_right _).1 traded]
      exact ⟨_, held, shown⟩
    · exact ⟨_, arrived, better shown⟩
  · exact ⟨_, member, shown⟩

theorem mergedRecord_until (debt : Debt) (inherited : Bool) (record : Record) :
    (mergedRecord debt inherited record).until =
      max record.until (min (ceilMillis debt.until) (inheritedBit - 1)) :=
  Record.until_merge record (untilMs_lt _) inherited

theorem newRecord_until (probe : Probe) (debt : Debt) (inherited : Bool) :
    (newRecord probe debt inherited).until = min (ceilMillis debt.until) (inheritedBit - 1) :=
  Record.until_mark (untilMs_lt _) inherited

theorem mergedRecord_live {debt : Debt} {inherited : Bool} {record : Record}
    (live : record.isLive nowMs = true) : (mergedRecord debt inherited record).isLive nowMs = true := by
  have tag : (mergedRecord debt inherited record).tag = record.tag := rfl
  simp only [Record.isLive, mergedRecord_until, tag, Bool.and_eq_true, decide_eq_true_eq] at live ⊢
  exact ⟨live.1, lt_of_lt_of_le live.2 (le_max_left _ _)⟩

/-- Settling a new record, spills included, keeps everything shown before and shows the new record. -/
theorem covers_settles {account : Account} {new : Record} {outcome : Placement × Recovery}
    (buckets : t.buckets.length = size.buckets) (cells : t.cells.length = size.cells)
    (keep : size.forget = false) (due : nowMs < owed.untilMs)
    (settles : Settles nowMs t account new outcome)
    (shown : (∃ item ∈ claimed nowMs account new + t.ledger nowMs, owed.ShownBy item) ∨
      t.Sketched size owed) :
    (dispose nowMs size outcome).2.Covers size nowMs owed := by
  cases settles with
  | @placed t' shape added =>
      rw [← added] at shown
      exact shown.imp_right (sketched_of_shape shape)
  | @displaced t' record b shape plain traded =>
      have spilled : (dispose nowMs size (.homeless record b, t')).2 = t'.overflow record b nowMs := by
        simp only [dispose, spill, keep, Bool.false_eq_true, if_false]
      rw [spilled]
      rcases shown with ⟨item, member, shown⟩ | shown
      · rw [← traded, Multiset.mem_add, mem_claimed] at member
        rcases member with ⟨-, rfl⟩ | member
        · -- the obligation is the displaced record's own: it moves to the sketch
          right
          exact overflow_sketches (shape.buckets.trans buckets) (shape.cells ▸ cells) shown
            (by rw [buckets]) due
        · left
          rw [ledger_overflow]
          exact ⟨item, member, shown⟩
      · right
        exact sketched_overflow record (shape.cells ▸ cells) due (sketched_of_shape shape shown)

/-- Merging a debt into the account's own record keeps everything shown before and shows the merged
    record. -/
theorem covers_merge {account : Account} {record : Record} {debt : Debt} {inherited : Bool}
    (shape : SameShape t t') (held : (account, record) ∈ t.ledger nowMs)
    (traded : claimed nowMs account record + t'.ledger nowMs =
      claimed nowMs account (mergedRecord debt inherited record) + t.ledger nowMs)
    (shown : (∃ item ∈ (account, mergedRecord debt inherited record) ::ₘ t.ledger nowMs,
      owed.ShownBy item) ∨ t.Sketched size owed) :
    t'.Covers size nowMs owed := by
  have live := (mem_ledger.1 held).1
  rw [claimed_of_live _ live, claimed_of_live _ (mergedRecord_live live), Multiset.singleton_add,
    Multiset.singleton_add] at traded
  apply shown.imp _ (sketched_of_shape shape)
  apply exists_of_trade traded held
  rintro ⟨same, spent, deadline⟩
  refine ⟨same, spent.trans (le_max_left _ _), ?_⟩
  rw [mergedRecord_until]
  exact deadline.trans (le_max_left _ _)

/-- Recording a debt, whoever owes it, keeps every obligation covered. -/
theorem covers_record (sized : t.Sized size) (keep : size.forget = false) (due : nowMs < owed.untilMs)
    (debt : Debt) (inherited : Bool) (covered : t.Covers size nowMs owed) :
    (t.record hash debt nowMs size inherited).2.Covers size nowMs owed := by
  obtain ⟨buckets, cells⟩ := allocate_sized sized
  have covered := covers_allocate sized covered
  rw [record]
  generalize t.allocate size = t₁ at buckets cells covered ⊢
  have effect := place_effect t₁ hash debt nowMs inherited
  generalize t₁.place _ debt nowMs inherited = outcome at effect ⊢
  cases effect with
  | merge shape held traded =>
      apply covers_merge shape held traded
      exact covered.imp_left fun ⟨item, member, shown⟩ =>
        ⟨item, Multiset.mem_cons_of_mem member, shown⟩
  | settle absent settles =>
      apply covers_settles buckets cells keep due settles
      exact covered.imp_left fun ⟨item, member, shown⟩ =>
        ⟨item, Multiset.mem_add.2 (Or.inr member), shown⟩
  | refuse shape same =>
      simp only [dispose, Covers, same]
      exact covered.imp_right (sketched_of_shape shape)

/-- A debt that was recorded is covered. -/
theorem covers_recorded (sized : t.Sized size) (keep : size.forget = false)
    (due : nowMs < owed.untilMs) {debt : Debt} {inherited : Bool}
    (account : owed.account = accountOf size hash) (spent : owed.spent ≤ debt.spent)
    (deadline : owed.untilMs ≤ ceilMillis debt.until)
    (accepted : (t.record hash debt nowMs size inherited).1 ≠ none) :
    (t.record hash debt nowMs size inherited).2.Covers size nowMs owed := by
  obtain ⟨buckets, cells⟩ := allocate_sized sized
  rw [record] at accepted ⊢
  generalize t.allocate size = t₁ at buckets cells accepted ⊢
  have fits : owed.untilMs ≤ min (ceilMillis debt.until) (inheritedBit - 1) :=
    le_min deadline (owed.until_le.trans (by decide))
  have mine : (Probe.new hash t₁.buckets.length t₁.cells.length).account = owed.account := by
    rw [account, accountOf, buckets, cells]
  have effect := place_effect t₁ hash debt nowMs inherited
  generalize t₁.place _ debt nowMs inherited = outcome at effect accepted ⊢
  cases effect with
  | @merge t' record shape held traded =>
      apply covers_merge shape held traded
      refine Or.inl ⟨_, Multiset.mem_cons_self _ _, mine, spent.trans (le_max_right _ _), ?_⟩
      rw [mergedRecord_until]
      exact fits.trans (le_max_right _ _)
  | settle absent settles =>
      apply covers_settles buckets cells keep due settles
      set probe := Probe.new hash t₁.buckets.length t₁.cells.length
      have until_eq := newRecord_until probe debt inherited
      have live : (newRecord probe debt inherited).isLive nowMs = true := by
        simp only [Record.isLive, until_eq, Bool.and_eq_true, decide_eq_true_eq, bne_iff_ne]
        exact ⟨Probe.tag_ne_zero hash t₁.buckets.length t₁.cells.length, lt_of_lt_of_le due fits⟩
      refine Or.inl ⟨(probe.account, newRecord probe debt inherited), ?_, mine, spent, ?_⟩
      · rw [claimed_of_live _ live]
        exact Multiset.mem_add.2 (Or.inl (Multiset.mem_singleton_self _))
      · rw [until_eq]
        exact fits
  | refuse => exact absurd rfl accepted

/-!
### One live record per account
-/

theorem Valid.later {nowMs' : ℕ} (valid : t.Valid size nowMs) (h : nowMs ≤ nowMs') :
    t.Valid size nowMs' :=
  { sized := valid.sized
    single := Multiset.nodup_of_le (Multiset.map_le_map (t.ledger_le_of_le h)) valid.single }

theorem sized_of_shape (sized : t.Sized size) (shape : SameShape t t') : t'.Sized size := by
  rcases sized with ⟨buckets, cells⟩ | ⟨buckets, cells⟩
  · left
    refine ⟨List.eq_nil_of_length_eq_zero ?_, shape.cells.trans cells⟩
    rw [shape.buckets, buckets, List.length_nil]
  · exact Or.inr ⟨shape.buckets.trans buckets, shape.cells ▸ cells⟩

theorem valid_forget (valid : t.Valid size nowMs) (hash : ℕ) :
    (t.forget hash nowMs).2.Valid size nowMs := by
  obtain ⟨shape, same | ⟨-, record, removed⟩⟩ := t.forget_ledger hash nowMs
  · rw [same]
    exact valid
  · refine ⟨sized_of_shape valid.sized shape, ?_⟩
    have single := valid.single
    rw [← removed, Multiset.map_add, Multiset.nodup_add] at single
    exact single.2.1

/-- Disposing of what the search left homeless touches the sketch at most. -/
theorem dispose_cases (nowMs : ℕ) (size : TableSize) (outcome : Placement × Recovery) :
    (dispose nowMs size outcome).2 = outcome.2 ∨
      ∃ record b, (dispose nowMs size outcome).2 = outcome.2.overflow record b nowMs := by
  rcases outcome with ⟨_ | ⟨record, b⟩ | _, t⟩
  · exact Or.inl rfl
  · cases forget : size.forget with
    | true =>
        left
        simp only [dispose, spill, forget, if_true]
    | false =>
        right
        refine ⟨record, b, ?_⟩
        simp only [dispose, spill, forget, Bool.false_eq_true, if_false]
  · exact Or.inl rfl

theorem dispose_ledger (nowMs : ℕ) (size : TableSize) (outcome : Placement × Recovery) :
    (dispose nowMs size outcome).2.ledger nowMs = outcome.2.ledger nowMs := by
  rcases dispose_cases nowMs size outcome with same | ⟨record, b, spilled⟩
  · rw [same]
  · rw [spilled, ledger_overflow]

theorem dispose_length (nowMs : ℕ) (size : TableSize) (outcome : Placement × Recovery) :
    (dispose nowMs size outcome).2.buckets.length = outcome.2.buckets.length ∧
      (dispose nowMs size outcome).2.cells.length = outcome.2.cells.length := by
  rcases dispose_cases nowMs size outcome with same | ⟨record, b, spilled⟩
  · rw [same]
    exact ⟨rfl, rfl⟩
  · rw [spilled]
    exact ⟨congrArg List.length (overflow_buckets _ _ _ _), overflow_cells_length _ _ _ _⟩

theorem PlaceEffect.shape {probe : Probe} {new : Record} {merged : Record → Record}
    {outcome : Placement × Recovery} (effect : PlaceEffect nowMs t probe new merged outcome) :
    SameShape t outcome.2 := by
  cases effect with
  | merge shape => exact shape
  | settle absent settles =>
      cases settles with
      | placed shape => exact shape
      | displaced shape => exact shape
  | refuse shape => exact shape

/-- A new record never joins a live one of its account. -/
theorem Settles.single {account : Account} {new : Record} {outcome : Placement × Recovery}
    (settles : Settles nowMs t account new outcome)
    (absent : ∀ record, (account, record) ∉ t.ledger nowMs)
    (single : ((t.ledger nowMs).map Prod.fst).Nodup) :
    ((outcome.2.ledger nowMs).map Prod.fst).Nodup := by
  have joined : ((claimed nowMs account new + t.ledger nowMs).map Prod.fst).Nodup := by
    unfold claimed
    split
    · rw [Multiset.singleton_add, Multiset.map_cons, Multiset.nodup_cons]
      refine ⟨?_, single⟩
      intro member
      obtain ⟨⟨account', record⟩, held, rfl⟩ := Multiset.mem_map.1 member
      exact absent record held
    · rw [zero_add]
      exact single
  cases settles with
  | placed shape added =>
      rw [← added] at joined
      exact joined
  | displaced shape plain traded =>
      rw [← traded, Multiset.map_add, Multiset.nodup_add] at joined
      exact joined.2.1

theorem valid_record (valid : t.Valid size nowMs) (hash : ℕ) (debt : Debt) (inherited : Bool) :
    (t.record hash debt nowMs size inherited).2.Valid size nowMs := by
  obtain ⟨buckets, cells⟩ := allocate_sized valid.sized
  have single := valid.single
  rw [← allocate_ledger t size] at single
  rw [record]
  generalize t.allocate size = t₁ at buckets cells single ⊢
  have effect := place_effect t₁ hash debt nowMs inherited
  generalize t₁.place _ debt nowMs inherited = outcome at effect ⊢
  obtain ⟨buckets', cells'⟩ := dispose_length nowMs size outcome
  have shape := effect.shape
  refine ⟨Or.inr ⟨?_, ?_⟩, ?_⟩
  · rw [buckets', shape.buckets, buckets]
  · rw [cells', shape.cells, cells]
  · rw [dispose_ledger]
    cases effect with
    | @merge t' record shape held traded =>
        have live := (mem_ledger.1 held).1
        rw [claimed_of_live _ live, claimed_of_live _ (mergedRecord_live live)] at traded
        have accounts := congrArg (Multiset.map Prod.fst) traded
        simp only [Multiset.map_add, Multiset.map_singleton, add_right_inj] at accounts
        rw [accounts]
        exact single
    | settle absent settles => exact settles.single absent single
    | refuse shape same =>
        rw [same]
        exact single

/-!
### Reading back
-/

/-- The record `own` points at is the one live record of the account. -/
theorem own_entry_iff (single : ((t.ledger nowMs).map Prod.fst).Nodup) {record : Record} :
    ((t.own (Probe.new hash t.buckets.length t.cells.length) nowMs).bind
        fun place => t.buckets.entry place.1 place.2) = some record ↔
      ((Probe.new hash t.buckets.length t.cells.length).account, record) ∈ t.ledger nowMs := by
  cases hown : t.own (Probe.new hash t.buckets.length t.cells.length) nowMs with
  | none =>
      simp only [Option.bind_none, reduceCtorEq, false_iff]
      exact own_eq_none_iff.1 hown record
  | some place =>
      obtain ⟨found, held, live, account⟩ := own_eq_some hown
      have member := mem_ledger.2 ⟨live, _, Buckets.Table.mem_contents.2 ⟨_, held⟩, account⟩
      simp only [Option.bind_some, held, Option.some.injEq]
      constructor
      · rintro rfl
        exact member
      · intro other
        have same := Multiset.inj_on_of_nodup_map single _ member _ other rfl
        exact congrArg Prod.snd same

theorem probe_of_allocated (hash : ℕ) (buckets : t.buckets.length = size.buckets) :
    t.probe hash = some (Probe.new hash t.buckets.length t.cells.length) := by
  rw [Recovery.probe, if_neg]
  rw [List.isEmpty_iff, ← List.length_eq_zero_iff, buckets]
  obtain ⟨i, hi⟩ := size.buckets_eq
  rw [hi]
  exact (Nat.two_pow_pos _).ne'

/-- A table that has been allocated looks a key up where its account is; one that has not holds nothing. -/
theorem probe_cases (sized : t.Sized size) (hash nowMs : ℕ) :
    t.probe hash = none ∧ t.ledger nowMs = 0 ∧ t.cells = [] ∨
      t.probe hash = some (Probe.new hash size.buckets size.cells) ∧ t.buckets.length = size.buckets ∧
        t.cells.length = size.cells := by
  rcases sized with ⟨unallocated, cells⟩ | ⟨buckets, cells⟩
  · refine Or.inl ⟨?_, ?_, cells⟩
    · rw [probe, unallocated]
      rfl
    · rw [ledger, unallocated]
      rfl
  · have probed := probe_of_allocated hash buckets
    rw [buckets, cells] at probed
    exact Or.inr ⟨probed, buckets, cells⟩

theorem covers_allocated (sized : t.Sized size) (due : nowMs < owed.untilMs)
    (covered : t.Covers size nowMs owed) :
    t.buckets.length = size.buckets ∧ t.cells.length = size.cells := by
  rcases sized with ⟨buckets, cells⟩ | allocated
  · exfalso
    rcases covered with ⟨⟨account, record⟩, member, -⟩ | ⟨shown, -⟩
    · rw [ledger, buckets] at member
      exact absurd member (Multiset.notMem_zero _)
    · have zero : t.cell (cellsFor size owed.account).1 = 0 := by
        rw [cell, cells]
        rfl
      rw [zero] at shown
      exact absurd shown.1 (Nat.not_le_of_lt (lt_of_le_of_lt (Nat.zero_le nowMs) due))
  · exact allocated

/-- Whatever the table covers is read back. -/
theorem peek_covers (valid : t.Valid size nowMs) (due : nowMs < owed.untilMs)
    (account : owed.account = accountOf size hash) (covered : t.Covers size nowMs owed) :
    ∃ charge, t.peek hash nowMs = some charge ∧ owed.spent ≤ charge.debt.spent ∧
      fromMillis owed.untilMs ≤ charge.debt.until := by
  obtain ⟨buckets, cells⟩ := covers_allocated valid.sized due covered
  have probed := probe_of_allocated hash buckets
  have mine : (Probe.new hash t.buckets.length t.cells.length).account = owed.account := by
    rw [account, accountOf, buckets, cells]
  simp only [peek, probed]
  rcases covered with ⟨⟨account', record⟩, member, same, spent, deadline⟩ | ⟨first, second⟩
  · obtain rfl : account' = owed.account := same
    rw [← mine] at member
    rw [(own_entry_iff valid.single).2 member]
    have far := fromMillis_mono deadline
    cases t.shared _ nowMs with
    | none => exact ⟨_, rfl, spent, far⟩
    | some shared => exact ⟨_, rfl, le_max_of_le_left spent, le_max_of_le_left far⟩
  · have cellsEq : (Probe.new hash t.buckets.length t.cells.length).cells =
        cellsFor size owed.account := by
      rw [account, cellsFor, accountOf, buckets, cells]
      rfl
    have sketch : t.shared (Probe.new hash t.buckets.length t.cells.length) nowMs = some
        { spent := min (unpack (t.cell (cellsFor size owed.account).1)).2
            (unpack (t.cell (cellsFor size owed.account).2)).2
          «until» := fromMillis (min (unpack (t.cell (cellsFor size owed.account).1)).1
            (unpack (t.cell (cellsFor size owed.account).2)).1) } := by
      rw [shared, cellsEq]
      exact if_pos ⟨lt_of_lt_of_le due first.1, lt_of_lt_of_le due second.1⟩
    rw [sketch]
    have spent := le_min first.2 second.2
    have far := fromMillis_mono (le_min first.1 second.1)
    cases ((t.own _ nowMs).bind _).map Record.debt with
    | none => exact ⟨_, rfl, spent, far⟩
    | some own => exact ⟨_, rfl, le_max_of_le_right spent, le_max_of_le_right far⟩

/-!
### Time, and clearing another account
-/

theorem Covers.later {nowMs' : ℕ} (covered : t.Covers size nowMs owed) (due : nowMs' < owed.untilMs) :
    t.Covers size nowMs' owed := by
  apply covered.imp_left
  rintro ⟨⟨account, record⟩, member, shown⟩
  obtain ⟨live, b, held, same⟩ := mem_ledger.1 member
  refine ⟨(account, record), mem_ledger.2 ⟨?_, b, held, same⟩, shown⟩
  simp only [Record.isLive, Bool.and_eq_true, decide_eq_true_eq] at live ⊢
  exact ⟨live.1, lt_of_lt_of_le due shown.2.2⟩

theorem covers_forget (valid : t.Valid size nowMs) (due : nowMs < owed.untilMs)
    (other : accountOf size hash ≠ owed.account) (covered : t.Covers size nowMs owed) :
    (t.forget hash nowMs).2.Covers size nowMs owed := by
  obtain ⟨buckets, cells⟩ := covers_allocated valid.sized due covered
  obtain ⟨shape, same | ⟨-, record, removed⟩⟩ := t.forget_ledger hash nowMs
  · rw [same]
    exact covered
  · apply covered.imp _ (sketched_of_shape shape)
    rintro ⟨item, member, shown⟩
    rw [← removed, Multiset.mem_add, Multiset.mem_singleton] at member
    rcases member with rfl | member
    · rw [accountOf, ← buckets, ← cells] at other
      exact absurd shown.1 other
    · exact ⟨item, member, shown⟩

/-- Taking a charge clears the key's record, if there is anything to charge. -/
theorem take_snd (t : Recovery) (hash nowMs : ℕ) :
    (t.take hash nowMs).2 = t ∨ (t.take hash nowMs).2 = (t.forget hash nowMs).2 := by
  rw [take]
  cases t.peek hash nowMs with
  | none => exact Or.inl rfl
  | some charge => exact Or.inr rfl

theorem take_fst (t : Recovery) (hash nowMs : ℕ) : (t.take hash nowMs).1 = t.peek hash nowMs := by
  rw [take]
  cases t.peek hash nowMs with
  | none => rfl
  | some charge => rfl

theorem valid_take (valid : t.Valid size nowMs) (hash : ℕ) :
    (t.take hash nowMs).2.Valid size nowMs := by
  rcases t.take_snd hash nowMs with same | cleared
  · rw [same]
    exact valid
  · rw [cleared]
    exact valid_forget valid hash

theorem covers_take (valid : t.Valid size nowMs) (due : nowMs < owed.untilMs)
    (other : accountOf size hash ≠ owed.account) (covered : t.Covers size nowMs owed) :
    (t.take hash nowMs).2.Covers size nowMs owed := by
  rcases t.take_snd hash nowMs with same | cleared
  · rw [same]
    exact covered
  · rw [cleared]
    exact covers_forget valid due other covered

end Recovery

/-!
### Runs
-/

/-- Two hashes with the same tag and the same pair of buckets. -/
def SameDebtor (size : TableSize) (hash hash' : ℕ) : Prop :=
  let probe := Probe.new hash size.buckets size.cells
  let probe' := Probe.new hash' size.buckets size.cells
  probe.tag = probe'.tag ∧
    (probe.first = probe'.first ∧ probe.second = probe'.second ∨
      probe.first = probe'.second ∧ probe.second = probe'.first)

instance (size : TableSize) (hash hash' : ℕ) : Decidable (SameDebtor size hash hash') :=
  inferInstanceAs (Decidable (_ ∧ (_ ∧ _ ∨ _ ∧ _)))

/-- An account is a tag and a pair of buckets. -/
theorem sameDebtor_of_accountOf_eq {size : TableSize} {hash hash' : ℕ}
    (h : accountOf size hash = accountOf size hash') : SameDebtor size hash hash' := by
  -- an empty record of the first key's tag, found in its first bucket, is under both accounts
  let held : Record := { tag := (Probe.new hash size.buckets size.cells).tag, spent := 0, untilMs := 0 }
  have mine : held.account size.buckets (Probe.new hash size.buckets size.cells).first =
      accountOf size hash := rfl
  rw [h] at mine
  obtain ⟨tag, candidate⟩ := Record.account_eq_iff.1 mine
  have second := Probe.second_eq hash size.buckets size.cells
  have second' := Probe.second_eq hash' size.buckets size.cells
  refine ⟨tag, ?_⟩
  change (Probe.new hash size.buckets size.cells).tag = _ at tag
  simp only [Probe.buckets, List.mem_cons, List.not_mem_nil, or_false] at candidate
  rcases candidate with same | crossed
  · left
    exact ⟨same, by rw [second, second', same, tag]⟩
  · right
    refine ⟨crossed, ?_⟩
    rw [second, crossed, second', tag, altBucket_altBucket]

/-- One call on a recovery table. -/
inductive RecoveryCall where
  | record (hash : ℕ) (debt : Debt) (inherited : Bool)
  | take (hash : ℕ)
  | forget (hash : ℕ)
  | peek (hash : ℕ)

namespace RecoveryCall

/-- The table after the call. -/
def apply (size : TableSize) (nowMs : ℕ) (t : Recovery) : RecoveryCall → Recovery
  | record hash debt inherited => (t.record hash debt nowMs size inherited).2
  | take hash => (t.take hash nowMs).2
  | forget hash => (t.forget hash nowMs).2
  | peek _ => t

/-- The calls that may clear the record of the key with `hash`. -/
def Clears (size : TableSize) (hash : ℕ) : RecoveryCall → Prop
  | take hash' | forget hash' => SameDebtor size hash' hash
  | record .. | peek _ => False

variable {size : TableSize} {nowMs hash : ℕ} {t : Recovery}

theorem apply_valid (valid : t.Valid size nowMs) (call : RecoveryCall) :
    (call.apply size nowMs t).Valid size nowMs := by
  cases call with
  | record hash debt inherited => exact Recovery.valid_record valid hash debt inherited
  | take hash => exact Recovery.valid_take valid hash
  | forget hash => exact Recovery.valid_forget valid hash
  | peek hash => exact valid

theorem apply_covers {owed : Obligation} (keep : size.forget = false) (valid : t.Valid size nowMs)
    (due : nowMs < owed.untilMs) (account : owed.account = accountOf size hash) {call : RecoveryCall}
    (untouched : ¬ call.Clears size hash) (covered : t.Covers size nowMs owed) :
    (call.apply size nowMs t).Covers size nowMs owed := by
  cases call with
  | record hash debt inherited =>
      exact Recovery.covers_record valid.sized keep due debt inherited covered
  | take hash' =>
      apply Recovery.covers_take valid due _ covered
      rw [account]
      exact fun same => untouched (sameDebtor_of_accountOf_eq same)
  | forget hash' =>
      apply Recovery.covers_forget valid due _ covered
      rw [account]
      exact fun same => untouched (sameDebtor_of_accountOf_eq same)
  | peek hash => exact covered

end RecoveryCall

/-- The table after a sequence of timed calls. -/
def Recovery.run (size : TableSize) (t : Recovery) (calls : List (ℕ × RecoveryCall)) : Recovery :=
  calls.foldl (fun t call => call.2.apply size call.1 t) t

namespace Recovery

variable {size : TableSize} {t : Recovery} {nowMs laterMs hash : ℕ}

theorem run_append (calls calls' : List (ℕ × RecoveryCall)) :
    t.run size (calls ++ calls') = (t.run size calls).run size calls' := List.foldl_append

theorem run_valid {calls : List (ℕ × RecoveryCall)} (valid : t.Valid size nowMs)
    (ordered : (nowMs :: calls.map Prod.fst ++ [laterMs]).Pairwise (· ≤ ·)) :
    (t.run size calls).Valid size laterMs := by
  induction calls generalizing t nowMs with
  | nil => exact valid.later (by simpa using ordered)
  | cons call rest inductionHypothesis =>
      simp only [List.map_cons, List.cons_append, List.pairwise_cons] at ordered
      have soon : nowMs ≤ call.1 := ordered.1 call.1 List.mem_cons_self
      apply inductionHypothesis (RecoveryCall.apply_valid (valid.later soon) call.2)
      exact List.pairwise_cons.2 ordered.2

theorem run_covers {calls : List (ℕ × RecoveryCall)} {owed : Obligation} (keep : size.forget = false)
    (valid : t.Valid size nowMs) (account : owed.account = accountOf size hash)
    (ordered : (nowMs :: calls.map Prod.fst ++ [laterMs]).Pairwise (· ≤ ·))
    (untouched : ∀ call ∈ calls, ¬ call.2.Clears size hash) (due : laterMs < owed.untilMs)
    (covered : t.Covers size nowMs owed) : (t.run size calls).Covers size laterMs owed := by
  induction calls generalizing t nowMs with
  | nil => exact covered.later due
  | cons call rest inductionHypothesis =>
      simp only [List.map_cons, List.cons_append, List.pairwise_cons] at ordered
      have soon : nowMs ≤ call.1 := ordered.1 call.1 List.mem_cons_self
      have still : call.1 < owed.untilMs := lt_of_le_of_lt (ordered.2.1 laterMs (by simp)) due
      have valid' := valid.later soon
      apply inductionHypothesis (RecoveryCall.apply_valid valid' call.2)
      · exact List.pairwise_cons.2 ordered.2
      · exact fun later member => untouched later (List.mem_cons_of_mem _ member)
      · exact RecoveryCall.apply_covers keep valid' still account
          (untouched call List.mem_cons_self) (covered.later still)

end Recovery

/-- No debt is lost: a debt that was recorded, and whose own record nobody cleared since, is read back in
    full at every later instant before its deadline, whatever was recorded, moved or spilled in
    between. -/
theorem recovery_keeps_debt (size : TableSize) (keep : size.forget = false)
    (before after : List (ℕ × RecoveryCall)) (nowMs laterMs hash : ℕ) (debt : Debt) (inherited : Bool)
    (spent_le : debt.spent ≤ u32Max)
    (ordered : ((before ++ (nowMs, .record hash debt inherited) :: after).map Prod.fst ++
      [laterMs]).Pairwise (· ≤ ·))
    (accepted : ((Recovery.new.run size before).record hash debt nowMs size inherited).1 ≠ none)
    (deadline : ceilMillis debt.until ≤ untilMax)
    (untouched : ∀ call ∈ after, ¬ call.2.Clears size hash)
    (due : laterMs < ceilMillis debt.until) :
    ∃ charge,
      (Recovery.new.run size (before ++ (nowMs, .record hash debt inherited) :: after)).peek hash
        laterMs = some charge ∧
      debt.spent ≤ charge.debt.spent ∧ debt.until ≤ charge.debt.until := by
  let owed : Obligation :=
    { account := accountOf size hash, spent := debt.spent, untilMs := ceilMillis debt.until
      spent_le, until_le := deadline }
  -- split the clock readings at the call that records the debt
  rw [List.map_append, List.map_cons, List.append_assoc, List.cons_append] at ordered
  obtain ⟨early, late, apart⟩ := List.pairwise_append.1 ordered
  have first : (0 :: before.map Prod.fst ++ [nowMs]).Pairwise (· ≤ ·) := by
    rw [List.cons_append, List.pairwise_cons]
    refine ⟨fun _ _ => Nat.zero_le _, List.pairwise_append.2 ⟨early, List.pairwise_singleton _ _, ?_⟩⟩
    intro time member now mem
    rw [List.mem_singleton.1 mem]
    exact apart time member nowMs List.mem_cons_self
  have soon : nowMs < owed.untilMs :=
    lt_of_le_of_lt ((List.pairwise_cons.1 late).1 laterMs (by simp)) due
  have start : (Recovery.new.run size before).Valid size nowMs :=
    Recovery.run_valid Recovery.new_valid first
  have valid := Recovery.valid_record start hash debt inherited
  have covered : ((Recovery.new.run size before).record hash debt nowMs size inherited).2.Covers size
      nowMs owed := Recovery.covers_recorded start.sized keep soon rfl le_rfl le_rfl accepted
  have final := Recovery.run_covers keep valid rfl late untouched due covered
  have finalValid := Recovery.run_valid valid late
  have whole : Recovery.new.run size (before ++ (nowMs, .record hash debt inherited) :: after) =
      ((Recovery.new.run size before).record hash debt nowMs size inherited).2.run size after :=
    Recovery.run_append before _
  rw [whole]
  obtain ⟨charge, read, spent, far⟩ := Recovery.peek_covers finalValid due rfl final
  refine ⟨charge, read, spent, le_trans (le_fromMillis_ceilMillis ?_) far⟩
  exact lt_of_le_of_lt deadline (by decide)

/-- A debt of three units due at 5 ms, followed by another key's debt and the clearing of that one, is
    still there at 4 ms. -/
theorem recovery_keeps_debt_past_another_key :
    let size := TableSize.forCap 1
    let debt : Debt := { spent := 3, «until» := 5000000 }
    let calls : List (ℕ × RecoveryCall) :=
      [(1, .record 7 debt false), (2, .record 11 debt false), (3, .forget 11)]
    ∃ charge, (Recovery.new.run size calls).peek 7 4 = some charge ∧
      3 ≤ charge.debt.spent ∧ 5000000 ≤ charge.debt.until := by
  intro size debt calls
  exact recovery_keeps_debt size rfl [] [(2, .record 11 debt false), (3, .forget 11)] 1 4 7 debt false
    (by decide) (by decide) (by decide) (by decide)
    (by simp [RecoveryCall.Clears, SameDebtor, size]; decide) (by decide)

end RateNet
