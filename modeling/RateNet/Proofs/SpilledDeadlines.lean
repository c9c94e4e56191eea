/-
Module: RateNet.Proofs.SpilledDeadlines
Purpose: What a spill costs a debt with a distant deadline. A record has 63 bits for its deadline and a sketch
  cell 40, so every table keeps every deadline a cell can hold, and a crowded one cuts all the others short.
Trusted boundary: none
Main exports: Recovery.Capped, Recovery.peek_until_le, Recovery.record_spills, KeepsDeadline, crowded,
  deadline_kept_iff_fits_cell, spilled_deadline_is_cut_short
-/
import RateNet.Proofs.RecoveryContents

namespace RateNet

open Buckets

namespace Recovery

variable {t : Recovery} {size : TableSize} {nowMs hash : ℕ} {debt : Debt}

/-- No cell of the sketch shows a deadline past the width of its field. -/
def Capped (t : Recovery) : Prop := t.Holds (fun _ => True) fun cell => (unpack cell).1 ≤ untilMax

theorem overflowCell_capped (record : Record) (nowMs cell : ℕ) :
    (unpack (overflowCell record nowMs cell)).1 ≤ untilMax := by
  simp only [overflowCell]
  split <;> exact unpack_pack _ _ ▸ min_le_right _ _

theorem record_capped (capped : t.Capped) (inherited : Bool) :
    (t.record hash debt nowMs size inherited).2.Capped :=
  record_holds trivial (by decide) capped ⟨fun _ => trivial, fun _ _ => trivial⟩
    fun _ record cell _ _ => overflowCell_capped record nowMs cell

theorem cell_capped (capped : t.Capped) (c : ℕ) : (unpack (t.cell c)).1 ≤ untilMax := by
  unfold cell
  cases held : t.cells[c]? with
  | none => decide
  | some cell => exact capped.cells cell (List.mem_of_getElem? held)

/-- The sketch shows no deadline past the width of a cell. -/
theorem shared_until_le (capped : t.Capped) {probe : Probe} {owed : Debt}
    (sketch : t.shared probe nowMs = some owed) : owed.until ≤ fromMillis untilMax := by
  simp only [shared] at sketch
  split at sketch
  · obtain rfl := Option.some.inj sketch
    exact fromMillis_mono ((min_le_left _ _).trans (cell_capped capped _))
  · cases sketch

/-- Nor does a key without a record of its own read one back. -/
theorem peek_until_le (capped : t.Capped)
    (absent : t.own (Probe.new hash t.buckets.length t.cells.length) nowMs = none) {charge : Charge}
    (read : t.peek hash nowMs = some charge) : charge.debt.until ≤ fromMillis untilMax := by
  unfold peek probe at read
  split at read
  · cases read
  · rename_i probe probed
    split at probed
    · cases probed
    · obtain rfl := Option.some.inj probed
      simp only [absent, Option.bind_none, Option.map_none] at read
      cases sketch : t.shared (Probe.new hash t.buckets.length t.cells.length) nowMs with
      | none =>
          rw [sketch] at read
          cases read
      | some owed =>
          rw [sketch] at read
          obtain rfl := Option.some.inj read
          exact shared_until_le capped sketch

/-- Right after a failed walk, a plain debt of a key without a record, whose buckets are full of live debts, goes
    to the sketch and reads back no deadline past the width of a cell. -/
theorem record_spills (capped : t.Capped) (allocated : t.buckets ≠ []) (keep : size.forget = false)
    (absent : t.own (Probe.new hash t.buckets.length t.cells.length) nowMs = none)
    (full : ∀ b, t.freeIn b nowMs = none) (pausing : 0 < t.backoff) :
    (t.record hash debt nowMs size false).1 = some .overflowed ∧
      ∀ charge, (t.record hash debt nowMs size false).2.peek hash nowMs = some charge →
        charge.debt.until ≤ fromMillis untilMax := by
  have same : t.allocate size = t := if_neg (by simpa using allocated)
  have spilled : t.record hash debt nowMs size false =
      (some .overflowed,
        overflow { t with backoff := t.backoff - 1 }
          (newRecord (Probe.new hash t.buckets.length t.cells.length) debt false)
          (Probe.new hash t.buckets.length t.cells.length).first nowMs) := by
    simp only [record, same, place, absent, full, Option.map_none, Probe.buckets, List.findSome?_cons,
      List.findSome?_nil, if_pos pausing, dispose, spill, keep]
    rfl
  have after : (t.record hash debt nowMs size false).2.Capped := record_capped capped false
  rw [spilled] at after ⊢
  refine ⟨rfl, fun charge => peek_until_le after ?_⟩
  rw [own, overflow_buckets, overflow_cells_length]
  exact absent

end Recovery

/-- A debt recorded in any fail-closed table is read back with its deadline. -/
def KeepsDeadline (nowMs : ℕ) (debt : Debt) : Prop :=
  ∀ (size : TableSize) (t : Recovery) (hash : ℕ), size.forget = false → t.Valid size nowMs →
    (t.record hash debt nowMs size false).1 ≠ none →
      ∃ charge, (t.record hash debt nowMs size false).2.peek hash nowMs = some charge ∧
        debt.until ≤ charge.debt.until

/-!
### A crowded table
-/

/-- A table of one key's capacity after nine debts that are due last of all: both of its buckets are full, and the
    ninth has just failed a walk. -/
def crowded : Recovery :=
  Recovery.new.run (.forCap 1) ((List.range 9).map fun i =>
    (0, .record (i + 1) { spent := 1, «until» := fromMillis (inheritedBit - 1) } false))

/-- The debts of a crowded table are due last of all, and none is that of key ten. -/
theorem crowded_records {held : ℕ × Record} (member : held ∈ crowded.buckets.contents) :
    held.2.tag ≠ 0 ∧ held.2.tag ≠ 10 ∧ held.2.until = inheritedBit - 1 := by
  have all : ∀ bucket ∈ crowded.buckets, ∀ record ∈ bucket.entries,
      record.tag ≠ 0 ∧ record.tag ≠ 10 ∧ record.until = inheritedBit - 1 := by decide +kernel
  obtain ⟨i, found⟩ := Table.mem_contents.1 member
  obtain ⟨bucket, inside, here⟩ := Option.bind_eq_some_iff.1 found
  exact all bucket (List.mem_of_getElem? inside) held.2 (List.mem_of_getElem? here)

theorem crowded_valid (nowMs : ℕ) : crowded.Valid (.forCap 1) nowMs := by
  have start : Recovery.new.Valid (.forCap 1) 0 := Recovery.new_valid
  have filled : crowded.Valid (.forCap 1) 0 := Recovery.run_valid start (by decide)
  exact filled.later (Nat.zero_le nowMs)

theorem crowded_capped : crowded.Capped :=
  { records := fun _ _ => trivial
    cells := by decide +kernel }

theorem crowded_has_no_ten (nowMs : ℕ) :
    crowded.own (Probe.new 10 crowded.buckets.length crowded.cells.length) nowMs = none := by
  have tag : (Probe.new 10 crowded.buckets.length crowded.cells.length).tag = 10 := by decide +kernel
  refine List.findSome?_eq_none_iff.2 fun b _ => Option.map_eq_none_iff.2 (Table.position_eq_none.2 ?_)
  intro record member
  rw [tag, beq_false_of_ne (crowded_records member).2.1, Bool.false_and]

theorem crowded_is_full {nowMs : ℕ} (early : nowMs < inheritedBit - 1) (b : ℕ) :
    crowded.freeIn b nowMs = none := by
  refine Table.position_eq_none.2 fun record member => ?_
  obtain ⟨tag, -, deadline⟩ := crowded_records member
  simp [Record.isLive, tag, deadline, early]

theorem crowded_allocated : crowded.buckets ≠ [] ∧ 0 < crowded.backoff := by decide +kernel

/-- There a debt of key ten is spilled. -/
theorem crowded_spills {nowMs : ℕ} (early : nowMs < inheritedBit - 1) (debt : Debt) :
    (crowded.record 10 debt nowMs (.forCap 1) false).1 = some .overflowed ∧
      ∀ charge, (crowded.record 10 debt nowMs (.forCap 1) false).2.peek 10 nowMs = some charge →
        charge.debt.until ≤ fromMillis untilMax :=
  Recovery.record_spills crowded_capped crowded_allocated.1 rfl (crowded_has_no_ten nowMs)
    (crowded_is_full early) crowded_allocated.2

/-!
### The deadlines kept
-/

/-- A table keeps the deadline of a debt it records, in every state, exactly when the deadline fits a cell of the
    sketch. -/
theorem deadline_kept_iff_fits_cell (nowMs : ℕ) (debt : Debt) (due : nowMs < ceilMillis debt.until)
    (fits : ceilMillis debt.until < 2 ^ 63) :
    KeepsDeadline nowMs debt ↔ ceilMillis debt.until ≤ untilMax := by
  constructor
  · intro keeps
    have early : nowMs < inheritedBit - 1 := by
      have := fits
      simp only [inheritedBit]
      omega
    obtain ⟨recorded, short⟩ := crowded_spills early debt
    obtain ⟨charge, read, far⟩ := keeps (.forCap 1) crowded 10 rfl (crowded_valid nowMs) (by
      rw [recorded]
      exact Option.some_ne_none _)
    exact ceilMillis_le_of_le_fromMillis (far.trans (short charge read))
  · intro narrow size t hash keep valid accepted
    let owed : Obligation :=
      { account := accountOf size hash, spent := 0, untilMs := ceilMillis debt.until
        spent_le := Nat.zero_le _, until_le := narrow }
    have covered : (t.record hash debt nowMs size false).2.Covers size nowMs owed :=
      Recovery.covers_recorded valid.sized keep due rfl (Nat.zero_le _) le_rfl accepted
    obtain ⟨charge, read, -, far⟩ :=
      Recovery.peek_covers (Recovery.valid_record valid hash debt false) due rfl covered
    refine ⟨charge, read, le_trans (le_fromMillis_ceilMillis ?_) far⟩
    exact lt_of_le_of_lt narrow (by decide)

/-- A deadline of one second is kept by the crowded table. -/
theorem deadline_kept_of_one_second :
    ∃ charge, (crowded.record 10 { spent := 1, «until» := 1000000000 } 0 (.forCap 1) false).2.peek 10 0 =
        some charge ∧ 1000000000 ≤ charge.debt.until :=
  (deadline_kept_iff_fits_cell 0 { spent := 1, «until» := 1000000000 } (by decide) (by decide)).2 (by decide)
    (.forCap 1) crowded 10 rfl (crowded_valid 0) (by decide +kernel)

/-- A deadline of 2^40 ms is recorded by the crowded table, and read back a millisecond short. -/
theorem spilled_deadline_is_cut_short :
    (crowded.record 10 { spent := 1, «until» := fromMillis (2 ^ 40) } 0 (.forCap 1) false).1 =
        some .overflowed ∧
      (crowded.record 10 { spent := 1, «until» := fromMillis (2 ^ 40) } 0 (.forCap 1) false).2.peek 10 0 =
        some { debt := { spent := 1, «until» := fromMillis (2 ^ 40 - 1) }, shared := true } := by
  decide +kernel

end RateNet
