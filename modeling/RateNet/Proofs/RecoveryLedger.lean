/-
Module: RateNet.Proofs.RecoveryLedger
Purpose: The recovery table as a ledger of accounts. A record belongs to the account given by its tag and
  the lower of its two buckets, wherever a walk has moved it; the ledger is the multiset of live
  records, each under its account. Every operation on the exact table is a trade on the ledger:
  `PlaceEffect` lists what `place` can do, and every later fact about the table is read off it.
Trusted boundary: none
Main exports: Account, Record.account, accountOf, Recovery.ledger, PlaceEffect, Recovery.place_effect,
  Recovery.own_eq_none_iff, Recovery.forget_ledger, Recovery.owns, Recovery.owns_iff
-/
import RateNet.Store.Recovery

namespace RateNet

open Buckets

/-- What identifies a debtor in a recovery table. -/
structure Account where
  tag : ℕ
  low : ℕ
deriving DecidableEq

/-- The account of a record found in bucket `b` of a table of `buckets` buckets. -/
def Record.account (record : Record) (buckets b : ℕ) : Account :=
  { tag := record.tag, low := min b (altBucket b record.tag buckets) }

def Probe.account (probe : Probe) : Account :=
  { tag := probe.tag, low := min probe.first probe.second }

/-- The account of a key's hash in a table of the given size. -/
def accountOf (size : TableSize) (hash : ℕ) : Account :=
  (Probe.new hash size.buckets size.cells).account

/-- A record keeps its account when it moves to its other bucket. -/
theorem Record.account_altBucket (record : Record) (buckets b : ℕ) :
    record.account buckets (altBucket b record.tag buckets) = record.account buckets b := by
  rw [Record.account, Record.account, altBucket_altBucket, min_comm]

/-- A record with a key's tag is under the key's account exactly in the key's two buckets. -/
theorem Record.account_eq_iff {record : Record} {buckets b hash cells : ℕ} :
    record.account buckets b = (Probe.new hash buckets cells).account ↔
      record.tag = (Probe.new hash buckets cells).tag ∧
        b ∈ (Probe.new hash buckets cells).buckets := by
  set probe := Probe.new hash buckets cells with hprobe
  have hsecond : probe.second = altBucket probe.first probe.tag buckets := Probe.second_eq _ _ _
  have back := altBucket_altBucket probe.first probe.tag buckets
  simp only [Record.account, Probe.account, Account.mk.injEq, Probe.buckets, List.mem_cons,
    List.not_mem_nil, or_false, hsecond]
  constructor
  · rintro ⟨tags, lows⟩
    rw [tags] at lows
    refine ⟨tags, ?_⟩
    have twice := altBucket_altBucket b probe.tag buckets
    rcases min_choice b (altBucket b probe.tag buckets) with mine | mine <;>
      rcases min_choice probe.first (altBucket probe.first probe.tag buckets) with other | other <;>
      rw [mine, other] at lows
    · exact Or.inl lows
    · exact Or.inr lows
    · rw [← lows, twice]
      exact Or.inr rfl
    · rw [lows, back] at twice
      exact Or.inl twice.symm
  · rintro ⟨tags, rfl | rfl⟩
    · exact ⟨tags, by rw [tags]⟩
    · exact ⟨tags, by rw [tags, back, min_comm]⟩

/-- A record as an item of the ledger, if it is live. -/
def claimed (nowMs : ℕ) (account : Account) (record : Record) : Multiset (Account × Record) :=
  if record.isLive nowMs then {(account, record)} else 0

theorem claimed_of_live {nowMs : ℕ} {record : Record} (account : Account)
    (h : record.isLive nowMs = true) : claimed nowMs account record = {(account, record)} := if_pos h

theorem claimed_of_dead {nowMs : ℕ} {record : Record} (account : Account)
    (h : record.isLive nowMs = false) : claimed nowMs account record = 0 := by
  rw [claimed, h]
  rfl

theorem mem_claimed {nowMs : ℕ} {account : Account} {record : Record} {item : Account × Record} :
    item ∈ claimed nowMs account record ↔ record.isLive nowMs = true ∧ item = (account, record) := by
  unfold claimed
  split
  · rename_i live
    simp [live]
  · rename_i dead
    simp [dead]

namespace Recovery

/-- The live records, each under its account. -/
def ledger (t : Recovery) (nowMs : ℕ) : Multiset (Account × Record) :=
  t.buckets.contents.bind fun held =>
    claimed nowMs (held.2.account t.buckets.length held.1) held.2

theorem mem_ledger {t : Recovery} {nowMs : ℕ} {account : Account} {record : Record} :
    (account, record) ∈ t.ledger nowMs ↔ record.isLive nowMs = true ∧
      ∃ b, (b, record) ∈ t.buckets.contents ∧ record.account t.buckets.length b = account := by
  simp only [ledger, Multiset.mem_bind, mem_claimed, Prod.mk.injEq]
  constructor
  · rintro ⟨⟨b, held⟩, member, live, rfl, rfl⟩
    exact ⟨live, b, member, rfl⟩
  · rintro ⟨live, b, member, rfl⟩
    exact ⟨(b, record), member, live, rfl, rfl⟩

/-- Writing a record trades the live record it overwrites for itself. -/
theorem ledger_put {t : Recovery} {b r : ℕ} {old : Record} (nowMs : ℕ)
    (h : t.buckets.entry b r = some old) (new : Record) :
    claimed nowMs (old.account t.buckets.length b) old +
        ledger { t with buckets := t.buckets.put b r new } nowMs =
      claimed nowMs (new.account t.buckets.length b) new + t.ledger nowMs := by
  have traded := congrArg (fun contents => contents.bind fun held : ℕ × Record =>
    claimed nowMs (held.2.account t.buckets.length held.1) held.2) (Table.contents_put h new)
  simp only [Multiset.cons_bind] at traded
  rw [ledger, Table.length_put]
  exact traded

/-- Filling a free place adds the new record. -/
theorem ledger_put_free {t : Recovery} {b r : ℕ} {old : Record} {nowMs : ℕ}
    (h : t.buckets.entry b r = some old) (free : old.isLive nowMs = false) (new : Record) :
    ledger { t with buckets := t.buckets.put b r new } nowMs =
      claimed nowMs (new.account t.buckets.length b) new + t.ledger nowMs := by
  rw [← ledger_put nowMs h new, claimed_of_dead _ free, zero_add]

theorem put_eq {t : Recovery} {b r : ℕ} {old : Record} (h : t.buckets.entry b r = some old)
    (record : Record) : t.put b r record = (old, { t with buckets := t.buckets.put b r record }) := by
  rw [put, h]

theorem freeIn_eq_some {t : Recovery} {b r nowMs : ℕ} (h : t.freeIn b nowMs = some r) :
    ∃ old, t.buckets.entry b r = some old ∧ old.isLive nowMs = false := by
  obtain ⟨old, found, dead⟩ := Table.position_eq_some h
  exact ⟨old, found, by simpa using dead⟩

/-- The search only turns the offset. -/
theorem movableIn_snd {t t' : Recovery} {b nowMs : ℕ} {found : Option ℕ}
    (h : t.movableIn b nowMs = (found, t')) : ∃ turn, t' = { t with turn } :=
  ⟨_, (congrArg Prod.snd h).symm⟩

theorem movableIn_eq_some {t t' : Recovery} {b r nowMs : ℕ}
    (h : t.movableIn b nowMs = (some r, t')) :
    ∃ record, t'.buckets.entry b r = some record ∧ record.isMovable nowMs = true := by
  obtain ⟨turn, rfl⟩ := movableIn_snd h
  have found := List.find?_some (congrArg Prod.fst h)
  simp only [Option.any_eq_true] at found
  exact found

/-- The rotating search misses no record of the bucket. -/
theorem movableIn_eq_none {t t' : Recovery} {b nowMs : ℕ} (h : t.movableIn b nowMs = (none, t'))
    {record : Record} (member : (b, record) ∈ t.buckets.contents) :
    record.isMovable nowMs = false := by
  obtain ⟨r, found⟩ := Table.mem_contents.1 member
  have bound : r < bucketRecords := (Table.lt_of_entry found).2
  have missed := List.find?_eq_none.1 (congrArg Prod.fst h) r
  have reached : r ∈ (List.range bucketRecords).map fun i => (t.turn + i) % bucketRecords := by
    simp only [List.mem_map, List.mem_range]
    refine ⟨(r + bucketRecords - t.turn % bucketRecords) % bucketRecords, ?_, ?_⟩
    · exact Nat.mod_lt _ (by decide)
    · simp only [bucketRecords] at bound ⊢
      omega
  have notMovable := missed reached
  rw [found] at notMovable
  simpa using notMovable

/-!
### The walk

Displacing one record for another is a trade, and a record keeps its account while it moves, so a walk of
any length settles its first record at the price of at most one other.
-/

/-- The sketch and the number of buckets are untouched. -/
structure SameShape (t t' : Recovery) : Prop where
  buckets : t'.buckets.length = t.buckets.length
  cells : t'.cells = t.cells

theorem SameShape.trans {t t₁ t₂ : Recovery} (first : SameShape t t₁) (second : SameShape t₁ t₂) :
    SameShape t t₂ :=
  { buckets := second.buckets.trans first.buckets, cells := second.cells.trans first.cells }

theorem sameShape_put (t : Recovery) (b r : ℕ) (record : Record) :
    SameShape t { t with buckets := t.buckets.put b r record } :=
  { buckets := Table.length_put _ _ _ _, cells := rfl }

/-- The offset and the back-off count are no part of the shape. -/
theorem sameShape_marks (t : Recovery) (turn backoff : ℕ) : SameShape t { t with turn, backoff } :=
  { buckets := rfl, cells := rfl }

/-- How the search for a place for `new` may end: with `new` in the table, or with `new` in the table and
    some other plain record out of it. -/
inductive Settles (nowMs : ℕ) (t : Recovery) (account : Account) (new : Record) :
    Placement × Recovery → Prop where
  | placed {t' : Recovery} (shape : SameShape t t')
      (added : t'.ledger nowMs = claimed nowMs account new + t.ledger nowMs) :
      Settles nowMs t account new (.exact, t')
  | displaced {t' : Recovery} {record : Record} {b : ℕ} (shape : SameShape t t')
      (plain : record.isInherited = false)
      (traded : claimed nowMs (record.account t.buckets.length b) record + t'.ledger nowMs =
        claimed nowMs account new + t.ledger nowMs) :
      Settles nowMs t account new (.homeless record b, t')

/-- A search that goes on with the record it displaced. -/
theorem Settles.after {nowMs : ℕ} {t t₁ : Recovery} {account account₁ : Account} {new old : Record}
    {outcome : Placement × Recovery} (shape : SameShape t t₁)
    (traded : claimed nowMs account₁ old + t₁.ledger nowMs =
      claimed nowMs account new + t.ledger nowMs)
    (rest : Settles nowMs t₁ account₁ old outcome) : Settles nowMs t account new outcome := by
  cases rest with
  | placed shape₁ added =>
      apply Settles.placed (shape.trans shape₁)
      rw [added, traded]
  | displaced shape₁ plain traded₁ =>
      apply Settles.displaced (shape.trans shape₁) plain
      rw [← shape.buckets, traded₁, traded]

/-- One move of the walk: the displaced record finds a place in its other bucket, walks on from there, or
    is left over. -/
theorem walk_settles_step {nowMs kicks : ℕ}
    (walksOn : kicks ≠ 0 → ∀ {t : Recovery} {b r : ℕ} {old : Record},
      t.buckets.entry b r = some old → old.isMovable nowMs = true → ∀ homeless : Record,
        Settles nowMs t (homeless.account t.buckets.length b) homeless
          (walk nowMs kicks t b r homeless))
    {t : Recovery} {b r : ℕ} {old : Record} (found : t.buckets.entry b r = some old)
    (movable : old.isMovable nowMs = true) (homeless : Record) :
    Settles nowMs t (homeless.account t.buckets.length b) homeless
      (walk nowMs (kicks + 1) t b r homeless) := by
  have plain : old.isInherited = false := by
    simp only [Record.isMovable, Bool.and_eq_true, Bool.not_eq_true'] at movable
    exact movable.2
  have shape := sameShape_put t b r homeless
  have traded := ledger_put nowMs found homeless
  rw [← old.account_altBucket] at traded
  rw [walk, put_eq found]
  dsimp only
  rw [Table.length_put]
  split
  · rename_i free hfree
    obtain ⟨dead, place, expired⟩ := freeIn_eq_some hfree
    rw [put_eq place]
    apply Settles.after shape traded
    apply Settles.placed (sameShape_put _ _ _ _)
    rw [ledger_put_free place expired, Table.length_put]
  · by_cases last : kicks = 0
    · rw [if_pos last]
      exact .displaced ⟨shape.buckets, shape.cells⟩ plain traded
    · rw [if_neg last]
      split
      · -- the displaced record walks on from its other bucket
        rename_i next t₁ hmovable
        obtain ⟨record, there, movable₁⟩ := movableIn_eq_some hmovable
        obtain ⟨turn, rfl⟩ := movableIn_snd hmovable
        apply Settles.after _ _ (walksOn last there movable₁ old)
        · exact ⟨shape.buckets, shape.cells⟩
        · dsimp only
          rw [Table.length_put]
          exact traded
      · rename_i t₁ hmovable
        obtain ⟨turn, rfl⟩ := movableIn_snd hmovable
        exact .displaced ⟨shape.buckets, shape.cells⟩ plain traded

/-- A walk of at least one move settles its first record. -/
theorem walk_settles {nowMs : ℕ} (kicks : ℕ) {t : Recovery} {b r : ℕ} {old : Record}
    (found : t.buckets.entry b r = some old) (movable : old.isMovable nowMs = true)
    (homeless : Record) :
    Settles nowMs t (homeless.account t.buckets.length b) homeless
      (walk nowMs (kicks + 1) t b r homeless) := by
  induction kicks generalizing t b r old homeless with
  | zero => exact walk_settles_step (fun absent => absurd rfl absent) found movable homeless
  | succ kicks inductionHypothesis =>
      exact walk_settles_step (fun _ => inductionHypothesis) found movable homeless

/-!
### Finding a place
-/

/-- The key's own record is the live record under its account. -/
theorem own_eq_some {t : Recovery} {hash nowMs b r : ℕ}
    (h : t.own (Probe.new hash t.buckets.length t.cells.length) nowMs = some (b, r)) :
    ∃ record, t.buckets.entry b r = some record ∧ record.isLive nowMs = true ∧
      record.account t.buckets.length b =
        (Probe.new hash t.buckets.length t.cells.length).account := by
  obtain ⟨b', candidate, found⟩ := List.exists_of_findSome?_eq_some h
  obtain ⟨r', there, pair⟩ := Option.map_eq_some_iff.1 found
  obtain ⟨rfl, rfl⟩ := Prod.mk.injEq .. ▸ pair
  obtain ⟨record, held, matching⟩ := Table.position_eq_some there
  rw [Bool.and_eq_true, beq_iff_eq] at matching
  exact ⟨record, held, matching.2, Record.account_eq_iff.2 ⟨matching.1, candidate⟩⟩

theorem own_eq_none_iff {t : Recovery} {hash nowMs : ℕ} :
    t.own (Probe.new hash t.buckets.length t.cells.length) nowMs = none ↔
      ∀ record, ((Probe.new hash t.buckets.length t.cells.length).account, record) ∉
        t.ledger nowMs := by
  constructor
  · intro h record member
    obtain ⟨live, b, held, account⟩ := mem_ledger.1 member
    obtain ⟨tags, candidate⟩ := Record.account_eq_iff.1 account
    have missed := Option.map_eq_none_iff.1 (List.findSome?_eq_none_iff.1 h b candidate)
    have mismatch := Table.position_eq_none.1 missed record held
    rw [tags, live, beq_self_eq_true] at mismatch
    cases mismatch
  · intro absent
    by_contra found
    obtain ⟨⟨b, r⟩, found⟩ := Option.ne_none_iff_exists'.1 found
    obtain ⟨record, held, live, account⟩ := own_eq_some found
    exact absent record (mem_ledger.2 ⟨live, b, Table.mem_contents.2 ⟨r, held⟩, account⟩)

/-- Everything `place` can do for a debt: merge it into the account's own record, settle a new record, or
    refuse, and it refuses only an inherited debt whose account has no record of its own and whose two
    buckets hold nothing but live inherited records. -/
inductive PlaceEffect (nowMs : ℕ) (t : Recovery) (probe : Probe) (new : Record)
    (merged : Record → Record) : Placement × Recovery → Prop where
  | merge {t' : Recovery} {record : Record} (shape : SameShape t t')
      (held : (probe.account, record) ∈ t.ledger nowMs)
      (traded : claimed nowMs probe.account record + t'.ledger nowMs =
        claimed nowMs probe.account (merged record) + t.ledger nowMs) :
      PlaceEffect nowMs t probe new merged (.exact, t')
  | settle {outcome : Placement × Recovery}
      (absent : ∀ record, (probe.account, record) ∉ t.ledger nowMs)
      (settles : Settles nowMs t probe.account new outcome) :
      PlaceEffect nowMs t probe new merged outcome
  | refuse {t' : Recovery} (shape : SameShape t t') (same : t'.ledger nowMs = t.ledger nowMs)
      (absent : ∀ record, (probe.account, record) ∉ t.ledger nowMs)
      (inherited : new.isInherited = true)
      (full : ∀ b ∈ probe.buckets, ∀ record, (b, record) ∈ t.buckets.contents →
        record.isLive nowMs = true ∧ record.isInherited = true) :
      PlaceEffect nowMs t probe new merged (.refused, t')

/-- The back-off count plays no part in the ledger. -/
theorem PlaceEffect.of_backoff {nowMs backoff : ℕ} {t : Recovery} {probe : Probe} {new : Record}
    {merged : Record → Record} {outcome : Placement × Recovery}
    (effect : PlaceEffect nowMs { t with backoff } probe new merged outcome) :
    PlaceEffect nowMs t probe new merged outcome := by
  cases effect with
  | merge shape held traded => exact .merge ⟨shape.buckets, shape.cells⟩ held traded
  | settle absent settles => exact .settle absent (settles.after (sameShape_marks t t.turn backoff) rfl)
  | refuse shape same absent inherited full =>
      exact .refuse ⟨shape.buckets, shape.cells⟩ same absent inherited full

/-- The walk starts from a movable record of one of the two buckets, if there is one. -/
theorem movableStart_cases (t : Recovery) (probe : Probe) (nowMs : ℕ) :
    (∃ b r turn record, t.movableStart probe nowMs = (some (b, r), { t with turn }) ∧
      b ∈ probe.buckets ∧ t.buckets.entry b r = some record ∧ record.isMovable nowMs = true) ∨
    (∃ turn, t.movableStart probe nowMs = (none, { t with turn }) ∧
      ∀ b ∈ probe.buckets, ∀ record, (b, record) ∈ t.buckets.contents →
        record.isMovable nowMs = false) := by
  unfold movableStart
  split
  · rename_i r t₁ first
    obtain ⟨record, found, movable⟩ := movableIn_eq_some first
    obtain ⟨turn, rfl⟩ := movableIn_snd first
    exact Or.inl ⟨_, r, turn, record, rfl, List.mem_cons_self, found, movable⟩
  · rename_i t₁ first
    obtain ⟨turn, rfl⟩ := movableIn_snd first
    split
    · rename_i r t₂ second
      obtain ⟨record, found, movable⟩ := movableIn_eq_some second
      obtain ⟨turn₂, rfl⟩ := movableIn_snd second
      exact Or.inl ⟨_, r, turn₂, record, rfl, by simp [Probe.buckets], found, movable⟩
    · rename_i t₂ second
      obtain ⟨turn₂, rfl⟩ := movableIn_snd second
      refine Or.inr ⟨turn₂, rfl, ?_⟩
      intro b candidate record member
      simp only [Probe.buckets, List.mem_cons, List.not_mem_nil, or_false] at candidate
      rcases candidate with rfl | rfl
      · exact movableIn_eq_none first member
      · exact movableIn_eq_none second member

/-- With both buckets full of live records, the debt starts a walk, spills or is refused. -/
theorem relocate_effect {t : Recovery} {hash nowMs : ℕ} {new : Record} {inherited : Bool}
    {merged : Record → Record} (budget : ℕ)
    (tag : new.tag = (Probe.new hash t.buckets.length t.cells.length).tag)
    (mark : new.isInherited = inherited)
    (absent : ∀ record, ((Probe.new hash t.buckets.length t.cells.length).account, record) ∉
      t.ledger nowMs)
    (occupied : ∀ b ∈ (Probe.new hash t.buckets.length t.cells.length).buckets, ∀ record,
      (b, record) ∈ t.buckets.contents → record.isLive nowMs = true) :
    PlaceEffect nowMs t (Probe.new hash t.buckets.length t.cells.length) new merged
      (t.relocate (Probe.new hash t.buckets.length t.cells.length) new (budget + 1) nowMs
        inherited) := by
  rw [relocate]
  rcases movableStart_cases t (Probe.new hash t.buckets.length t.cells.length) nowMs with
    ⟨b, r, turn, record, start, candidate, found, movable⟩ | ⟨turn, start, stuck⟩
  · rw [start]
    have account := Record.account_eq_iff.2 ⟨tag, candidate⟩
    have walked := walk_settles (t := { t with turn }) budget found movable new
    apply PlaceEffect.settle absent
    apply Settles.after (sameShape_marks t turn t.backoff) _ walked
    rw [← account]
    rfl
  · rw [start]
    dsimp only
    cases inherited with
    | true =>
        rw [if_pos rfl]
        apply PlaceEffect.refuse (sameShape_marks t turn t.backoff) rfl absent mark
        intro b candidate record member
        have live := occupied b candidate record member
        have immovable := stuck b candidate record member
        rw [Record.isMovable, live, Bool.true_and, Bool.not_eq_false'] at immovable
        exact ⟨live, immovable⟩
    | false =>
        rw [if_neg Bool.false_ne_true]
        apply PlaceEffect.settle absent
        apply Settles.displaced (sameShape_marks t turn t.backoff) mark
        rw [Record.account_eq_iff.2 ⟨tag, List.mem_cons_self⟩]
        rfl

/-- A stored deadline leaves the mark's bit free. -/
theorem untilMs_lt (deadline : ℕ) : min deadline (inheritedBit - 1) < 2 ^ 63 :=
  lt_of_le_of_lt (min_le_right _ _) (Nat.sub_lt (Nat.two_pow_pos 63) Nat.one_pos)

/-- The record `place` writes for a debt that has none yet. -/
def newRecord (probe : Probe) (debt : Debt) (inherited : Bool) : Record :=
  { tag := probe.tag, spent := debt.spent
    untilMs := min (ceilMillis debt.until) (inheritedBit - 1) |||
      (if inherited then inheritedBit else 0) }

/-- The record `place` leaves where the account already has one. -/
def mergedRecord (debt : Debt) (inherited : Bool) (record : Record) : Record :=
  record.merge debt.spent (min (ceilMillis debt.until) (inheritedBit - 1))
    (if inherited then inheritedBit else 0)

theorem place_effect (t : Recovery) (hash : ℕ) (debt : Debt) (nowMs : ℕ) (inherited : Bool) :
    PlaceEffect nowMs t (Probe.new hash t.buckets.length t.cells.length)
      (newRecord (Probe.new hash t.buckets.length t.cells.length) debt inherited)
      (mergedRecord debt inherited)
      (t.place (Probe.new hash t.buckets.length t.cells.length) debt nowMs inherited) := by
  set probe := Probe.new hash t.buckets.length t.cells.length with hprobe
  have mark : (newRecord probe debt inherited).isInherited = inherited :=
    Record.isInherited_mark (untilMs_lt _) inherited
  rw [place]
  split
  · rename_i b r hown
    obtain ⟨record, held, live, account⟩ := own_eq_some hown
    rw [held]
    have member : (probe.account, record) ∈ t.ledger nowMs :=
      mem_ledger.2 ⟨live, b, Table.mem_contents.2 ⟨r, held⟩, account⟩
    apply PlaceEffect.merge (sameShape_put t b r _) member
    have traded := ledger_put nowMs held (mergedRecord debt inherited record)
    rw [account] at traded
    have sameAccount : (mergedRecord debt inherited record).account t.buckets.length b =
        probe.account := account
    rw [sameAccount] at traded
    exact traded
  · rename_i hown
    have absent := own_eq_none_iff.1 hown
    dsimp only
    split
    · rename_i b r hfree
      obtain ⟨b', candidate, found⟩ := List.exists_of_findSome?_eq_some hfree
      obtain ⟨r', there, pair⟩ := Option.map_eq_some_iff.1 found
      obtain ⟨rfl, rfl⟩ := Prod.mk.injEq .. ▸ pair
      obtain ⟨old, place, expired⟩ := freeIn_eq_some there
      rw [put_eq place]
      apply PlaceEffect.settle absent
      apply Settles.placed (sameShape_put _ _ _ _)
      rw [ledger_put_free place expired, Record.account_eq_iff.2 ⟨rfl, candidate⟩]
      rfl
    · rename_i hfree
      have occupied : ∀ b ∈ probe.buckets, ∀ record, (b, record) ∈ t.buckets.contents →
          record.isLive nowMs = true := by
        intro b candidate record member
        have none_free := Option.map_eq_none_iff.1 (List.findSome?_eq_none_iff.1 hfree b candidate)
        simpa using Table.position_eq_none.1 none_free record member
      split
      · cases inherited with
        | false =>
            apply PlaceEffect.settle absent
            apply Settles.displaced (sameShape_marks t t.turn (t.backoff - 1)) mark
            have account : (newRecord probe debt false).account t.buckets.length probe.first =
                probe.account := Record.account_eq_iff.2 ⟨rfl, List.mem_cons_self⟩
            rw [account]
            rfl
        | true =>
            have relocated : PlaceEffect nowMs { t with backoff := t.backoff - 1 } probe
                (newRecord probe debt true) (mergedRecord debt true)
                (relocate { t with backoff := t.backoff - 1 } probe (newRecord probe debt true) 1
                  nowMs true) := relocate_effect 0 rfl mark absent occupied
            exact relocated.of_backoff
      · exact relocate_effect 15 rfl mark absent occupied

/-- Clearing a key's record takes it off the ledger, and touches nothing else. -/
theorem forget_ledger (t : Recovery) (hash nowMs : ℕ) :
    SameShape t (t.forget hash nowMs).2 ∧
      (t.forget hash nowMs = (false, t) ∨
        (t.forget hash nowMs).1 = true ∧
          ∃ record, {((Probe.new hash t.buckets.length t.cells.length).account, record)} +
            (t.forget hash nowMs).2.ledger nowMs = t.ledger nowMs) := by
  unfold forget
  split
  · exact ⟨sameShape_marks t t.turn t.backoff, Or.inl rfl⟩
  · rename_i probe hprobe
    obtain rfl : Probe.new hash t.buckets.length t.cells.length = probe := by
      unfold Recovery.probe at hprobe
      split at hprobe
      · cases hprobe
      · exact Option.some.inj hprobe
    split
    · exact ⟨sameShape_marks t t.turn t.backoff, Or.inl rfl⟩
    · rename_i b r hown
      obtain ⟨record, held, live, account⟩ := own_eq_some hown
      rw [put_eq held]
      refine ⟨sameShape_put t b r .empty, Or.inr ⟨rfl, record, ?_⟩⟩
      have traded := ledger_put nowMs held Record.empty
      rw [account, claimed_of_live _ live, claimed_of_dead _ rfl, zero_add] at traded
      exact traded

/-- Whether the table has a live record of the key's own. -/
def owns (t : Recovery) (hash nowMs : ℕ) : Bool :=
  (t.probe hash).any fun probe => (t.own probe nowMs).isSome

/-- The account of a key in the table as it is. -/
def accountIn (t : Recovery) (hash : ℕ) : Account :=
  (Probe.new hash t.buckets.length t.cells.length).account

theorem owns_iff {t : Recovery} {hash nowMs : ℕ} :
    t.owns hash nowMs = true ↔ ∃ record, (t.accountIn hash, record) ∈ t.ledger nowMs := by
  by_cases empty : t.buckets.isEmpty = true
  · have nothing : t.ledger nowMs = 0 := by
      rw [ledger, List.isEmpty_iff.1 empty]
      rfl
    rw [owns, probe, if_pos empty, nothing]
    simp
  · rw [owns, probe, if_neg empty, Option.any_some, ← not_iff_not, Bool.not_eq_true,
      Option.isSome_eq_false_iff, Option.isNone_iff_eq_none, own_eq_none_iff, not_exists]
    rfl

/-- A clearing finds a record exactly when there is one. -/
theorem forget_fst (t : Recovery) (hash nowMs : ℕ) : (t.forget hash nowMs).1 = t.owns hash nowMs := by
  rw [forget, owns]
  cases t.probe hash with
  | none => rfl
  | some probe =>
      dsimp only
      rw [Option.any_some]
      cases t.own probe nowMs with
      | none => rfl
      | some place => rfl

/-- Time only takes records off the ledger. -/
theorem ledger_le_of_le (t : Recovery) {nowMs nowMs' : ℕ} (h : nowMs ≤ nowMs') :
    t.ledger nowMs' ≤ t.ledger nowMs := by
  unfold ledger
  induction t.buckets.contents using Multiset.induction with
  | empty => exact le_rfl
  | cons held rest inductionHypothesis =>
      rw [Multiset.cons_bind, Multiset.cons_bind]
      apply add_le_add _ inductionHypothesis
      unfold claimed
      split
      · rename_i live
        have sooner : held.2.isLive nowMs = true := by
          simp only [Record.isLive, Bool.and_eq_true, decide_eq_true_eq] at live ⊢
          exact ⟨live.1, lt_of_le_of_lt h live.2⟩
        rw [if_pos sooner]
      · exact Multiset.zero_le _

end Recovery

end RateNet
