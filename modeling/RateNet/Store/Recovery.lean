/-
Module: RateNet.Store.Recovery
Layer: Store
Purpose: The recovery table of a shard: the debts of keys evicted before they recovered. An exact table of
  four-record buckets filled by partial-key cuckoo hashing, and an overflow sketch of packed cells for
  what the exact table cannot hold. The operations follow the source line by line; only the three
  places where `record` hands a debt to `spill` are joined, through `Placement`. The second half gives
  the packed words and the bucket arithmetic their readings.
Imports: RateNet.Core.KeyState, RateNet.Lib.Buckets, Mathlib.Data.Nat.Bitwise
Trusted boundary: none
Main exports: Record, Probe, TableSize, Charge, Recorded, Recovery, Recovery.place, Recovery.record,
  Recovery.peek, Recovery.take, Recovery.forget, altBucket_altBucket, unpack_pack
-/
import RateNet.Core.KeyState
import RateNet.Lib.Buckets
import Mathlib.Data.Nat.Bitwise

namespace RateNet

open Buckets

/-- Records per bucket of the exact table. -/
def bucketRecords : ℕ := 4

/-- Exact records per key of shard capacity. -/
def exactPerKey : ℕ := 2

/-- The most records one insertion into the exact table may relocate. -/
def maxKicks : ℕ := 16

/-- Debts that skip the walk after one failed. -/
def walkBackoff : ℕ := 32

/-- The bit of `Record.untilMs` that marks a debt charged (in part) from the overflow sketch. -/
def inheritedBit : ℕ := 2 ^ 63

def minBuckets : ℕ := 2
def maxBuckets : ℕ := 2 ^ 13

/-- Overflow cells per key of shard capacity. -/
def cellsPerKey : ℕ := 4

def minCells : ℕ := 8
def maxCells : ℕ := 2 ^ 16

/-- Bits of a sketch cell holding the spent units; the rest hold the deadline. -/
def spentBits : ℕ := 24

def spentMax : ℕ := 2 ^ spentBits - 1
def untilMax : ℕ := u64Max >>> spentBits

def mix : ℕ := 0x9E3779B97F4A7C15
def mix2 : ℕ := 0xBF58476D1CE4E5B9

/-- `u64::wrapping_mul`. -/
def wrappingMul (a b : ℕ) : ℕ := a * b % 2 ^ 64

/-- What one evicted, unrecovered key owed. -/
structure Record where
  /-- A 32-bit tag of the key's hash; `0` marks an empty record. -/
  tag : ℕ
  spent : ℕ
  /-- The deadline in milliseconds, with `inheritedBit` on top. -/
  untilMs : ℕ
deriving DecidableEq, Repr

namespace Record

/-- `Record::default`. -/
def empty : Record := { tag := 0, spent := 0, untilMs := 0 }

def «until» (record : Record) : ℕ := record.untilMs &&& (inheritedBit - 1)

def isLive (record : Record) (nowMs : ℕ) : Bool :=
  record.tag != 0 && decide (record.until > nowMs)

/-- Whether the debt was charged (in part) from the overflow sketch. -/
def isInherited (record : Record) : Bool := record.untilMs &&& inheritedBit != 0

def debt (record : Record) : Debt := { spent := record.spent, «until» := fromMillis record.until }

/-- A live record takes the larger of each count, and keeps its mark or gains the new one. -/
def merge (record : Record) (spent untilMs flag : ℕ) : Record :=
  { record with
    spent := max record.spent spent
    untilMs := max record.until untilMs ||| (record.untilMs &&& inheritedBit) ||| flag }

/-- Live and free to be moved to its other bucket. -/
def isMovable (record : Record) (nowMs : ℕ) : Bool := record.isLive nowMs && !record.isInherited

end Record

/-- A cell of the overflow sketch: a deadline and a spent count in one word. -/
def pack (untilMs spent : ℕ) : ℕ := (min untilMs untilMax <<< spentBits) ||| min spent spentMax

/-- The deadline and spent count of a cell; a full spent field reads back as everything. -/
def unpack (cell : ℕ) : ℕ × ℕ :=
  let spent := cell &&& spentMax
  (cell >>> spentBits, if spent = spentMax then u32Max else spent)

/-- `len - 1` bits of `word` from bit `shift` up. -/
def pick (word shift len : ℕ) : ℕ := (word >>> shift) &&& (len - 1)

/-- A record's other candidate bucket, from its bucket and tag alone. -/
def altBucket (bucket tag buckets : ℕ) : ℕ :=
  bucket ^^^ max (pick (wrappingMul tag mix2) 32 buckets) 1

/-- A key's two overflow cells, from its tag and the lower of its two buckets. -/
def cellsOf (tag lowBucket cells : ℕ) : ℕ × ℕ :=
  let word := wrappingMul ((lowBucket <<< 32) % 2 ^ 64 ||| tag) mix
  let word := wrappingMul (word ^^^ (word >>> 31)) mix2
  let first := pick word 40 cells
  let second := pick word 16 cells
  (first, if second = first then (first + 1) &&& (cells - 1) else second)

/-- Where a key's records and cells live in a recovery table, and its tag. -/
structure Probe where
  first : ℕ
  second : ℕ
  cells : ℕ × ℕ
  tag : ℕ
deriving DecidableEq

namespace Probe

/-- The two candidate buckets, in the order they are tried. -/
def buckets (probe : Probe) : List ℕ := [probe.first, probe.second]

def new (hash buckets cells : ℕ) : Probe :=
  let tag := match hash % 2 ^ 32 with
    | 0 => 1
    | tag => tag
  let first := pick (wrappingMul hash mix) 40 buckets
  let second := altBucket first tag buckets
  { first, second, cells := cellsOf tag (min first second) cells, tag }

end Probe

/-- What happens to a debt the exact table cannot hold. -/
inductive Overflow where
  | failClosed
  | forget
deriving DecidableEq, Repr

/-- `usize::next_power_of_two`. -/
def nextPowerOfTwo (n : ℕ) : ℕ := if n ≤ 1 then 1 else 2 ^ ((n - 1).log2 + 1)

theorem exists_nextPowerOfTwo_eq {n k : ℕ} (h : 2 ^ k < n) :
    ∃ i, nextPowerOfTwo n = 2 ^ (i + k + 1) := by
  have one_le : 1 ≤ 2 ^ k := Nat.one_le_two_pow
  have large : k ≤ (n - 1).log2 := (Nat.le_log2 (by omega)).2 (by omega)
  refine ⟨(n - 1).log2 - k, ?_⟩
  rw [nextPowerOfTwo, if_neg (by omega), Nat.sub_add_cancel large]

/-- The sizes of a recovery table once allocated, both powers of two, and what happens to a debt the
    exact table cannot hold. -/
structure TableSize where
  buckets : ℕ
  cells : ℕ
  forget : Bool
  buckets_eq : ∃ i, buckets = 2 ^ (i + 1)
  cells_eq : ∃ i, cells = 2 ^ (i + 3)

namespace TableSize

/-- Records for `exactPerKey` evicted debts per key of capacity, and `cellsPerKey` cells per key. -/
def forCap (perShardCap : ℕ) : TableSize where
  buckets := nextPowerOfTwo
    (max minBuckets (min (satMul perShardCap exactPerKey ⌈/⌉ bucketRecords) maxBuckets))
  cells := nextPowerOfTwo (max minCells (min (satMul perShardCap cellsPerKey) maxCells))
  forget := false
  buckets_eq := exists_nextPowerOfTwo_eq (k := 0) (lt_of_lt_of_le (by decide) (le_max_left _ _))
  cells_eq := exists_nextPowerOfTwo_eq (k := 2) (lt_of_lt_of_le (by decide) (le_max_left _ _))

/-- Under `forget` the sketch is never written, so it keeps only its minimum size. -/
def withOverflow (size : TableSize) : Overflow → TableSize
  | .failClosed => size
  | .forget => { size with cells := minCells, forget := true, cells_eq := ⟨0, rfl⟩ }

end TableSize

/-- A debt read back for a key being stored. -/
structure Charge where
  debt : Debt
  /-- Whether any of it came from the shared overflow sketch. -/
  shared : Bool
deriving DecidableEq, Repr

/-- How `record` stored a debt. -/
inductive Recorded where
  | exact
  | overflowed
  | forgotten
deriving DecidableEq, Repr

/-- What the exact table did with a debt before any spill. -/
inductive Placement where
  /-- Merged into the key's own record, or given a place of its own. -/
  | exact
  /-- `record`, found homeless at `bucket`, is to be spilled. -/
  | homeless (record : Record) (bucket : ℕ)
  /-- An inherited debt found no place. -/
  | refused
deriving DecidableEq

/-- An exact table and an overflow sketch, empty until first needed. -/
structure Recovery where
  buckets : Table Record bucketRecords
  cells : List ℕ
  /-- Rotates which record of a full bucket a walk moves first. -/
  turn : ℕ
  /-- Debts still to spill without a walk. -/
  backoff : ℕ
deriving DecidableEq

namespace Recovery

def new : Recovery := { buckets := [], cells := [], turn := 0, backoff := 0 }

def probe (t : Recovery) (hash : ℕ) : Option Probe :=
  if t.buckets.isEmpty then none else some (Probe.new hash t.buckets.length t.cells.length)

/-- The position of the key's own live record, if any. -/
def own (t : Recovery) (probe : Probe) (nowMs : ℕ) : Option (ℕ × ℕ) :=
  probe.buckets.findSome? fun b =>
    (t.buckets.position b fun record => record.tag == probe.tag && record.isLive nowMs).map (b, ·)

/-- Whether the exact table can take an inherited debt for `hash`. -/
def hasExactRoom (t : Recovery) (hash nowMs : ℕ) : Bool :=
  match t.probe hash with
  | none => true
  | some probe =>
    (t.own probe nowMs).isSome ||
      probe.buckets.any fun b => (t.buckets[b]?).any fun bucket =>
        bucket.entries.any fun record => !record.isLive nowMs || !record.isInherited

/-- A free or expired record of bucket `b`. -/
def freeIn (t : Recovery) (b nowMs : ℕ) : Option ℕ :=
  t.buckets.position b fun record => !record.isLive nowMs

/-- A record of bucket `b` that may be moved, searched from a rotating offset. -/
def movableIn (t : Recovery) (b nowMs : ℕ) : Option ℕ × Recovery :=
  let start := t.turn
  let found := ((List.range bucketRecords).map fun i => (start + i) % bucketRecords).find? fun r =>
    (t.buckets.entry b r).any fun record => record.isMovable nowMs
  (found, { t with turn := (t.turn + 1) % 2 ^ 64 })

/-- Puts `record` at `(b, r)`, returning the record it replaces. -/
def put (t : Recovery) (b r : ℕ) (record : Record) : Record × Recovery :=
  match t.buckets.entry b r with
  | some old => (old, { t with buckets := t.buckets.put b r record })
  | none => (.empty, t)

/-- One cell keeps the larger deadline and spend, or is overwritten once expired. -/
def overflowCell (record : Record) (nowMs cell : ℕ) : ℕ :=
  let (oldUntil, oldSpent) := unpack cell
  if oldUntil > nowMs then
    pack (max oldUntil record.until) (max oldSpent record.spent)
  else
    pack record.until record.spent

/-- Writes `record`, found homeless at `bucket`, into its key's overflow cells. -/
def overflow (t : Recovery) (record : Record) (bucket nowMs : ℕ) : Recovery :=
  let low := min bucket (altBucket bucket record.tag t.buckets.length)
  let cells := cellsOf record.tag low t.cells.length
  { t with cells :=
      (t.cells.modify cells.1 (overflowCell record nowMs)).modify cells.2 (overflowCell record nowMs) }

/-- Disposes of a debt the exact table could not hold. -/
def spill (t : Recovery) (record : Record) (bucket nowMs : ℕ) (size : TableSize) : Recorded × Recovery :=
  if size.forget then (.forgotten, t) else (.overflowed, t.overflow record bucket nowMs)

/-- The cuckoo walk with `kicks` moves left: `homeless` takes the place at `(b, r)`, and the record it
    displaces looks for a place in its other bucket. -/
def walk (nowMs : ℕ) : ℕ → Recovery → ℕ → ℕ → Record → Placement × Recovery
  | 0, t, b, _, homeless => (.homeless homeless b, { t with backoff := walkBackoff })
  | kicks + 1, t, b, r, homeless =>
    let (homeless, t) := t.put b r homeless
    let b := altBucket b homeless.tag t.buckets.length
    match t.freeIn b nowMs with
    | some free => (.exact, (t.put b free homeless).2)
    | none =>
      if kicks = 0 then
        (.homeless homeless b, { t with backoff := walkBackoff })
      else
        match t.movableIn b nowMs with
        | (some next, t) => walk nowMs kicks t b next homeless
        | (none, t) => (.homeless homeless b, { t with backoff := walkBackoff })

/-- The first record of either bucket that may move. -/
def movableStart (t : Recovery) (probe : Probe) (nowMs : ℕ) : Option (ℕ × ℕ) × Recovery :=
  match t.movableIn probe.first nowMs with
  | (some r, t) => (some (probe.first, r), t)
  | (none, t) =>
    match t.movableIn probe.second nowMs with
    | (some r, t) => (some (probe.second, r), t)
    | (none, t) => (none, t)

/-- Both buckets are full of live debts: walk, or give the debt up. -/
def relocate (t : Recovery) (probe : Probe) (new : Record) (budget nowMs : ℕ) (inherited : Bool) :
    Placement × Recovery :=
  match t.movableStart probe nowMs with
  | (some (b, r), t) => walk nowMs budget t b r new
  | (none, t) => if inherited then (.refused, t) else (.homeless new probe.first, t)

/-- Finds `debt` a place in the exact table. -/
def place (t : Recovery) (probe : Probe) (debt : Debt) (nowMs : ℕ) (inherited : Bool) :
    Placement × Recovery :=
  let flag := if inherited then inheritedBit else 0
  let untilMs := min (ceilMillis debt.until) (inheritedBit - 1)
  match t.own probe nowMs with
  | some (b, r) =>
    match t.buckets.entry b r with
    | some record =>
      (.exact, { t with buckets := t.buckets.put b r (record.merge debt.spent untilMs flag) })
    | none => (.exact, t)
  | none =>
    let new : Record := { tag := probe.tag, spent := debt.spent, untilMs := untilMs ||| flag }
    match probe.buckets.findSome? fun b => (t.freeIn b nowMs).map (b, ·) with
    | some (b, r) => (.exact, (t.put b r new).2)
    | none =>
      -- right after a failed walk a plain debt spills at once, an inherited one displaces a single
      -- record
      if t.backoff > 0 then
        let t := { t with backoff := t.backoff - 1 }
        if !inherited then (.homeless new probe.first, t)
        else t.relocate probe new 1 nowMs inherited
      else
        t.relocate probe new maxKicks nowMs inherited

/-- The table is allocated on first use. -/
def allocate (t : Recovery) (size : TableSize) : Recovery :=
  if t.buckets.isEmpty then
    { t with
      buckets := List.replicate size.buckets (Bucket.filled bucketRecords Record.empty)
      cells := List.replicate size.cells 0 }
  else
    t

/-- Spills what the search for a place left homeless. -/
def dispose (nowMs : ℕ) (size : TableSize) : Placement × Recovery → Option Recorded × Recovery
  | (.exact, t) => (some .exact, t)
  | (.homeless record bucket, t) =>
    let (recorded, t) := t.spill record bucket nowMs size
    (some recorded, t)
  | (.refused, t) => (none, t)

/-- Records that the key with `hash` owes `debt`. -/
def record (t : Recovery) (hash : ℕ) (debt : Debt) (nowMs : ℕ) (size : TableSize) (inherited : Bool) :
    Option Recorded × Recovery :=
  let t := t.allocate size
  let probe := Probe.new hash t.buckets.length t.cells.length
  dispose nowMs size (t.place probe debt nowMs inherited)

/-- The word of cell `c`. -/
def cell (t : Recovery) (c : ℕ) : ℕ := (t.cells[c]?).getD 0

/-- The overflow sketch's lower bound for a key. -/
def shared (t : Recovery) (probe : Probe) (nowMs : ℕ) : Option Debt :=
  let a := unpack (t.cell probe.cells.1)
  let b := unpack (t.cell probe.cells.2)
  if a.1 > nowMs ∧ b.1 > nowMs then
    some { spent := min a.2 b.2, «until» := fromMillis (min a.1 b.1) }
  else
    none

/-- The debt that applies to a key with `hash`: its own record and the sketch's lower bound, the larger
    of each. -/
def peek (t : Recovery) (hash nowMs : ℕ) : Option Charge :=
  match t.probe hash with
  | none => none
  | some probe =>
    let own := ((t.own probe nowMs).bind fun (b, r) => t.buckets.entry b r).map Record.debt
    match own, t.shared probe nowMs with
    | none, none => none
    | some debt, none => some { debt, shared := false }
    | none, some debt => some { debt, shared := true }
    | some own, some shared =>
      some
        { debt := { spent := max own.spent shared.spent, «until» := max own.until shared.until }
          shared := true }

/-- Clears the key's own record, telling whether there was a live one. -/
def forget (t : Recovery) (hash nowMs : ℕ) : Bool × Recovery :=
  match t.probe hash with
  | none => (false, t)
  | some probe =>
    match t.own probe nowMs with
    | none => (false, t)
    | some (b, r) => (true, (t.put b r .empty).2)

/-- As `peek`, for a key being stored: its own record is cleared. -/
def take (t : Recovery) (hash nowMs : ℕ) : Option Charge × Recovery :=
  match t.peek hash nowMs with
  | none => (none, t)
  | some charge => (some charge, (t.forget hash nowMs).2)

/-- Whether every record and cell has expired. -/
def isSpent (t : Recovery) (nowMs : ℕ) : Bool :=
  (t.buckets.all fun bucket => bucket.entries.all fun record => !record.isLive nowMs) &&
    t.cells.all fun cell => (unpack cell).1 ≤ nowMs

end Recovery

/-!
### Reading the packed words
-/

/-- A mark in the top bit leaves the deadline alone. -/
theorem and_inheritedBit_pred (word : ℕ) : word &&& (inheritedBit - 1) = word % 2 ^ 63 :=
  Nat.and_two_pow_sub_one_eq_mod _ _

theorem flag_mod (inherited : Bool) : (if inherited then inheritedBit else 0) % 2 ^ 63 = 0 := by
  cases inherited <;> rfl

theorem flag_testBit (inherited : Bool) :
    (if inherited then inheritedBit else 0).testBit 63 = inherited := by
  cases inherited with
  | false => exact Nat.zero_testBit 63
  | true => exact Nat.testBit_two_pow_self

/-- The mark of a record is its top bit. -/
theorem Record.isInherited_eq (record : Record) : record.isInherited = record.untilMs.testBit 63 := by
  rw [isInherited, inheritedBit, Nat.and_two_pow]
  cases record.untilMs.testBit 63 <;> simp

theorem Record.until_lt (record : Record) : record.until < inheritedBit := by
  rw [Record.until, and_inheritedBit_pred]
  exact Nat.mod_lt _ (Nat.two_pow_pos 63)

/-- Marking a deadline that leaves the top bit free. -/
theorem Record.until_mark {tag spent untilMs : ℕ} (h : untilMs < 2 ^ 63) (inherited : Bool) :
    Record.until { tag, spent, untilMs := untilMs ||| (if inherited then inheritedBit else 0) } =
      untilMs := by
  rw [Record.until, and_inheritedBit_pred, Nat.or_mod_two_pow, Nat.mod_eq_of_lt h, flag_mod,
    Nat.or_zero]

theorem Record.isInherited_mark {tag spent untilMs : ℕ} (h : untilMs < 2 ^ 63) (inherited : Bool) :
    Record.isInherited
      { tag, spent, untilMs := untilMs ||| (if inherited then inheritedBit else 0) } = inherited := by
  rw [Record.isInherited_eq, Nat.testBit_or, Nat.testBit_lt_two_pow h, Bool.false_or, flag_testBit]

theorem Record.until_merge (record : Record) {spent untilMs : ℕ} (h : untilMs < 2 ^ 63)
    (inherited : Bool) :
    (record.merge spent untilMs (if inherited then inheritedBit else 0)).until =
      max record.until untilMs := by
  have larger : max record.until untilMs < 2 ^ 63 := max_lt record.until_lt h
  have kept : (record.untilMs &&& inheritedBit) % 2 ^ 63 = 0 := by
    rw [inheritedBit, Nat.and_two_pow, Nat.mul_mod_left]
  rw [Record.until, and_inheritedBit_pred, Record.merge, Nat.or_mod_two_pow, Nat.or_mod_two_pow,
    Nat.mod_eq_of_lt larger, kept, flag_mod, Nat.or_zero, Nat.or_zero]

theorem Record.isInherited_merge (record : Record) {spent untilMs : ℕ} (h : untilMs < 2 ^ 63)
    (inherited : Bool) :
    (record.merge spent untilMs (if inherited then inheritedBit else 0)).isInherited =
      (record.isInherited || inherited) := by
  have larger : max record.until untilMs < 2 ^ 63 := max_lt record.until_lt h
  have mark : inheritedBit.testBit 63 = true := Nat.testBit_two_pow_self
  rw [Record.isInherited_eq, Record.isInherited_eq, Record.merge, Nat.testBit_or, Nat.testBit_or,
    Nat.testBit_lt_two_pow larger, Nat.testBit_and, mark, flag_testBit, Bool.and_true, Bool.false_or]

/-- A packed cell reads back what it was given, up to the width of its two fields. -/
theorem unpack_pack (untilMs spent : ℕ) :
    unpack (pack untilMs spent) =
      (min untilMs untilMax, if spentMax ≤ spent then u32Max else spent) := by
  have field : min spent spentMax < 2 ^ spentBits := by
    rw [spentMax, spentBits]
    omega
  have packed : pack untilMs spent = min untilMs untilMax <<< spentBits + min spent spentMax :=
    (Nat.shiftLeft_add_eq_or_of_lt field _).symm
  have high : pack untilMs spent >>> spentBits = min untilMs untilMax := by
    rw [packed, Nat.shiftRight_eq_div_pow, Nat.shiftLeft_eq, Nat.mul_comm,
      Nat.mul_add_div (by norm_num), Nat.div_eq_of_lt field, Nat.add_zero]
  have low : pack untilMs spent &&& spentMax = min spent spentMax := by
    rw [packed, spentMax, Nat.and_two_pow_sub_one_eq_mod, Nat.shiftLeft_eq, Nat.mul_comm,
      Nat.mul_add_mod, ← spentMax, Nat.mod_eq_of_lt field]
  rw [unpack, high, low]
  by_cases full : spentMax ≤ spent
  · rw [min_eq_right full, if_pos rfl, if_pos full]
  · rw [min_eq_left (Nat.le_of_not_le full), if_neg (by omega), if_neg full]

/-- A cell written with a debt shows at least that debt, as long as its deadline fits the field. -/
theorem le_unpack_pack {untilMs spent untilMs' spent' : ℕ} (hu : untilMs ≤ untilMax)
    (hs : spent ≤ u32Max) (hu' : untilMs ≤ untilMs') (hs' : spent ≤ spent') :
    untilMs ≤ (unpack (pack untilMs' spent')).1 ∧ spent ≤ (unpack (pack untilMs' spent')).2 := by
  rw [unpack_pack]
  refine ⟨le_min hu' hu, ?_⟩
  dsimp only
  split
  · exact hs
  · exact hs'

/-!
### The bucket arithmetic
-/

theorem pick_lt {i : ℕ} (word shift : ℕ) : pick word shift (2 ^ i) < 2 ^ i :=
  Nat.and_lt_two_pow _ (Nat.sub_lt (Nat.two_pow_pos i) Nat.one_pos)

/-- Moving twice comes back. -/
theorem altBucket_altBucket (bucket tag buckets : ℕ) :
    altBucket (altBucket bucket tag buckets) tag buckets = bucket := by
  rw [altBucket, altBucket, Nat.xor_assoc, Nat.xor_self, Nat.xor_zero]

theorem cellsOf_lt {i : ℕ} (tag lowBucket : ℕ) :
    (cellsOf tag lowBucket (2 ^ i)).1 < 2 ^ i ∧ (cellsOf tag lowBucket (2 ^ i)).2 < 2 ^ i := by
  refine ⟨pick_lt _ _, ?_⟩
  simp only [cellsOf]
  split
  · exact Nat.and_lt_two_pow _ (Nat.sub_lt (Nat.two_pow_pos i) Nat.one_pos)
  · exact pick_lt _ _

theorem Probe.tag_ne_zero (hash buckets cells : ℕ) : (Probe.new hash buckets cells).tag ≠ 0 := by
  simp only [Probe.new]
  split <;> omega

theorem Probe.second_eq (hash buckets cells : ℕ) :
    (Probe.new hash buckets cells).second =
      altBucket (Probe.new hash buckets cells).first (Probe.new hash buckets cells).tag buckets := rfl

end RateNet
