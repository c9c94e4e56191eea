/-
Module: RateNet.Lib.Buckets
Layer: Lib
Purpose: Arrays of fixed-width buckets. A bucket carries the proof of its width, a table is a list of
  buckets, and its contents are the multiset of its entries, each with the number of the bucket that
  holds it. The one law every user of a bucketed table needs is conservation: writing an entry trades
  exactly the entry it overwrites for the one written.
Imports: Mathlib.Data.Multiset.Basic, Mathlib.Tactic
Trusted boundary: none
Main exports: Bucket, Table, Table.entry, Table.put, Table.position, Table.contents, Table.contents_put
-/
import Mathlib.Data.Multiset.Basic
import Mathlib.Tactic

namespace Buckets

variable {α : Type*} {width : ℕ}

/-- Exactly `width` entries. -/
structure Bucket (α : Type*) (width : ℕ) where
  entries : List α
  size : entries.length = width
deriving DecidableEq

namespace Bucket

/-- A bucket filled with one value. -/
def filled (width : ℕ) (x : α) : Bucket α width :=
  { entries := List.replicate width x, size := List.length_replicate }

/-- Overwrites entry `i`. -/
def set (bucket : Bucket α width) (i : ℕ) (x : α) : Bucket α width :=
  { entries := bucket.entries.set i x, size := by rw [List.length_set, bucket.size] }

end Bucket

/-- Overwriting an entry of a list trades the old entry for the new one. -/
theorem coe_set {l : List α} {i : ℕ} {old : α} (h : l[i]? = some old) (new : α) :
    old ::ₘ (l.set i new : Multiset α) = new ::ₘ (l : Multiset α) := by
  induction l generalizing i with
  | nil => simp at h
  | cons x rest inductionHypothesis =>
      cases i with
      | zero =>
          obtain rfl : x = old := by simpa using h
          simp only [List.set_cons_zero, ← Multiset.cons_coe]
          exact Multiset.cons_swap _ _ _
      | succ i =>
          have traded := inductionHypothesis (i := i) (by simpa using h)
          simp only [List.set_cons_succ, ← Multiset.cons_coe]
          rw [Multiset.cons_swap, traded, Multiset.cons_swap]

/-- A table of buckets. -/
abbrev Table (α : Type*) (width : ℕ) := List (Bucket α width)

namespace Table

/-- The entry at position `i` of bucket `b`. -/
def entry (table : Table α width) (b i : ℕ) : Option α :=
  (table[b]?).bind fun bucket => bucket.entries[i]?

/-- Writes the entry at position `i` of bucket `b`. -/
def put (table : Table α width) (b i : ℕ) (x : α) : Table α width :=
  table.modify b fun bucket => bucket.set i x

/-- The first position of bucket `b` whose entry satisfies `p`. -/
def position (table : Table α width) (b : ℕ) (p : α → Bool) : Option ℕ :=
  (table[b]?).bind fun bucket => bucket.entries.findIdx? p

/-- The entries of the buckets numbered from `start` on. -/
def contentsFrom (start : ℕ) : Table α width → Multiset (ℕ × α)
  | [] => 0
  | bucket :: rest => (bucket.entries.map (start, ·) : List (ℕ × α)) + contentsFrom (start + 1) rest

/-- Every entry with the number of its bucket. -/
def contents (table : Table α width) : Multiset (ℕ × α) := contentsFrom 0 table

@[simp] theorem length_put (table : Table α width) (b i : ℕ) (x : α) :
    (table.put b i x).length = table.length := List.length_modify _ _ _

theorem contentsFrom_put {table : Table α width} {b i : ℕ} {old : α} (start : ℕ)
    (h : table.entry b i = some old) (new : α) :
    (start + b, old) ::ₘ contentsFrom start (table.put b i new) =
      (start + b, new) ::ₘ contentsFrom start table := by
  induction table generalizing start b with
  | nil => simp [entry] at h
  | cons bucket rest inductionHypothesis =>
      cases b with
      | zero =>
          have here : bucket.entries[i]? = some old := by simpa [entry] using h
          have mapped : (bucket.entries.map (start, ·))[i]? = some (start, old) := by simp [here]
          have traded := coe_set mapped (start, new)
          simp only [put, List.modify_cons, if_true, contentsFrom, Bucket.set, List.map_set,
            Nat.add_zero]
          rw [← Multiset.cons_add, traded, Multiset.cons_add]
      | succ b =>
          have traded := inductionHypothesis (start + 1) (b := b) (by simpa [entry] using h)
          rw [show start + (b + 1) = start + 1 + b by omega]
          simp only [put, List.modify_succ_cons, contentsFrom]
          rw [← Multiset.add_cons, ← Multiset.add_cons]
          exact congrArg _ traded

/-- Conservation: a write trades the entry it overwrites for the one it writes. -/
theorem contents_put {table : Table α width} {b i : ℕ} {old : α} (h : table.entry b i = some old)
    (new : α) : (b, old) ::ₘ (table.put b i new).contents = (b, new) ::ₘ table.contents := by
  have traded := contentsFrom_put 0 h new
  rw [Nat.zero_add] at traded
  exact traded

theorem mem_contentsFrom {table : Table α width} {start b : ℕ} {x : α} :
    (b, x) ∈ contentsFrom start table ↔ ∃ k i, b = start + k ∧ table.entry k i = some x := by
  induction table generalizing start with
  | nil => simp [contentsFrom, entry]
  | cons bucket rest inductionHypothesis =>
      simp only [contentsFrom, Multiset.mem_add, Multiset.mem_coe, List.mem_map, Prod.mk.injEq,
        inductionHypothesis]
      constructor
      · rintro (⟨y, member, rfl, rfl⟩ | ⟨k, i, rfl, found⟩)
        · obtain ⟨i, found⟩ := List.mem_iff_getElem?.1 member
          exact ⟨0, i, rfl, by simpa [entry] using found⟩
        · exact ⟨k + 1, i, by omega, by simpa [entry] using found⟩
      · rintro ⟨k, i, rfl, found⟩
        cases k with
        | zero =>
            have here : bucket.entries[i]? = some x := by simpa [entry] using found
            exact Or.inl ⟨x, List.mem_of_getElem? here, rfl, rfl⟩
        | succ k =>
            exact Or.inr ⟨k, i, by omega, by simpa [entry] using found⟩

theorem mem_contents {table : Table α width} {b : ℕ} {x : α} :
    (b, x) ∈ table.contents ↔ ∃ i, table.entry b i = some x := by
  rw [contents, mem_contentsFrom]
  constructor
  · rintro ⟨k, i, rfl, found⟩
    exact ⟨i, by simpa using found⟩
  · rintro ⟨i, found⟩
    exact ⟨b, i, (Nat.zero_add b).symm, found⟩

theorem lt_of_entry {table : Table α width} {b i : ℕ} {x : α} (h : table.entry b i = some x) :
    b < table.length ∧ i < width := by
  obtain ⟨bucket, inside, found⟩ := Option.bind_eq_some_iff.1 h
  have := (List.getElem?_eq_some_iff.1 inside).1
  have := (List.getElem?_eq_some_iff.1 found).1
  exact ⟨by assumption, by rw [← bucket.size]; assumption⟩

/-- A found position holds an entry with the property. -/
theorem position_eq_some {table : Table α width} {b i : ℕ} {p : α → Bool}
    (h : table.position b p = some i) : ∃ x, table.entry b i = some x ∧ p x = true := by
  obtain ⟨bucket, inside, found⟩ := Option.bind_eq_some_iff.1 h
  obtain ⟨bound, holds, -⟩ := List.findIdx?_eq_some_iff_getElem.1 found
  exact ⟨bucket.entries[i], by simp [entry, inside, bound], holds⟩

/-- No position is found exactly when no entry of the bucket has the property. -/
theorem position_eq_none {table : Table α width} {b : ℕ} {p : α → Bool} :
    table.position b p = none ↔ ∀ x, (b, x) ∈ table.contents → p x = false := by
  constructor
  · intro h x member
    obtain ⟨i, found⟩ := mem_contents.1 member
    obtain ⟨bucket, inside, here⟩ := Option.bind_eq_some_iff.1 found
    have absent : bucket.entries.findIdx? p = none := by simpa [position, inside] using h
    exact List.findIdx?_eq_none_iff.1 absent x (List.mem_of_getElem? here)
  · intro h
    by_contra found
    obtain ⟨i, found⟩ := Option.ne_none_iff_exists'.1 found
    obtain ⟨x, here, holds⟩ := position_eq_some found
    rw [h x (mem_contents.2 ⟨i, here⟩)] at holds
    cases holds

/-- A table of filled buckets holds nothing else. -/
theorem eq_of_mem_contents_replicate {n : ℕ} {x y : α} {b : ℕ}
    (h : (b, y) ∈ contents (List.replicate n (Bucket.filled width x))) : y = x := by
  obtain ⟨i, found⟩ := mem_contents.1 h
  obtain ⟨bucket, inside, here⟩ := Option.bind_eq_some_iff.1 found
  obtain rfl := List.eq_of_mem_replicate (List.mem_of_getElem? inside)
  exact List.eq_of_mem_replicate (List.mem_of_getElem? here)

end Table

end Buckets
