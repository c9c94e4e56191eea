/-
Module: RateNet.Lib.DenseIndex
Layer: Lib
Purpose: A dense vector whose entries are found through a hash table of their positions. The hash table is
  a multiset of values, each stored under a hash and searched by hash and predicate; the vector is a
  list that grows at its end and shrinks by swap-remove. `Indexed` says that the table holds exactly the
  positions of the vector, each once and under its entry's own hash; every operation that keeps table
  and vector in step keeps it.
Imports: RateNet.Lib.Buckets
Trusted boundary: none
Main exports: HashTable, HashTable.find, HashTable.remove, HashTable.replace, HashTable.insertUnique,
  swapRemove, Indexed, Indexed.push, Indexed.swapRemove
-/
import RateNet.Lib.Buckets

namespace DenseIndex

variable {α E : Type*}

/-- Values, each stored under a hash. -/
abbrev HashTable (α : Type*) := List (ℕ × α)

namespace HashTable

/-- What a search for `hash` and `p` stops at. -/
def hit (hash : ℕ) (p : α → Bool) (entry : ℕ × α) : Bool := entry.1 == hash && p entry.2

def find (table : HashTable α) (hash : ℕ) (p : α → Bool) : Option α :=
  (List.find? (hit hash p) table).map Prod.snd

/-- Removes the entry the search finds. -/
def remove (table : HashTable α) (hash : ℕ) (p : α → Bool) : HashTable α :=
  List.eraseP (hit hash p) table

/-- Overwrites the value of the entry the search finds. -/
def replace (table : HashTable α) (hash : ℕ) (p : α → Bool) (x : α) : HashTable α :=
  match table with
  | [] => []
  | entry :: rest =>
    if hit hash p entry then (entry.1, x) :: rest else entry :: replace rest hash p x

/-- Files every value under the hash `hasher` gives it, as growing and shrinking do. -/
def rehash (table : HashTable α) (hasher : α → ℕ) : HashTable α :=
  table.map fun entry => (hasher entry.2, entry.2)

/-- Inserts a value, rehashing the others as a table that has to grow does. -/
def insertUnique (table : HashTable α) (hash : ℕ) (x : α) (hasher : α → ℕ) : HashTable α :=
  (hash, x) :: table.rehash hasher

variable {table : HashTable α} {hash : ℕ} {p : α → Bool}

theorem hit_iff {entry : ℕ × α} :
    hit hash p entry = true ↔ entry.1 = hash ∧ p entry.2 = true := by
  rw [hit, Bool.and_eq_true, beq_iff_eq]

theorem find_eq_some {x : α} (h : table.find hash p = some x) : (hash, x) ∈ table ∧ p x = true := by
  obtain ⟨⟨hash', x'⟩, found, rfl⟩ := Option.map_eq_some_iff.1 h
  obtain ⟨rfl, holds⟩ := hit_iff.1 (List.find?_some found)
  exact ⟨List.mem_of_find?_eq_some found, holds⟩

theorem find_eq_none : table.find hash p = none ↔ ∀ x, (hash, x) ∈ table → p x = false := by
  rw [find, Option.map_eq_none_iff, List.find?_eq_none]
  constructor
  · intro absent x member
    have missed := absent _ member
    rw [hit_iff] at missed
    simpa using missed
  · rintro absent ⟨hash', x⟩ member found
    obtain ⟨rfl, holds⟩ := hit_iff.1 found
    rw [absent x member] at holds
    cases holds

/-- A search that passes over an entry finds its value further on. -/
theorem mem_of_miss {x : α} {entry : ℕ × α} {rest : HashTable α} (member : (hash, x) ∈ entry :: rest)
    (holds : p x = true) (missed : hit hash p entry = false) : (hash, x) ∈ rest := by
  rcases List.mem_cons.1 member with rfl | elsewhere
  · have found : hit hash p (hash, x) = true := hit_iff.2 ⟨rfl, holds⟩
    rw [found] at missed
    cases missed
  · exact elsewhere

/-- Removing the only value a search can find. -/
theorem coe_remove {x : α} (member : (hash, x) ∈ table) (holds : p x = true)
    (only : ∀ y, (hash, y) ∈ table → p y = true → y = x) :
    (hash, x) ::ₘ (table.remove hash p : Multiset (ℕ × α)) = table := by
  induction table with
  | nil => cases member
  | cons entry rest inductionHypothesis =>
      rw [remove, List.eraseP_cons]
      cases found : hit hash p entry with
      | true =>
          obtain ⟨rfl, holds'⟩ := hit_iff.1 found
          obtain rfl := only entry.2 List.mem_cons_self holds'
          rfl
      | false =>
          have elsewhere := mem_of_miss member holds found
          have removed := inductionHypothesis elsewhere fun y there =>
            only y (List.mem_cons_of_mem _ there)
          rw [remove] at removed
          rw [cond_false, ← Multiset.cons_coe, ← Multiset.cons_coe, Multiset.cons_swap, removed]

/-- Overwriting the only value a search can find. -/
theorem coe_replace {x : α} (member : (hash, x) ∈ table) (holds : p x = true)
    (only : ∀ y, (hash, y) ∈ table → p y = true → y = x) (z : α) :
    (hash, x) ::ₘ (table.replace hash p z : Multiset (ℕ × α)) = (hash, z) ::ₘ table := by
  induction table with
  | nil => cases member
  | cons entry rest inductionHypothesis =>
      rw [replace]
      cases found : hit hash p entry with
      | true =>
          obtain ⟨rfl, holds'⟩ := hit_iff.1 found
          obtain rfl := only entry.2 List.mem_cons_self holds'
          rw [if_pos rfl, ← Multiset.cons_coe, ← Multiset.cons_coe]
          exact Multiset.cons_swap _ _ _
      | false =>
          have elsewhere := mem_of_miss member holds found
          have replaced := inductionHypothesis elsewhere fun y there =>
            only y (List.mem_cons_of_mem _ there)
          rw [if_neg Bool.false_ne_true, ← Multiset.cons_coe, ← Multiset.cons_coe,
            Multiset.cons_swap, replaced, Multiset.cons_swap]

/-- Rehashing changes nothing where every value is already filed under its hash. -/
theorem rehash_eq {hasher : α → ℕ} (filed : ∀ entry ∈ table, hasher entry.2 = entry.1) :
    table.rehash hasher = table := by
  conv_rhs => rw [← List.map_id table]
  apply List.map_congr_left
  intro entry member
  rw [filed entry member]
  rfl

end HashTable

/-- Removes the entry at `i` by moving the last one into its place. -/
def swapRemove (entries : List E) (i : ℕ) : List E :=
  match entries.getLast? with
  | none => entries
  | some last => (entries.set i last).dropLast

theorem swapRemove_last (init : List E) (last : E) : swapRemove (init ++ [last]) init.length = init := by
  simp [swapRemove]

theorem swapRemove_inner {init : List E} {i : ℕ} (h : i < init.length) (last : E) :
    swapRemove (init ++ [last]) i = init.set i last := by
  simp [swapRemove, List.set_append_left _ _ h]

/-- The entry removed does not matter. -/
theorem swapRemove_set (entries : List E) (i : ℕ) (entry : E) :
    swapRemove (entries.set i entry) i = swapRemove entries i := by
  rcases List.eq_nil_or_concat entries with rfl | ⟨init, last, rfl⟩
  · rfl
  · rw [List.concat_eq_append]
    rcases Nat.lt_trichotomy i init.length with inner | rfl | outer
    · rw [List.set_append_left _ _ inner, swapRemove_inner inner, swapRemove_inner, List.set_set]
      rw [List.length_set]
      exact inner
    · simp [swapRemove]
    · rw [List.set_eq_of_length_le]
      rw [List.length_append, List.length_singleton]
      exact outer

theorem length_swapRemove {entries : List E} (i : ℕ) :
    (swapRemove entries i).length = entries.length - 1 := by
  rcases List.eq_nil_or_concat entries with rfl | ⟨init, last, rfl⟩
  · rfl
  · simp [swapRemove]

/-- What remains after a swap-remove: everything but the entry removed. -/
theorem coe_swapRemove {entries : List E} {i : ℕ} {entry : E} (h : entries[i]? = some entry) :
    entry ::ₘ (swapRemove entries i : Multiset E) = entries := by
  rcases List.eq_nil_or_concat entries with rfl | ⟨init, last, rfl⟩
  · cases h
  · rw [List.concat_eq_append] at h ⊢
    rcases Nat.lt_or_ge i init.length with inner | outer
    · rw [List.getElem?_append_left inner] at h
      rw [swapRemove_inner inner, Buckets.coe_set h, ← Multiset.coe_add, Multiset.coe_singleton,
        Multiset.add_comm, Multiset.singleton_add]
    · have bound := (List.getElem?_eq_some_iff.1 h).1
      rw [List.length_append, List.length_singleton] at bound
      obtain rfl : i = init.length := by omega
      obtain rfl : last = entry := by simpa using h
      rw [swapRemove_last, ← Multiset.coe_add, Multiset.coe_singleton, Multiset.add_comm,
        Multiset.singleton_add]

/-!
### The index
-/

/-- The positions of a vector, each under its entry's hash. -/
def indexOf (hashOf : E → ℕ) (entries : List E) : List (ℕ × ℕ) := (entries.map hashOf).zipIdx

/-- The table holds exactly the positions of the vector, each once and under its entry's own hash. -/
def Indexed (hashOf : E → ℕ) (index : HashTable ℕ) (entries : List E) : Prop :=
  (index : Multiset (ℕ × ℕ)) = indexOf hashOf entries

theorem mem_indexOf {hashOf : E → ℕ} {entries : List E} {hash i : ℕ} :
    (hash, i) ∈ indexOf hashOf entries ↔ ∃ entry, entries[i]? = some entry ∧ hashOf entry = hash := by
  rw [indexOf, List.mem_zipIdx_iff_getElem?, List.getElem?_map, Option.map_eq_some_iff]

theorem getElem?_indexOf (hashOf : E → ℕ) {entries : List E} {i : ℕ} {entry : E}
    (h : entries[i]? = some entry) : (indexOf hashOf entries)[i]? = some (hashOf entry, i) := by
  simp [indexOf, List.getElem?_zipIdx, h]

theorem indexOf_append (hashOf : E → ℕ) (entries : List E) (entry : E) :
    indexOf hashOf (entries ++ [entry]) = indexOf hashOf entries ++ [(hashOf entry, entries.length)] := by
  simp [indexOf, List.zipIdx_append]

theorem indexOf_set (hashOf : E → ℕ) (entries : List E) (i : ℕ) (entry : E) :
    indexOf hashOf (entries.set i entry) = (indexOf hashOf entries).set i (hashOf entry, i) := by
  apply List.ext_getElem?
  intro j
  simp only [indexOf, List.map_set, List.getElem?_zipIdx, List.getElem?_set, List.length_map,
    List.length_zipIdx, Nat.zero_add]
  by_cases same : i = j
  · subst same
    by_cases inside : i < entries.length <;> simp [inside]
  · simp [same]

namespace Indexed

variable {hashOf : E → ℕ} {index : HashTable ℕ} {entries : List E} {last : E} {hash i : ℕ}

theorem empty : Indexed hashOf [] ([] : List E) := rfl

theorem mem_iff (indexed : Indexed hashOf index entries) :
    (hash, i) ∈ index ↔ ∃ entry, entries[i]? = some entry ∧ hashOf entry = hash := by
  rw [← mem_indexOf, ← Multiset.mem_coe, indexed, Multiset.mem_coe]

/-- A search by position finds that position. -/
theorem only_position (indexed : Indexed hashOf index entries) {entry : E}
    (h : entries[i]? = some entry) :
    (hashOf entry, i) ∈ index ∧ (i == i) = true ∧
      ∀ j, (hashOf entry, j) ∈ index → (j == i) = true → j = i :=
  ⟨indexed.mem_iff.2 ⟨entry, h, rfl⟩, beq_self_eq_true i, fun _ _ same => beq_iff_eq.1 same⟩

/-- Changing an entry without touching its hash. -/
theorem set (indexed : Indexed hashOf index entries) {entry entry' : E}
    (h : entries[i]? = some entry) (same : hashOf entry' = hashOf entry) :
    Indexed hashOf index (entries.set i entry') := by
  have traded := Buckets.coe_set (getElem?_indexOf hashOf h) (hashOf entry', i)
  rw [Indexed, indexOf_set, indexed]
  rw [same] at traded ⊢
  exact ((Multiset.cons_inj_right _).1 traded).symm

theorem rehash (indexed : Indexed hashOf index entries) :
    index.rehash (fun i => (entries[i]?).elim 0 hashOf) = index := by
  apply HashTable.rehash_eq
  rintro ⟨hash, i⟩ member
  obtain ⟨entry, found, rfl⟩ := indexed.mem_iff.1 member
  rw [found]
  rfl

/-- Growing the vector at its end. -/
theorem push (indexed : Indexed hashOf index entries) (entry : E) :
    Indexed hashOf (index.insertUnique (hashOf entry) entries.length
      fun i => ((entries ++ [entry])[i]?).elim 0 hashOf) (entries ++ [entry]) := by
  have filed : index.rehash (fun i => ((entries ++ [entry])[i]?).elim 0 hashOf) = index := by
    apply HashTable.rehash_eq
    rintro ⟨hash, i⟩ member
    obtain ⟨found, there, rfl⟩ := indexed.mem_iff.1 member
    have inside := (List.getElem?_eq_some_iff.1 there).1
    rw [List.getElem?_append_left inside, there]
    rfl
  rw [Indexed, HashTable.insertUnique, filed, indexOf_append, ← Multiset.cons_coe, indexed,
    ← Multiset.coe_add, Multiset.coe_singleton, Multiset.add_comm, Multiset.singleton_add]

theorem coe_append (indexed : Indexed hashOf index (entries ++ [last])) :
    (index : Multiset (ℕ × ℕ)) = (hashOf last, entries.length) ::ₘ indexOf hashOf entries := by
  rw [indexed, indexOf_append, ← Multiset.coe_add, Multiset.coe_singleton, Multiset.add_comm,
    Multiset.singleton_add]

/-- Removing the last entry: its position leaves the table. -/
theorem swapRemove_last (indexed : Indexed hashOf index (entries ++ [last])) :
    Indexed hashOf (index.remove (hashOf last) (· == entries.length))
      (swapRemove (entries ++ [last]) entries.length) := by
  have found : (entries ++ [last])[entries.length]? = some last := by simp
  obtain ⟨member, holds, only⟩ := indexed.only_position found
  have removed := HashTable.coe_remove (p := (· == entries.length)) member holds only
  rw [indexed.coe_append] at removed
  rw [Indexed, DenseIndex.swapRemove_last]
  exact (Multiset.cons_inj_right _).1 removed

/-- Removing an earlier entry: its position leaves the table, and the last entry is filed under it. -/
theorem swapRemove_inner (indexed : Indexed hashOf index (entries ++ [last])) {entry : E}
    (found : entries[i]? = some entry) :
    Indexed hashOf
      ((index.remove (hashOf entry) (· == i)).replace (hashOf last) (· == entries.length) i)
      (swapRemove (entries ++ [last]) i) := by
  have inside := (List.getElem?_eq_some_iff.1 found).1
  have found' : (entries ++ [last])[i]? = some entry := by
    rw [List.getElem?_append_left inside, found]
  obtain ⟨member, holds, only⟩ := indexed.only_position found'
  have removed := HashTable.coe_remove (p := (· == i)) member holds only
  have kept : (hashOf last, entries.length) ∈ index.remove (hashOf entry) (· == i) := by
    have present : (hashOf last, entries.length) ∈ (index : Multiset (ℕ × ℕ)) := by
      rw [indexed.coe_append]
      exact Multiset.mem_cons_self _ _
    rw [← removed] at present
    rcases Multiset.mem_cons.1 present with same | kept
    · exact absurd (congrArg Prod.snd same) inside.ne'
    · exact kept
  have replaced := HashTable.coe_replace (p := (· == entries.length)) kept
    (beq_self_eq_true entries.length) (fun _ _ same => beq_iff_eq.1 same) i
  have traded := Buckets.coe_set (getElem?_indexOf hashOf found) (hashOf last, i)
  rw [Indexed, DenseIndex.swapRemove_inner inside, indexOf_set]
  apply (Multiset.cons_inj_right (hashOf last, entries.length)).1
  apply (Multiset.cons_inj_right (hashOf entry, i)).1
  rw [replaced, Multiset.cons_swap (hashOf entry, i), removed, indexed.coe_append,
    Multiset.cons_swap (hashOf entry, i), traded, Multiset.cons_swap (hashOf last, i)]

end Indexed

end DenseIndex
