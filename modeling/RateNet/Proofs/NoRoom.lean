/-
Module: RateNet.Proofs.NoRoom
Purpose: When a shard has no room for a newcomer, said of the slots as they stand. A slot is stuck when one
  look finds that it cannot go: it was charged from the sketch, it is due later, and its debt has no place
  in the exact table. It is blocked when no later look at the same instant finds otherwise. There is no room
  exactly when the shard is full, every expired slot the idle sweep comes by is stuck, and every slot the
  hand examines is blocked.
Trusted boundary: none
Main exports: Slot.dueMs, Stuck, Blocked, WholeAgain, FirstPass, ShardMap.sweepWindow, NoRoom,
  evictOne_error_iff, makeRoom_error_iff
-/
import RateNet.Proofs.RecoveryHints

namespace RateNet

/-!
### A look at a slot
-/

section Looks

variable {K S : Type} [KeyState S] {now nowMs : ℕ} {slot : Slot K S} {recovery : Recovery}

/-- The time the hand goes by: the hint while it is valid, otherwise what the state says. -/
def Slot.dueMs (slot : Slot K S) (now : ℕ) : ℕ :=
  if slot.recoversAtMs = unknown ∨ slot.referenced = true then (RateNet.recoversAt slot.state now).1
  else slot.recoversAtMs

/-- A slot that one look leaves where it is: it was charged from the sketch, its debt has no place in the
    exact table, and it is due later; if at the next millisecond by a hint in use, its state is not whole. -/
structure Stuck (now nowMs : ℕ) (recovery : Recovery) (slot : Slot K S) : Prop where
  seeded : slot.seeded = true
  no_place : recovery.hasExactRoom slot.hash nowMs = false
  owing : nowMs < slot.dueMs now
  not_whole : slot.recoversAtMs ≠ unknown → slot.referenced = false → slot.dueMs now = satAdd nowMs 1 →
    (KeyState.isFull slot.state now).1 = false

/-- A slot that every look leaves where it is. The first look refreshes its hint, so that the next one goes
    by a hint in use. -/
structure Blocked (now nowMs : ℕ) (recovery : Recovery) (slot : Slot K S) : Prop where
  seeded : slot.seeded = true
  no_place : recovery.hasExactRoom slot.hash nowMs = false
  owing : nowMs < slot.dueMs now
  not_whole : slot.referenced = false → slot.dueMs now = satAdd nowMs 1 → slot.dueMs now ≠ unknown →
    (KeyState.isFull slot.state now).1 = false

instance : Decidable (Stuck now nowMs recovery slot) :=
  decidable_of_iff (slot.seeded = true ∧ recovery.hasExactRoom slot.hash nowMs = false ∧
      nowMs < slot.dueMs now ∧ (slot.recoversAtMs ≠ unknown → slot.referenced = false →
        slot.dueMs now = satAdd nowMs 1 → (KeyState.isFull slot.state now).1 = false))
    ⟨fun ⟨seeded, no_place, owing, not_whole⟩ => ⟨seeded, no_place, owing, not_whole⟩,
      fun ⟨seeded, no_place, owing, not_whole⟩ => ⟨seeded, no_place, owing, not_whole⟩⟩

instance : Decidable (Blocked now nowMs recovery slot) :=
  decidable_of_iff (slot.seeded = true ∧ recovery.hasExactRoom slot.hash nowMs = false ∧
      nowMs < slot.dueMs now ∧ (slot.referenced = false → slot.dueMs now = satAdd nowMs 1 →
        slot.dueMs now ≠ unknown → (KeyState.isFull slot.state now).1 = false))
    ⟨fun ⟨seeded, no_place, owing, not_whole⟩ => ⟨seeded, no_place, owing, not_whole⟩,
      fun ⟨seeded, no_place, owing, not_whole⟩ => ⟨seeded, no_place, owing, not_whole⟩⟩

/-- A hint that cannot be used is computed from the state. -/
theorem recoversAt_unusable (unusable : slot.recoversAtMs = unknown ∨ slot.referenced = true) :
    slot.recoversAt now nowMs = ((recoversAt slot.state now).1,
      { slot with state := (recoversAt slot.state now).2, recoversAtMs := (recoversAt slot.state now).1 }) := by
  rw [Slot.recoversAt, if_pos unusable]

theorem dueMs_of_usable (set : slot.recoversAtMs ≠ unknown) (idle : slot.referenced = false) :
    slot.dueMs now = slot.recoversAtMs := by
  rw [Slot.dueMs, if_neg]
  rw [idle]
  simp [set]

/-- What one look reports: the time the hand goes by, unless that is the next millisecond by a hint in use
    and the state turns out to be whole. -/
theorem recoversAt_reports (slot : Slot K S) (now nowMs : ℕ) : (slot.recoversAt now nowMs).1 =
    if slot.recoversAtMs ≠ unknown ∧ slot.referenced = false ∧ slot.dueMs now = satAdd nowMs 1 ∧
      (KeyState.isFull slot.state now).1 = true then 0 else slot.dueMs now := by
  by_cases unusable : slot.recoversAtMs = unknown ∨ slot.referenced = true
  · rw [recoversAt_unusable unusable, if_neg, Slot.dueMs, if_pos unusable]
    rintro ⟨set, idle, -⟩
    rw [idle] at unusable
    simp [set] at unusable
  · rw [Slot.recoversAt, if_neg unusable, Slot.dueMs, if_neg unusable]
    push Not at unusable
    obtain ⟨set, idle⟩ := unusable
    rw [ne_eq, Bool.not_eq_true] at idle
    by_cases next : slot.recoversAtMs = satAdd nowMs 1
    · rw [if_pos next]
      cases read : KeyState.isFull slot.state now with
      | mk whole state =>
          cases whole with
          | true => rw [if_pos ⟨set, idle, next, rfl⟩]
          | false => rw [if_neg (fun all => by cases all.2.2.2)]
    · rw [if_neg next, if_neg (fun all => next all.2.2.1)]

/-- A slot is stuck exactly when a look reports that it is due later, and its debt has no place. -/
theorem stuck_iff : Stuck now nowMs recovery slot ↔
    slot.seeded = true ∧ recovery.hasExactRoom slot.hash nowMs = false ∧
      nowMs < (slot.recoversAt now nowMs).1 := by
  rw [recoversAt_reports]
  constructor
  · rintro ⟨seeded, no_place, owing, not_whole⟩
    refine ⟨seeded, no_place, ?_⟩
    rw [if_neg]
    · exact owing
    · rintro ⟨set, idle, next, whole⟩
      rw [not_whole set idle next] at whole
      cases whole
  · rintro ⟨seeded, no_place, owing⟩
    split at owing
    · omega
    · rename_i waits
      refine ⟨seeded, no_place, owing, fun set idle next => ?_⟩
      rw [← Bool.not_eq_true]
      exact fun whole => waits ⟨set, idle, next, whole⟩

/-- A look at a stuck slot reports the time the hand goes by. -/
theorem Stuck.reports (stuck : Stuck now nowMs recovery slot) :
    (slot.recoversAt now nowMs).1 = slot.dueMs now := by
  rw [recoversAt_reports, if_neg]
  rintro ⟨set, idle, next, whole⟩
  rw [stuck.not_whole set idle next] at whole
  cases whole

/-- A look leaves what it reports as the hint. -/
theorem hint_recoversAt (slot : Slot K S) (now nowMs : ℕ) :
    (slot.recoversAt now nowMs).2.recoversAtMs = (slot.recoversAt now nowMs).1 := by
  unfold Slot.recoversAt
  split
  · rfl
  · split
    · split
      · rfl
      · rfl
    · rfl

theorem Blocked.stuck (blocked : Blocked now nowMs recovery slot) : Stuck now nowMs recovery slot where
  seeded := blocked.seeded
  no_place := blocked.no_place
  owing := blocked.owing
  not_whole := fun set idle next =>
    blocked.not_whole idle next (by rw [dueMs_of_usable set idle]; exact set)

variable [LawfulKeyState S]

/-- Computing a hint twice at one instant gives the same hint. -/
theorem recoversAt_again {quota : Quota} {s : S} (under : LawfulKeyState.Under quota s) (now : ℕ) :
    (recoversAt (recoversAt s now).2 now).1 = (recoversAt s now).1 := by
  rw [recoversAt_fst, recoversAt_fst, recoversAt_snd, LawfulKeyState.debt_eq, LawfulKeyState.debt_eq,
    LawfulKeyState.peek_again now under]

/-- A state that has been read is whole at that reading exactly when it was before. -/
def WholeAgain (S : Type) [KeyState S] [LawfulKeyState S] : Prop :=
  ∀ {quota : Quota} {s : S} (now : ℕ), LawfulKeyState.Under quota s →
    (KeyState.isFull (KeyState.peek s now).2 now).1 = (KeyState.isFull s now).1

/-- The default `isFull` is a read, and reading twice is reading once. -/
theorem wholeAgain_of_debt
    (default : ∀ (s : S) now, (KeyState.isFull s now).1 = (KeyState.debt s now).1.isNone) : WholeAgain S := by
  intro quota s now under
  rw [default, default, LawfulKeyState.debt_eq, LawfulKeyState.debt_eq, LawfulKeyState.peek_again now under]

theorem Gcra.wholeAgain : WholeAgain Gcra := fun _ _ => rfl

theorem FixedWindow.wholeAgain : WholeAgain FixedWindow := fun _ _ => rfl

theorem SlidingLog.wholeAgain : WholeAgain SlidingLog := wholeAgain_of_debt fun _ _ => rfl

theorem SlidingCounter.wholeAgain : WholeAgain SlidingCounter := wholeAgain_of_debt fun _ _ => rfl

variable {quota : Quota} (wholeAgain : WholeAgain S) (under : LawfulKeyState.Under quota slot.state)

include under in
/-- What a look reports is the time the hand goes by from then on. -/
theorem dueMs_recoversAt :
    (slot.recoversAt now nowMs).2.dueMs now = (slot.recoversAt now nowMs).1 := by
  have hint := hint_recoversAt slot now nowMs
  by_cases unusable : slot.recoversAtMs = unknown ∨ slot.referenced = true
  · rw [recoversAt_unusable unusable, Slot.dueMs]
    split
    · exact recoversAt_again under now
    · rfl
  · have reported := recoversAt_reports slot now nowMs
    push Not at unusable
    obtain ⟨set, idle⟩ := unusable
    rw [ne_eq, Bool.not_eq_true] at idle
    have still : (slot.recoversAt now nowMs).2.referenced = false :=
      (slot.recoversAt_marks now nowMs).2.2.2.trans idle
    -- neither answer to a hint in use is `unknown`
    have known : (slot.recoversAt now nowMs).2.recoversAtMs ≠ unknown := by
      rw [hint, reported, dueMs_of_usable set idle]
      split
      · decide
      · exact set
    rw [dueMs_of_usable known still, hint]

include wholeAgain under in
theorem isFull_recoversAt : (KeyState.isFull (slot.recoversAt now nowMs).2.state now).1 =
    (KeyState.isFull slot.state now).1 := by
  rcases slot.recoversAt_state now nowMs with same | read
  · rw [same]
  · rw [read]
    exact wholeAgain now under

include wholeAgain under in
/-- A blocked slot is blocked after a look. -/
theorem Blocked.look (blocked : Blocked now nowMs recovery slot) :
    Blocked now nowMs recovery (slot.recoversAt now nowMs).2 := by
  obtain ⟨hash, -, seeded, referenced⟩ := slot.recoversAt_marks now nowMs
  have due : (slot.recoversAt now nowMs).2.dueMs now = slot.dueMs now :=
    (dueMs_recoversAt under).trans blocked.stuck.reports
  refine ⟨seeded.trans blocked.seeded, by rw [hash]; exact blocked.no_place, by rw [due]; exact blocked.owing, ?_⟩
  rw [referenced, due, isFull_recoversAt wholeAgain under]
  exact blocked.not_whole

include wholeAgain under in
/-- A slot is blocked exactly when two looks in a row leave it where it is. -/
theorem blocked_iff_stuck_twice : Blocked now nowMs recovery slot ↔
    Stuck now nowMs recovery slot ∧ Stuck now nowMs recovery (slot.recoversAt now nowMs).2 := by
  constructor
  · exact fun blocked => ⟨blocked.stuck, (blocked.look wholeAgain under).stuck⟩
  · rintro ⟨first, second⟩
    obtain ⟨-, -, -, referenced⟩ := slot.recoversAt_marks now nowMs
    have hint : (slot.recoversAt now nowMs).2.recoversAtMs = slot.dueMs now :=
      (hint_recoversAt slot now nowMs).trans first.reports
    have due : (slot.recoversAt now nowMs).2.dueMs now = slot.dueMs now :=
      (dueMs_recoversAt under).trans first.reports
    refine ⟨first.seeded, first.no_place, first.owing, fun idle next known => ?_⟩
    have whole := second.not_whole
    rw [hint, referenced, due, isFull_recoversAt wholeAgain under] at whole
    exact whole known idle next

include wholeAgain under in
theorem Stuck.blocked_iff_look (stuck : Stuck now nowMs recovery slot) :
    Blocked now nowMs recovery (slot.recoversAt now nowMs).2 ↔ Blocked now nowMs recovery slot :=
  ⟨fun later => (blocked_iff_stuck_twice wholeAgain under).2 ⟨stuck, later.stuck⟩,
    fun blocked => blocked.look wholeAgain under⟩

end Looks

/-!
### The two passes of the hand
-/

section Scans

variable {K S : Type} [KeyState S] {now nowMs : ℕ} {map : ShardMap K S} {slot : Slot K S}

/-- A slot that cannot go is left with its hint refreshed; any other is a candidate. -/
theorem evictable_no_iff {pos : ℕ} (held : map.slots[pos]? = some slot) :
    (∃ due, map.evictable pos now nowMs = (.no due, map.setSlot pos (slot.recoversAt now nowMs).2)) ↔
      Stuck now nowMs map.recovery slot := by
  obtain ⟨hash, -, seeded, -⟩ := slot.recoversAt_marks now nowMs
  simp only [ShardMap.evictable, held]
  by_cases recovered : (slot.recoversAt now nowMs).1 ≤ nowMs
  · rw [if_pos recovered]
    simp only [Prod.mk.injEq, reduceCtorEq, false_and, exists_false, false_iff]
    exact fun stuck => absurd (stuck_iff.1 stuck).2.2 (Nat.not_lt.2 recovered)
  · rw [if_neg recovered]
    have kept : (map.setSlot pos (slot.recoversAt now nowMs).2).recovery = map.recovery := rfl
    rw [hash, seeded, kept]
    by_cases accepted : (!slot.seeded || map.recovery.hasExactRoom slot.hash nowMs) = true
    · rw [if_pos accepted]
      simp only [Prod.mk.injEq, reduceCtorEq, false_and, exists_false, false_iff]
      intro stuck
      rw [stuck.seeded, stuck.no_place] at accepted
      cases accepted
    · rw [if_neg accepted]
      rw [Bool.not_eq_true, Bool.or_eq_false_iff, Bool.not_eq_false'] at accepted
      exact iff_of_true ⟨_, rfl⟩ (stuck_iff.2 ⟨accepted.1, accepted.2, Nat.lt_of_not_le recovered⟩)

theorem not_stuck_of_evictable {pos : ℕ} {verdict : Evictable} {map₁ : ShardMap K S}
    (held : map.slots[pos]? = some slot) (answer : map.evictable pos now nowMs = (verdict, map₁))
    (other : ∀ due, verdict ≠ .no due) : ¬ Stuck now nowMs map.recovery slot := by
  intro stuck
  obtain ⟨due, answer'⟩ := (evictable_no_iff held).2 stuck
  rw [answer] at answer'
  exact other due (congrArg Prod.fst answer')

/-- The second pass comes back empty-handed exactly when no slot of the window can go. -/
theorem scanAny_eq_none_iff {window : List ℕ} (distinct : window.Nodup) (earliest : ℕ)
    (map : ShardMap K S) : (ShardMap.scanAny now nowMs window earliest map).1.1 = none ↔
      ∀ pos ∈ window, ∀ slot, map.slots[pos]? = some slot → Stuck now nowMs map.recovery slot := by
  induction window generalizing earliest map with
  | nil => exact iff_of_true rfl fun _ member => by cases member
  | cons pos rest inductionHypothesis =>
      obtain ⟨elsewhere, distinct'⟩ := List.nodup_cons.1 distinct
      rw [ShardMap.scanAny, List.forall_mem_cons]
      cases held : map.slots[pos]? with
      | none =>
          rw [evictable_missing held]
          dsimp only
          rw [inductionHypothesis distinct']
          simp only [reduceCtorEq, false_implies, implies_true, true_and]
      | some slot =>
          have here : (∀ found, some slot = some found → Stuck now nowMs map.recovery found) ↔
              Stuck now nowMs map.recovery slot :=
            ⟨fun all => all slot rfl, fun stuck found same => Option.some.inj same ▸ stuck⟩
          rw [here]
          rcases evictable_cases held now nowMs with ⟨_, answer, -⟩ | ⟨_, answer, -⟩ | ⟨due, _, answer, rfl⟩
          · rw [answer]
            simp only [reduceCtorEq, false_iff, not_and]
            exact fun stuck => absurd stuck (not_stuck_of_evictable held answer fun _ same => by cases same)
          · rw [answer]
            simp only [reduceCtorEq, false_iff, not_and]
            exact fun stuck => absurd stuck (not_stuck_of_evictable held answer fun _ same => by cases same)
          · have stuck := (evictable_no_iff held).1 ⟨due, answer⟩
            rw [answer]
            dsimp only
            rw [inductionHypothesis distinct', and_iff_right stuck]
            -- the rest of the window is as it was
            apply forall₂_congr
            intro pos' member
            have other : pos ≠ pos' := fun same => elsewhere (same ▸ member)
            have same : (map.setSlot pos (slot.recoversAt now nowMs).2).slots[pos']? = map.slots[pos']? :=
              List.getElem?_set_ne other
            rw [same]
            rfl

/-- The first pass spares a slot that is in use. -/
def InUse (nowMs : ℕ) (ttlMs : Option ℕ) (slot : Slot K S) : Prop :=
  slot.isExpired nowMs ttlMs = false ∧ slot.referenced = true

instance (ttlMs : Option ℕ) (slot : Slot K S) : Decidable (InUse nowMs ttlMs slot) :=
  inferInstanceAs (Decidable (_ ∧ _))

/-- A slot after the first pass has gone over it. -/
def passedOver (now nowMs : ℕ) (ttlMs : Option ℕ) (slot : Slot K S) : Slot K S :=
  if InUse nowMs ttlMs slot then slot.spared else (slot.recoversAt now nowMs).2

theorem passedOver_seeded {ttlMs : Option ℕ} : (passedOver now nowMs ttlMs slot).seeded = slot.seeded := by
  rw [passedOver]
  split
  · rfl
  · exact (slot.recoversAt_marks now nowMs).2.2.1

/-- What the first pass tells and leaves: it comes back empty-handed exactly when every slot of the window
    is in use or cannot go, and then it has passed over all of them. -/
structure FirstPass (now nowMs : ℕ) (ttlMs : Option ℕ) (window : List ℕ) (owing : Option ℕ)
    (map : ShardMap K S) (result : (Option ShardMap.Candidate × ℕ) × ShardMap K S) : Prop where
  empty_iff : result.1.1 = none ↔ owing = none ∧ ∀ pos ∈ window, ∀ slot, map.slots[pos]? = some slot →
    InUse nowMs ttlMs slot ∨ Stuck now nowMs map.recovery slot
  recovery : result.1.1 = none → result.2.recovery = map.recovery
  slots : result.1.1 = none → ∀ pos, result.2.slots[pos]? =
    if pos ∈ window then map.slots[pos]?.map (passedOver now nowMs ttlMs) else map.slots[pos]?

/-- Passing over one slot of the window, and then over the rest. -/
theorem FirstPass.cons {ttlMs : Option ℕ} {pos : ℕ} {rest : List ℕ} {owing : Option ℕ}
    {result : (Option ShardMap.Candidate × ℕ) × ShardMap K S} (elsewhere : pos ∉ rest)
    (held : map.slots[pos]? = some slot)
    (passed : InUse nowMs ttlMs slot ∨ Stuck now nowMs map.recovery slot)
    (later : FirstPass now nowMs ttlMs rest owing
      (map.setSlot pos (passedOver now nowMs ttlMs slot)) result) :
    FirstPass now nowMs ttlMs (pos :: rest) owing map result := by
  have inside := (List.getElem?_eq_some_iff.1 held).1
  have other : ∀ pos', pos ≠ pos' →
      (map.setSlot pos (passedOver now nowMs ttlMs slot)).slots[pos']? = map.slots[pos']? :=
    fun pos' different => List.getElem?_set_ne different
  constructor
  · rw [later.empty_iff, List.forall_mem_cons]
    apply and_congr_right
    intro _
    have here : ∀ found, map.slots[pos]? = some found →
        InUse nowMs ttlMs found ∨ Stuck now nowMs map.recovery found := by
      intro found held'
      obtain rfl : found = slot := Option.some.inj (held'.symm.trans held)
      exact passed
    rw [and_iff_right here]
    apply forall₂_congr
    intro pos' member
    rw [other pos' fun same => elsewhere (same ▸ member)]
    rfl
  · exact later.recovery
  · intro empty pos'
    rw [later.slots empty]
    by_cases same : pos = pos'
    · subst same
      have set : (map.setSlot pos (passedOver now nowMs ttlMs slot)).slots[pos]? =
          some (passedOver now nowMs ttlMs slot) := List.getElem?_set_self inside
      rw [if_neg elsewhere, if_pos List.mem_cons_self, set, held, Option.map_some]
    · rw [other pos' same]
      simp only [List.mem_cons, Ne.symm same, false_or]

/-- A window with a slot that can go. -/
theorem FirstPass.found {ttlMs : Option ℕ} {pos : ℕ} {rest : List ℕ} {owing : Option ℕ}
    {result : (Option ShardMap.Candidate × ℕ) × ShardMap K S} (held : map.slots[pos]? = some slot)
    (idle : ¬ InUse nowMs ttlMs slot) (free : ¬ Stuck now nowMs map.recovery slot)
    (candidate : result.1.1 ≠ none) : FirstPass now nowMs ttlMs (pos :: rest) owing map result where
  empty_iff := by
    refine iff_of_false candidate fun none_free => ?_
    rcases none_free.2 pos List.mem_cons_self slot held with used | stuck
    · exact idle used
    · exact free stuck
  recovery := fun empty => absurd empty candidate
  slots := fun empty => absurd empty candidate

/-- A slot noted as owing is a candidate at the end. -/
theorem scanUnreferenced_ne_none (ttlMs : Option ℕ) (window : List ℕ) {owing : Option ℕ}
    (noted : owing ≠ none) (earliest : ℕ) (map : ShardMap K S) :
    (ShardMap.scanUnreferenced now nowMs ttlMs window owing earliest map).1.1 ≠ none := by
  induction window generalizing owing earliest map with
  | nil =>
      rw [ShardMap.scanUnreferenced]
      exact fun empty => noted (Option.map_eq_none_iff.1 empty)
  | cons pos rest inductionHypothesis =>
      rw [ShardMap.scanUnreferenced]
      have still : owing.or (some pos) ≠ none := by
        cases owing with
        | none => exact absurd rfl noted
        | some first => exact Option.some_ne_none _
      split
      · exact inductionHypothesis noted _ _
      · split
        · exact inductionHypothesis noted _ _
        · split
          · exact Option.some_ne_none _
          · exact inductionHypothesis still _ _
          · exact inductionHypothesis noted _ _

theorem scanUnreferenced_firstPass (ttlMs : Option ℕ) {window : List ℕ} (distinct : window.Nodup)
    (owing : Option ℕ) (earliest : ℕ) (map : ShardMap K S) :
    FirstPass now nowMs ttlMs window owing map
      (ShardMap.scanUnreferenced now nowMs ttlMs window owing earliest map) := by
  induction window generalizing owing earliest map with
  | nil =>
      refine ⟨?_, fun _ => rfl, fun _ _ => rfl⟩
      rw [ShardMap.scanUnreferenced, Option.map_eq_none_iff]
      exact ⟨fun empty => ⟨empty, fun _ member => by cases member⟩, And.left⟩
  | cons pos rest inductionHypothesis =>
      obtain ⟨elsewhere, distinct'⟩ := List.nodup_cons.1 distinct
      rw [ShardMap.scanUnreferenced]
      cases held : map.slots[pos]? with
      | none =>
          obtain ⟨empty_iff, recovery, slots⟩ := inductionHypothesis distinct' owing earliest map
          refine ⟨?_, recovery, ?_⟩
          · rw [empty_iff, List.forall_mem_cons, held]
            simp only [reduceCtorEq, false_implies, implies_true, true_and]
          · intro empty pos'
            rw [slots empty]
            by_cases same : pos' = pos
            · subst same
              rw [if_neg elsewhere, if_pos List.mem_cons_self, held]
              rfl
            · simp only [List.mem_cons, same, false_or]
      | some slot =>
          dsimp only
          by_cases used : InUse nowMs ttlMs slot
          · rw [if_pos (by rw [used.1, used.2]; rfl)]
            apply FirstPass.cons elsewhere held (Or.inl used)
            rw [passedOver, if_pos used]
            exact inductionHypothesis distinct' _ _ _
          · have idle : ¬ (!slot.isExpired nowMs ttlMs && slot.referenced) = true := by
              rw [Bool.and_eq_true, Bool.not_eq_true']
              exact used
            rw [if_neg idle]
            rcases evictable_cases held now nowMs with ⟨_, answer, -⟩ | ⟨_, answer, -⟩ |
              ⟨due, _, answer, rfl⟩
            · have goes := not_stuck_of_evictable held answer fun _ same => by cases same
              rw [answer]
              exact .found held used goes (Option.some_ne_none _)
            · have goes := not_stuck_of_evictable held answer fun _ same => by cases same
              rw [answer]
              apply FirstPass.found held used goes
              apply scanUnreferenced_ne_none
              cases owing with
              | none => exact Option.some_ne_none _
              | some first => exact Option.some_ne_none _
            · rw [answer]
              apply FirstPass.cons elsewhere held (Or.inr ((evictable_no_iff held).1 ⟨due, answer⟩))
              rw [passedOver, if_neg used]
              exact inductionHypothesis distinct' _ _ _

omit [KeyState S] in
/-- The hand examines each position once. -/
theorem clockWindow_nodup (map : ShardMap K S) : map.clockWindow.Nodup := by
  rw [ShardMap.clockWindow]
  apply List.Nodup.map_on _ List.nodup_range
  intro a first b second same
  have within : ∀ {step}, step ∈ List.range (min clockScan map.slots.length) → step < map.slots.length :=
    fun member => lt_of_lt_of_le (List.mem_range.1 member) (min_le_right _ _)
  have congruent : a ≡ b [MOD map.slots.length] := Nat.ModEq.add_left_cancel' _ same
  exact congruent.eq_of_lt_of_lt (within first) (within second)

/-- The earliest recovery a scan reports is a word. -/
theorem scanUnreferenced_earliest_le {nowMs : ℕ} (ttlMs : Option ℕ) (window : List ℕ) (owing : Option ℕ)
    {earliest : ℕ} (bound : earliest ≤ u64Max) (map : ShardMap K S) :
    (ShardMap.scanUnreferenced now nowMs ttlMs window owing earliest map).1.2 ≤ u64Max := by
  induction window generalizing owing earliest map with
  | nil => exact bound
  | cons pos rest inductionHypothesis =>
      rw [ShardMap.scanUnreferenced]
      split
      · exact inductionHypothesis _ bound _
      · split
        · exact inductionHypothesis _ bound _
        · split
          · exact bound
          · exact inductionHypothesis _ bound _
          · exact inductionHypothesis _ ((min_le_left _ _).trans bound) _

theorem scanAny_earliest_le {nowMs : ℕ} (window : List ℕ) {earliest : ℕ} (bound : earliest ≤ u64Max)
    (map : ShardMap K S) : (ShardMap.scanAny now nowMs window earliest map).1.2 ≤ u64Max := by
  induction window generalizing earliest map with
  | nil => exact bound
  | cons pos rest inductionHypothesis =>
      rw [ShardMap.scanAny]
      split
      · exact bound
      · exact bound
      · exact inductionHypothesis ((min_le_left _ _).trans bound) _

/-!
### No room
-/

omit [KeyState S] in
/-- The positions the idle sweep comes by in `steps` steps, as long as it removes nothing. -/
def ShardMap.sweepWindow (steps : ℕ) (map : ShardMap K S) : List ℕ :=
  (List.range steps).map fun step =>
    ((if map.slots.length ≤ map.sweep then 0 else map.sweep) + step) % map.slots.length

/-- No expired slot of the window can go at the first look. -/
def ExpiredStuck (now nowMs ttlMs : ℕ) (window : List ℕ) (map : ShardMap K S) : Prop :=
  ∀ pos ∈ window, ∀ slot ∈ map.slots[pos]?, slot.isExpired nowMs (some ttlMs) = true →
    Stuck now nowMs map.recovery slot

/-- No slot the hand examines can go. -/
def HandBlocked (now nowMs : ℕ) (map : ShardMap K S) : Prop :=
  ∀ pos ∈ map.clockWindow, ∀ slot ∈ map.slots[pos]?, Blocked now nowMs map.recovery slot

/-- There is no room for a newcomer at `now`: the shard is full, no expired slot the idle sweep comes by can
    go, and neither can any slot the hand examines. -/
structure NoRoom (config : StoreConfig K) (map : ShardMap K S) (now : ℕ) : Prop where
  full : config.perShardCap ≤ map.slots.length
  sweep : ∀ ttlMs ∈ config.idleTtlMs, ExpiredStuck now (millis now) ttlMs (map.sweepWindow ttlSweep) map
  hand : HandBlocked now (millis now) map

instance (ttlMs : ℕ) (window : List ℕ) : Decidable (ExpiredStuck now nowMs ttlMs window map) :=
  inferInstanceAs (Decidable (∀ pos ∈ window, ∀ slot ∈ map.slots[pos]?,
    slot.isExpired nowMs (some ttlMs) = true → Stuck now nowMs map.recovery slot))

instance : Decidable (HandBlocked now nowMs map) :=
  inferInstanceAs (Decidable (∀ pos ∈ map.clockWindow, ∀ slot ∈ map.slots[pos]?,
    Blocked now nowMs map.recovery slot))

instance (config : StoreConfig K) : Decidable (NoRoom config map now) :=
  decidable_of_iff (config.perShardCap ≤ map.slots.length ∧
      (∀ ttlMs ∈ config.idleTtlMs, ExpiredStuck now (millis now) ttlMs (map.sweepWindow ttlSweep) map) ∧
      HandBlocked now (millis now) map)
    ⟨fun ⟨full, sweep, hand⟩ => ⟨full, sweep, hand⟩, fun ⟨full, sweep, hand⟩ => ⟨full, sweep, hand⟩⟩

/-- The shard and the counters as the idle sweep leaves them. -/
def ShardMap.swept (config : StoreConfig K) (map : ShardMap K S) (now : ℕ) : ShardMap K S × Reclaimed K :=
  match config.idleTtlMs with
  | some ttlMs => ShardMap.sweepIdle now (millis now) ttlMs config.table ttlSweep map .zero
  | none => (map, .zero)

theorem makeRoom_eq (config : StoreConfig K) (map : ShardMap K S) (now : ℕ) :
    map.makeRoom config now (millis now) =
      if config.perShardCap ≤ (map.swept config now).1.slots.length then
        (map.swept config now).1.evictOne now (millis now) config.idleTtlMs config.table
          (map.swept config now).2
      else (.ok (), (map.swept config now).1, (map.swept config now).2) := by
  unfold ShardMap.makeRoom ShardMap.swept
  cases config.idleTtlMs with
  | none => rfl
  | some ttlMs => rfl

/-- The time a failure to make room reports is a word. -/
theorem makeRoom_error_le {config : StoreConfig K} {due : ℕ}
    (failed : (map.makeRoom config now (millis now)).1 = .error due) : due ≤ u64Max := by
  rw [makeRoom_eq] at failed
  split at failed
  · have first := @scanUnreferenced_earliest_le _ _ _ now (millis now) config.idleTtlMs
      (map.swept config now).1.clockWindow none unknown le_rfl (map.swept config now).1
    rw [ShardMap.evictOne] at failed
    split at failed
    · cases failed
    · dsimp only at failed
      generalize ShardMap.scanUnreferenced now (millis now) config.idleTtlMs
        (map.swept config now).1.clockWindow none unknown (map.swept config now).1 = scanned at first failed
      obtain ⟨⟨candidate, earliest⟩, map₁⟩ := scanned
      cases candidate with
      | some candidate => cases failed
      | none =>
          have second := @scanAny_earliest_le _ _ _ now (millis now) (map.swept config now).1.clockWindow
            earliest first map₁
          dsimp only at failed
          generalize ShardMap.scanAny now (millis now) (map.swept config now).1.clockWindow earliest map₁ =
            scanned at second failed
          obtain ⟨⟨candidate, earliest'⟩, map₂⟩ := scanned
          cases candidate with
          | some candidate => cases failed
          | none =>
              cases failed
              exact second
  · cases failed

variable [LawfulKeyState S] {quotaOf : K → Quota}

omit [LawfulKeyState S] in
/-- A referenced slot the first pass spares is due when it was before. -/
theorem dueMs_spared (used : slot.referenced = true) : slot.spared.dueMs now = slot.dueMs now := by
  have unset : slot.spared.recoversAtMs = unknown := rfl
  rw [Slot.dueMs, if_pos (Or.inl unset), Slot.dueMs, if_pos (Or.inr used)]
  rfl

/-- Both passes leave a slot where it is exactly when it is blocked. -/
theorem blocked_iff (wholeAgain : WholeAgain S) {quota : Quota}
    (under : LawfulKeyState.Under quota slot.state) (ttlMs : Option ℕ) (recovery : Recovery) :
    Blocked now nowMs recovery slot ↔
      (InUse nowMs ttlMs slot ∨ Stuck now nowMs recovery slot) ∧
        Stuck now nowMs recovery (passedOver now nowMs ttlMs slot) := by
  by_cases used : InUse nowMs ttlMs slot
  · rw [and_iff_right (Or.inl used), passedOver, if_pos used]
    have due : slot.spared.dueMs now = slot.dueMs now := dueMs_spared used.2
    constructor
    · rintro ⟨seeded, no_place, owing, -⟩
      exact ⟨seeded, no_place, by rw [due]; exact owing, fun set => absurd rfl set⟩
    · rintro ⟨seeded, no_place, owing, -⟩
      rw [due] at owing
      refine ⟨seeded, no_place, owing, fun idle => ?_⟩
      rw [used.2] at idle
      cases idle
  · rw [passedOver, if_neg used, or_iff_right used]
    exact blocked_iff_stuck_twice wholeAgain under

omit [LawfulKeyState S] in
/-- Evicting one slot fails exactly when both passes leave every slot the hand examines where it is. -/
theorem evictOne_error_iff_passes (occupied : map.slots.length ≠ 0) (ttlMs : Option ℕ) (size : TableSize)
    (out : Reclaimed K) : (∃ due, (map.evictOne now nowMs ttlMs size out).1 = .error due) ↔
      (∀ pos ∈ map.clockWindow, ∀ slot, map.slots[pos]? = some slot →
        InUse nowMs ttlMs slot ∨ Stuck now nowMs map.recovery slot) ∧
      ∀ pos ∈ map.clockWindow, ∀ slot, map.slots[pos]? = some slot →
        Stuck now nowMs map.recovery (passedOver now nowMs ttlMs slot) := by
  have first := @scanUnreferenced_firstPass _ _ _ now nowMs ttlMs _ (clockWindow_nodup map) none unknown map
  rw [ShardMap.evictOne, if_neg occupied]
  dsimp only
  generalize ShardMap.scanUnreferenced now nowMs ttlMs map.clockWindow none unknown map = scanned at first
  obtain ⟨⟨candidate, earliest⟩, map₁⟩ := scanned
  cases candidate with
  | some candidate =>
      have blocked := first.empty_iff
      simp only [reduceCtorEq, true_and, false_iff] at blocked
      simp only [reduceCtorEq, exists_false, false_iff]
      exact fun both => blocked both.1
  | none =>
      have passed := (first.empty_iff.1 rfl).2
      have recovery : map₁.recovery = map.recovery := first.recovery rfl
      have second := @scanAny_eq_none_iff _ _ _ now nowMs _ (clockWindow_nodup map) earliest map₁
      have same : (∀ pos ∈ map.clockWindow, ∀ slot, map₁.slots[pos]? = some slot →
          Stuck now nowMs map₁.recovery slot) ↔
          ∀ pos ∈ map.clockWindow, ∀ slot, map.slots[pos]? = some slot →
            Stuck now nowMs map.recovery (passedOver now nowMs ttlMs slot) := by
        apply forall₂_congr
        intro pos member
        rw [first.slots rfl pos, if_pos member, recovery]
        cases map.slots[pos]? with
        | none => simp only [Option.map_none, reduceCtorEq, false_implies, implies_true]
        | some slot => simp only [Option.map_some, Option.some.injEq, forall_eq']
      rw [and_iff_right passed, ← same, ← second]
      dsimp only
      generalize ShardMap.scanAny now nowMs map.clockWindow earliest map₁ = scanned
      obtain ⟨⟨candidate, earliest'⟩, map₂⟩ := scanned
      cases candidate with
      | some candidate => simp only [reduceCtorEq, exists_false]
      | none => exact iff_of_true ⟨_, rfl⟩ rfl

omit [LawfulKeyState S] in
/-- When room-making fails, the shard is full after the sweep and both passes have gone over every slot the
    hand examines. -/
theorem makeRoom_error_passes {config : StoreConfig K}
    (failed : ∃ due, (map.makeRoom config now (millis now)).1 = .error due) :
    config.perShardCap ≤ (map.swept config now).1.slots.length ∧
      (∀ pos ∈ (map.swept config now).1.clockWindow, ∀ slot, (map.swept config now).1.slots[pos]? = some slot →
        InUse (millis now) config.idleTtlMs slot ∨
          Stuck now (millis now) (map.swept config now).1.recovery slot) ∧
      ∀ pos ∈ (map.swept config now).1.clockWindow, ∀ slot, (map.swept config now).1.slots[pos]? = some slot →
        Stuck now (millis now) (map.swept config now).1.recovery
          (passedOver now (millis now) config.idleTtlMs slot) := by
  rw [makeRoom_eq] at failed
  by_cases full : config.perShardCap ≤ (map.swept config now).1.slots.length
  · rw [if_pos full] at failed
    exact ⟨full, (evictOne_error_iff_passes (lt_of_lt_of_le config.cap_pos full).ne' _ _ _).1 failed⟩
  · rw [if_neg full] at failed
    obtain ⟨_, failed⟩ := failed
    cases failed

theorem evictOne_error_iff (wholeAgain : WholeAgain S) (kept : StatesKept quotaOf map)
    (occupied : map.slots.length ≠ 0) (ttlMs : Option ℕ) (size : TableSize) (out : Reclaimed K) :
    (∃ due, (map.evictOne now nowMs ttlMs size out).1 = .error due) ↔ HandBlocked now nowMs map := by
  rw [evictOne_error_iff_passes occupied, ← forall₂_and]
  apply forall₂_congr
  intro pos _
  rw [← forall₂_and]
  apply forall₂_congr
  intro slot held
  exact (blocked_iff wholeAgain (kept slot (List.mem_of_getElem? held)) ttlMs map.recovery).symm

omit [LawfulKeyState S] in
/-- The idle sweep is made of room-making steps. -/
theorem swept_roomRun (config : StoreConfig K) (map : ShardMap K S) (now : ℕ) :
    ∃ handed, RoomRun now (millis now) config.table map handed (map.swept config now).1 := by
  rw [ShardMap.swept]
  cases config.idleTtlMs with
  | none => exact ⟨[], .done map⟩
  | some ttlMs =>
      obtain ⟨handed, run, -⟩ := @sweepIdle_madeBy _ _ _ now (millis now) config.table ttlMs ttlSweep map .zero
      exact ⟨handed, run⟩

theorem swept_statesKept (config : StoreConfig K) (kept : StatesKept quotaOf map) (now : ℕ) :
    StatesKept quotaOf (map.swept config now).1 := by
  obtain ⟨handed, run⟩ := swept_roomRun config map now
  exact run.statesKept kept

/-!
### The idle sweep
-/

omit [KeyState S] [LawfulKeyState S] in
/-- A hand that goes around examines every slot. -/
theorem mem_clockWindow_of_short (short : map.slots.length ≤ clockScan) {pos : ℕ}
    (inside : pos < map.slots.length) : pos ∈ map.clockWindow := by
  have distinct := clockWindow_nodup map
  have within : map.clockWindow ⊆ List.range map.slots.length := by
    intro found member
    obtain ⟨step, -, rfl⟩ := List.mem_map.1 member
    exact List.mem_range.2 (Nat.mod_lt _ (by omega))
  have length : (List.range map.slots.length).length ≤ map.clockWindow.length := by
    rw [ShardMap.clockWindow, List.length_map, List.length_range, List.length_range, min_eq_right short]
  have all := (List.subperm_of_subset distinct within).perm_of_length_le length
  exact all.mem_iff.2 (List.mem_range.2 inside)

omit [KeyState S] [LawfulKeyState S] in
/-- The sweep comes by the slot at its cursor, and then by the slots from the next one on. -/
theorem sweepWindow_succ (inside : map.sweep < map.slots.length) (steps : ℕ) :
    map.sweepWindow (steps + 1) =
      map.sweep :: ShardMap.sweepWindow steps { map with sweep := map.sweep + 1 } := by
  rw [ShardMap.sweepWindow, ShardMap.sweepWindow, List.range_succ_eq_map, List.map_cons, List.map_map,
    if_neg (Nat.not_le.2 inside), Nat.add_zero, Nat.mod_eq_of_lt inside]
  congr 1
  apply List.map_congr_left
  intro step _
  show (map.sweep + (step + 1)) % map.slots.length = _
  dsimp only
  split
  · have last : map.sweep + 1 = map.slots.length := by omega
    rw [Nat.zero_add, Nat.add_comm step 1, ← Nat.add_assoc, last, Nat.add_mod_left]
  · rw [Nat.add_assoc, Nat.add_comm 1 step]

omit [KeyState S] [LawfulKeyState S] in
/-- A sweep that comes by its first slot again has gone around. -/
theorem sweepWindow_returns (inside : map.sweep < map.slots.length) {steps bound : ℕ} (few : steps + 1 ≤ bound)
    (again : map.sweep ∈ ShardMap.sweepWindow steps { map with sweep := map.sweep + 1 }) :
    map.slots.length ≤ bound := by
  have member : map.sweep ∈ (map.sweepWindow (steps + 1)).tail := by
    rw [sweepWindow_succ inside]
    exact again
  rw [ShardMap.sweepWindow, List.range_succ_eq_map, List.map_cons, List.tail_cons, List.map_map] at member
  obtain ⟨step, taken, same⟩ := List.mem_map.1 member
  have short := List.mem_range.1 taken
  have same : (map.sweep + (step + 1)) % map.slots.length = map.sweep := by
    rw [if_neg (Nat.not_le.2 inside)] at same
    exact same
  have around : map.slots.length ∣ step + 1 := by
    have congruent : map.sweep + (step + 1) ≡ map.sweep + 0 [MOD map.slots.length] := by
      rw [Nat.ModEq, same, Nat.add_zero, Nat.mod_eq_of_lt inside]
    exact (Nat.modEq_zero_iff_dvd).1 (Nat.ModEq.add_left_cancel' _ congruent)
  exact (Nat.le_of_dvd (Nat.succ_pos step) around).trans (by omega)

/-- Looking at a stuck slot changes nothing for the sweep and the hand together: the sweep comes by it again
    only in a shard the hand goes around. -/
theorem stuck_look (wholeAgain : WholeAgain S) (kept : StatesKept quotaOf map) {ttlMs pos : ℕ}
    {window : List ℕ} (held : map.slots[pos]? = some slot) (stuck : Stuck now nowMs map.recovery slot)
    (again : pos ∈ window → pos ∈ map.clockWindow) :
    ExpiredStuck now nowMs ttlMs window (map.setSlot pos (slot.recoversAt now nowMs).2) ∧
        HandBlocked now nowMs (map.setSlot pos (slot.recoversAt now nowMs).2) ↔
      ExpiredStuck now nowMs ttlMs window map ∧ HandBlocked now nowMs map := by
  have inside := (List.getElem?_eq_some_iff.1 held).1
  have under := kept slot (List.mem_of_getElem? held)
  have here : (map.setSlot pos (slot.recoversAt now nowMs).2).slots[pos]? =
      some (slot.recoversAt now nowMs).2 := List.getElem?_set_self inside
  have other : ∀ pos', pos ≠ pos' →
      (map.setSlot pos (slot.recoversAt now nowMs).2).slots[pos']? = map.slots[pos']? :=
    fun pos' different => List.getElem?_set_ne different
  have window_same : (map.setSlot pos (slot.recoversAt now nowMs).2).clockWindow = map.clockWindow := by
    rw [ShardMap.clockWindow, ShardMap.clockWindow]
    simp only [ShardMap.setSlot, List.length_set]
  have hand : HandBlocked now nowMs (map.setSlot pos (slot.recoversAt now nowMs).2) ↔
      HandBlocked now nowMs map := by
    rw [HandBlocked, HandBlocked, window_same]
    apply forall₂_congr
    intro pos' _
    by_cases same : pos = pos'
    · subst same
      rw [here, held]
      simp only [Option.mem_some_iff, forall_eq']
      exact stuck.blocked_iff_look wholeAgain under
    · rw [other pos' same]
      rfl
  rw [hand]
  apply and_congr_left
  intro blocked
  apply forall₂_congr
  intro pos' member
  by_cases same : pos = pos'
  · subst same
    rw [here, held]
    simp only [Option.mem_some_iff, forall_eq']
    have stays := (blocked pos (again member) slot held).look wholeAgain under
    exact iff_of_true (fun _ => stays.stuck) fun _ => stuck
  · rw [other pos' same]
    rfl

omit [LawfulKeyState S] in
/-- An expired slot that is not stuck goes, and no sweep brings a slot. -/
theorem sweepIdle_shorter {ttlMs steps : ℕ} {size : TableSize} {out : Reclaimed K}
    (held : map.slots[map.sweep]? = some slot) (expired : slot.isExpired nowMs (some ttlMs) = true)
    (free : ¬ Stuck now nowMs map.recovery slot) :
    (ShardMap.sweepIdle now nowMs ttlMs size (steps + 1) map out).1.slots.length < map.slots.length := by
  have inside := (List.getElem?_eq_some_iff.1 held).1
  have occupied : map.slots.length ≠ 0 := by omega
  have rest : ∀ (map₂ : ShardMap K S) (out₂ : Reclaimed K), map₂.slots.length + 1 = map.slots.length →
      (ShardMap.sweepIdle now nowMs ttlMs size steps map₂ out₂).1.slots.length < map.slots.length := by
    intro map₂ out₂ fewer
    obtain ⟨handed, run, -⟩ := @sweepIdle_madeBy _ _ _ now nowMs size ttlMs steps map₂ out₂
    exact lt_of_le_of_lt run.length_le (by omega)
  rw [ShardMap.sweepIdle, if_neg occupied]
  simp only [if_neg (Nat.not_le.2 inside), held, Option.any_some, expired, if_true]
  rcases evictable_cases held now nowMs with ⟨map₁, answer, found⟩ | ⟨map₁, answer, rfl, ready⟩ |
    ⟨due, map₁, answer, rfl⟩
  · have cursor : map₁.sweep = map.sweep := by
      obtain ⟨_, _, _, rfl⟩ := found
      rfl
    obtain ⟨map₂, evicted, -, fewer⟩ := evictAt_recovered size found out
    simp only [answer, cursor, beq_self_eq_true, evicted]
    exact rest _ _ fewer
  · obtain ⟨map₂, out₂, handed, evicted, -, fewer, -⟩ := evictAt_ready now size ready out
    have still : (Evictable.owing == Evictable.recovered) = false := rfl
    have cursor : (map.setSlot map.sweep (slot.recoversAt now nowMs).2).sweep = map.sweep := rfl
    have length : (map.setSlot map.sweep (slot.recoversAt now nowMs).2).slots.length = map.slots.length :=
      List.length_set
    simp only [answer, cursor, still, evicted]
    exact rest _ _ (fewer.trans length)
  · exact absurd ((evictable_no_iff held).1 ⟨due, answer⟩) free

omit [LawfulKeyState S] in
/-- A cursor past the end starts over. -/
theorem sweepIdle_restart {ttlMs steps : ℕ} {size : TableSize} (out : Reclaimed K)
    (occupied : map.slots.length ≠ 0) (past : map.slots.length ≤ map.sweep) :
    ShardMap.sweepIdle now nowMs ttlMs size (steps + 1) map out =
      ShardMap.sweepIdle now nowMs ttlMs size (steps + 1) { map with sweep := 0 } out := by
  rw [ShardMap.sweepIdle, ShardMap.sweepIdle]
  simp only [if_neg occupied, if_pos past, ite_self]

omit [LawfulKeyState S] in
/-- The sweep goes by a slot that has not expired. -/
theorem sweepIdle_fresh {ttlMs steps : ℕ} {size : TableSize} (out : Reclaimed K)
    (held : map.slots[map.sweep]? = some slot) (fresh : slot.isExpired nowMs (some ttlMs) = false) :
    ShardMap.sweepIdle now nowMs ttlMs size (steps + 1) map out =
      ShardMap.sweepIdle now nowMs ttlMs size steps { map with sweep := map.sweep + 1 } out := by
  have inside := (List.getElem?_eq_some_iff.1 held).1
  have occupied : map.slots.length ≠ 0 := by omega
  rw [ShardMap.sweepIdle, if_neg occupied]
  simp only [if_neg (Nat.not_le.2 inside), held, Option.any_some, fresh, Bool.false_eq_true, if_false]

omit [LawfulKeyState S] in
/-- The sweep looks at an expired slot that is stuck, and goes on. -/
theorem sweepIdle_stuck {ttlMs steps : ℕ} {size : TableSize} (out : Reclaimed K)
    (held : map.slots[map.sweep]? = some slot) (expired : slot.isExpired nowMs (some ttlMs) = true)
    (stuck : Stuck now nowMs map.recovery slot) :
    ShardMap.sweepIdle now nowMs ttlMs size (steps + 1) map out =
      ShardMap.sweepIdle now nowMs ttlMs size steps
        { map.setSlot map.sweep (slot.recoversAt now nowMs).2 with sweep := map.sweep + 1 } out := by
  have inside := (List.getElem?_eq_some_iff.1 held).1
  have occupied : map.slots.length ≠ 0 := by omega
  obtain ⟨due, answer⟩ := (evictable_no_iff held).2 stuck
  rw [ShardMap.sweepIdle, if_neg occupied]
  simp only [if_neg (Nat.not_le.2 inside), held, Option.any_some, expired, if_true, answer]
  rfl

omit [KeyState S] [LawfulKeyState S] in
theorem sweepWindow_restart (steps : ℕ) (past : map.slots.length ≤ map.sweep) :
    map.sweepWindow steps = ShardMap.sweepWindow steps { map with sweep := 0 } := by
  rw [ShardMap.sweepWindow, ShardMap.sweepWindow]
  simp only [if_pos past, ite_self]

/-- The idle sweep removes nothing and leaves the hand blocked exactly when every expired slot it comes by is
    stuck and the hand was blocked before it. -/
theorem sweepIdle_keeps_iff (wholeAgain : WholeAgain S) (kept : StatesKept quotaOf map) (ttlMs : ℕ)
    (size : TableSize) {steps : ℕ} (few : steps ≤ clockScan) (out : Reclaimed K) :
    (ShardMap.sweepIdle now nowMs ttlMs size steps map out).1.slots.length = map.slots.length ∧
        HandBlocked now nowMs (ShardMap.sweepIdle now nowMs ttlMs size steps map out).1 ↔
      ExpiredStuck now nowMs ttlMs (map.sweepWindow steps) map ∧ HandBlocked now nowMs map := by
  induction steps generalizing map out with
  | zero => exact and_congr_left' (iff_of_true rfl fun _ member => by cases member)
  | succ steps inductionHypothesis =>
      by_cases occupied : map.slots.length = 0
      · rw [ShardMap.sweepIdle, if_pos occupied]
        refine and_congr_left' (iff_of_true rfl fun pos _ slot held => ?_)
        rw [List.length_eq_zero_iff.1 occupied] at held
        cases held
      · wlog inside : map.sweep < map.slots.length generalizing map
        · have past := Nat.not_lt.1 inside
          rw [sweepIdle_restart out occupied past, sweepWindow_restart (steps + 1) past]
          exact @this { map with sweep := 0 } kept occupied (Nat.pos_of_ne_zero occupied)
        have held : map.slots[map.sweep]? = some map.slots[map.sweep] := List.getElem?_eq_getElem inside
        generalize map.slots[map.sweep] = slot at held
        have here : ExpiredStuck now nowMs ttlMs (map.sweepWindow (steps + 1)) map ↔
            (slot.isExpired nowMs (some ttlMs) = true → Stuck now nowMs map.recovery slot) ∧
            ExpiredStuck now nowMs ttlMs
              (ShardMap.sweepWindow steps { map with sweep := map.sweep + 1 }) map := by
          rw [sweepWindow_succ inside, ExpiredStuck, List.forall_mem_cons, held]
          simp only [Option.mem_some_iff, forall_eq']
          rfl
        have less : steps ≤ clockScan := Nat.le_of_succ_le few
        rw [here]
        by_cases expired : slot.isExpired nowMs (some ttlMs) = true
        · by_cases stuck : Stuck now nowMs map.recovery slot
          · have look : RoomStep now nowMs size map []
                (map.setSlot map.sweep (slot.recoversAt now nowMs).2) := .refresh held
            have length : (map.setSlot map.sweep (slot.recoversAt now nowMs).2).slots.length =
                map.slots.length := List.length_set
            have window : ShardMap.sweepWindow steps
                { map.setSlot map.sweep (slot.recoversAt now nowMs).2 with sweep := map.sweep + 1 } =
                ShardMap.sweepWindow steps { map with sweep := map.sweep + 1 } := by
              rw [ShardMap.sweepWindow, ShardMap.sweepWindow]
              simp only [length]
            rw [sweepIdle_stuck out held expired stuck, and_iff_right fun _ => stuck, ← length]
            refine (@inductionHypothesis { map.setSlot map.sweep (slot.recoversAt now nowMs).2 with
              sweep := map.sweep + 1 } (look.statesKept kept) less out).trans ?_
            rw [window]
            apply stuck_look wholeAgain kept held stuck
            intro member
            exact mem_clockWindow_of_short (sweepWindow_returns inside few member) inside
          · refine iff_of_false (fun both => ?_) fun all => stuck (all.1.1 expired)
            exact (sweepIdle_shorter held expired stuck).ne both.1
        · rw [sweepIdle_fresh out held (by simpa using expired),
            and_iff_right fun true_expired => absurd true_expired expired]
          exact @inductionHypothesis { map with sweep := map.sweep + 1 } kept less out

/-- Making room fails exactly when there is none. -/
theorem makeRoom_error_iff (wholeAgain : WholeAgain S) (config : StoreConfig K)
    (kept : StatesKept quotaOf map) (within : map.slots.length ≤ config.perShardCap) (now : ℕ) :
    (∃ due, (map.makeRoom config now (millis now)).1 = .error due) ↔ NoRoom config map now := by
  have evicts := fun occupied => @evictOne_error_iff _ _ _ now (millis now) _ _ quotaOf wholeAgain
    (swept_statesKept config kept now) occupied config.idleTtlMs config.table (map.swept config now).2
  obtain ⟨handed, run⟩ := swept_roomRun config map now
  have shorter := run.length_le
  have sweeps : (map.swept config now).1.slots.length = map.slots.length ∧
      HandBlocked now (millis now) (map.swept config now).1 ↔
      (∀ ttlMs ∈ config.idleTtlMs, ExpiredStuck now (millis now) ttlMs (map.sweepWindow ttlSweep) map) ∧
        HandBlocked now (millis now) map := by
    rw [ShardMap.swept]
    cases config.idleTtlMs with
    | none => exact and_congr_left' (iff_of_true rfl fun _ member => by cases member)
    | some ttlMs =>
        simp only [Option.mem_some_iff, forall_eq']
        exact sweepIdle_keeps_iff wholeAgain kept ttlMs config.table (by decide) .zero
  have room : NoRoom config map now ↔ config.perShardCap ≤ map.slots.length ∧
      (map.swept config now).1.slots.length = map.slots.length ∧
      HandBlocked now (millis now) (map.swept config now).1 := by
    rw [sweeps]
    exact ⟨fun ⟨full, sweep, hand⟩ => ⟨full, sweep, hand⟩, fun ⟨full, sweep, hand⟩ => ⟨full, sweep, hand⟩⟩
  rw [makeRoom_eq, room]
  by_cases full : config.perShardCap ≤ (map.swept config now).1.slots.length
  · rw [if_pos full, evicts (lt_of_lt_of_le config.cap_pos full).ne']
    have same : (map.swept config now).1.slots.length = map.slots.length := by omega
    rw [and_iff_right (full.trans shorter), and_iff_right same]
  · rw [if_neg full]
    simp only [reduceCtorEq, exists_false, false_iff]
    rintro ⟨before, same, -⟩
    exact full (same ▸ before)

end Scans

end RateNet
