/-
Module: RateNet.Proofs.CounterBalance
Purpose: The counters balance. Making room counts every slot it takes once, as evicted or as expired, and
  every debt it records at most once for the slot that owed it: a slot is only picked when its debt is
  sure to be accepted, so none is counted and left where it is. The keys stored and not yet counted as
  gone are then the keys a shard holds, call after call. The counters are words of 64 bits, and a word
  of them is the true count modulo 2^64; no count exceeds the number of checks, so in a run of fewer
  than 2^64 checks the words are the counts.
Trusted boundary: none
Main exports: Reconciled, makeRoom_reconciled, Accounts, check_accounts, retainShard_counts, Balanced,
  call_balanced, run_balanced, CountedStore.run_cast, counters_balance,
  wrapped_counters_miss_checks
-/
import RateNet.Store.Counters
import RateNet.Proofs.RetainWalk
import RateNet.Proofs.RecoveryHints
import RateNet.Lib.Interleaving

namespace RateNet

/-!
### What making room counts
-/

section Tally

variable {K S : Type} [KeyState S] {now nowMs : ℕ} {size : TableSize} {map map₁ : ShardMap K S}

/-- The slots counted as gone. -/
def Reclaimed.gone (out : Reclaimed K) : ℕ := out.evicted + out.expired

/-- Every debt spilled is counted as recorded, and no more debts are counted than slots. -/
structure Reclaimed.Orderly (out : Reclaimed K) : Prop where
  spilled : out.overflowed ≤ out.remembered
  debts : out.remembered + out.forgotten ≤ out.gone

/-- The slots that left the shard are those counted as gone, and the counts stay orderly. -/
def Reconciled (map : ShardMap K S) (out : Reclaimed K) (result : ShardMap K S × Reclaimed K) : Prop :=
  result.1.slots.length + result.2.gone = map.slots.length + out.gone ∧ (out.Orderly → result.2.Orderly)

omit [KeyState S] in
theorem Reconciled.refl (map : ShardMap K S) (out : Reclaimed K) : Reconciled map out (map, out) :=
  ⟨rfl, id⟩

omit [KeyState S] in
theorem Reconciled.trans {out out₁ : Reclaimed K} {result : ShardMap K S × Reclaimed K}
    (first : Reconciled map out (map₁, out₁)) (second : Reconciled map₁ out₁ result) :
    Reconciled map out result :=
  ⟨second.1.trans first.1, fun orderly => second.2 (first.2 orderly)⟩

omit [KeyState S] in
/-- A shard with as many slots is as good to start from. -/
theorem Reconciled.of_length {out : Reclaimed K} {result : ShardMap K S × Reclaimed K}
    (same : map₁.slots.length = map.slots.length) (reconciled : Reconciled map₁ out result) :
    Reconciled map out result := by
  refine ⟨?_, reconciled.2⟩
  rw [← same]
  exact reconciled.1

/-- What evicting a slot may add to the counts: nothing, or one debt, and that recorded if it is
    spilled. -/
structure Noted (out out₁ : Reclaimed K) : Prop where
  evicted : out₁.evicted = out.evicted
  expired : out₁.expired = out.expired
  spilled : out₁.overflowed + out.remembered ≤ out₁.remembered + out.overflowed
  debts : out₁.remembered + out₁.forgotten ≤ out.remembered + out.forgotten + 1

theorem Noted.none (out : Reclaimed K) : Noted out out :=
  ⟨rfl, rfl, (Nat.add_comm _ _).le, Nat.le_succ _⟩

theorem Noted.count (out : Reclaimed K) (handover : Handover K) (recorded : Recorded) :
    Noted out (out.count handover recorded) := by
  cases recorded <;> constructor <;> simp only [Reclaimed.count] <;> omega

theorem evictAt_noted (map : ShardMap K S) (pos : ℕ) (recovered : Bool) (now nowMs : ℕ)
    (size : TableSize) (out : Reclaimed K) :
    Noted out (map.evictAt pos recovered now nowMs size out).2 := by
  unfold ShardMap.evictAt
  split
  · split
    · exact .none out
    · dsimp only
      split
      · exact .count out _ _
      · exact .none out
  · exact .none out

omit [KeyState S] in
/-- An evicted slot that is then counted once, as evicted or as expired, is accounted for. -/
theorem Noted.reconciled {out out₁ : Reclaimed K} {map₂ : ShardMap K S} (noted : Noted out out₁)
    (fewer : map₂.slots.length + 1 = map.slots.length) (out₂ : Reclaimed K)
    (counted : out₂.gone = out₁.gone + 1) (overflowed : out₂.overflowed = out₁.overflowed)
    (remembered : out₂.remembered = out₁.remembered) (forgotten : out₂.forgotten = out₁.forgotten) :
    Reconciled map out (map₂, out₂) := by
  obtain ⟨evicted, expired, spilled, debts⟩ := noted
  have before : out₁.gone = out.gone := by rw [Reclaimed.gone, evicted, expired, Reclaimed.gone]
  constructor
  · dsimp only
    omega
  · rintro ⟨spilled', debts'⟩
    constructor <;> dsimp only <;> omega

/-- The slot at `pos` goes when it is evicted. -/
def Goes (now nowMs : ℕ) (size : TableSize) (map : ShardMap K S) (candidate : ShardMap.Candidate) : Prop :=
  ∀ out, (map.evictAt candidate.1 candidate.2 now nowMs size out).1.slots.length + 1 = map.slots.length

theorem Recovered.goes {pos : ℕ} (found : Recovered now nowMs map map₁ pos) :
    Goes now nowMs size map₁ (pos, true) := by
  intro out
  obtain ⟨map₂, evicted, -, fewer⟩ := evictAt_recovered size found out
  obtain ⟨slot, held, recovered, rfl⟩ := found
  rw [evicted]
  exact fewer.trans List.length_set.symm

theorem Ready.goes {pos : ℕ} (ready : Ready nowMs map pos) : Goes now nowMs size map (pos, false) := by
  intro out
  obtain ⟨map₂, out₂, handed, evicted, -, fewer, -⟩ := evictAt_ready now size ready out
  rw [evicted]
  exact fewer

theorem Found.goes {candidate : ShardMap.Candidate} (found : Found now nowMs size map (some candidate) map₁) :
    Goes now nowMs size map₁ candidate := by
  cases found with
  | recovered run found => exact found.goes
  | owing run ready => exact ready.goes

theorem evictable_length (map : ShardMap K S) (pos now nowMs : ℕ) :
    (map.evictable pos now nowMs).2.slots.length = map.slots.length := by
  unfold ShardMap.evictable
  split
  · rfl
  · dsimp only
    split
    · exact List.length_set
    · split <;> exact List.length_set

/-- The idle sweep. -/
theorem sweepIdle_reconciled (ttlMs steps : ℕ) (map : ShardMap K S) (out : Reclaimed K) :
    Reconciled map out (ShardMap.sweepIdle now nowMs ttlMs size steps map out) := by
  induction steps generalizing map out with
  | zero => exact .refl map out
  | succ steps inductionHypothesis =>
      rw [ShardMap.sweepIdle]
      split
      · exact .refl map out
      · have restart : (if map.slots.length ≤ map.sweep then { map with sweep := 0 } else map).slots.length =
            map.slots.length := by
          split <;> rfl
        apply Reconciled.of_length restart
        generalize (if map.slots.length ≤ map.sweep then { map with sweep := 0 } else map) = map
        dsimp only
        have evict : ∀ (map₁ : ShardMap K S) (recovered : Bool), map₁.slots.length = map.slots.length →
            Goes now nowMs size map₁ (map.sweep, recovered) →
            let result := map₁.evictAt map.sweep recovered now nowMs size out
            Reconciled map out (ShardMap.sweepIdle now nowMs ttlMs size steps result.1
              { result.2 with expired := result.2.expired + 1 }) := by
          intro map₁ recovered same goes
          have noted := evictAt_noted map₁ map.sweep recovered now nowMs size out
          have step := noted.reconciled (goes out)
            { (map₁.evictAt map.sweep recovered now nowMs size out).2 with
              expired := (map₁.evictAt map.sweep recovered now nowMs size out).2.expired + 1 }
            (Nat.add_assoc _ _ 1).symm rfl rfl rfl
          exact (step.of_length same).trans (inductionHypothesis _ _)
        cases held : map.slots[map.sweep]? with
        | none => exact inductionHypothesis _ _
        | some slot =>
            split
            · rcases evictable_cases held now nowMs with ⟨map₁, answer, found⟩ |
                ⟨map₁, answer, rfl, ready⟩ | ⟨due, map₁, answer, rfl⟩
              · have goes : Goes now nowMs size map₁ (map.sweep, true) := found.goes
                have same := evictable_length map map.sweep now nowMs
                rw [answer] at same
                have cursor : map₁.sweep = map.sweep := by
                  obtain ⟨_, _, _, rfl⟩ := found
                  rfl
                simp only [answer, cursor, beq_self_eq_true]
                exact evict map₁ true same goes
              · have still : (Evictable.owing == Evictable.recovered) = false := rfl
                have cursor : (map.setSlot map.sweep (slot.recoversAt now nowMs).2).sweep =
                    map.sweep := rfl
                simp only [answer, cursor, still]
                exact evict _ false List.length_set ready.goes
              · simp only [answer]
                exact Reconciled.of_length List.length_set (inductionHypothesis _ _)
            · exact inductionHypothesis _ _

/-- The hand's first pass takes nothing. -/
theorem scanUnreferenced_length (now nowMs : ℕ) (ttlMs : Option ℕ) (window : List ℕ) (owing : Option ℕ)
    (earliest : ℕ) (map : ShardMap K S) :
    (ShardMap.scanUnreferenced now nowMs ttlMs window owing earliest map).2.slots.length =
      map.slots.length := by
  induction window generalizing owing earliest map with
  | nil => rfl
  | cons pos rest inductionHypothesis =>
      rw [ShardMap.scanUnreferenced]
      split
      · exact inductionHypothesis _ _ _
      · split
        · exact (inductionHypothesis _ _ _).trans List.length_set
        · have same := evictable_length map pos now nowMs
          generalize map.evictable pos now nowMs = answer at same
          rcases answer with ⟨_ | _ | due, map₁⟩
          · exact same
          · exact (inductionHypothesis _ _ _).trans same
          · exact (inductionHypothesis _ _ _).trans same

/-- Neither does the second. -/
theorem scanAny_length (now nowMs : ℕ) (window : List ℕ) (earliest : ℕ) (map : ShardMap K S) :
    (ShardMap.scanAny now nowMs window earliest map).2.slots.length = map.slots.length := by
  induction window generalizing earliest map with
  | nil => rfl
  | cons pos rest inductionHypothesis =>
      rw [ShardMap.scanAny]
      have same := evictable_length map pos now nowMs
      generalize map.evictable pos now nowMs = answer at same
      rcases answer with ⟨_ | _ | due, map₁⟩
      · exact same
      · exact same
      · exact (inductionHypothesis _ _).trans same

theorem finishEviction_reconciled {candidate : ShardMap.Candidate} (goes : Goes now nowMs size map candidate)
    (out : Reclaimed K) : Reconciled map out (map.finishEviction candidate now nowMs size out) := by
  have noted := evictAt_noted map candidate.1 candidate.2 now nowMs size out
  exact noted.reconciled (goes out)
    { (map.evictAt candidate.1 candidate.2 now nowMs size out).2 with
      evicted := (map.evictAt candidate.1 candidate.2 now nowMs size out).2.evicted + 1 }
    (Nat.add_right_comm _ 1 _) rfl rfl rfl

/-- The CLOCK hand. -/
theorem evictOne_reconciled (now nowMs : ℕ) (size : TableSize) (ttlMs : Option ℕ) (map : ShardMap K S)
    (out : Reclaimed K) : Reconciled map out (map.evictOne now nowMs ttlMs size out).2 := by
  rw [ShardMap.evictOne]
  split
  · exact .refl map out
  · dsimp only
    have first := scanUnreferenced_found now nowMs size ttlMs map.clockWindow none unknown map
      (fun _ member => by cases member)
    have same := scanUnreferenced_length now nowMs ttlMs map.clockWindow none unknown map
    generalize ShardMap.scanUnreferenced now nowMs ttlMs map.clockWindow none unknown map = scanned
      at first same
    rcases scanned with ⟨⟨candidate | candidate, earliest⟩, map₁⟩
    · have second := scanAny_found now nowMs size map.clockWindow earliest map₁
      have same' := scanAny_length now nowMs map.clockWindow earliest map₁
      dsimp only
      generalize ShardMap.scanAny now nowMs map.clockWindow earliest map₁ = scanned at second same'
      rcases scanned with ⟨⟨candidate | candidate, earliest'⟩, map₂⟩
      · exact Reconciled.of_length (same'.trans same) (.refl map₂ out)
      · exact Reconciled.of_length (same'.trans same) (finishEviction_reconciled second.goes out)
    · exact Reconciled.of_length same (finishEviction_reconciled first.goes out)

/-- Making room counts the slots it takes, whether or not it succeeds. -/
theorem makeRoom_reconciled (config : StoreConfig K) (map : ShardMap K S) (now nowMs : ℕ) :
    Reconciled map .zero (map.makeRoom config now nowMs).2 := by
  rw [ShardMap.makeRoom]
  split
  rename_i map₁ out₁ swept
  have sweep : Reconciled map .zero (map₁, out₁) := by
    rw [← swept]
    split
    · exact sweepIdle_reconciled _ _ map _
    · exact .refl map _
  split
  · exact sweep.trans (evictOne_reconciled _ _ _ _ map₁ out₁)
  · exact sweep

end Tally

/-!
### What a call counts
-/

section Sections

variable {K S : Type} [DecidableEq K] [KeyState S] {config : StoreConfig K} {map map' : ShardMap K S}

/-- The report of a check that took a shard from `map` to `map'`. -/
structure Accounts (map : ShardMap K S) (outcome : Outcome K) (map' : ShardMap K S) : Prop where
  keys : map'.slots.length + outcome.reclaimed.gone =
    map.slots.length + outcome.inserted.isSome.toNat
  orderly : outcome.reclaimed.Orderly
  refused : outcome.refused = true → outcome.decision.isAllow = false

omit [DecidableEq K] [KeyState S] in
theorem Accounts.plain (decision : Decision) (same : map'.slots.length = map.slots.length) :
    Accounts map (.plain decision) map' :=
  ⟨same, ⟨le_rfl, le_rfl⟩, fun refused => by cases refused⟩

theorem acquireStored_length (config : StoreConfig K) (map : ShardMap K S) (key : K) (n now : ℕ) :
    (map.acquireStored config key n now).2.slots.length = map.slots.length := by
  rw [ShardMap.acquireStored]
  split
  · rfl
  · split
    · rfl
    · exact List.length_set

omit [DecidableEq K] in
theorem store_length (config : StoreConfig K) (map : ShardMap K S) (key : K) (n now : ℕ) (state : S) :
    (map.store config key n now state).2.slots.length = map.slots.length + 1 :=
  List.length_append

theorem CheckEffect.accounts {key : K} {n now : ℕ} {makeState : ℕ → Option S} {outcome : Outcome K}
    (effect : CheckEffect config map key n now makeState outcome map') : Accounts map outcome map' := by
  obtain ⟨keys, orderly⟩ := makeRoom_reconciled config map now (millis now)
  have orderly := orderly ⟨le_rfl, le_rfl⟩
  cases effect with
  | found held => exact .plain _ (acquireStored_length config map key n now)
  | closed missed unmade => exact .plain _ rfl
  | refused missed made full => exact ⟨keys, orderly, fun _ => rfl⟩
  | @stored state missed made room =>
      refine ⟨?_, orderly, fun refused => by cases refused⟩
      have more := store_length config (map.makeRoom config now (millis now)).2.1 key n now state
      have keys : (map.makeRoom config now (millis now)).2.1.slots.length +
          (map.makeRoom config now (millis now)).2.2.gone = map.slots.length := keys
      dsimp only
      rw [more, Option.isSome_some, Bool.toNat_true]
      omega

/-- A check changes the shard that owns its key, and accounts for it. -/
theorem check_accounts (store : Store config S) (key : K) (n now : ℕ) (makeState : ℕ → Option S) :
    ∃ map', (store.check key n now makeState).2 = Function.update store (config.shardFor key) map' ∧
      Accounts (store (config.shardFor key)) (store.check key n now makeState).1 map' := by
  obtain ⟨map', changed, effect⟩ := check_effect store key n now makeState
  exact ⟨map', changed, effect.accounts⟩

omit [DecidableEq K] [KeyState S] in
/-- Removing a position takes a slot exactly when it answers one. -/
theorem removeAt_counts (map : ShardMap K S) (pos : ℕ) :
    (map.removeAt pos).2.slots.length + (if (map.removeAt pos).1.isSome then 1 else 0) =
      map.slots.length := by
  cases held : map.slots[pos]? with
  | none =>
      have missing : map.removeAt pos = (none, map) := by
        rw [ShardMap.removeAt, held]
        split
        · rename_i impossible
          cases impossible
        · rfl
      simp only [missing, Option.isSome_none, Bool.false_eq_true, if_false, Nat.add_zero]
  | some slot =>
      obtain ⟨lastSlot, -, removed⟩ := ShardMap.removeAt_eq held
      have taken : (map.removeAt pos).1.isSome = true := by rw [removed, Option.isSome_some]
      rw [if_pos taken]
      exact ShardMap.length_removeAt held

omit [DecidableEq K] in
/-- The walk of a shard counts the slots it takes. -/
theorem retainSlots_counts (now steps cursor : ℕ) (map : ShardMap K S) :
    (ShardMap.retainSlots now steps cursor map).2.slots.length +
      (ShardMap.retainSlots now steps cursor map).1 = map.slots.length := by
  induction steps generalizing cursor map with
  | zero => rfl
  | succ steps inductionHypothesis =>
      rw [ShardMap.retainSlots]
      split
      · exact inductionHypothesis _ map
      · rename_i slot held
        generalize KeyState.isFull slot.state now = answer
        rcases answer with ⟨full, state⟩
        have same : (map.setSlot (cursor - 1) { slot with state }).slots.length = map.slots.length :=
          List.length_set
        dsimp only
        split
        · have taken := removeAt_counts (map.setSlot (cursor - 1) { slot with state }) (cursor - 1)
          have rest := inductionHypothesis (cursor - 1)
            ((map.setSlot (cursor - 1) { slot with state }).removeAt (cursor - 1)).2
          dsimp only
          omega
        · exact (inductionHypothesis _ _).trans same

omit [DecidableEq K] in
theorem retainChunk_counts (map : ShardMap K S) (cursor now : ℕ) :
    (map.retainChunk cursor now).2.slots.length + (map.retainChunk cursor now).1.1 =
      map.slots.length := by
  rw [ShardMap.retainChunk]
  generalize min cursor map.slots.length = cursor
  have walked := retainSlots_counts now (cursor - (cursor - retainChunkSlots)) cursor map
  dsimp only
  generalize ShardMap.retainSlots now (cursor - (cursor - retainChunkSlots)) cursor map = result at walked ⊢
  split
  · exact walked
  · exact walked

omit [DecidableEq K] in
theorem retainShard_counts (now fuel cursor : ℕ) (map : ShardMap K S) :
    (ShardMap.retainShard now fuel cursor map).2.slots.length +
      (ShardMap.retainShard now fuel cursor map).1 = map.slots.length := by
  induction fuel generalizing cursor map with
  | zero => rfl
  | succ fuel inductionHypothesis =>
      have chunk := retainChunk_counts map cursor now
      rw [ShardMap.retainShard]
      generalize map.retainChunk cursor now = walked at chunk
      rcases walked with ⟨⟨removed, cursor'⟩, map₁⟩
      dsimp only at chunk ⊢
      split
      · exact chunk
      · have rest := inductionHypothesis cursor' map₁
        dsimp only
        omega

omit [KeyState S] in
/-- Removing a key takes a slot exactly when the shard holds one for it. -/
theorem removeSection_counts (config : StoreConfig K) (map : ShardMap K S) (key : K) (now : ℕ) :
    (map.removeSection config key now).2.slots.length + (if map.holds config key then 1 else 0) =
      map.slots.length := by
  rw [ShardMap.removeSection, ShardMap.holds]
  cases map.position (config.hasher key) key with
  | none => rfl
  | some pos => exact removeAt_counts map pos

theorem peekSection_length (map : ShardMap K S) (key : K) (now : ℕ) :
    (map.peekSection config key now).2.slots.length = map.slots.length := by
  rw [ShardMap.peekSection]
  split
  · rfl
  · split
    · rfl
    · exact List.length_set

theorem resetRead_length (config : StoreConfig K) (map : ShardMap K S) (key : K) (now : ℕ) :
    (map.resetRead config key now).2.slots.length = map.slots.length := by
  rw [ShardMap.resetRead]
  split
  · rfl
  · split
    · rfl
    · exact List.length_set

/-- A reset changes the shard that owns its key, and no slot comes or goes. -/
theorem reset_length (store : Store config S) (key : K) (now : ℕ) :
    ∃ map', (store.reset key now).2 = Function.update store (config.shardFor key) map' ∧
      map'.slots.length = (store (config.shardFor key)).slots.length := by
  rw [Store.reset]
  dsimp only
  have read := resetRead_length config (store (config.shardFor key)) key now
  generalize (store (config.shardFor key)).resetRead config key now = readSection at read
  rcases readSection with ⟨_ | _, map₁⟩
  · exact ⟨_, rfl, rfl⟩
  · exact ⟨map₁, rfl, read⟩

end Sections

/-!
### Every call keeps the balance
-/

/-- What a check adds to the true counts. -/
structure Counters.Adds {K : Type} (counters : Counters ℕ) (outcome : Outcome K)
    (counters' : Counters ℕ) : Prop where
  allowed : counters'.allowed = counters.allowed + outcome.decision.isAllow.toNat
  denied : counters'.denied + outcome.decision.isAllow.toNat = counters.denied + 1
  inserted : counters'.inserted = counters.inserted + outcome.inserted.isSome.toNat
  evicted : counters'.evicted = counters.evicted + outcome.reclaimed.evicted
  expired : counters'.expired = counters.expired + outcome.reclaimed.expired
  removed : counters'.removed = counters.removed
  remembered : counters'.remembered = counters.remembered + outcome.reclaimed.remembered
  overflowed : counters'.overflowed = counters.overflowed + outcome.reclaimed.overflowed
  forgotten : counters'.forgotten = counters.forgotten + outcome.reclaimed.forgotten
  refused : counters'.refused = counters.refused + outcome.refused.toNat

theorem Counters.checked_adds {K : Type} (counters : Counters ℕ) (outcome : Outcome K) :
    counters.Adds outcome (counters.checked outcome) := by
  obtain ⟨decision, inserted, refused, reclaimed⟩ := outcome
  rw [Counters.checked, Counters.onDecision]
  cases h : decision.isAllow <;> cases refused <;> rcases inserted with _ | _ | _ <;>
    constructor <;> first | rfl | (rw [h]; rfl)

/-- The true counts of a shard balance: the keys stored are those gone and those still there, every debt
    counted belongs to a key counted as gone, and every key counted was counted at a check. -/
structure Balanced {K S : Type} (map : ShardMap K S) (counters : Counters ℕ) : Prop where
  keys : counters.inserted =
    counters.evicted + counters.expired + counters.removed + map.slots.length
  spilled : counters.overflowed ≤ counters.remembered
  debts : counters.remembered + counters.forgotten ≤ counters.evicted + counters.expired
  refused : counters.refused ≤ counters.denied
  stored : counters.inserted ≤ counters.allowed + counters.denied

namespace Balanced

variable {K S : Type} {map map' : ShardMap K S} {counters : Counters ℕ}

theorem new : Balanced (.new : ShardMap K S) .new := ⟨rfl, le_rfl, le_rfl, le_rfl, le_rfl⟩

theorem of_length (balanced : Balanced map counters) (same : map'.slots.length = map.slots.length) :
    Balanced map' counters := by
  refine { balanced with keys := ?_ }
  rw [same]
  exact balanced.keys

theorem checked {outcome : Outcome K} (balanced : Balanced map counters)
    (accounts : Accounts map outcome map') : Balanced map' (counters.checked outcome) := by
  obtain ⟨keys, spilled, debts, refused, stored⟩ := balanced
  obtain ⟨keys', ⟨spilled', debts'⟩, turnedAway⟩ := accounts
  have adds := counters.checked_adds outcome
  have denied : outcome.refused.toNat + outcome.decision.isAllow.toNat ≤ 1 := by
    cases refusal : outcome.refused with
    | false => exact (Nat.zero_add _).trans_le (Bool.toNat_le _)
    | true => rw [turnedAway refusal]; rfl
  have one : outcome.inserted.isSome.toNat ≤ 1 := Bool.toNat_le _
  rw [Reclaimed.gone] at keys' debts'
  constructor
  · rw [adds.inserted, adds.evicted, adds.expired, adds.removed]
    omega
  · rw [adds.overflowed, adds.remembered]
    omega
  · rw [adds.remembered, adds.forgotten, adds.evicted, adds.expired]
    omega
  · have := adds.denied
    rw [adds.refused]
    omega
  · have := adds.denied
    rw [adds.inserted, adds.allowed]
    omega

theorem onRemoved {count : ℕ} (balanced : Balanced map counters)
    (fewer : map'.slots.length + count = map.slots.length) :
    Balanced map' (counters.onRemoved count) := by
  refine { balanced with keys := ?_ }
  have keys := balanced.keys
  simp only [Counters.onRemoved, Nat.cast_id]
  omega

end Balanced

section Calls

variable {K S : Type} [DecidableEq K] [KeyState S] {config : StoreConfig K}

omit [DecidableEq K] [KeyState S] in
theorem balanced_update {shards : Store config S} {counters : Fin config.shardCount → Counters ℕ}
    (balanced : ∀ j, Balanced (shards j) (counters j)) (i : Fin config.shardCount)
    {map' : ShardMap K S} {counters' : Counters ℕ} (here : Balanced map' counters')
    (j : Fin config.shardCount) :
    Balanced (Function.update shards i map' j) (Function.update counters i counters' j) := by
  by_cases same : j = i
  · subst same
    rw [Function.update_self, Function.update_self]
    exact here
  · rw [Function.update_of_ne same, Function.update_of_ne same]
    exact balanced j

omit [DecidableEq K] [KeyState S] in
/-- A shard whose slots neither come nor go needs nothing counted. -/
theorem balanced_touched {shards : Store config S} {counters : Fin config.shardCount → Counters ℕ}
    (balanced : ∀ j, Balanced (shards j) (counters j)) {i : Fin config.shardCount}
    {map' : ShardMap K S} (same : map'.slots.length = (shards i).slots.length)
    (j : Fin config.shardCount) : Balanced (Function.update shards i map' j) (counters j) := by
  have kept := balanced_update balanced i ((balanced i).of_length same) j
  rw [Function.update_eq_self] at kept
  exact kept

/-- Every call keeps every shard's counts in balance. -/
theorem call_balanced {store : CountedStore config S ℕ}
    (balanced : ∀ i, Balanced (store.shards i) (store.counters i)) (algorithm : Algorithm)
    (quotaOf : K → Quota) (call : Call K) (j : Fin config.shardCount) :
    Balanced ((store.call algorithm quotaOf call).shards j)
      ((store.call algorithm quotaOf call).counters j) := by
  rcases call with ⟨request, now⟩
  cases request with
  | check key n =>
      obtain ⟨map', changed, accounts⟩ :=
        check_accounts store.shards key n now (KeyState.create (quotaOf key))
      have shards : (store.call algorithm quotaOf ⟨.check key n, now⟩).shards =
          Function.update store.shards (config.shardFor key) map' := changed
      rw [shards]
      exact balanced_update balanced _ ((balanced _).checked accounts) j
  | peek key => exact balanced_touched balanced (peekSection_length _ key now) j
  | reset key =>
      obtain ⟨map', changed, same⟩ := reset_length store.shards key now
      have shards : (store.call algorithm quotaOf ⟨.reset key, now⟩).shards =
          Function.update store.shards (config.shardFor key) map' := changed
      rw [shards]
      exact balanced_touched balanced same j
  | remove key =>
      have fewer := removeSection_counts config (store.shards (config.shardFor key)) key now
      exact balanced_update balanced _ ((balanced _).onRemoved fewer) j
  | clear => exact (balanced j).onRemoved (Nat.zero_add _)
  | retainRecent =>
      have walked := (retainRecent_eq store.shards now).1 j
      have shard : (store.call algorithm quotaOf ⟨.retainRecent, now⟩).shards j =
          (ShardMap.retainShard now ((store.shards j).slots.length + 1) u64Max (store.shards j)).2 := walked
      rw [shard]
      exact (balanced j).onRemoved (retainShard_counts now _ _ _)
  | shrinkToFit => exact (balanced j).of_length rfl

/-- The checks a set of counters has counted. -/
def Counters.decisions (counters : Counters ℕ) : ℕ := counters.allowed + counters.denied

omit [DecidableEq K] in
theorem Counters.decisions_checked (counters : Counters ℕ) (outcome : Outcome K) :
    (counters.checked outcome).decisions = counters.decisions + 1 := by
  have adds := counters.checked_adds outcome
  have denied := adds.denied
  rw [Counters.decisions, Counters.decisions, adds.allowed]
  omega

theorem Counters.decisions_onRemoved (counters : Counters ℕ) (count : ℕ) :
    (counters.onRemoved count).decisions = counters.decisions := rfl

/-- Every check is counted once, at the shard that owns its key, and nothing else is counted as one. -/
theorem call_decisions (store : CountedStore config S ℕ) (algorithm : Algorithm) (quotaOf : K → Quota)
    (call : Call K) : ∑ i, ((store.call algorithm quotaOf call).counters i).decisions =
      ∑ i, (store.counters i).decisions + (if call.isCheck then 1 else 0) := by
  rcases call with ⟨request, now⟩
  cases request with
  | check key n =>
      have counted := Counters.decisions_checked (store.counters (config.shardFor key))
        (store.shards.check key n now (KeyState.create (quotaOf key))).1
      have moved := Interleaving.sum_update_add (fun _ => Counters.decisions) store.counters
        (config.shardFor key) ((store.counters (config.shardFor key)).checked
          (store.shards.check key n now (KeyState.create (quotaOf key))).1)
      have counters : (store.call algorithm quotaOf ⟨.check key n, now⟩).counters =
          Function.update store.counters (config.shardFor key)
            ((store.counters (config.shardFor key)).checked
              (store.shards.check key n now (KeyState.create (quotaOf key))).1) := rfl
      have check : (Call.mk (.check key n) now).isCheck = true := rfl
      rw [counters, check, if_pos rfl]
      omega
  | peek key => rfl
  | reset key => rfl
  | remove key =>
      have moved := Interleaving.sum_update_add (fun _ => Counters.decisions) store.counters
        (config.shardFor key) ((store.counters (config.shardFor key)).onRemoved
          (if (store.shards (config.shardFor key)).holds config key then 1 else 0))
      rw [Counters.decisions_onRemoved] at moved
      exact Nat.add_right_cancel moved
  | clear => exact Finset.sum_congr rfl fun i _ => Counters.decisions_onRemoved (store.counters i) _
  | retainRecent => exact Finset.sum_congr rfl fun i _ => Counters.decisions_onRemoved (store.counters i) _
  | shrinkToFit => rfl

theorem CountedStore.run_snoc {N : Type} [AddCommMonoidWithOne N] (algorithm : Algorithm)
    (quotaOf : K → Quota) (store : CountedStore config S N) (calls : List (Call K)) (call : Call K) :
    store.run algorithm quotaOf (calls ++ [call]) =
      (store.run algorithm quotaOf calls).call algorithm quotaOf call := by
  rw [CountedStore.run, List.foldl_append]
  rfl

/-- Counting changes nothing in the store. -/
theorem CountedStore.run_shards {N : Type} [AddCommMonoidWithOne N] (algorithm : Algorithm)
    (quotaOf : K → Quota) (store : CountedStore config S N) (calls : List (Call K)) :
    (store.run algorithm quotaOf calls).shards = store.shards.run algorithm quotaOf calls := by
  induction calls using List.reverseRecOn with
  | nil => rfl
  | append_singleton calls call inductionHypothesis =>
      rw [CountedStore.run_snoc, Store.run_snoc, ← inductionHypothesis]
      rfl

/-- After every run, every shard's true counts balance and every check has been counted. -/
theorem run_balanced (config : StoreConfig K) (algorithm : Algorithm) (quotaOf : K → Quota)
    (calls : List (Call K)) :
    let store := CountedStore.run algorithm quotaOf (.new : CountedStore config S ℕ) calls
    (∀ i, Balanced (store.shards i) (store.counters i)) ∧
      ∑ i, (store.counters i).decisions = calls.countP Call.isCheck := by
  induction calls using List.reverseRecOn with
  | nil => exact ⟨fun _ => .new, Finset.sum_const_zero⟩
  | append_singleton calls call inductionHypothesis =>
      obtain ⟨balanced, decisions⟩ := inductionHypothesis
      rw [CountedStore.run_snoc]
      refine ⟨call_balanced balanced algorithm quotaOf call, ?_⟩
      rw [call_decisions, decisions, List.countP_append, List.countP_singleton]

end Calls

/-!
### The words that hold the counts
-/

namespace Counters

variable {K : Type} (N : Type) [AddCommMonoidWithOne N]

/-- The counts as the words of `N` hold them. -/
def cast (counters : Counters ℕ) : Counters N where
  allowed := counters.allowed
  denied := counters.denied
  inserted := counters.inserted
  evicted := counters.evicted
  expired := counters.expired
  removed := counters.removed
  remembered := counters.remembered
  restored := counters.restored
  overflowed := counters.overflowed
  forgotten := counters.forgotten
  refused := counters.refused

theorem cast_new : (new : Counters ℕ).cast N = new := by simp only [cast, new, Nat.cast_zero]

theorem cast_onDecision (counters : Counters ℕ) (decision : Decision) :
    (counters.onDecision decision).cast N = (counters.cast N).onDecision decision := by
  unfold onDecision
  split <;> simp only [cast, Nat.cast_add, Nat.cast_one]

theorem cast_onInserted (counters : Counters ℕ) (restored : Bool) :
    (counters.onInserted restored).cast N = (counters.cast N).onInserted restored := by
  cases restored <;> simp [onInserted, cast]

theorem cast_onReclaimed (counters : Counters ℕ) (reclaimed : Reclaimed K) :
    (counters.onReclaimed reclaimed).cast N = (counters.cast N).onReclaimed reclaimed := by
  simp only [onReclaimed, cast, Nat.cast_add, Nat.cast_id]

theorem cast_onRefused (counters : Counters ℕ) :
    counters.onRefused.cast N = (counters.cast N).onRefused := by
  simp only [onRefused, cast, Nat.cast_add, Nat.cast_one]

theorem cast_onRemoved (counters : Counters ℕ) (count : ℕ) :
    (counters.onRemoved count).cast N = (counters.cast N).onRemoved count := by
  simp only [onRemoved, cast, Nat.cast_add, Nat.cast_id]

theorem cast_checked (counters : Counters ℕ) (outcome : Outcome K) :
    (counters.checked outcome).cast N = (counters.cast N).checked outcome := by
  obtain ⟨decision, inserted, refused, reclaimed⟩ := outcome
  simp only [checked]
  rw [cast_onDecision]
  cases refused <;> cases inserted <;>
    simp only [Option.elim_none, Option.elim_some, Bool.false_eq_true, if_true, if_false,
      cast_onInserted, cast_onRefused, cast_onReclaimed]

end Counters

section Words

variable {K S : Type} [DecidableEq K] [KeyState S] {config : StoreConfig K}
variable (N : Type) [AddCommMonoidWithOne N]

def Metrics.cast (metrics : Metrics ℕ) : Metrics N where
  allowed := metrics.allowed
  denied := metrics.denied
  keysInserted := metrics.keysInserted
  keysEvicted := metrics.keysEvicted
  keysExpired := metrics.keysExpired
  keysRemoved := metrics.keysRemoved
  keysRemembered := metrics.keysRemembered
  keysRestored := metrics.keysRestored
  debtsOverflowed := metrics.debtsOverflowed
  debtsForgotten := metrics.debtsForgotten
  keysRefused := metrics.keysRefused

namespace CountedStore

def cast (store : CountedStore config S ℕ) : CountedStore config S N :=
  { shards := store.shards, counters := fun i => (store.counters i).cast N }

omit [DecidableEq K] [KeyState S] in
theorem cast_update (counters : Fin config.shardCount → Counters ℕ) (i : Fin config.shardCount)
    (here : Counters ℕ) : (fun j => (Function.update counters i here j).cast N) =
      Function.update (fun j => (counters j).cast N) i (here.cast N) :=
  Function.comp_update (Counters.cast N) counters i here

theorem cast_call (algorithm : Algorithm) (quotaOf : K → Quota) (store : CountedStore config S ℕ)
    (call : Call K) : (store.call algorithm quotaOf call).cast N =
      (store.cast N).call algorithm quotaOf call := by
  have counters : (fun i => (store.countersAfter quotaOf call i).cast N) =
      (store.cast N).countersAfter quotaOf call := by
    rcases call with ⟨request, now⟩
    cases request with
    | check key n =>
        simp only [countersAfter]
        rw [cast_update, Counters.cast_checked]
        rfl
    | remove key =>
        simp only [countersAfter]
        rw [cast_update, Counters.cast_onRemoved]
        rfl
    | clear => exact funext fun i => Counters.cast_onRemoved N _ _
    | retainRecent => exact funext fun i => Counters.cast_onRemoved N _ _
    | peek key => rfl
    | reset key => rfl
    | shrinkToFit => rfl
  exact congrArg (CountedStore.mk _) counters

/-- The words after a run are the true counts, as the words hold them. -/
theorem run_cast (algorithm : Algorithm) (quotaOf : K → Quota) (calls : List (Call K)) :
    run algorithm quotaOf (.new : CountedStore config S N) calls =
      (run algorithm quotaOf (.new : CountedStore config S ℕ) calls).cast N := by
  induction calls using List.reverseRecOn with
  | nil =>
      have counters : (fun _ => (Counters.new : Counters N)) =
          fun (_ : Fin config.shardCount) => (Counters.new : Counters ℕ).cast N :=
        funext fun _ => (Counters.cast_new N).symm
      rw [run, run, List.foldl_nil, List.foldl_nil, new, new, cast, counters]
  | append_singleton calls call inductionHypothesis =>
      rw [run_snoc, run_snoc, inductionHypothesis, cast_call]

omit [DecidableEq K] [KeyState S] in
theorem metrics_cast (store : CountedStore config S ℕ) : (store.cast N).metrics = store.metrics.cast N := by
  simp only [metrics, cast, Counters.cast, Metrics.cast, Nat.cast_sum]

end CountedStore

end Words

section Totals

variable {K S : Type} [DecidableEq K] [KeyState S]

/-- The true counts of a store balance, and none exceeds the number of checks. -/
structure Metrics.Balanced (metrics : Metrics ℕ) (checks len : ℕ) : Prop where
  keys : metrics.keysInserted =
    metrics.keysEvicted + metrics.keysExpired + metrics.keysRemoved + len
  decided : metrics.allowed + metrics.denied = checks
  spilled : metrics.debtsOverflowed ≤ metrics.keysRemembered
  debts : metrics.keysRemembered + metrics.debtsForgotten ≤ metrics.keysEvicted + metrics.keysExpired
  refused : metrics.keysRefused ≤ metrics.denied
  stored : metrics.keysInserted ≤ checks

theorem metrics_balanced (config : StoreConfig K) (algorithm : Algorithm) (quotaOf : K → Quota)
    (calls : List (Call K)) :
    (CountedStore.run algorithm quotaOf (.new : CountedStore config S ℕ) calls).metrics.Balanced
      (calls.countP Call.isCheck) (Store.run algorithm quotaOf (.new : Store config S) calls).len := by
  obtain ⟨balanced, decisions⟩ := run_balanced (S := S) config algorithm quotaOf calls
  have shards := CountedStore.run_shards algorithm quotaOf (.new : CountedStore config S ℕ) calls
  generalize CountedStore.run algorithm quotaOf (.new : CountedStore config S ℕ) calls = store
    at balanced decisions shards ⊢
  simp only [Counters.decisions, Finset.sum_add_distrib] at decisions
  constructor
  · have keys := Finset.sum_congr (rfl : Finset.univ = Finset.univ) fun i _ => (balanced i).keys
    simp only [Finset.sum_add_distrib] at keys
    rw [shards] at keys
    exact keys
  · exact decisions
  · exact Finset.sum_le_sum fun i (_ : i ∈ Finset.univ) => (balanced i).spilled
  · have debts := Finset.sum_le_sum fun i (_ : i ∈ Finset.univ) => (balanced i).debts
    simp only [Finset.sum_add_distrib] at debts
    exact debts
  · exact Finset.sum_le_sum fun i (_ : i ∈ Finset.univ) => (balanced i).refused
  · have stored := Finset.sum_le_sum fun i (_ : i ∈ Finset.univ) => (balanced i).stored
    simp only [Finset.sum_add_distrib] at stored
    rw [decisions] at stored
    exact stored

theorem toNat_word {count : ℕ} (fits : count < 2 ^ 64) : (count : BitVec 64).toNat = count := by
  rw [BitVec.natCast_eq_ofNat, BitVec.toNat_ofNat, Nat.mod_eq_of_lt fits]

/-- After every run of calls the counters balance as words of 64 bits, and in a run of fewer than 2^64
    checks they balance as numbers. -/
theorem counters_balance (config : StoreConfig K) (algorithm : Algorithm) (quotaOf : K → Quota)
    (calls : List (Call K)) :
    let metrics := (CountedStore.run algorithm quotaOf (.new : CountedStore config S (BitVec 64)) calls).metrics
    let len := (Store.run algorithm quotaOf (.new : Store config S) calls).len
    let checks := calls.countP Call.isCheck
    (metrics.keysInserted - metrics.keysEvicted - metrics.keysExpired - metrics.keysRemoved = len ∧
      metrics.allowed + metrics.denied = checks) ∧
    (checks < 2 ^ 64 →
      metrics.keysInserted.toNat =
        metrics.keysEvicted.toNat + metrics.keysExpired.toNat + metrics.keysRemoved.toNat + len ∧
      metrics.allowed.toNat + metrics.denied.toNat = checks ∧
      metrics.debtsOverflowed.toNat ≤ metrics.keysRemembered.toNat ∧
      metrics.keysRemembered.toNat + metrics.debtsForgotten.toNat ≤
        metrics.keysEvicted.toNat + metrics.keysExpired.toNat ∧
      metrics.keysRefused.toNat ≤ metrics.denied.toNat) := by
  intro metrics len checks
  obtain ⟨keys, decisions, spilled, debts, refused, stored⟩ :=
    metrics_balanced (S := S) config algorithm quotaOf calls
  have words : metrics =
      (CountedStore.run algorithm quotaOf (.new : CountedStore config S ℕ) calls).metrics.cast (BitVec 64) := by
    rw [← CountedStore.metrics_cast, ← CountedStore.run_cast]
  generalize (CountedStore.run algorithm quotaOf (.new : CountedStore config S ℕ) calls).metrics = counts
    at keys decisions spilled debts refused stored words
  rw [words]
  refine ⟨⟨?_, ?_⟩, ?_⟩
  · simp only [Metrics.cast, keys, Nat.cast_add]
    ring
  · simp only [Metrics.cast, ← Nat.cast_add, decisions]
    rfl
  · intro few
    have few : calls.countP Call.isCheck < 2 ^ 64 := few
    simp only [Metrics.cast]
    repeat rw [toNat_word (by omega)]
    exact ⟨keys, decisions, spilled, debts, refused⟩

end Totals

/-- Two keys checked at a shard with room for one, the second after the first has recovered: two keys
    stored, one evicted, one left. -/
theorem counters_balance_of_two_keys :
    let quotaOf := fun _ : ℕ => Quota.perSecond 1 (by decide)
    let calls : List (Call ℕ) := [⟨.check 7 1, 0⟩, ⟨.check 8 1, 2000000000⟩]
    let metrics := (CountedStore.run .leakyBucket quotaOf
      (.new : CountedStore oneKeyStore Gcra (BitVec 64)) calls).metrics
    calls.countP Call.isCheck = 2 ∧ metrics.keysEvicted = 1 ∧
      metrics.keysInserted.toNat =
        metrics.keysEvicted.toNat + metrics.keysExpired.toNat + metrics.keysRemoved.toNat +
          (Store.run .leakyBucket quotaOf (.new : Store oneKeyStore Gcra) calls).len ∧
      metrics.allowed.toNat + metrics.denied.toNat = 2 := by
  have evicted : (CountedStore.run .leakyBucket (fun _ : ℕ => Quota.perSecond 1 (by decide))
      (.new : CountedStore oneKeyStore Gcra (BitVec 64))
      [⟨.check 7 1, 0⟩, ⟨.check 8 1, 2000000000⟩]).metrics.keysEvicted = 1 := by decide +kernel
  intro quotaOf calls metrics
  obtain ⟨keys, checks, -⟩ := (counters_balance (S := Gcra) oneKeyStore .leakyBucket quotaOf calls).2
    (by decide)
  exact ⟨rfl, evicted, keys, checks⟩

/-!
### Counters that have wrapped
-/

/-- A quota that admits nothing. -/
def nothingQuota : Quota := Quota.perSecond 0 (Nat.zero_le _)

/-- A check of one unit against a quota that admits nothing is counted as denied and leaves the store
    as it was. -/
theorem call_nothing {N : Type} [AddCommMonoidWithOne N]
    (counters : Fin oneKeyStore.shardCount → Counters N) :
    CountedStore.call .fixedWindow (fun _ => nothingQuota)
        ({ shards := .new, counters } : CountedStore oneKeyStore FixedWindow N) ⟨.check 7 1, 0⟩ =
      { shards := .new
        counters := Function.update counters (oneKeyStore.shardFor 7)
          ((counters (oneKeyStore.shardFor 7)).checked
            (.plain (.deny durationMax) : Outcome ℕ)) } := rfl

theorem run_nothing (count : ℕ) :
    CountedStore.run .fixedWindow (fun _ => nothingQuota)
        (.new : CountedStore oneKeyStore FixedWindow (BitVec 64)) (List.replicate count ⟨.check 7 1, 0⟩) =
      { shards := .new
        counters := Function.update (fun _ => .new) (oneKeyStore.shardFor 7)
          { (.new : Counters (BitVec 64)) with denied := count } } := by
  induction count with
  | zero =>
      rw [List.replicate_zero, Nat.cast_zero]
      exact congrArg (CountedStore.mk _) (Function.update_eq_self _ _).symm
  | succ count inductionHypothesis =>
      rw [List.replicate_succ', CountedStore.run_snoc, inductionHypothesis, call_nothing,
        Function.update_self, Function.update_idem]
      have counted : Counters.checked { (.new : Counters (BitVec 64)) with denied := count }
          (.plain (.deny durationMax) : Outcome ℕ) =
            { (.new : Counters (BitVec 64)) with denied := (count + 1 : ℕ) } := by
        rw [Nat.cast_add, Nat.cast_one]
        rfl
      rw [counted]

/-- After 2^64 checks of a key that is always denied the counters read as they did before the first: no
    check allowed, none denied. -/
theorem wrapped_counters_miss_checks :
    let calls : List (Call ℕ) := List.replicate (2 ^ 64) ⟨.check 7 1, 0⟩
    let metrics := (CountedStore.run .fixedWindow (fun _ => nothingQuota)
      (.new : CountedStore oneKeyStore FixedWindow (BitVec 64)) calls).metrics
    calls.countP Call.isCheck = 2 ^ 64 ∧ metrics.allowed.toNat + metrics.denied.toNat = 0 := by
  have wrapped : ((2 ^ 64 : ℕ) : BitVec 64) = 0 := by
    rw [BitVec.natCast_eq_ofNat]
    rfl
  intro calls metrics
  constructor
  · exact List.countP_replicate.trans (if_pos rfl)
  · have blank : metrics = (CountedStore.new : CountedStore oneKeyStore FixedWindow (BitVec 64)).metrics := by
      have counted := run_nothing (2 ^ 64)
      rw [wrapped] at counted
      exact congrArg CountedStore.metrics (counted.trans
        (congrArg (CountedStore.mk _) (Function.update_eq_self _ _)))
    rw [blank]
    decide +kernel

end RateNet
