/-
Module: RateNet.Proofs.LockDiscipline
Purpose: What threads hold, see and know while they work on the locked store. A shard is shared or written,
  never both. While a thread shares a shard the others that do only mark slots and spend from states, so
  what it looked up stays where it was, and what it knows of a state it is spending from survives. The
  shard the threads see differs from the sequential store's in the marks of checks under way, and in its
  idle stamps if it keeps any.
Trusted boundary: none
Main exports: AtomicAcquire.gcra, SlotShown, ShardShown, Restamped, LockPc.shares, LockPc.owns,
  LockPc.touched, LockPc.Knows, ReaderStep, LockPc.Knows.stable, Locked
-/
import RateNet.Proofs.GcraInterleaving
import RateNet.Proofs.RetainWalk
import RateNet.Store.Locks

namespace RateNet

open Interleaving Linearization

/-!
### The leaky bucket's own steps
-/

namespace GcraCall

variable {call : GcraCall} {p : GcraParams} {tat tat' : ℕ} {pc pc' : GcraPc}

/-- What a call of `check_n_in` knows where it is, whatever the word holds by now. -/
def OnItsWay (p : GcraParams) (call : GcraCall) : GcraPc → Prop
  | .entry => True
  | .load => call.afterGuards p = .load
  | .swap current newTat => call.afterGuards p = .load ∧
      p.attempt call.n (nanos call.now) (p.intervalsAt (nanos call.now)) current = .swap newTat
  | .returned _ => False

theorem afterGuards_cases (p : GcraParams) (call : GcraCall) :
    call.afterGuards p = .load ∨
      ∃ decision, call.afterGuards p = .returned decision ∧
        ∀ tat, p.checkNIn tat call.n call.now = (decision, tat) := by
  by_cases zero : call.n = 0
  · right
    refine ⟨.allow, if_pos zero, fun tat => ?_⟩
    rw [GcraParams.checkNIn, if_pos zero]
  · by_cases shut : p.closed ∨ call.n - 1 > p.tolerance
    · right
      refine ⟨.deny durationMax, (if_neg zero).trans (if_pos shut), fun tat => ?_⟩
      rw [GcraParams.checkNIn, if_neg zero, if_pos shut]
    · exact Or.inl ((if_neg zero).trans (if_neg shut))

/-- Past its guards a call does what one attempt on the word says. -/
theorem checkNIn_of_afterGuards (tat : ℕ) (passed : call.afterGuards p = .load) :
    p.checkNIn tat call.n call.now =
      match p.attempt call.n (nanos call.now) (p.intervalsAt (nanos call.now)) tat with
      | .swap newTat => (.allow, newTat)
      | .refuse retryAfter => (.deny retryAfter, tat) := by
  unfold afterGuards at passed
  split at passed
  · cases passed
  · split at passed
    · cases passed
    · rename_i some_asked opened
      exact (if_neg some_asked).trans (if_neg opened)

/-- A call that has passed the guards and loads the word either goes on to swap it or returns what a check
    of the loaded word answers. -/
theorem afterLoad_cases (tat : ℕ) (passed : call.afterGuards p = .load) :
    (∃ newTat, call.afterLoad p tat = .swap tat newTat ∧
        p.attempt call.n (nanos call.now) (p.intervalsAt (nanos call.now)) tat = .swap newTat) ∨
      ∃ decision, call.afterLoad p tat = .returned decision ∧
        p.checkNIn tat call.n call.now = (decision, tat) := by
  rw [checkNIn_of_afterGuards tat passed, afterLoad]
  cases p.attempt call.n (nanos call.now) (p.intervalsAt (nanos call.now)) tat with
  | swap newTat => exact Or.inl ⟨newTat, rfl, rfl⟩
  | refuse retryAfter => exact Or.inr ⟨_, rfl, rfl⟩

/-- Until it returns a call only moves along. -/
theorem OnItsWay.step (own : call.OnItsWay p pc) (step : call.Advance p tat pc tat' pc')
    (goes_on : ∀ decision, pc' ≠ .returned decision) : tat' = tat ∧ call.OnItsWay p pc' := by
  cases step with
  | guards =>
      rcases afterGuards_cases p call with passed | ⟨decision, returned, -⟩
      · rw [passed]
        exact ⟨rfl, passed⟩
      · exact absurd returned (goes_on decision)
  | load =>
      rcases afterLoad_cases tat own with ⟨newTat, next, attempted⟩ | ⟨decision, returned, -⟩
      · rw [next]
        exact ⟨rfl, own, attempted⟩
      · exact absurd returned (goes_on decision)
  | swapped => exact absurd rfl (goes_on .allow)
  | failed => exact ⟨rfl, own.1⟩

/-- The step that returns computes a check of the word as it stands. -/
theorem OnItsWay.returned {decision : Decision} (own : call.OnItsWay p pc)
    (step : call.Advance p tat pc tat' (.returned decision)) :
    p.checkNIn tat call.n call.now = (decision, tat') := by
  generalize target : GcraPc.returned decision = pc' at step
  cases step with
  | guards =>
      rcases afterGuards_cases p call with passed | ⟨decision', returned, checked⟩
      · rw [passed] at target
        cases target
      · rw [returned] at target
        obtain rfl := GcraPc.returned.inj target
        exact checked tat
  | load =>
      rcases afterLoad_cases tat own with ⟨newTat, next, -⟩ | ⟨decision', returned, checked⟩
      · rw [next] at target
        cases target
      · rw [returned] at target
        obtain rfl := GcraPc.returned.inj target
        exact checked
  | swapped =>
      obtain rfl := GcraPc.returned.inj target
      rw [checkNIn_of_afterGuards tat own.1, own.2]
  | failed => cases target

end GcraCall

/-- A silent step of `check_n_in` on a key's word. -/
def GcraPc.Silent (n now : ℕ) (g : Gcra) (pc pc' : GcraPc) : Prop :=
  GcraCall.Advance g.params { n, now } g.tat pc g.tat pc' ∧ ∀ decision, pc' ≠ .returned decision

/-- The step at which `check_n_in` returns. -/
def GcraPc.Commit (n now : ℕ) (g : Gcra) (pc : GcraPc) (decision : Decision) (g' : Gcra) : Prop :=
  ∃ tat', g' = { g with tat := tat' } ∧
    GcraCall.Advance g.params { n, now } g.tat pc tat' (.returned decision)

/-- A call left alone with the word returns, from wherever it is. -/
theorem GcraCall.OnItsWay.decides {n now : ℕ} {g : Gcra} {pc : GcraPc}
    (own : GcraCall.OnItsWay g.params { n, now } pc) :
    ∃ pc' decision g', Relation.ReflTransGen (GcraPc.Silent n now g) pc pc' ∧
      GcraPc.Commit n now g pc' decision g' := by
  have from_load : GcraCall.afterGuards g.params { n, now } = .load →
      ∃ pc' decision g', Relation.ReflTransGen (GcraPc.Silent n now g) .load pc' ∧
        GcraPc.Commit n now g pc' decision g' := by
    intro passed
    rcases GcraCall.afterLoad_cases g.tat passed with ⟨newTat, next, -⟩ | ⟨decision, returned, -⟩
    · have loaded : GcraPc.Silent n now g .load (.swap g.tat newTat) :=
        ⟨next ▸ .load g.tat, fun _ => by simp⟩
      exact ⟨.swap g.tat newTat, .allow, _, .single loaded, newTat, rfl, .swapped g.tat newTat⟩
    · exact ⟨.load, decision, _, .refl, g.tat, rfl, returned ▸ .load g.tat⟩
  cases pc with
  | entry =>
      rcases GcraCall.afterGuards_cases g.params { n, now } with passed | ⟨decision, returned, -⟩
      · obtain ⟨pc', decision, g', run, commit⟩ := from_load passed
        have entered : GcraPc.Silent n now g .entry .load := ⟨passed ▸ .guards g.tat, fun _ => by simp⟩
        exact ⟨pc', decision, g', .head entered run, commit⟩
      · exact ⟨.entry, decision, _, .refl, g.tat, rfl, returned ▸ .guards g.tat⟩
  | load => exact from_load own
  | swap current newTat =>
      obtain ⟨pc', decision, g', run, commit⟩ := from_load own.1
      have failed : GcraPc.Silent n now g (.swap current newTat) .load :=
        ⟨.failed g.tat current newTat, fun _ => by simp⟩
      exact ⟨pc', decision, g', .head failed run, commit⟩
  | returned decision => exact own.elim

/-- The lock-free accounting of the leaky bucket: the steps of `check_n_in` on the key's word. -/
def AtomicAcquire.gcra : AtomicAcquire Gcra GcraPc where
  entry := .entry
  Silent := GcraPc.Silent
  Commit := GcraPc.Commit
  Own n now g pc := GcraCall.OnItsWay g.params { n, now } pc
  own_entry _ _ _ := trivial
  own_silent own step := (own.step step.1 step.2).2
  own_acquire _ _ own := own
  own_peek _ own := own
  own_reset _ own := own
  acquired := by
    rintro n now g pc decision g' own ⟨tat', rfl, step⟩
    have checked := own.returned step
    show g.checkNAt n now = _
    rw [Gcra.checkNAt, checked]
  decides own := own.decides

/-!
### What the locked store shows of the sequential one
-/

section Marks

variable {K S : Type} {config : StoreConfig K} {touched : Prop} {Touched : ℕ → Prop}
  {slot slot' : Slot K S} {map map' : ShardMap K S}

/-- A slot that threads which have marked it, but not spent from it yet, may show as used.  Its idle stamp is
    its own unless the store keeps idle stamps. -/
structure SlotShown (config : StoreConfig K) (touched : Prop) (slot slot' : Slot K S) : Prop where
  state : slot'.state = slot.state
  seeded : slot'.seeded = slot.seeded
  recoversAtMs : slot'.recoversAtMs = slot.recoversAtMs
  hash : slot'.hash = slot.hash
  key : slot'.key = slot.key
  referenced : slot'.referenced = true ↔ slot.referenced = true ∨ touched
  stamp : config.idleTtlMs = none → slot'.lastSeenMs = slot.lastSeenMs

/-- A shard whose slots at the positions `Touched` may show as used. -/
structure ShardShown (config : StoreConfig K) (Touched : ℕ → Prop) (map map' : ShardMap K S) : Prop where
  index : map'.index = map.index
  hand : map'.hand = map.hand
  sweep : map'.sweep = map.sweep
  recovery : map'.recovery = map.recovery
  slots : ∀ pos, Option.Rel (SlotShown config (Touched pos)) map.slots[pos]? map'.slots[pos]?

/-- A shard that may differ in its idle stamps, and only if the store keeps them. -/
abbrev Restamped (config : StoreConfig K) (map map' : ShardMap K S) : Prop :=
  ShardShown config (fun _ => False) map map'

theorem SlotShown.refl (slot : Slot K S) : SlotShown config False slot slot where
  state := rfl
  seeded := rfl
  recoversAtMs := rfl
  hash := rfl
  key := rfl
  referenced := by simp
  stamp _ := rfl

theorem ShardShown.refl (map : ShardMap K S) : Restamped config map map where
  index := rfl
  hand := rfl
  sweep := rfl
  recovery := rfl
  slots pos := by
    cases map.slots[pos]? with
    | none => exact .none
    | some slot => exact .some (.refl slot)

/-- Without an idle limit there is nothing in which a shard may differ. -/
theorem Restamped.eq (restamped : Restamped config map map') (unlimited : config.idleTtlMs = none) :
    map' = map := by
  obtain ⟨index, hand, sweep, recovery, slots⟩ := restamped
  have same : map'.slots = map.slots := by
    apply List.ext_getElem?
    intro pos
    have there := slots pos
    generalize map.slots[pos]? = slot? at there ⊢
    generalize map'.slots[pos]? = slot'? at there ⊢
    cases there with
    | none => rfl
    | @some slot slot' shown =>
        obtain ⟨state, referenced, seeded, lastSeenMs, recoversAtMs, hash, key⟩ := slot
        obtain ⟨state', referenced', seeded', lastSeenMs', recoversAtMs', hash', key'⟩ := slot'
        obtain ⟨rfl, rfl, rfl, rfl, rfl, used, stamp⟩ := shown
        obtain rfl : lastSeenMs' = lastSeenMs := stamp unlimited
        obtain rfl : referenced' = referenced := Bool.eq_iff_iff.2 (by simpa using used)
        rfl
  obtain ⟨index₀, slots₀, hand₀, sweep₀, recovery₀⟩ := map
  obtain ⟨index₁, slots₁, hand₁, sweep₁, recovery₁⟩ := map'
  obtain rfl : index₁ = index₀ := index
  obtain rfl : hand₁ = hand₀ := hand
  obtain rfl : sweep₁ = sweep₀ := sweep
  obtain rfl : recovery₁ = recovery₀ := recovery
  obtain rfl : slots₁ = slots₀ := same
  rfl

namespace ShardShown

theorem congr {Touched' : ℕ → Prop} (shown : ShardShown config Touched map map')
    (same : ∀ pos, Touched pos ↔ Touched' pos) : ShardShown config Touched' map map' := by
  obtain rfl : Touched = Touched' := funext fun pos => propext (same pos)
  exact shown

/-- A slot of the one shard is a slot of the other. -/
theorem held (shown : ShardShown config Touched map map') {pos : ℕ} (held : map'.slots[pos]? = some slot') :
    ∃ slot, map.slots[pos]? = some slot ∧ SlotShown config (Touched pos) slot slot' := by
  have there := shown.slots pos
  rw [held] at there
  generalize map.slots[pos]? = slot? at there ⊢
  cases there with
  | some shown => exact ⟨_, rfl, shown⟩

/-- Keys are found at the same positions. -/
theorem position [DecidableEq K] (shown : ShardShown config Touched map map') (hash : ℕ) (key : K) :
    map'.position hash key = map.position hash key := by
  let owns (slot : Slot K S) : Bool := slot.hash == hash && slot.key == key
  have looks : (fun pos : ℕ => (map'.slots[pos]?).any owns) = fun pos => (map.slots[pos]?).any owns := by
    funext pos
    have there := shown.slots pos
    generalize map.slots[pos]? = slot? at there ⊢
    generalize map'.slots[pos]? = slot'? at there ⊢
    cases there with
    | none => rfl
    | some shown => simp only [Option.any_some, owns, shown.hash, shown.key]
  rw [ShardMap.position, ShardMap.position, shown.index]
  exact congrArg (map.index.find hash) looks

theorem map_slots {β : Type} (shown : ShardShown config Touched map map') (f : Slot K S → β)
    (same : ∀ {touched slot slot'}, SlotShown config touched slot slot' → f slot' = f slot) :
    map'.slots.map f = map.slots.map f := by
  apply List.ext_getElem?
  intro pos
  have there := shown.slots pos
  rw [List.getElem?_map, List.getElem?_map]
  generalize map.slots[pos]? = slot? at there ⊢
  generalize map'.slots[pos]? = slot'? at there ⊢
  cases there with
  | none => rfl
  | some shown => exact congrArg some (same shown)

theorem mem (shown : ShardShown config Touched map map') (member : slot' ∈ map'.slots) :
    ∃ slot ∈ map.slots, slot'.hash = slot.hash ∧ slot'.key = slot.key := by
  obtain ⟨pos, held⟩ := List.getElem?_of_mem member
  obtain ⟨slot, there, same⟩ := shown.held held
  exact ⟨slot, List.mem_of_getElem? there, same.hash, same.key⟩

/-- Marks and stamps play no part in a shard's order. -/
theorem consistent (shown : ShardShown config Touched map map') {i : Fin config.shardCount}
    (consistent : Consistent config i map) : Consistent config i map' where
  indexed := by
    rw [DenseIndex.Indexed, DenseIndex.indexOf, shown.index, shown.map_slots Slot.hash SlotShown.hash]
    exact consistent.indexed
  distinct := by
    rw [shown.map_slots Slot.key SlotShown.key]
    exact consistent.distinct
  hashed := by
    intro slot' member
    obtain ⟨slot, there, hash, key⟩ := shown.mem member
    rw [hash, key]
    exact consistent.hashed slot there
  placed := by
    intro slot' member
    obtain ⟨slot, there, hash, -⟩ := shown.mem member
    rw [hash]
    exact consistent.placed slot there
  within := by
    have lengths := congrArg List.length (shown.map_slots Slot.hash SlotShown.hash)
    rw [List.length_map, List.length_map] at lengths
    rw [lengths]
    exact consistent.within

/-- Both shards, with one slot overwritten. -/
theorem setSlot {Touched' : ℕ → Prop} {pos : ℕ} (shown : ShardShown config Touched map map')
    (held : map.slots[pos]? = some slot) {new new' : Slot K S} (here : SlotShown config (Touched' pos) new new')
    (elsewhere : ∀ pos', pos' ≠ pos → (Touched pos' ↔ Touched' pos')) :
    ShardShown config Touched' (map.setSlot pos new) (map'.setSlot pos new') where
  index := shown.index
  hand := shown.hand
  sweep := shown.sweep
  recovery := shown.recovery
  slots pos' := by
    have there := shown.slots pos'
    show Option.Rel _ (map.slots.set pos new)[pos']? (map'.slots.set pos new')[pos']?
    by_cases same : pos = pos'
    · subst same
      have inside := (List.getElem?_eq_some_iff.1 held).1
      rw [held] at there
      generalize seen : map'.slots[pos]? = slot'? at there
      cases there with
      | some _ =>
          have inside' := (List.getElem?_eq_some_iff.1 seen).1
          rw [List.getElem?_set_self inside, List.getElem?_set_self inside']
          exact .some here
    · rw [List.getElem?_set_ne same, List.getElem?_set_ne same]
      have agree : Touched pos' = Touched' pos' := propext (elsewhere pos' (Ne.symm same))
      rw [← agree]
      exact there

/-- A slot of the shard the threads see, overwritten with one that differs in its marks alone. -/
theorem setSlot_right {Touched' : ℕ → Prop} {pos : ℕ} {new' : Slot K S} (shown : ShardShown config Touched map map')
    (held' : map'.slots[pos]? = some slot')
    (here : ∀ slot, SlotShown config (Touched pos) slot slot' → SlotShown config (Touched' pos) slot new')
    (elsewhere : ∀ pos', pos' ≠ pos → (Touched pos' ↔ Touched' pos')) :
    ShardShown config Touched' map (map'.setSlot pos new') := by
  obtain ⟨slot, held, old⟩ := shown.held held'
  have both := shown.setSlot held (here slot old) elsewhere
  rw [setSlot_self held] at both
  exact both

end ShardShown

end Marks

/-!
### What a thread holds and knows
-/

namespace LockPc

variable {K S P : Type} (config : StoreConfig K)

/-- The shard whose read lock a thread holds. -/
def shares : LockPc config.shardCount K S P → Option (Fin config.shardCount)
  | .looking key _ | .marking key _ _ | .reading key _ _ | .stamping key _ _ _ | .restamping key _ _ _
  | .acquiring key _ _ _ _ | .missing key _ | .passing key _ => some (config.shardFor key)
  | .inside section_ => some (config.shardFor section_.key)
  | .leaving i => some i
  | _ => none

/-- The shard whose write lock a thread holds. -/
def owns : LockPc config.shardCount K S P → Option (Fin config.shardCount)
  | .writing section_ => some (section_.shard config)
  | .unlocking i => some i
  | _ => none

/-- The slot a thread has marked but not spent from yet. -/
def touched : LockPc config.shardCount K S P → Option (Fin config.shardCount × ℕ)
  | .reading key _ pos | .stamping key _ pos _ | .restamping key _ pos _ | .acquiring key _ pos _ _ =>
    some (config.shardFor key, pos)
  | _ => none

/-- The job a thread is at, until it takes effect. -/
def job : LockPc config.shardCount K S P → Option (Job config.shardCount K)
  | .entering job => some job
  | .checking key n | .looking key n | .marking key n _ | .reading key n _ | .stamping key n _ _
  | .restamping key n _ _ | .acquiring key n _ _ _ | .missing key n | .making key n => some (.named (.check key n))
  | .sharing (.peek key _) | .inside (.peek key _) => some (.named (.peek key))
  | .sharing (.reset key _) | .inside (.reset key _) | .passing key _ => some (.named (.reset key))
  | .waiting section_ | .writing section_ => some section_.job
  | .leaving _ | .unlocking _ | .left => none

variable {config} [DecidableEq K] [KeyState S] (atomics : AtomicAcquire S P) (quotaOf : K → Quota)

/-- What a thread has learnt of the shards and of its quota. -/
def Knows (shards : Store config S) : LockPc config.shardCount K S P → Prop
  | .marking key _ pos | .reading key _ pos =>
    (shards (config.shardFor key)).position (config.hasher key) key = some pos
  | .stamping key _ pos _ | .restamping key _ pos _ =>
    (shards (config.shardFor key)).position (config.hasher key) key = some pos ∧ config.idleTtlMs ≠ none
  | .acquiring key n pos now pc =>
    (shards (config.shardFor key)).position (config.hasher key) key = some pos ∧
      ∃ slot, (shards (config.shardFor key)).slots[pos]? = some slot ∧ atomics.Own n now slot.state pc
  | .waiting (.store key _ now state) | .writing (.store key _ now state) =>
    KeyState.create (quotaOf key) now = some state
  | _ => True

omit [DecidableEq K] [KeyState S] in
theorem shares_of_touched {pc : LockPc config.shardCount K S P} {i : Fin config.shardCount} {pos : ℕ}
    (at_ : pc.touched config = some (i, pos)) : pc.shares config = some i := by
  cases pc <;> cases at_ <;> rfl

omit [DecidableEq K] [KeyState S] in
theorem owns_of_shares {pc : LockPc config.shardCount K S P} {i : Fin config.shardCount}
    (at_ : pc.shares config = some i) : pc.owns config = none := by
  cases pc <;> cases at_ <;> rfl

/-- A job starts with what it knows. -/
theorem knows_entered (shards : Store config S) (job : Job config.shardCount K) (now : ℕ) :
    Knows atomics quotaOf shards (job.entered now) := by
  rcases job with (_ | _ | _ | _) | _ | _ | _ <;> trivial

omit [DecidableEq K] [KeyState S] in
theorem job_entered (job : Job config.shardCount K) (now : ℕ) :
    LockPc.job config (job.entered now : LockPc config.shardCount K S P) = some job := by
  rcases job with (_ | _ | _ | _) | _ | _ | _ <;> rfl

end LockPc

/-!
### Readers side by side
-/

section Readers

variable {K S : Type} [DecidableEq K] [KeyState S] {config : StoreConfig K} {map map' : ShardMap K S}

/-- What a thread that shares a shard may do to it: one slot changes its marks, or its state by one
    operation. -/
inductive ReaderStep (map : ShardMap K S) : ShardMap K S → Prop where
  | write {pos : ℕ} {slot slot' : Slot K S} (held : map.slots[pos]? = some slot)
      (hash : slot'.hash = slot.hash) (key : slot'.key = slot.key)
      (state : slot'.state = slot.state ∨ (∃ n now, slot'.state = (KeyState.acquire slot.state n now).2) ∨
        (∃ now, slot'.state = (KeyState.peek slot.state now).2) ∨
        ∃ now, slot'.state = KeyState.reset slot.state now) :
      ReaderStep map (map.setSlot pos slot')

theorem ReaderStep.position (step : ReaderStep map map') (hash : ℕ) (key : K) :
    map'.position hash key = map.position hash key := by
  obtain ⟨held, same_hash, same_key, -⟩ := step
  rename_i pos slot slot'
  let owns (slot : Slot K S) : Bool := slot.hash == hash && slot.key == key
  have looks : (fun p : ℕ => ((map.slots.set pos slot')[p]?).any owns) = fun p => (map.slots[p]?).any owns := by
    funext p
    by_cases same : pos = p
    · subst same
      rw [List.getElem?_set_self (List.getElem?_eq_some_iff.1 held).1, held]
      simp only [Option.any_some, owns, same_hash, same_key]
    · rw [List.getElem?_set_ne same]
  exact congrArg (map.index.find hash) looks

omit [DecidableEq K] in
/-- What is known of a state others spend from stays known. -/
theorem ReaderStep.own {P : Type} (atomics : AtomicAcquire S P) (step : ReaderStep map map') {pos n now : ℕ} {pc : P}
    (own : ∃ slot, map.slots[pos]? = some slot ∧ atomics.Own n now slot.state pc) :
    ∃ slot, map'.slots[pos]? = some slot ∧ atomics.Own n now slot.state pc := by
  obtain ⟨held, -, -, state⟩ := step
  rename_i pos' slot slot'
  obtain ⟨mine, there, own⟩ := own
  by_cases same : pos' = pos
  · subst same
    obtain rfl := Option.some.inj (held.symm.trans there)
    refine ⟨slot', List.getElem?_set_self (List.getElem?_eq_some_iff.1 held).1, ?_⟩
    rcases state with kept | ⟨m, t, spent⟩ | ⟨t, read⟩ | ⟨t, whole⟩
    · rw [kept]
      exact own
    · rw [spent]
      exact atomics.own_acquire m t own
    · rw [read]
      exact atomics.own_peek t own
    · rw [whole]
      exact atomics.own_reset t own
  · exact ⟨mine, (List.getElem?_set_ne same).trans there, own⟩

/-- A thread keeps what it knows while others share the shard it shares, or work on another. -/
theorem LockPc.Knows.stable {P : Type} {atomics : AtomicAcquire S P} {quotaOf : K → Quota}
    {shards : Store config S} {pc : LockPc config.shardCount K S P} (knows : pc.Knows atomics quotaOf shards)
    {i : Fin config.shardCount} {map' : ShardMap K S}
    (shared : pc.shares config = some i → ReaderStep (shards i) map') :
    pc.Knows atomics quotaOf (Function.update shards i map') := by
  have elsewhere : ∀ key, config.shardFor key ≠ i →
      Function.update shards i map' (config.shardFor key) = shards (config.shardFor key) :=
    fun key other => Function.update_of_ne other _ _
  -- a key of the shard that changes is one the thread looked up under the lock it still holds
  have position : ∀ (key : K) (pos : ℕ), (config.shardFor key = i → ReaderStep (shards i) map') →
      (shards (config.shardFor key)).position (config.hasher key) key = some pos →
      (Function.update shards i map' (config.shardFor key)).position (config.hasher key) key = some pos := by
    intro key pos step found
    by_cases here : config.shardFor key = i
    · rw [here] at found ⊢
      rw [Function.update_self, (step here).position, found]
    · rw [elsewhere key here, found]
  cases pc with
  | marking key n pos => exact position key pos (fun here => shared (congrArg some here)) knows
  | reading key n pos => exact position key pos (fun here => shared (congrArg some here)) knows
  | stamping key n pos now => exact ⟨position key pos (fun here => shared (congrArg some here)) knows.1, knows.2⟩
  | restamping key n pos now =>
      exact ⟨position key pos (fun here => shared (congrArg some here)) knows.1, knows.2⟩
  | acquiring key n pos now inner =>
      obtain ⟨found, own⟩ := knows
      refine ⟨position key pos (fun here => shared (congrArg some here)) found, ?_⟩
      by_cases here : config.shardFor key = i
      · rw [here] at own ⊢
        rw [Function.update_self]
        exact (shared (congrArg some here)).own atomics own
      · rw [elsewhere key here]
        exact own
  | waiting section_ => cases section_ <;> exact knows
  | writing section_ => cases section_ <;> exact knows
  | entering | checking | looking | missing | making | sharing | inside | passing | leaving | unlocking
  | left => trivial

end Readers

/-!
### The locks
-/

section Locks

variable {ι : Type} {shards : ℕ}

/-- Who holds what, by the locks and by the threads. -/
structure Locked (locks : Fin shards → RwLock ι) (sharing owning : ι → Option (Fin shards)) : Prop where
  readers : ∀ i t, t ∈ (locks i).readers ↔ sharing t = some i
  writer : ∀ i t, (locks i).writer = some t ↔ owning t = some i
  /-- A shard is shared or written, never both. -/
  apart : ∀ i, (locks i).readers = ∅ ∨ (locks i).writer = none

namespace Locked

variable [DecidableEq ι] {locks : Fin shards → RwLock ι} {sharing owning : ι → Option (Fin shards)}
  {i : Fin shards} {t : ι}

omit [DecidableEq ι] in
theorem free : Locked (fun _ : Fin shards => (RwLock.free : RwLock ι)) (fun _ => none) (fun _ => none) where
  readers _ _ := by simp [RwLock.free]
  writer _ _ := by simp [RwLock.free]
  apart _ := Or.inl rfl

theorem share (locked : Locked locks sharing owning) (none_yet : sharing t = none)
    (free : (locks i).writer = none) :
    Locked (Function.update locks i { locks i with readers := insert t (locks i).readers })
      (Function.update sharing t (some i)) owning where
  readers j u := by
    have before := locked.readers j u
    rcases eq_or_ne j i with rfl | other <;> rcases eq_or_ne u t with rfl | different <;>
      simp_all [Function.update_of_ne, eq_comm]
  writer j u := by
    have before := locked.writer j u
    rcases eq_or_ne j i with rfl | other <;> simp_all [Function.update_of_ne]
  apart j := by
    rcases eq_or_ne j i with rfl | other
    · simp [free]
    · simpa [Function.update_of_ne other] using locked.apart j

theorem unshare (locked : Locked locks sharing owning) (held : sharing t = some i) :
    Locked (Function.update locks i { locks i with readers := (locks i).readers.erase t })
      (Function.update sharing t none) owning where
  readers j u := by
    have before := locked.readers j u
    rcases eq_or_ne j i with rfl | other <;> rcases eq_or_ne u t with rfl | different <;>
      simp_all [Function.update_of_ne, eq_comm]
  writer j u := by
    have before := locked.writer j u
    rcases eq_or_ne j i with rfl | other <;> simp_all [Function.update_of_ne]
  apart j := by
    rcases eq_or_ne j i with rfl | other
    · rcases locked.apart j with unread | unwritten
      · simp [unread]
      · simp [unwritten]
    · simpa [Function.update_of_ne other] using locked.apart j

theorem lock (locked : Locked locks sharing owning) (none_yet : owning t = none)
    (free : (locks i).writer = none) (unread : (locks i).readers = ∅) :
    Locked (Function.update locks i { locks i with writer := some t }) sharing
      (Function.update owning t (some i)) where
  readers j u := by
    have before := locked.readers j u
    rcases eq_or_ne j i with rfl | other <;> simp_all [Function.update_of_ne]
  writer j u := by
    have before := locked.writer j u
    rcases eq_or_ne j i with rfl | other <;> rcases eq_or_ne u t with rfl | different <;>
      simp_all [Function.update_of_ne, eq_comm]
  apart j := by
    rcases eq_or_ne j i with rfl | other
    · simp [unread]
    · simpa [Function.update_of_ne other] using locked.apart j

theorem unlock (locked : Locked locks sharing owning) (held : owning t = some i) :
    Locked (Function.update locks i { locks i with writer := none }) sharing
      (Function.update owning t none) where
  readers j u := by
    have before := locked.readers j u
    rcases eq_or_ne j i with rfl | other <;> simp_all [Function.update_of_ne]
  writer j u := by
    have before := locked.writer j u
    have mine := (locked.writer i t).2 held
    rcases eq_or_ne j i with rfl | other <;> rcases eq_or_ne u t with rfl | different <;>
      simp_all [Function.update_of_ne, eq_comm]
  apart j := by
    rcases eq_or_ne j i with rfl | other
    · simp
    · simpa [Function.update_of_ne other] using locked.apart j

omit [DecidableEq ι] in
/-- A thread that writes a shard shares it with no one. -/
theorem alone (locked : Locked locks sharing owning) (held : owning t = some i) (u : ι) :
    sharing u ≠ some i := by
  intro shared
  rcases locked.apart i with unread | unwritten
  · have inside := (locked.readers i u).2 shared
    rw [unread] at inside
    cases inside
  · rw [(locked.writer i t).2 held] at unwritten
    cases unwritten

end Locked

end Locks

end RateNet
