/-
Module: RateNet.Proofs.LockedProgress
Purpose: No call on the locked store is ever stuck. A thread that holds a lock never waits for another one,
  so left alone it releases what it holds; and once no lock is held, every thread can be carried to its
  response, one after another. Every step a thread takes towards its response brings it to a location of
  smaller rank, except the retries of a compare-and-swap, which a thread left alone does not need.
Trusted boundary: none
Main exports: LockPc.rank, LockPc.wants, Alone, progress, locked_store_can_always_finish
-/
import RateNet.Proofs.Linearizable

namespace RateNet

open Interleaving Linearization

namespace LockPc

variable {K S P : Type} {config : StoreConfig K}

/-- How far a location is from the response. -/
def rank : LockPc config.shardCount K S P → ℕ
  | .left => 1
  | .leaving _ | .unlocking _ => 2
  | .writing _ | .acquiring _ _ _ _ _ => 3
  | .waiting _ | .restamping _ _ _ _ => 4
  | .making _ _ | .passing _ _ | .stamping _ _ _ _ => 5
  | .missing _ _ | .inside _ | .reading _ _ _ => 6
  | .sharing _ | .marking _ _ _ => 7
  | .looking _ _ => 8
  | .checking _ _ => 9
  | .entering _ => 10

/-- The shard whose lock a thread waits for. -/
def wants (config : StoreConfig K) : LockPc config.shardCount K S P → Option (Fin config.shardCount)
  | .checking key _ => some (config.shardFor key)
  | .sharing section_ => some (config.shardFor section_.key)
  | .waiting section_ => some (section_.shard config)
  | _ => none

/-- A thread that waits for a lock holds none. -/
theorem free_of_wants {pc : LockPc config.shardCount K S P} {i : Fin config.shardCount}
    (waits : pc.wants config = some i) : pc.shares config = none ∧ pc.owns config = none := by
  cases pc <;> cases waits <;> exact ⟨rfl, rfl⟩

theorem rank_entered (job : Job config.shardCount K) (now : ℕ) :
    (job.entered now : LockPc config.shardCount K S P).rank < 10 := by
  rcases job with (_ | _ | _ | _) | _ | _ | _ <;> simp [Job.entered, rank]

end LockPc

section Progress

variable {K S P ι : Type} [DecidableEq K] [KeyState S] [LawfulKeyState S] [DecidableEq ι]
  {config : StoreConfig K} {atomics : AtomicAcquire S P} {algorithm : Algorithm} {quotaOf : K → Quota}
  {t : ι}

/-- Where the threads of the locked store are, with the shared memory and the history. -/
abbrev LockConfig (ι : Type) (config : StoreConfig K) (S P : Type) :=
  Config ι (World ι (Job config.shardCount K) (Effect config.shardCount K) (Answer K) (LockedStore ι config S))
    (LockPlace config S P)

variable {c c' c'' : LockConfig ι config S P}

/-- Thread `t` runs while the others wait. -/
def Alone (atomics : AtomicAcquire S P) (algorithm : Algorithm) (quotaOf : K → Quota) (t : ι)
    (c c' : LockConfig ι config S P) : Prop :=
  Reachable (lockedStore atomics algorithm quotaOf).program c c' ∧ ∀ u ≠ t, c'.loc u = c.loc u

omit [LawfulKeyState S] in
theorem Alone.refl (c : LockConfig ι config S P) : Alone atomics algorithm quotaOf t c c :=
  ⟨.refl, fun _ _ => rfl⟩

omit [LawfulKeyState S] in
theorem Alone.trans (first : Alone atomics algorithm quotaOf t c c')
    (second : Alone atomics algorithm quotaOf t c' c'') : Alone atomics algorithm quotaOf t c c'' :=
  ⟨first.1.trans second.1, fun u other => (second.2 u other).trans (first.2 u other)⟩

omit [LawfulKeyState S] in
/-- One step of the thread, and the rank it reaches. -/
theorem Alone.step {w : World ι _ _ _ (LockedStore ι config S)} {place place' : LockPlace config S P}
    (here : c.loc t = place) (step : (lockedStore atomics algorithm quotaOf).Advance t c.mem place w place') :
    ∃ c', Alone atomics algorithm quotaOf t c c' ∧ c'.loc t = place' ∧ c'.mem = w := by
  refine ⟨{ mem := w, loc := Function.update c.loc t place' }, ⟨.single (.thread c t ?_), ?_⟩,
    Function.update_self _ _ _, rfl⟩
  · rw [here]
    exact step
  · exact fun u other => Function.update_of_ne other _ _

/-- How far a thread is from rest. -/
def rankOf (place : LockPlace config S P) : ℕ := place.loc.elim 0 LockPc.rank

/-- Some run of thread `t` alone brings it closer to rest. -/
def Closer (atomics : AtomicAcquire S P) (algorithm : Algorithm) (quotaOf : K → Quota) (t : ι)
    (c : LockConfig ι config S P) : Prop :=
  ∃ c', Alone atomics algorithm quotaOf t c c' ∧ rankOf (c'.loc t) < rankOf (c.loc t)

omit [LawfulKeyState S] in
theorem Closer.step {w : World ι _ _ _ (LockedStore ι config S)} {place place' : LockPlace config S P}
    (here : c.loc t = place) (step : (lockedStore atomics algorithm quotaOf).Advance t c.mem place w place')
    (less : rankOf place' < rankOf place) : Closer atomics algorithm quotaOf t c := by
  obtain ⟨c', alone, there, -⟩ := Alone.step here step
  refine ⟨c', alone, ?_⟩
  rw [there, here]
  exact less

omit [LawfulKeyState S] in
/-- A thread spending from a state, left alone, decides. -/
theorem Alone.spin {job : Job config.shardCount K} {key : K} {n pos now : ℕ} {slot : Slot K S} {pc pc' : P}
    (here : c.loc t = .running job (.acquiring key n pos now pc))
    (held : (c.mem.mem.shards (config.shardFor key)).slots[pos]? = some slot)
    (run : Relation.ReflTransGen (atomics.Silent n now slot.state) pc pc') :
    ∃ c', Alone atomics algorithm quotaOf t c c' ∧
      c'.loc t = .running job (.acquiring key n pos now pc') ∧ c'.mem = c.mem := by
  induction run with
  | refl => exact ⟨c, .refl c, here, rfl⟩
  | tail _ step inductionHypothesis =>
      obtain ⟨c₁, alone, there, same⟩ := inductionHypothesis
      have held₁ : (c₁.mem.mem.shards (config.shardFor key)).slots[pos]? = some slot := by
        rw [same]
        exact held
      obtain ⟨c₂, alone₂, there₂, same₂⟩ : ∃ c₂, Alone atomics algorithm quotaOf t c₁ c₂ ∧ c₂.loc t = _ ∧
        c₂.mem = _ := Alone.step there (.silent (.spin held₁ step))
      exact ⟨c₂, alone.trans alone₂, there₂, same₂.trans same⟩

omit [LawfulKeyState S] in
/-- A call that has taken effect goes on to its response. -/
theorem progress_committed {answer : Answer K} {pc : LockPc config.shardCount K S P}
    (here : c.loc t = .committed answer pc) (done : pc.job config = none) :
    Closer atomics algorithm quotaOf t c := by
  cases pc with
  | leaving i => exact .step here (.unwind (.leave _ _)) (Nat.lt_succ_self 1)
  | unlocking i => exact .step here (.unwind (.unlock _ _)) (Nat.lt_succ_self 1)
  | left => exact .step here (.respond rfl) Nat.one_pos
  | sharing section_ => cases section_ <;> cases done
  | inside section_ => cases section_ <;> cases done
  | entering | checking | looking | marking | reading | stamping | restamping | acquiring | missing | making
  | passing | waiting | writing => cases done

/-- A thread that is not kept waiting gets closer to its response. -/
theorem progress {store : Store config S} (follows : Follows atomics quotaOf c.mem.mem c.loc store)
    (busy : c.loc t ≠ .idle)
    (free : ∀ i, (c.loc t).loc.bind (LockPc.wants config) = some i → c.mem.mem.locks i = .free) :
    Closer atomics algorithm quotaOf t c := by
  replace free : ∀ i, (c.loc t).loc.bind (LockPc.wants config) = some i →
      (c.mem.mem.locks i).writer = none ∧ (c.mem.mem.locks i).readers = ∅ := by
    intro i waits
    rw [free i waits]
    exact ⟨rfl, rfl⟩
  have doing := follows.doing t
  have known := follows.known t
  generalize here : c.loc t = place at busy free doing known
  cases place with
  | idle => exact absurd rfl busy
  | committed answer pc => exact progress_committed here doing
  | running job pc =>
      have known := known pc rfl
      cases pc with
      | entering job' => exact .step here (.silent (.enter _ _ 0)) (LockPc.rank_entered job' 0)
      | checking key n => exact .step here (.silent (.check (free _ rfl).1)) (Nat.lt_succ_self 8)
      | looking key n =>
          cases position : (c.mem.mem.shards (config.shardFor key)).position (config.hasher key) key with
          | some pos => exact .step here (.silent (.found position)) (Nat.lt_succ_self 7)
          | none => exact .step here (.silent (.missed position)) (show 6 < 8 by decide)
      | marking key n pos =>
          obtain ⟨slot, held⟩ := Follows.slot_of_position known
          exact .step here (.silent (.mark held)) (Nat.lt_succ_self 6)
      | reading key n pos =>
          refine .step here (.silent (.read _ key n pos 0)) ?_
          split
          · exact Nat.lt_succ_self 5
          · exact (show 3 < 6 by decide)
      | stamping key n pos now =>
          obtain ⟨slot, held⟩ := Follows.slot_of_position known.1
          rcases Nat.lt_or_ge slot.lastSeenMs (millis now) with older | kept
          · exact .step here (.silent (.stampOlder held older)) (Nat.lt_succ_self 4)
          · exact .step here (.silent (.stampKept held kept)) (show 3 < 5 by decide)
      | restamping key n pos now =>
          obtain ⟨slot, held⟩ := Follows.slot_of_position known.1
          exact .step here (.silent (.restamp held)) (Nat.lt_succ_self 3)
      | acquiring key n pos now inner =>
          obtain ⟨-, slot, held, own⟩ := known
          obtain ⟨inner', decision, state, run, commit⟩ := atomics.decides own
          obtain ⟨c₁, alone, there, same⟩ : ∃ c₁, Alone atomics algorithm quotaOf t c c₁ ∧ _ ∧ c₁.mem = c.mem :=
            Alone.spin here held run
          rw [← same] at held
          obtain ⟨c₂, alone₂, less⟩ : Closer atomics algorithm quotaOf t c₁ :=
            .step there (.commit (.acquire held commit)) (Nat.lt_succ_self 2)
          refine ⟨c₂, alone.trans alone₂, ?_⟩
          rw [there] at less
          rw [here]
          exact less
      | missing key n => exact .step here (.silent (.miss _ _ _)) (Nat.lt_succ_self 5)
      | making key n =>
          cases made : (KeyState.create (quotaOf key) 0 : Option S) with
          | some state => exact .step here (.silent (.make made)) (Nat.lt_succ_self 4)
          | none => exact .step here (.commit (.closed made)) (show 1 < 5 by decide)
      | sharing section_ => exact .step here (.silent (.share (free _ rfl).1)) (Nat.lt_succ_self 6)
      | inside section_ =>
          cases section_ with
          | peek key now => exact .step here (.commit (.peek _ key now)) (show 2 < 6 by decide)
          | reset key now =>
              cases found : ((c.mem.mem.shards (config.shardFor key)).resetRead config key now).1 with
              | true => exact .step here (.commit (.reset found)) (show 2 < 6 by decide)
              | false => exact .step here (.silent (.pass found)) (Nat.lt_succ_self 5)
      | passing key now => exact .step here (.silent (.passed _ _ _)) (Nat.lt_succ_self 4)
      | waiting section_ =>
          exact .step here (.silent (.lock (free _ rfl).1 (free _ rfl).2)) (Nat.lt_succ_self 3)
      | writing section_ => exact .step here (.commit (.write _ _)) (Nat.lt_succ_self 2)
      | leaving | unlocking | left => cases doing

/-- Everything that holds of a configuration some run reaches. -/
theorem follows_of_reachable
    (reach : Reachable (lockedStore atomics algorithm quotaOf).program (Implementation.initial LockedStore.new) c) :
    ∃ store, Follows atomics quotaOf c.mem.mem c.loc store := by
  obtain ⟨⟨store, -, follows⟩, -⟩ :=
    (lockedStore_simulates atomics algorithm quotaOf).reachable (.new atomics quotaOf) reach
  exact ⟨store, follows⟩

/-- A place at which no lock is held. -/
def Unlocked (place : LockPlace config S P) : Prop :=
  place.loc.bind (LockPc.shares config) = none ∧ place.loc.bind (LockPc.owns config) = none

omit [DecidableEq K] [KeyState S] [LawfulKeyState S] in
theorem unlocked_of_wants {place : LockPlace config S P} {i : Fin config.shardCount}
    (waits : place.loc.bind (LockPc.wants config) = some i) : Unlocked place := by
  obtain ⟨pc, at_, waits⟩ := Option.bind_eq_some_iff.1 waits
  rw [Unlocked, at_]
  exact LockPc.free_of_wants waits

/-- Where no thread holds a lock, the locks are free. -/
theorem free_of_unlocked {store : Store config S} (follows : Follows atomics quotaOf c.mem.mem c.loc store)
    (unlocked : ∀ u, Unlocked (c.loc u)) (i : Fin config.shardCount) : c.mem.mem.locks i = .free := by
  have unwritten : (c.mem.mem.locks i).writer = none := by
    by_contra held
    obtain ⟨u, writer⟩ := Option.ne_none_iff_exists'.1 held
    have owns := (follows.locked.writer i u).1 writer
    rw [holding, (unlocked u).2] at owns
    cases owns
  have unread : (c.mem.mem.locks i).readers = ∅ := by
    by_contra held
    obtain ⟨u, reader⟩ := Finset.nonempty_iff_ne_empty.2 held
    have shares := (follows.locked.readers i u).1 reader
    rw [holding, (unlocked u).1] at shares
    cases shares
  cases lock : c.mem.mem.locks i with
  | mk readers writer =>
      rw [lock] at unwritten unread
      obtain rfl : writer = none := unwritten
      obtain rfl : readers = ∅ := unread
      rfl

omit [LawfulKeyState S] in
/-- A thread that gets closer to rest wherever it is not there yet can be carried there. -/
theorem carried_there (Good : LockConfig ι config S P → Prop) (There : LockPlace config S P → Prop)
    (stays : ∀ {c c'}, Good c → Alone atomics algorithm quotaOf t c c' → Good c')
    (closer : ∀ {c}, Good c → ¬ There (c.loc t) → Closer atomics algorithm quotaOf t c) (good : Good c) :
    ∃ c', Alone atomics algorithm quotaOf t c c' ∧ There (c'.loc t) := by
  induction rank : rankOf (c.loc t) using Nat.strong_induction_on generalizing c with
  | _ _ inductionHypothesis =>
      by_cases there : There (c.loc t)
      · exact ⟨c, .refl c, there⟩
      · obtain ⟨c₁, alone, less⟩ := closer good there
        obtain ⟨c₂, alone₂, done⟩ := inductionHypothesis _ (less.trans_eq rank) (stays good alone) rfl
        exact ⟨c₂, alone.trans alone₂, done⟩

/-- A thread that holds a lock releases it, whatever the others hold. -/
theorem releases
    (reach : Reachable (lockedStore atomics algorithm quotaOf).program (Implementation.initial LockedStore.new) c) :
    ∃ c', Alone atomics algorithm quotaOf t c c' ∧ Unlocked (c'.loc t) := by
  refine carried_there (Reachable (lockedStore atomics algorithm quotaOf).program _) Unlocked
    (fun reach alone => reach.trans alone.1) (fun {c} reach locked => ?_) reach
  obtain ⟨store, follows⟩ := follows_of_reachable reach
  refine progress follows (fun idle => ?_) fun i waits => absurd (unlocked_of_wants waits) locked
  rw [idle] at locked
  exact locked ⟨rfl, rfl⟩

/-- Once no other thread holds a lock, a thread can be carried to its response. -/
theorem finishes
    (reach : Reachable (lockedStore atomics algorithm quotaOf).program (Implementation.initial LockedStore.new) c)
    (others : ∀ u ≠ t, Unlocked (c.loc u)) :
    ∃ c', Alone atomics algorithm quotaOf t c c' ∧ c'.loc t = .idle := by
  refine carried_there (fun c => Reachable (lockedStore atomics algorithm quotaOf).program
    (Implementation.initial LockedStore.new) c ∧ ∀ u ≠ t, Unlocked (c.loc u)) (· = .idle) ?_ ?_ ⟨reach, others⟩
  · rintro c c' ⟨reach, others⟩ alone
    refine ⟨reach.trans alone.1, fun u other => ?_⟩
    rw [alone.2 u other]
    exact others u other
  · rintro c ⟨reach, others⟩ busy
    obtain ⟨store, follows⟩ := follows_of_reachable reach
    refine progress follows busy fun i waits => free_of_unlocked follows (fun u => ?_) i
    by_cases same : u = t
    · rw [same]
      exact unlocked_of_wants waits
    · exact others u same

end Progress

/-- Whatever any number of threads are doing on the locked store, they can all be brought to their responses,
    and then no lock is held: no interleaving leaves a call waiting for a lock that is never released. -/
theorem locked_store_can_always_finish {K S P ι : Type} [DecidableEq K] [KeyState S] [LawfulKeyState S]
    [DecidableEq ι] [Fintype ι] {config : StoreConfig K} (atomics : AtomicAcquire S P) (algorithm : Algorithm)
    (quotaOf : K → Quota) {c : LockConfig ι config S P}
    (reach : Reachable (lockedStore atomics algorithm quotaOf).program
      (Implementation.initial LockedStore.new) c) :
    ∃ c', Reachable (lockedStore atomics algorithm quotaOf).program c c' ∧ (∀ t, c'.loc t = .idle) ∧
      ∀ i, c'.mem.mem.locks i = .free := by
  let program := (lockedStore atomics algorithm quotaOf : Implementation ι _ _ _ (LockedStore ι config S) _).program
  -- first every thread releases what it holds
  obtain ⟨c₁, reach₁, reachable₁, unlocked⟩ : ∃ c₁, Reachable program c c₁ ∧
      Reachable program (Implementation.initial LockedStore.new) c₁ ∧ ∀ t, Unlocked (c₁.loc t) := by
    refine Reachable.every_thread (Reachable program (Implementation.initial LockedStore.new)) Unlocked
      (fun c t reach => ?_) reach
    obtain ⟨c', alone, unlocked⟩ := releases (t := t) reach
    exact ⟨c', alone.1, reach.trans alone.1, unlocked, alone.2⟩
  -- then each goes on to its response
  obtain ⟨c₂, reach₂, ⟨reachable₂, unlocked₂⟩, idle⟩ : ∃ c₂, Reachable program c₁ c₂ ∧
      (Reachable program (Implementation.initial LockedStore.new) c₂ ∧ ∀ t, Unlocked (c₂.loc t)) ∧
      ∀ t, c₂.loc t = .idle := by
    refine Reachable.every_thread
      (fun c => Reachable program (Implementation.initial LockedStore.new) c ∧ ∀ t, Unlocked (c.loc t))
      (· = .idle) (fun c t good => ?_) ⟨reachable₁, unlocked⟩
    obtain ⟨reach, unlocked⟩ := good
    obtain ⟨c', alone, idle⟩ := finishes (t := t) reach fun u _ => unlocked u
    refine ⟨c', alone.1, ⟨reach.trans alone.1, fun u => ?_⟩, idle, alone.2⟩
    by_cases same : u = t
    · rw [same, idle]
      exact ⟨rfl, rfl⟩
    · rw [alone.2 u same]
      exact unlocked u
  obtain ⟨store, follows⟩ := follows_of_reachable reachable₂
  exact ⟨c₂, reach₁.trans reach₂, idle, free_of_unlocked follows unlocked₂⟩

/-- One thread holds the write lock that another waits for. -/
theorem locked_store_can_always_finish_contended :
    let config : StoreConfig ℕ := .new id 1 .unbounded 0
    let quota := Quota.perSecond 1 (by decide)
    ∃ c : LockConfig Bool config Gcra GcraPc,
      (c.mem.mem.locks (config.shardFor 7)).writer = some true ∧
      c.loc false = .running (.named (.remove 7)) (.waiting (.remove 7 0)) ∧
      ∃ c', Reachable (lockedStore AtomicAcquire.gcra .leakyBucket fun _ => quota).program c c' ∧
        (∀ t, c'.loc t = .idle) ∧ ∀ i, c'.mem.mem.locks i = .free := by
  intro config quota
  have start : Reachable (lockedStore AtomicAcquire.gcra .leakyBucket fun _ => quota : Implementation Bool _ _ _
      (LockedStore Bool config Gcra) _).program (Implementation.initial LockedStore.new) _ := .refl
  have both_in := (start.tail (.thread _ true (.invoke _ (.named (.remove 7))))).tail
    (.thread _ false (.invoke _ (.named (.remove 7))))
  have both_wait := (both_in.tail (.thread _ true (.silent (.enter _ _ 0)))).tail
    (.thread _ false (.silent (.enter _ _ 0)))
  have locked := both_wait.tail (.thread _ true (.silent (.lock (by decide) (by decide))))
  exact ⟨_, by decide, rfl, locked_store_can_always_finish _ _ _ locked⟩

end RateNet
