/-
Module: RateNet.Proofs.CoarseLag
Purpose: How far a spawned clock falls behind when its ticker is starved. The reads of any one thread bound it:
  among any 61 reads in a row one looks at the real clock, whichever way the counter wraps, and leaves the clock
  less than an interval behind, but for the spans that ticks have claimed and not applied. A thread that goes
  round several clocks refreshes each of them.
Trusted boundary: that of RateNet.Clock.CoarseClock
Main exports: CoarseThread.Tracks, lag_bounded_by_reads, mem_dueReads, rotation_refreshes_every_clock
-/
import RateNet.Proofs.CoarseLooseness
import Mathlib.Data.Nat.ChineseRemainder

namespace RateNet

open Interleaving

section Reads

variable {ι : Type} [DecidableEq ι] {refreshAfterNs : ℕ} {p : GcraParams} {mem mem' : CoarseLimiter}
  {thread thread' : CoarseThread}

/-!
### Reads of one clock
-/

/-- A read that counts and is not due moves the counter on by one. -/
theorem countRead_of_not_due {reads : ℕ} (word : reads < 2 ^ 32) (notDue : (countRead reads).2 = false) :
    (countRead reads).1 % readsPerRefresh = reads % readsPerRefresh + 1 := by
  simp only [countRead, readsPerRefresh, beq_eq_false_iff_ne, ne_eq] at notDue ⊢
  rcases Nat.lt_or_ge (reads + 1) (2 ^ 32) with below | wraps
  · rw [Nat.mod_eq_of_lt below] at notDue ⊢
    omega
  · -- the read that wraps the counter is due
    have last : reads + 1 = 2 ^ 32 := by omega
    rw [last, Nat.mod_self] at notDue
    exact absurd (Nat.zero_mod _) notDue

theorem countRead_of_due {reads : ℕ} (due : (countRead reads).2 = true) :
    (countRead reads).1 % readsPerRefresh = 0 := by
  simpa [countRead] using due

/-- The clock is less than an interval behind the instant `s`, counting the spans that are claimed. -/
def CoarseLimiter.Reaches (refreshAfterNs : ℕ) (mem : CoarseLimiter) (s : ℕ) : Prop :=
  s < mem.clock.appliedNs + refreshAfterNs

/-- What a look at the real clock comes to, when the read it is part of began at `began`. -/
def TickPc.Brings (refreshAfterNs : ℕ) (mem : CoarseLimiter) (began : ℕ) : TickPc → Prop
  | .staleness target | .entry target | .swap target _ => began ≤ target
  | .claimed _ => began ≤ mem.clock.appliedNs
  | .idle => mem.Reaches refreshAfterNs began

/-- When the read under way began. -/
def CoarsePc.began : CoarsePc → Option ℕ
  | .due _ began | .refreshing _ began _ | .reading _ began => some began
  | _ => none

/-- The reads of a thread that began no later than the last one that was due.  The counter tells how many have
    begun since. -/
def CoarseThread.Refreshed (refreshAfterNs : ℕ) (mem : CoarseLimiter) (thread : CoarseThread) : Prop :=
  match thread.pc with
  | .due _ _ => thread.reads % readsPerRefresh = 0 ∧ ∀ s ∈ thread.done.drop 60, mem.Reaches refreshAfterNs s
  | .refreshing _ began pc => thread.reads % readsPerRefresh = 0 ∧
      (∀ s ∈ thread.done.drop 60, mem.Reaches refreshAfterNs s) ∧ pc.Brings refreshAfterNs mem began
  | .reading _ began =>
      ∀ s ∈ (began :: thread.done).drop (thread.reads % readsPerRefresh), mem.Reaches refreshAfterNs s
  | _ => ∀ s ∈ thread.done.drop (thread.reads % readsPerRefresh), mem.Reaches refreshAfterNs s

/-- What a thread knows of its reads: their instants are past and in order, and the clock has reached those that
    the last look at the real clock covers. -/
structure CoarseThread.Tracks (refreshAfterNs : ℕ) (mem : CoarseLimiter) (thread : CoarseThread) : Prop where
  word : thread.reads < 2 ^ 32
  past : ∀ s ∈ thread.done, s ≤ nanos mem.time
  began : ∀ began ∈ thread.pc.began, began ≤ nanos mem.time ∧ ∀ s ∈ thread.done, s ≤ began
  refreshed : thread.Refreshed refreshAfterNs mem

omit [DecidableEq ι] in
/-- The clock has moved on, and so has time. -/
theorem CoarseThread.Step.forward [Fintype ι] {c : Config ι CoarseLimiter CoarseThread}
    (clock : CoarseInvariant (clockOf c)) {i : ι}
    (step : CoarseThread.Step refreshAfterNs p c.mem (c.loc i) mem' thread') :
    c.mem.time ≤ mem'.time ∧ c.mem.clock.appliedNs ≤ mem'.clock.appliedNs := by
  refine ⟨step.later.1, ?_⟩
  rcases step.seen with ⟨same, -⟩ | moved
  · exact same ▸ le_rfl
  · exact (moved.effect (clock.known i) clock.behind).2.2.2.1

theorem TickPc.Brings.later {began : ℕ} {pc : TickPc} (brings : pc.Brings refreshAfterNs mem began)
    (forward : mem.clock.appliedNs ≤ mem'.clock.appliedNs) : pc.Brings refreshAfterNs mem' began := by
  cases pc with
  | staleness target | entry target | swap target applied => exact brings
  | claimed span => exact le_trans brings forward
  | idle => exact lt_of_lt_of_le brings (Nat.add_le_add_right forward _)

/-- A look at the real clock, step by step, brings the clock to where its read began. -/
theorem TickPc.Advance.brings (spawned : refreshAfterNs ≠ 0) {clock' : CoarseMemory} {pc pc' : TickPc} {began : ℕ}
    (inside : pc ≠ .idle) (step : TickPc.Advance refreshAfterNs mem.clock pc clock' pc')
    (brings : pc.Brings refreshAfterNs mem began) :
    pc'.Brings refreshAfterNs { mem with clock := clock' } began := by
  have atLoop {target : ℕ} (read : began ≤ target) :
      (TickPc.atLoop target mem.clock.appliedNs).Brings refreshAfterNs mem began := by
    unfold TickPc.atLoop
    split
    · exact read
    · show began < _ + _
      omega
  cases step with
  | tick | tickIfStale | now => exact absurd rfl inside
  | staleness target =>
      have read : began ≤ target := brings
      unfold TickPc.afterStaleness
      split
      · exact read
      · show began < mem.clock.appliedNs + refreshAfterNs
        omega
  | load target => exact atLoop brings
  | swapped target => exact (brings : began ≤ target)
  | failed target applied => exact atLoop brings
  | apply span =>
      show began < mem.clock.appliedNs + refreshAfterNs
      have claimed : began ≤ mem.clock.appliedNs := brings
      omega

theorem CoarseLimiter.Reaches.later {s : ℕ} (reaches : mem.Reaches refreshAfterNs s)
    (forward : mem.clock.appliedNs ≤ mem'.clock.appliedNs) : mem'.Reaches refreshAfterNs s :=
  lt_of_lt_of_le reaches (Nat.add_le_add_right forward _)

theorem CoarseThread.Tracks.later (tracks : thread.Tracks refreshAfterNs mem)
    (forward : mem.time ≤ mem'.time ∧ mem.clock.appliedNs ≤ mem'.clock.appliedNs) :
    thread.Tracks refreshAfterNs mem' := by
  have time := nanos_mono forward.1
  obtain ⟨word, past, began, refreshed⟩ := tracks
  refine ⟨word, fun s member => (past s member).trans time,
    fun b here => ⟨(began b here).1.trans time, (began b here).2⟩, ?_⟩
  obtain ⟨reads, done, pc⟩ := thread
  cases pc with
  | due purpose b => exact ⟨refreshed.1, fun s member => (refreshed.2 s member).later forward.2⟩
  | refreshing purpose b pc =>
      obtain ⟨counted, covered, brings⟩ := refreshed
      exact ⟨counted, fun s member => (covered s member).later forward.2, brings.later forward.2⟩
  | reading purpose b => exact fun s member => (refreshed s member).later forward.2
  | idle | ticking | checking => exact fun s member => (refreshed s member).later forward.2

theorem reads_mod_le (reads : ℕ) : reads % readsPerRefresh ≤ 60 := Nat.le_of_lt_succ (Nat.mod_lt _ (by decide))

theorem countRead_lt (reads : ℕ) : (countRead reads).1 < 2 ^ 32 := Nat.mod_lt _ (by decide)

/-- A step of a thread keeps track of its reads. -/
theorem CoarseThread.Step.tracks (spawned : refreshAfterNs ≠ 0)
    (step : CoarseThread.Step refreshAfterNs p mem thread mem' thread')
    (tracks : thread.Tracks refreshAfterNs mem)
    (forward : mem.time ≤ mem'.time ∧ mem.clock.appliedNs ≤ mem'.clock.appliedNs) :
    thread'.Tracks refreshAfterNs mem' := by
  have here := tracks.later forward
  obtain ⟨word, past, began, refreshed⟩ := here
  -- a read that ends joins those that are done
  have ends {reads b : ℕ} {done : List ℕ} {purpose : ReadFor} {pc : CoarsePc}
      (reading : CoarseThread.Tracks refreshAfterNs mem' ⟨reads, done, .reading purpose b⟩) (quiet : pc.began = none)
      (covered : (∀ s ∈ (b :: done).drop (reads % readsPerRefresh), mem'.Reaches refreshAfterNs s) →
        CoarseThread.Refreshed refreshAfterNs mem' ⟨reads, b :: done, pc⟩) :
      CoarseThread.Tracks refreshAfterNs mem' ⟨reads, b :: done, pc⟩ := by
    refine ⟨reading.word, List.forall_mem_cons.2 ⟨(reading.began b rfl).1, reading.past⟩, ?_, covered reading.refreshed⟩
    intro b' here
    rw [quiet] at here
    cases here
  cases step with
  | pass _ => exact ⟨word, past, began, refreshed⟩
  | tick | tickStep | ticked | guards | load | swapped | failed | returned => exact ⟨word, past, nofun, refreshed⟩
  | beginManual purpose manual => exact absurd manual spawned
  | begin purpose _ notDue =>
      refine ⟨countRead_lt _, past, ?_, ?_⟩
      · rintro b ⟨⟩
        exact ⟨le_rfl, past⟩
      · intro s member
        dsimp only at member
        rw [countRead_of_not_due word notDue, List.drop_succ_cons] at member
        exact refreshed s member
  | beginDue purpose _ due =>
      refine ⟨countRead_lt _, past, ?_, countRead_of_due due, fun s member => refreshed s ?_⟩
      · rintro b ⟨⟩
        exact ⟨le_rfl, past⟩
      · exact List.drop_subset_drop_left _ (reads_mod_le _) member
  | look => exact ⟨word, past, began, refreshed.1, refreshed.2, (began _ rfl).1⟩
  | refreshStep inside step =>
      exact ⟨word, past, began, refreshed.1, refreshed.2.1, step.brings spawned inside tracks.refreshed.2.2⟩
  | @refreshed reads done purpose b =>
      obtain ⟨counted, -, reaches⟩ := refreshed
      refine ⟨word, past, began, ?_⟩
      intro s member
      dsimp only at member
      rw [counted, List.drop_zero] at member
      rcases List.mem_cons.1 member with rfl | older
      · exact reaches
      · exact lt_of_le_of_lt ((began b rfl).2 s older) reaches
  | build unbuilt => exact ends ⟨word, past, began, refreshed⟩ rfl id
  | readOnly => exact ends ⟨word, past, began, refreshed⟩ rfl id
  | read built => exact ends ⟨word, past, began, refreshed⟩ rfl id
  | readOther =>
      refine ⟨countRead_lt _, nofun, nofun, fun s member => ?_⟩
      rw [List.drop_nil] at member
      cases member

theorem thread_tracks [Fintype ι] (spawned : refreshAfterNs ≠ 0) {c : Config ι CoarseLimiter CoarseThread}
    (reach : Reachable (onCoarseClock refreshAfterNs p) CoarseLimiterConfig.new c) (i : ι) :
    (c.loc i).Tracks refreshAfterNs c.mem := by
  induction reach generalizing i with
  | refl =>
      refine ⟨Nat.two_pow_pos 32, nofun, nofun, fun s member => ?_⟩
      cases member
  | @tail before _ reach step inductionHypothesis =>
      cases step with
      | @thread j mem' thread' step =>
          have forward := step.forward (clock_invariant reach)
          exact (Function.forall_update_iff before.loc fun _ thread => thread.Tracks refreshAfterNs mem').2
            ⟨step.tracks spawned (inductionHypothesis j) forward,
              fun k _ => (inductionHypothesis k).later forward⟩ i

/-- Of 61 reads in a row, the clock has reached the first. -/
theorem CoarseThread.Tracks.reaches (tracks : thread.Tracks refreshAfterNs mem) {s : ℕ}
    (first : s ∈ thread.done.drop 60) : mem.Reaches refreshAfterNs s := by
  obtain ⟨reads, done, pc⟩ := thread
  have fewer := reads_mod_le reads
  have refreshed := tracks.refreshed
  cases pc with
  | due purpose b => exact refreshed.2 s first
  | refreshing purpose b pc => exact refreshed.2.1 s first
  | reading purpose b =>
      refine refreshed s (List.drop_subset_drop_left _ (Nat.le_succ_of_le fewer) ?_)
      rw [List.drop_succ_cons]
      exact first
  | idle | ticking | checking => exact refreshed s (List.drop_subset_drop_left _ fewer first)

/-- In every interleaving of ticks, reads and checks on a spawned clock, however its ticker is starved: once any
    thread has read the clock 61 times in a row, the clock trails real time by less than an interval, the time
    since the first of those reads began, and the spans that ticks have claimed and not applied yet. -/
theorem lag_bounded_by_reads [Fintype ι] (spawned : refreshAfterNs ≠ 0) {c : Config ι CoarseLimiter CoarseThread}
    (reach : Reachable (onCoarseClock refreshAfterNs p) CoarseLimiterConfig.new c) {i : ι} {s : ℕ}
    (first : s ∈ (c.loc i).done.drop 60) :
    c.mem.lag < refreshAfterNs + (c.mem.time - s) + ∑ j, (c.loc j).pc.tickPc.claim := by
  have tracks := thread_tracks spawned reach i
  have reaches : s < c.mem.clock.appliedNs + refreshAfterNs := tracks.reaches first
  have past : s ≤ c.mem.time := (tracks.past s (List.mem_of_mem_drop first)).trans (nanos_le_self _)
  have balance : c.mem.clock.offset + ∑ j, (c.loc j).pc.tickPc.claim = c.mem.clock.appliedNs :=
    (clock_invariant reach).balance
  unfold CoarseLimiter.lag
  omega

end Reads

/-- A thread reads a clock that nobody ticks, a nanosecond passing between its reads: after 61 of them the clock has
    moved. -/
theorem lag_bounded_by_reads_of_61 :
    let next := CoarseRole.turn 5 (GcraParams.new unitPerNano)
    let c := runSchedule next ((List.replicate 61 [.time, .reader, .reader]).flatten ++ List.replicate 8 .reader)
      CoarseLimiterConfig.new
    ∃ s ∈ (c.loc .reader).done.drop 60, c.mem.lag < 5 + (c.mem.time - s) + 0 := by
  intro next c
  have reach : Reachable (onCoarseClock 5 (GcraParams.new unitPerNano)) CoarseLimiterConfig.new c :=
    Reachable.schedule (fun role => CoarseRole.turn_sound 5 _ role) _ _
  have facts : ∑ j, (c.loc j).pc.tickPc.claim = 0 ∧ (c.loc .reader).done.drop 60 ≠ [] := by decide +kernel
  obtain ⟨claims, several⟩ := facts
  obtain ⟨s, first⟩ := List.exists_mem_of_ne_nil _ several
  have bounded := lag_bounded_by_reads (by decide) reach first
  rw [claims] at bounded
  exact ⟨s, first, bounded⟩

/-!
### A thread that reads several clocks
-/

section Rotation

variable {Clock : Type}

/-- A read looks at the real clock where the counter comes to a multiple of 61. -/
theorem mem_dueReads {clocks : List Clock} {reads k : ℕ} {clock : Clock} (read : clocks[k]? = some clock)
    (due : (reads + k + 1) % 2 ^ 32 % readsPerRefresh = 0) : clock ∈ dueReads reads clocks := by
  induction clocks generalizing reads k with
  | nil => cases read
  | cons next rest inductionHypothesis =>
      unfold dueReads
      cases k with
      | zero =>
          obtain rfl := Option.some.inj read
          rw [if_pos (by simpa [countRead] using due)]
          exact List.mem_cons_self
      | succ k =>
          have later : clock ∈ dueReads (countRead reads).1 rest := by
            refine inductionHypothesis read ?_
            rw [countRead, Nat.add_assoc, Nat.mod_add_mod]
            rw [show reads + 1 + (k + 1) = reads + (k + 1) + 1 by omega]
            exact due
          split
          · exact List.mem_cons_of_mem _ later
          · exact later

/-- Within one round, a count that starts at `a` comes to a multiple of 61 at any place of a rotation that starts
    at `b`. -/
theorem exists_moment {m : ℕ} (positive : m ≠ 0) (short : m < readsPerRefresh) (a b j : ℕ) :
    ∃ k < readsPerRefresh * m, (a + k) % readsPerRefresh = 0 ∧ (b + k) % m = j % m := by
  have coprime : Nat.Coprime readsPerRefresh m := Nat.coprime_of_lt_prime positive short (by decide)
  have bound := Nat.chineseRemainder_lt_mul coprime ((readsPerRefresh - 1) * a) (j + (m - 1) * b) (by decide) positive
  generalize Nat.chineseRemainder coprime ((readsPerRefresh - 1) * a) (j + (m - 1) * b) = moment at bound
  obtain ⟨k, counted, placed⟩ := moment
  refine ⟨k, bound, ?_, ?_⟩
  · calc (a + k) % readsPerRefresh = (a + (readsPerRefresh - 1) * a) % readsPerRefresh := counted.add_left a
      _ = readsPerRefresh * a % readsPerRefresh := by
        congr 1
        unfold readsPerRefresh
        omega
      _ = 0 := Nat.mul_mod_right _ _
  · obtain ⟨r, rfl⟩ := Nat.exists_eq_succ_of_ne_zero positive
    calc (b + k) % (r + 1) = (b + (j + (r + 1 - 1) * b)) % (r + 1) := placed.add_left b
      _ = (j + (r + 1) * b) % (r + 1) := by
        congr 1
        rw [Nat.add_sub_cancel, Nat.succ_mul]
        omega
      _ = j % (r + 1) := Nat.add_mul_mod_self_left _ _ _

/-- In two rounds of 61 turns the counter of a thread comes to a multiple of 61 at every place of a rotation, also
    where it wraps on the way. -/
theorem exists_due_turn {m : ℕ} (positive : m ≠ 0) (short : m < readsPerRefresh) (reads j : ℕ) :
    ∃ k < 2 * (readsPerRefresh * m), k % m = j % m ∧ (reads + k + 1) % 2 ^ 32 % readsPerRefresh = 0 := by
  have round : readsPerRefresh * m < 2 ^ 32 :=
    lt_of_lt_of_le (Nat.mul_lt_mul_of_pos_left short (by decide)) (by decide)
  have first : (reads + 1) % 2 ^ 32 < 2 ^ 32 := Nat.mod_lt _ (by decide)
  generalize start : (reads + 1) % 2 ^ 32 = v at first
  have counts (k : ℕ) : (reads + k + 1) % 2 ^ 32 = (v + k) % 2 ^ 32 := by
    rw [← start, Nat.mod_add_mod, show reads + 1 + k = reads + k + 1 by omega]
  rcases Nat.lt_or_ge (2 ^ 32) (v + readsPerRefresh * m) with wraps | fits
  · -- the counter wraps within the first round: the moment is one of the round that begins there
    obtain ⟨k, inside, multiple, place⟩ := exists_moment positive short 0 (2 ^ 32 - v) j
    refine ⟨2 ^ 32 - v + k, by omega, place, ?_⟩
    rw [counts, show v + (2 ^ 32 - v + k) = 2 ^ 32 + k by omega, Nat.add_mod_left,
      Nat.mod_eq_of_lt (inside.trans round)]
    rw [Nat.zero_add] at multiple
    exact multiple
  · obtain ⟨k, inside, multiple, place⟩ := exists_moment positive short v 0 j
    rw [Nat.zero_add] at place
    have unwrapped : v + k < 2 ^ 32 := by omega
    refine ⟨k, by omega, place, ?_⟩
    rw [counts, Nat.mod_eq_of_lt unwrapped]
    exact multiple

/-- The clock read at each turn of a rotation. -/
theorem getElem?_rotation (cycle : List Clock) {rounds k : ℕ} (inside : k < rounds * cycle.length) :
    (List.replicate rounds cycle).flatten[k]? = cycle[k % cycle.length]? := by
  induction rounds generalizing k with
  | zero => omega
  | succ rounds inductionHypothesis =>
      rw [List.replicate_succ, List.flatten_cons, List.getElem?_append]
      split
      · rename_i early
        rw [Nat.mod_eq_of_lt early]
      · rename_i later
        rw [Nat.succ_mul] at inside
        rw [inductionHypothesis (by omega), ← Nat.mod_eq_sub_mod (Nat.le_of_not_lt later)]

/-- A thread that reads fewer than 61 clocks in a fixed order, again and again, refreshes every one of them at
    least once in any 122 rounds, wherever its counter stands and wherever it wraps. -/
theorem rotation_refreshes_every_clock (cycle : List Clock) (short : cycle.length < readsPerRefresh) (reads : ℕ) :
    ∀ clock ∈ cycle, clock ∈ dueReads reads (List.replicate (2 * readsPerRefresh) cycle).flatten := by
  intro clock member
  obtain ⟨j, place, rfl⟩ := List.getElem_of_mem member
  obtain ⟨k, inside, turn, due⟩ := exists_due_turn (Nat.ne_zero_of_lt place) short reads j
  rw [← Nat.mul_assoc] at inside
  refine mem_dueReads (k := k) ?_ due
  rw [getElem?_rotation cycle inside, turn, Nat.mod_eq_of_lt place]
  exact List.getElem?_eq_getElem place

end Rotation

/-- A thread that goes round two clocks refreshes both. -/
theorem rotation_refreshes_both_clocks :
    true ∈ dueReads 0 (List.replicate (2 * readsPerRefresh) [true, false]).flatten ∧
      false ∈ dueReads 0 (List.replicate (2 * readsPerRefresh) [true, false]).flatten :=
  ⟨rotation_refreshes_every_clock [true, false] (by decide) 0 true (by decide),
    rotation_refreshes_every_clock [true, false] (by decide) 0 false (by decide)⟩

end RateNet
