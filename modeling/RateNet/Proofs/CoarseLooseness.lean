/-
Module: RateNet.Proofs.CoarseLooseness
Purpose: What coarseness costs a limiter. In every interleaving of ticks, reads and checks, the units granted to
  the checks that read the clock in a span of real time are bounded by the burst and by the intervals from
  where the clock stood when the span began: the lag at that moment is credited too, once, and no more.
Trusted boundary: that of RateNet.Clock.CoarseClock
Main exports: clockOf, clockOf_reachable, CoarseAccount, grantedBetween, coarse_clock_looseness,
  CoarseRole.turn, CoarseRole.turn_sound
-/
import RateNet.Clock.CoarseReads
import RateNet.Proofs.ConcurrentTicks

namespace RateNet

open Interleaving VirtualScheduling

/-!
### Schedules
-/

/-- The next step of a tick under way, with no spurious failure. -/
def TickPc.onward (refreshAfterNs : ℕ) (clock : CoarseMemory) : TickPc → CoarseMemory × TickPc
  | .staleness target => (clock, .afterStaleness refreshAfterNs target clock.appliedNs)
  | pc => pc.next 0 clock

theorem TickPc.onward_sound (refreshAfterNs : ℕ) (clock : CoarseMemory) {pc : TickPc} (inside : pc ≠ .idle) :
    TickPc.Advance refreshAfterNs clock pc (pc.onward refreshAfterNs clock).1 (pc.onward refreshAfterNs clock).2 := by
  cases pc with
  | idle => exact absurd rfl inside
  | staleness target => exact .staleness _ _
  | entry target => exact .load _ _
  | swap target applied =>
      by_cases unchanged : clock.appliedNs = applied
      · subst unchanged
        simp only [TickPc.onward, TickPc.next, if_true]
        exact .swapped _ _
      · simp only [TickPc.onward, TickPc.next, if_neg unchanged]
        exact .failed _ _ _
  | claimed span => exact .apply _ _

/-- What a thread of a schedule does: let time pass, tick the clock, read it, or build the limiter and check it. -/
inductive CoarseRole where
  | time
  | ticker
  | reader
  | checker
deriving DecidableEq

/-- The threads of a schedule, one for each role. -/
def CoarseRole.all : List CoarseRole := [.time, .ticker, .reader, .checker]

theorem CoarseRole.mem_all (role : CoarseRole) : role ∈ CoarseRole.all.toFinset := by
  cases role <;> simp [CoarseRole.all]

instance : Fintype CoarseRole := { elems := CoarseRole.all.toFinset, complete := CoarseRole.mem_all }

/-- Taking the reading, for the purpose it is taken for. -/
def CoarseThread.takeReading (mem : CoarseLimiter) (thread : CoarseThread) (began : ℕ) :
    ReadFor → CoarseLimiter × CoarseThread
  | .build =>
    match mem.epoch with
    | none =>
      ({ mem with
          clock := { mem.clock with readings := mem.clock.offset :: mem.clock.readings }
          epoch := some mem.clock.offset }, ⟨thread.reads, began :: thread.done, .idle⟩)
    | some _ => (mem, thread)
  | .look =>
    ({ mem with clock := { mem.clock with readings := mem.clock.offset :: mem.clock.readings } },
      ⟨thread.reads, began :: thread.done, .idle⟩)
  | .check n =>
    match mem.epoch with
    | none => (mem, thread)
    | some epoch =>
      ({ mem with clock := { mem.clock with readings := mem.clock.offset :: mem.clock.readings } },
        ⟨thread.reads, began :: thread.done, .checking ⟨n, mem.clock.offset - epoch⟩ mem.time .entry⟩)

/-- The next step of a check, with no spurious failure. -/
def CoarseThread.checkOn (p : GcraParams) (mem : CoarseLimiter) (thread : CoarseThread) (call : GcraCall)
    (readAt : ℕ) : GcraPc → CoarseLimiter × CoarseThread
  | .entry => (mem, ⟨thread.reads, thread.done, .checking call readAt (call.afterGuards p)⟩)
  | .load => (mem, ⟨thread.reads, thread.done, .checking call readAt (call.afterLoad p mem.tat)⟩)
  | .swap current newTat =>
    if mem.tat = current then
      ({ mem with tat := newTat, granted := ⟨call.n, call.now, readAt⟩ :: mem.granted },
        ⟨thread.reads, thread.done, .checking call readAt (.returned .allow)⟩)
    else (mem, ⟨thread.reads, thread.done, .checking call readAt .load⟩)
  | .returned _ => (mem, ⟨thread.reads, thread.done, .idle⟩)

/-- The step a thread between calls takes. -/
def CoarseRole.enter (refreshAfterNs : ℕ) (role : CoarseRole) (mem : CoarseLimiter) (thread : CoarseThread) :
    CoarseLimiter × CoarseThread :=
  if role = .ticker then
    ({ mem with clock := TickPc.reading mem.clock (nanos mem.time) },
      ⟨thread.reads, thread.done, .ticking (.entry (nanos mem.time))⟩)
  else
    let purpose : ReadFor := if role = .reader then .look else if mem.epoch.isNone then .build else .check 1
    if refreshAfterNs = 0 then (mem, ⟨thread.reads, thread.done, .reading purpose (nanos mem.time)⟩)
    else if (countRead thread.reads).2 then
      (mem, ⟨(countRead thread.reads).1, thread.done, .due purpose (nanos mem.time)⟩)
    else (mem, ⟨(countRead thread.reads).1, thread.done, .reading purpose (nanos mem.time)⟩)

/-- The step a thread of a schedule takes. -/
def CoarseRole.turn (refreshAfterNs : ℕ) (p : GcraParams) (role : CoarseRole) (mem : CoarseLimiter)
    (thread : CoarseThread) : CoarseLimiter × CoarseThread :=
  if role = .time then ({ mem with time := mem.time + 1 }, thread)
  else
    match thread.pc with
    | .idle => role.enter refreshAfterNs mem thread
    | .ticking pc =>
      if pc = .idle then (mem, ⟨thread.reads, thread.done, .idle⟩)
      else
        ({ mem with clock := (pc.onward refreshAfterNs mem.clock).1 },
          ⟨thread.reads, thread.done, .ticking (pc.onward refreshAfterNs mem.clock).2⟩)
    | .due purpose began =>
      ({ mem with clock := TickPc.reading mem.clock (nanos mem.time) },
        ⟨thread.reads, thread.done, .refreshing purpose began (.staleness (nanos mem.time))⟩)
    | .refreshing purpose began pc =>
      if pc = .idle then (mem, ⟨thread.reads, thread.done, .reading purpose began⟩)
      else
        ({ mem with clock := (pc.onward refreshAfterNs mem.clock).1 },
          ⟨thread.reads, thread.done, .refreshing purpose began (pc.onward refreshAfterNs mem.clock).2⟩)
    | .reading purpose began => thread.takeReading mem began purpose
    | .checking call readAt pc => thread.checkOn p mem call readAt pc

theorem CoarseRole.enter_sound (refreshAfterNs : ℕ) (p : GcraParams) (role : CoarseRole) (mem : CoarseLimiter)
    (reads : ℕ) (done : List ℕ) :
    CoarseThread.Step refreshAfterNs p mem ⟨reads, done, .idle⟩
      (role.enter refreshAfterNs mem ⟨reads, done, .idle⟩).1
      (role.enter refreshAfterNs mem ⟨reads, done, .idle⟩).2 := by
  by_cases ticks : role = .ticker
  · simp only [CoarseRole.enter, if_pos ticks]
    exact .tick
  · by_cases manual : refreshAfterNs = 0
    · simp only [CoarseRole.enter, if_neg ticks, if_pos manual]
      exact .beginManual _ manual
    · cases due : (countRead reads).2 with
      | true =>
          simp only [CoarseRole.enter, if_neg ticks, if_neg manual, due, if_true]
          exact .beginDue _ manual due
      | false =>
          simp only [CoarseRole.enter, if_neg ticks, if_neg manual, due, Bool.false_eq_true, if_false]
          exact .begin _ manual due

theorem CoarseThread.takeReading_sound (refreshAfterNs : ℕ) (p : GcraParams) (mem : CoarseLimiter) (reads : ℕ)
    (done : List ℕ) (purpose : ReadFor) (began : ℕ) :
    let thread : CoarseThread := ⟨reads, done, .reading purpose began⟩
    thread.takeReading mem began purpose = (mem, thread) ∨
      CoarseThread.Step refreshAfterNs p mem thread (thread.takeReading mem began purpose).1
        (thread.takeReading mem began purpose).2 := by
  intro thread
  cases purpose with
  | look => exact .inr .readOnly
  | build =>
      obtain ⟨time, clock, epoch, tat, granted⟩ := mem
      cases epoch with
      | none => exact .inr (.build rfl)
      | some epoch => exact .inl rfl
  | check n =>
      obtain ⟨time, clock, epoch, tat, granted⟩ := mem
      cases epoch with
      | none => exact .inl rfl
      | some epoch => exact .inr (.read rfl)

theorem CoarseThread.checkOn_sound (refreshAfterNs : ℕ) (p : GcraParams) (mem : CoarseLimiter) (reads : ℕ)
    (done : List ℕ) (call : GcraCall) (readAt : ℕ) (pc : GcraPc) :
    let thread : CoarseThread := ⟨reads, done, .checking call readAt pc⟩
    CoarseThread.Step refreshAfterNs p mem thread (thread.checkOn p mem call readAt pc).1
      (thread.checkOn p mem call readAt pc).2 := by
  intro thread
  cases pc with
  | entry => exact .guards
  | load => exact .load
  | swap current newTat =>
      by_cases unchanged : mem.tat = current
      · subst unchanged
        simp only [CoarseThread.checkOn, if_true]
        exact .swapped
      · simp only [CoarseThread.checkOn, if_neg unchanged]
        exact .failed
  | returned decision => exact .returned

theorem CoarseRole.turn_sound (refreshAfterNs : ℕ) (p : GcraParams) (role : CoarseRole) (mem : CoarseLimiter)
    (thread : CoarseThread) :
    role.turn refreshAfterNs p mem thread = (mem, thread) ∨
      CoarseThread.Step refreshAfterNs p mem thread (role.turn refreshAfterNs p mem thread).1
        (role.turn refreshAfterNs p mem thread).2 := by
  obtain ⟨reads, done, pc⟩ := thread
  by_cases passing : role = .time
  · subst passing
    exact .inr (.pass (Nat.le_succ _))
  · simp only [CoarseRole.turn, if_neg passing]
    cases pc with
    | idle => exact .inr (role.enter_sound refreshAfterNs p mem reads done)
    | ticking pc =>
        right
        by_cases ended : pc = .idle
        · subst ended
          exact .ticked
        · simp only [if_neg ended]
          exact .tickStep ended (TickPc.onward_sound refreshAfterNs mem.clock ended)
    | due purpose began => exact .inr .look
    | refreshing purpose began pc =>
        right
        by_cases ended : pc = .idle
        · subst ended
          exact .refreshed
        · simp only [if_neg ended]
          exact .refreshStep ended (TickPc.onward_sound refreshAfterNs mem.clock ended)
    | reading purpose began =>
        exact CoarseThread.takeReading_sound refreshAfterNs p mem reads done purpose began
    | checking call readAt pc =>
        exact .inr (CoarseThread.checkOn_sound refreshAfterNs p mem reads done call readAt pc)

/-!
### The clock under the limiter
-/

/-- Where a thread is in a tick of the clock. -/
def CoarsePc.tickPc : CoarsePc → TickPc
  | .ticking pc => pc
  | .refreshing _ _ pc => pc
  | _ => .idle

section Runs

variable {ι : Type} {refreshAfterNs : ℕ} {p : GcraParams} {mem mem' : CoarseLimiter} {thread thread' : CoarseThread}

/-- The clock and its ticks, without the limiter. -/
def clockOf (c : Config ι CoarseLimiter CoarseThread) : Config ι CoarseMemory TickPc :=
  { mem := c.mem.clock, loc := fun i => (c.loc i).pc.tickPc }

/-- To the clock a step is one of its own, or none. -/
theorem CoarseThread.Step.seen (step : CoarseThread.Step refreshAfterNs p mem thread mem' thread') :
    (mem'.clock = mem.clock ∧ thread'.pc.tickPc = thread.pc.tickPc) ∨
      TickPc.Advance refreshAfterNs mem.clock thread.pc.tickPc mem'.clock thread'.pc.tickPc := by
  cases step with
  | tick => exact .inr (.tick _ _)
  | tickStep inside step => exact .inr step
  | look => exact .inr (.tickIfStale _ _)
  | refreshStep inside step => exact .inr step
  | build unbuilt => exact .inr (.now _)
  | readOnly => exact .inr (.now _)
  | read built => exact .inr (.now _)
  | pass forward => exact .inl ⟨rfl, rfl⟩
  | ticked => exact .inl ⟨rfl, rfl⟩
  | beginManual purpose manual => exact .inl ⟨rfl, rfl⟩
  | begin purpose spawned notDue => exact .inl ⟨rfl, rfl⟩
  | beginDue purpose spawned due => exact .inl ⟨rfl, rfl⟩
  | refreshed => exact .inl ⟨rfl, rfl⟩
  | guards => exact .inl ⟨rfl, rfl⟩
  | load => exact .inl ⟨rfl, rfl⟩
  | swapped => exact .inl ⟨rfl, rfl⟩
  | failed => exact .inl ⟨rfl, rfl⟩
  | returned => exact .inl ⟨rfl, rfl⟩
  | readOther => exact .inl ⟨rfl, rfl⟩

variable [DecidableEq ι]

/-- The clock under a limiter runs as a clock does. -/
theorem clockOf_reachable {start c : Config ι CoarseLimiter CoarseThread}
    (reach : Reachable (onCoarseClock refreshAfterNs p) start c) :
    Reachable (coarseProgram refreshAfterNs) (clockOf start) (clockOf c) :=
  reach.viewed CoarseLimiter.clock (fun thread => thread.pc.tickPc) fun _ _ _ _ _ step => step.seen

theorem clock_invariant [Fintype ι] {c : Config ι CoarseLimiter CoarseThread}
    (reach : Reachable (onCoarseClock refreshAfterNs p) CoarseLimiterConfig.new c) : CoarseInvariant (clockOf c) :=
  coarse_invariant (clockOf_reachable reach)

/-!
### The account of the limiter
-/

/-- The units of the grants that count. -/
def CoarseGrant.units (counts : CoarseGrant → Bool) (granted : List CoarseGrant) : ℕ :=
  ((granted.filter counts).map CoarseGrant.n).sum

/-- The units granted at readings in `[a, b]`. -/
def CoarseGrant.unitsIn (granted : List CoarseGrant) (a b : ℕ) : ℕ :=
  units (fun grant => a ≤ grant.now ∧ grant.now ≤ b) granted

/-- The units granted to checks that read the clock after the instant `a`, and no later than `b`. -/
def grantedBetween (granted : List CoarseGrant) (a b : ℕ) : ℕ :=
  CoarseGrant.units (fun grant => a < grant.readAt ∧ grant.readAt ≤ b) granted

theorem CoarseGrant.units_cons (counts : CoarseGrant → Bool) (grant : CoarseGrant) (granted : List CoarseGrant) :
    units counts (grant :: granted) = units counts granted + if counts grant then grant.n else 0 := by
  unfold units
  cases inside : counts grant with
  | true => simp [inside, Nat.add_comm]
  | false => simp [inside]

theorem CoarseGrant.units_mono {counts counts' : CoarseGrant → Bool} {granted : List CoarseGrant}
    (more : ∀ grant ∈ granted, counts grant = true → counts' grant = true) :
    units counts granted ≤ units counts' granted := by
  induction granted with
  | nil => exact le_rfl
  | cons grant rest inductionHypothesis =>
      have older := inductionHypothesis fun grant member => more grant (List.mem_cons_of_mem _ member)
      have newest := more grant List.mem_cons_self
      rw [units_cons, units_cons]
      split
      · rename_i counted
        rw [if_pos (newest counted)]
        omega
      · omega

/-- A reading of the limiter's time, taken at the instant `readAt`. -/
def CoarseLimiter.Read (mem : CoarseLimiter) (now readAt : ℕ) : Prop :=
  ∃ epoch, mem.epoch = some epoch ∧ now + epoch ≤ readAt ∧ readAt ≤ mem.time

/-- A check goes by a reading, and a swap it is about to try was computed for it. -/
def CoarsePc.Sound (p : GcraParams) (mem : CoarseLimiter) : CoarsePc → Prop
  | .checking call readAt pc => call.Pending p pc ∧ mem.Read call.now readAt
  | _ => True

/-- What holds of a limiter on a coarse clock. -/
structure CoarseAccount (p : GcraParams) (c : Config ι CoarseLimiter CoarseThread) : Prop where
  /-- Nothing was read off the real clock that is still to come. -/
  past : c.mem.clock.largest ≤ c.mem.time
  epoch : ∀ epoch ∈ c.mem.epoch, epoch ≤ c.mem.clock.offset
  sound : ∀ i, (c.loc i).pc.Sound p c.mem
  reads : ∀ grant ∈ c.mem.granted, c.mem.Read grant.now grant.readAt
  metered : p.Unsaturated c.mem.time →
    Metered (fun t => p.intervalsAt (nanos t)) (p.tolerance + 1) c.mem.tat (CoarseGrant.unitsIn c.mem.granted)

/-- Time passes, and the limiter is built once. -/
def CoarseLimiter.Later (mem mem' : CoarseLimiter) : Prop :=
  mem.time ≤ mem'.time ∧ ∀ epoch, mem.epoch = some epoch → mem'.epoch = some epoch

theorem CoarseLimiter.Read.later {now readAt : ℕ} (read : mem.Read now readAt) (later : mem.Later mem') :
    mem'.Read now readAt := by
  obtain ⟨epoch, built, reading, past⟩ := read
  exact ⟨epoch, later.2 epoch built, reading, past.trans later.1⟩

theorem CoarsePc.Sound.later {pc : CoarsePc} (sound : pc.Sound p mem) (later : mem.Later mem') :
    pc.Sound p mem' := by
  cases pc with
  | checking call readAt pc => exact ⟨sound.1, sound.2.later later⟩
  | idle | ticking | due | refreshing | reading => trivial

theorem CoarseThread.Step.later (step : CoarseThread.Step refreshAfterNs p mem thread mem' thread') :
    mem.Later mem' := by
  cases step with
  | pass forward => exact ⟨forward, fun _ built => built⟩
  | build unbuilt => exact ⟨le_rfl, fun _ built => absurd built (by rw [unbuilt]; exact nofun)⟩
  | _ => exact ⟨le_rfl, fun _ built => built⟩

/-- The bucket changes only by a grant, to a check that computed its swap for the word there was. -/
theorem CoarseThread.Step.grants (step : CoarseThread.Step refreshAfterNs p mem thread mem' thread') :
    (mem'.tat = mem.tat ∧ mem'.granted = mem.granted) ∨ ∃ call readAt newTat,
      thread.pc = .checking call readAt (.swap mem.tat newTat) ∧ mem'.tat = newTat ∧
        mem'.granted = ⟨call.n, call.now, readAt⟩ :: mem.granted := by
  cases step with
  | swapped => exact .inr ⟨_, _, _, rfl, rfl, rfl⟩
  | _ => exact .inl ⟨rfl, rfl⟩

/-- What holds of the readings of the earlier grants and of the thread's own check holds of those of all grants. -/
theorem CoarseThread.Step.forall_granted (step : CoarseThread.Step refreshAfterNs p mem thread mem' thread')
    {P : ℕ → ℕ → Prop} (earlier : ∀ grant ∈ mem.granted, P grant.now grant.readAt)
    (own : ∀ call readAt pc, thread.pc = .checking call readAt pc → P call.now readAt) :
    ∀ grant ∈ mem'.granted, P grant.now grant.readAt := by
  rcases step.grants with ⟨-, same⟩ | ⟨call, readAt, newTat, here, -, granted⟩
  · rw [same]
    exact earlier
  · rw [granted]
    exact List.forall_mem_cons.2 ⟨own call readAt _ here, earlier⟩

/-- A step of a thread leaves it sound. -/
theorem CoarseThread.Step.sound (step : CoarseThread.Step refreshAfterNs p mem thread mem' thread')
    (sound : thread.pc.Sound p mem) (epoch : ∀ epoch ∈ mem.epoch, epoch ≤ mem.clock.offset)
    (past : mem.clock.offset ≤ mem.time) : thread'.pc.Sound p mem' := by
  cases step with
  | pass forward => exact sound.later ⟨forward, fun _ built => built⟩
  | @read reads done n began epoch' built =>
      have older := epoch epoch' built
      exact ⟨trivial, epoch', built, by dsimp only; omega, le_rfl⟩
  | guards => exact ⟨GcraCall.pending_afterGuards _, sound.2⟩
  | load => exact ⟨GcraCall.pending_afterLoad _ _ sound.1, sound.2⟩
  | swapped => exact ⟨trivial, sound.2⟩
  | failed => exact ⟨sound.1.1, sound.2⟩
  | _ => trivial

/-- A tick under way reads the real clock no more. -/
theorem TickPc.Advance.largest_eq {clock clock' : CoarseMemory} {pc pc' : TickPc}
    (step : TickPc.Advance refreshAfterNs clock pc clock' pc') (inside : pc ≠ .idle) :
    clock'.largest = clock.largest := by
  cases step with
  | tick | tickIfStale | now => exact absurd rfl inside
  | staleness | load | swapped | failed | apply => rfl

theorem CoarseThread.Step.past (step : CoarseThread.Step refreshAfterNs p mem thread mem' thread')
    (past : mem.clock.largest ≤ mem.time) : mem'.clock.largest ≤ mem'.time := by
  have looked : max mem.clock.largest (nanos mem.time) ≤ mem.time := max_le past (min_le_left _ _)
  cases step with
  | pass forward => exact past.trans forward
  | tick => exact looked
  | look => exact looked
  | tickStep inside step => exact (step.largest_eq inside).le.trans past
  | refreshStep inside step => exact (step.largest_eq inside).le.trans past
  | _ => exact past

omit [DecidableEq ι] in
/-- The clock of the limiter is not ahead of real time. -/
theorem CoarseAccount.offset_le [Fintype ι] {c : Config ι CoarseLimiter CoarseThread} (account : CoarseAccount p c)
    (clock : CoarseInvariant (clockOf c)) : c.mem.clock.offset ≤ c.mem.time := by
  have balance : c.mem.clock.offset + _ = c.mem.clock.appliedNs := clock.balance
  have behind : c.mem.clock.appliedNs ≤ c.mem.clock.largest := clock.behind
  have past := account.past
  omega

omit [DecidableEq ι] in
theorem CoarseThread.Step.offset_le [Fintype ι] {c : Config ι CoarseLimiter CoarseThread}
    (clock : CoarseInvariant (clockOf c)) {i : ι}
    (step : CoarseThread.Step refreshAfterNs p c.mem (c.loc i) mem' thread') :
    c.mem.clock.offset ≤ mem'.clock.offset := by
  rcases step.seen with ⟨same, -⟩ | moved
  · exact same ▸ le_rfl
  · exact (moved.effect (clock.known i) clock.behind).2.2.2.2.1

/-- The limiter is built with what the clock reads then. -/
theorem CoarseThread.Step.epoch_le (step : CoarseThread.Step refreshAfterNs p mem thread mem' thread')
    (epoch : ∀ epoch ∈ mem.epoch, epoch ≤ mem.clock.offset) (forward : mem.clock.offset ≤ mem'.clock.offset) :
    ∀ epoch ∈ mem'.epoch, epoch ≤ mem'.clock.offset := by
  intro e built
  cases before : mem.epoch with
  | some e' =>
      have same : some e' = some e := (step.later.2 e' before).symm.trans built
      exact (epoch e (before.trans same)).trans forward
  | none =>
      -- only the step that builds the limiter sets it
      cases step with
      | build unbuilt => exact (Option.some.inj built).ge
      | _ => exact absurd (before.symm.trans built) nofun

/-- A grant is one admission of the meter, at the reading of its check. -/
theorem CoarseThread.Step.metered (step : CoarseThread.Step refreshAfterNs p mem thread mem' thread')
    (mono : Monotone fun t => p.intervalsAt (nanos t)) (unsaturated : p.Unsaturated mem.time)
    (sound : thread.pc.Sound p mem)
    (metered : Metered (fun t => p.intervalsAt (nanos t)) (p.tolerance + 1) mem.tat
      (CoarseGrant.unitsIn mem.granted)) :
    Metered (fun t => p.intervalsAt (nanos t)) (p.tolerance + 1) mem'.tat (CoarseGrant.unitsIn mem'.granted) := by
  rcases step.grants with ⟨sameTat, same⟩ | ⟨call, readAt, newTat, here, tat, granted⟩
  · rw [sameTat, same]
    exact metered
  · rw [here] at sound
    obtain ⟨⟨positive, computed⟩, epoch, -, reading, past⟩ := sound
    have early : call.now ≤ mem.time := by omega
    have reached : p.Unsaturated call.now := (Nat.add_le_add_right (mono early) _).trans unsaturated
    obtain ⟨lifted, capped⟩ := GcraParams.attempt_swap positive reached computed
    rw [tat, granted]
    refine metered.grant mono lifted.ge (lifted ▸ capped) ?_ ?_
    · intro a b first last
      rw [CoarseGrant.unitsIn, CoarseGrant.units_cons, if_pos (decide_eq_true ⟨first, last⟩)]
      rfl
    · intro a b outside
      rw [CoarseGrant.unitsIn, CoarseGrant.units_cons, if_neg (decide_eq_true_iff.not.2 outside), Nat.add_zero]
      rfl

theorem CoarseAccount.step [Fintype ι] (isOpen : p.IsOpen) {c : Config ι CoarseLimiter CoarseThread}
    (account : CoarseAccount p c) (clock : CoarseInvariant (clockOf c)) {i : ι}
    (step : CoarseThread.Step refreshAfterNs p c.mem (c.loc i) mem' thread') :
    CoarseAccount p { mem := mem', loc := Function.update c.loc i thread' } := by
  have offset := account.offset_le clock
  have later := step.later
  have mono : Monotone fun t => p.intervalsAt (nanos t) := fun _ _ h => GcraParams.intervalsAt_nanos_mono isOpen h
  refine ⟨step.past account.past, ?_, ?_, ?_, ?_⟩
  · exact step.epoch_le account.epoch (step.offset_le clock)
  · exact (Function.forall_update_iff c.loc fun _ thread => thread.pc.Sound p mem').2
      ⟨step.sound (account.sound i) account.epoch offset, fun j _ => (account.sound j).later later⟩
  · refine step.forall_granted (fun grant member => (account.reads grant member).later later) ?_
    intro call readAt pc here
    have sound := account.sound i
    rw [here] at sound
    exact sound.2.later later
  · intro unsaturated
    have before : p.Unsaturated c.mem.time := (Nat.add_le_add_right (mono later.1) _).trans unsaturated
    exact step.metered mono before (account.sound i) (account.metered before)

theorem coarse_account [Fintype ι] (isOpen : p.IsOpen) {c : Config ι CoarseLimiter CoarseThread}
    (reach : Reachable (onCoarseClock refreshAfterNs p) CoarseLimiterConfig.new c) : CoarseAccount p c := by
  induction reach with
  | refl =>
      exact ⟨le_rfl, nofun, fun _ => trivial, nofun, fun _ => Metered.empty _ _ _⟩
  | tail reach step inductionHypothesis =>
      cases step with
      | thread i step => exact inductionHypothesis.step isOpen (clock_invariant reach) step

/-!
### The looseness of a lagging clock
-/

/-- A reading taken later than `before`, if it is, is one the clock did not show before. -/
def CoarseLimiter.Since (before mem : CoarseLimiter) (now readAt : ℕ) : Prop :=
  before.time < readAt → ∃ epoch, mem.epoch = some epoch ∧ before.clock.offset ≤ now + epoch

def CoarsePc.Since (before mem : CoarseLimiter) : CoarsePc → Prop
  | .checking call readAt _ => before.Since mem call.now readAt
  | _ => True

theorem CoarseLimiter.Since.later {before : CoarseLimiter} {now readAt : ℕ} (since : before.Since mem now readAt)
    (later : mem.Later mem') : before.Since mem' now readAt := by
  intro after
  obtain ⟨epoch, built, reading⟩ := since after
  exact ⟨epoch, later.2 epoch built, reading⟩

theorem CoarsePc.Since.later {before : CoarseLimiter} {pc : CoarsePc} (since : pc.Since before mem)
    (later : mem.Later mem') : pc.Since before mem' := by
  cases pc with
  | checking call readAt pc => exact CoarseLimiter.Since.later since later
  | idle | ticking | due | refreshing | reading => trivial

/-- A step of a thread after `before` leaves it with no older reading. -/
theorem CoarseThread.Step.since {before : CoarseLimiter}
    (step : CoarseThread.Step refreshAfterNs p mem thread mem' thread') (since : thread.pc.Since before mem)
    (forward : before.clock.offset ≤ mem.clock.offset) : thread'.pc.Since before mem' := by
  cases step with
  | pass forward => exact since.later ⟨forward, fun _ built => built⟩
  | @read reads done n began epoch built =>
      intro _
      exact ⟨epoch, built, forward.trans le_tsub_add⟩
  | guards | load | swapped | failed => exact since
  | _ => trivial

/-- From a configuration on, every later reading is one the clock did not show before. -/
theorem reads_since [Fintype ι] (isOpen : p.IsOpen) {before c : Config ι CoarseLimiter CoarseThread}
    (reach₀ : Reachable (onCoarseClock refreshAfterNs p) CoarseLimiterConfig.new before)
    (reach : Reachable (onCoarseClock refreshAfterNs p) before c) :
    (∀ i, (c.loc i).pc.Since before.mem c.mem) ∧
      ∀ grant ∈ c.mem.granted, before.mem.Since c.mem grant.now grant.readAt := by
  induction reach with
  | refl =>
      -- what was read so far was read no later
      have account := coarse_account isOpen reach₀
      have earlier {now readAt : ℕ} (read : before.mem.Read now readAt) : before.mem.Since before.mem now readAt := by
        obtain ⟨-, -, -, past⟩ := read
        exact fun after => absurd past (Nat.not_le.2 after)
      refine ⟨fun i => ?_, fun grant member => earlier (account.reads grant member)⟩
      have sound := account.sound i
      cases here : (before.loc i).pc with
      | checking call readAt pc =>
          rw [here] at sound
          exact earlier sound.2
      | idle | ticking | due | refreshing | reading => trivial
  | tail reach step inductionHypothesis =>
      obtain ⟨threads, grants⟩ := inductionHypothesis
      cases step with
      | @thread i mem' thread' step =>
          have forward := (coarse_mono (clock_invariant reach₀) (clockOf_reachable reach)).2
          have later := step.later
          constructor
          · exact (Function.forall_update_iff _ fun _ (thread : CoarseThread) => thread.pc.Since before.mem mem').2
              ⟨step.since (threads i) forward, fun j _ => (threads j).later later⟩
          · refine step.forall_granted (fun grant member => (grants grant member).later later) ?_
            intro call readAt pc here
            have since := threads i
            rw [here] at since
            exact CoarseLimiter.Since.later since later

/-- In every interleaving of ticks, reads and checks, whatever the clock's lag is when a span of real time begins,
    the checks that read the clock in the span are granted no more than the burst and the intervals of the span
    with the lag added in front.  The lag of earlier times does not matter, nor how long the clock has run. -/
theorem coarse_clock_looseness [Fintype ι] {quota : Quota} (admits : admitsAnything .leakyBucket quota = true)
    {before c : Config ι CoarseLimiter CoarseThread}
    (reach₀ : Reachable (onCoarseClock refreshAfterNs (GcraParams.new quota)) CoarseLimiterConfig.new before)
    (reach : Reachable (onCoarseClock refreshAfterNs (GcraParams.new quota)) before c)
    (unsaturated : (GcraParams.new quota).intervalsAt (nanos c.mem.time) + quota.burst < 2 ^ 64)
    {b : ℕ} (order : before.mem.time ≤ b) :
    let epoch := c.mem.epoch.getD 0
    grantedBetween c.mem.granted before.mem.time b ≤ quota.burst +
      (GcraParams.new quota).intervalsAt (nanos (b - epoch)) -
        (GcraParams.new quota).intervalsAt (nanos (before.mem.time - before.mem.lag - epoch)) := by
  intro epoch
  have isOpen := GcraParams.new_isOpen_of_admits admits
  have burst := GcraParams.tolerance_add_one isOpen.not_closed
  have account := coarse_account isOpen (reach₀.trans reach)
  have offset := (coarse_account isOpen reach₀).offset_le (clock_invariant reach₀)
  have stood : before.mem.time - before.mem.lag = before.mem.clock.offset := by
    unfold CoarseLimiter.lag
    omega
  rw [stood]
  have short : (GcraParams.new quota).Unsaturated c.mem.time := by
    unfold GcraParams.Unsaturated
    rw [burst]
    exact Nat.le_of_lt_succ unsaturated
  have bound := (account.metered short).bound (show before.mem.clock.offset - epoch ≤ b - epoch by omega)
  rw [burst] at bound
  refine le_trans (CoarseGrant.units_mono fun grant member counted => ?_) bound
  obtain ⟨after, last⟩ := of_decide_eq_true counted
  obtain ⟨epoch₁, built, reading, -⟩ := account.reads grant member
  obtain ⟨epoch₂, built₂, shown⟩ := (reads_since isOpen reach₀ reach).2 grant member after
  obtain rfl := Option.some.inj (built.symm.trans built₂)
  have same : epoch = epoch₁ := by rw [show epoch = c.mem.epoch.getD 0 from rfl, built, Option.getD_some]
  exact decide_eq_true ⟨by omega, by omega⟩

end Runs

/-- A clock ticked by hand has stood still for five nanoseconds when a span of one begins: the check of a bucket of
    one unit a nanosecond that reads the clock in the span, once it has been ticked, is granted. -/
theorem coarse_clock_looseness_after_five :
    let next := CoarseRole.turn 0 (GcraParams.new unitPerNano)
    let before := runSchedule next (List.replicate 8 .checker ++ List.replicate 5 .time) CoarseLimiterConfig.new
    let c := runSchedule next ([.time] ++ List.replicate 5 .ticker ++ List.replicate 5 .checker) before
    before.mem.lag = 5 ∧ grantedBetween c.mem.granted before.mem.time 6 = 1 ∧
      grantedBetween c.mem.granted before.mem.time 6 ≤ 1 + 6 - 0 := by
  intro next before c
  have reach₀ : Reachable (onCoarseClock 0 (GcraParams.new unitPerNano)) CoarseLimiterConfig.new before :=
    Reachable.schedule (fun role => CoarseRole.turn_sound 0 _ role) _ _
  have reach : Reachable (onCoarseClock 0 (GcraParams.new unitPerNano)) before c :=
    Reachable.schedule (fun role => CoarseRole.turn_sound 0 _ role) _ _
  have bounded := @coarse_clock_looseness _ 0 _ _ unitPerNano (by decide) before c reach₀ reach (by decide +kernel) 6
    (by decide +kernel)
  refine ⟨by decide +kernel, by decide +kernel, ?_⟩
  refine le_trans bounded ?_
  decide +kernel

end RateNet
