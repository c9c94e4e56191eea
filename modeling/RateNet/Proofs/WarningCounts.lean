/-
Module: RateNet.Proofs.WarningCounts
Purpose: Whether every event is reported exactly once. A call knows what it will report before it claims the
  right to. Two calls in progress at once whose clock readings are an interval apart may both claim, one after
  the other, and the second reports events the first has reported; the count then wraps below zero. While the
  readings of calls in progress are closer than that, a call whose events may have been reported never finds
  a warning due, and the count and the reports always make up the events noted.
Trusted boundary: that of RateNet.Store.Warnings
Main exports: ReportedOnce, ReadingsWithin, NoteInvariant, note_invariant,
  events_reported_once_iff_readings_within, stale_call_reports_again, note_alone, warnings_account
-/
import RateNet.Store.Warnings

namespace RateNet

open Interleaving

/-!
### The words
-/

theorem fetchAdd_eq {word count : ℕ} (fits : word + count < 2 ^ 64) : fetchAdd word count = word + count :=
  Nat.mod_eq_of_lt fits

theorem fetchSub_eq {word count : ℕ} (fits : word < 2 ^ 64) (enough : count ≤ word) :
    fetchSub word count = word - count := by
  rw [fetchSub]
  omega

namespace WarnEvery

theorem due_eq_false_iff {last nowMs : ℕ} :
    due last nowMs = false ↔ last ≠ u64Max ∧ nowMs < last + warnIntervalMs := by
  have positive : 0 < warnIntervalMs := by decide
  rw [due, Bool.or_eq_false_iff, beq_eq_false_iff_ne, decide_eq_false_iff_not]
  exact and_congr_right fun _ => by omega

/-- The place of a time among the values of `last_ms`: no warning yet comes first. -/
def rank (last : ℕ) : ℕ := if last = u64Max then 0 else last + 1

/-- A warning that is due moves its time forward. -/
theorem rank_lt_of_due {last nowMs : ℕ} (clock : nowMs < u64Max) (claims : due last nowMs = true) :
    rank last < rank nowMs := by
  have positive : 0 < warnIntervalMs := by decide
  rw [rank, rank, if_neg clock.ne]
  rw [due, Bool.or_eq_true, beq_iff_eq, decide_eq_true_iff] at claims
  split
  · exact Nat.succ_pos nowMs
  · rename_i warned
    have passed := claims.resolve_left warned
    omega

end WarnEvery

/-!
### Claims
-/

namespace NotePc

/-- The thread owns a warning whose count it has not taken off. -/
def Claims : NotePc → Prop
  | .claimed _ _ => True
  | _ => False

theorem not_claims_afterLoad (pending nowMs last : ℕ) : ¬ (afterLoad pending nowMs last).Claims := by
  unfold afterLoad
  split <;> exact id

/-- What a thread knows, where `free` says that no thread owns a warning: what it would report is still on the
    count, or it will not find a warning due, or its swap will fail. -/
def Known (mem : WarnMemory) (free : Prop) : NotePc → Prop
  | .idle => True
  | .added pending nowMs =>
      nowMs < u64Max ∧ (pending ≤ mem.words.pending ∧ free ∨ WarnEvery.due mem.words.lastMs nowMs = false)
  | .swap pending nowMs last =>
      nowMs < u64Max ∧ WarnEvery.due last nowMs = true ∧
        WarnEvery.rank last ≤ WarnEvery.rank mem.words.lastMs ∧
        (last = mem.words.lastMs → pending ≤ mem.words.pending ∧ free)
  | .claimed pending nowMs => pending ≤ mem.words.pending ∧ mem.words.lastMs = nowMs ∧ nowMs < u64Max

/-- Further events, and threads that own nothing, change nothing a thread knows. -/
theorem Known.mono {mem mem' : WarnMemory} {free free' : Prop} {pc : NotePc} (known : pc.Known mem free)
    (last : mem'.words.lastMs = mem.words.lastMs) (grown : mem.words.pending ≤ mem'.words.pending)
    (freed : free → free') : pc.Known mem' free' := by
  cases pc with
  | idle => trivial
  | added pending nowMs =>
      obtain ⟨clock, fresh | late⟩ := known
      · exact ⟨clock, Or.inl ⟨fresh.1.trans grown, freed fresh.2⟩⟩
      · exact ⟨clock, Or.inr (last ▸ late)⟩
  | swap pending nowMs loaded =>
      obtain ⟨clock, due, behind, fresh⟩ := known
      refine ⟨clock, due, last ▸ behind, ?_⟩
      intro same
      obtain ⟨enough, unowned⟩ := fresh (same.trans last)
      exact ⟨enough.trans grown, freed unowned⟩
  | claimed pending nowMs => exact ⟨known.1.trans grown, last.trans known.2.1, known.2.2⟩

end NotePc

section Interleavings

variable {ι : Type*} {c : Config ι WarnMemory NotePc} {i : ι} {gap : ℕ}

/-- When no call is in progress, the reports and the count make up the events noted; and no thread is about to
    take more off the count than there is. -/
def ReportedOnce (c : Config ι WarnMemory NotePc) : Prop :=
  ((∀ i, c.loc i = .idle) → c.mem.reported + c.mem.words.pending = c.mem.noted) ∧
    ∀ i, (c.loc i).taken ≤ c.mem.words.pending

/-- The clock readings of the calls in progress are less than `gap` apart. -/
def ReadingsWithin (gap : ℕ) (c : Config ι WarnMemory NotePc) : Prop :=
  ∀ i j, ∀ nowMs ∈ (c.loc i).reading, ∀ other ∈ (c.loc j).reading, nowMs < other + gap

instance [Fintype ι] (gap : ℕ) (c : Config ι WarnMemory NotePc) : Decidable (ReadingsWithin gap c) :=
  inferInstanceAs (Decidable (∀ i j, ∀ nowMs ∈ (c.loc i).reading, ∀ other ∈ (c.loc j).reading,
    nowMs < other + gap))

theorem ReadingsWithin.weaken {gap' : ℕ} (within : ReadingsWithin gap c) (wider : gap ≤ gap') :
    ReadingsWithin gap' c :=
  fun i j nowMs here other there => (within i j nowMs here other there).trans_le (Nat.add_le_add_left wider _)

/-- No thread owns a warning. -/
def Unowned (c : Config ι WarnMemory NotePc) : Prop := ∀ j, ¬ (c.loc j).Claims

/-- What holds of every configuration of a run with close readings. -/
structure NoteInvariant (c : Config ι WarnMemory NotePc) : Prop where
  balance : c.mem.words.pending + c.mem.reported = c.mem.noted
  known : ∀ i, (c.loc i).Known c.mem (Unowned c)
  sole : ∀ i j, (c.loc i).Claims → (c.loc j).Claims → i = j

theorem NoteInvariant.start : NoteInvariant (noteStart : Config ι WarnMemory NotePc) :=
  { balance := rfl, known := fun _ => trivial, sole := fun _ _ owns => owns.elim }

theorem NoteInvariant.reportedOnce (inv : NoteInvariant c) : ReportedOnce c := by
  constructor
  · intro _
    rw [Nat.add_comm]
    exact inv.balance
  · intro i
    have known := inv.known i
    cases here : c.loc i with
    | claimed pending nowMs =>
        rw [here] at known
        exact known.1
    | idle | added | swap => exact Nat.zero_le _

variable [DecidableEq ι]

/-- The reading of a thread that has moved is close to that of any other. -/
theorem ReadingsWithin.of_update {mem' : WarnMemory} {loc' : NotePc}
    (within : ReadingsWithin gap { mem := mem', loc := Function.update c.loc i loc' }) {j : ι} (apart : j ≠ i)
    {own other : ℕ} (here : loc'.reading = some own) (there : (c.loc j).reading = some other) :
    own < other + gap ∧ other < own + gap := by
  have moved : own ∈ (Function.update c.loc i loc' i).reading := by
    rw [Function.update_self]
    exact here
  have still : other ∈ (Function.update c.loc i loc' j).reading := by
    rw [Function.update_of_ne apart]
    exact there
  exact ⟨within i j own moved other still, within j i other still own moved⟩

/-!
### One step
-/

/-- A step that neither claims a warning nor takes anything off the count. -/
theorem NoteInvariant.quiet {mem' : WarnMemory} {loc' : NotePc} (inv : NoteInvariant c)
    (owns_nothing : ¬ loc'.Claims) (last : mem'.words.lastMs = c.mem.words.lastMs)
    (grown : c.mem.words.pending ≤ mem'.words.pending)
    (balance : mem'.words.pending + mem'.reported = mem'.noted) (known : loc'.Known mem' (Unowned c)) :
    NoteInvariant { mem := mem', loc := Function.update c.loc i loc' } := by
  have claims : ∀ j, (Function.update c.loc i loc' j).Claims → (c.loc j).Claims :=
    (Function.forall_update_iff c.loc fun j loc => loc.Claims → (c.loc j).Claims).2
      ⟨fun owns => absurd owns owns_nothing, fun _ _ owns => owns⟩
  have freed : Unowned c → Unowned { mem := mem', loc := Function.update c.loc i loc' } :=
    fun unowned j owns => unowned j (claims j owns)
  refine ⟨balance, ?_, fun j k owns owns' => inv.sole j k (claims j owns) (claims k owns')⟩
  refine (Function.forall_update_iff c.loc fun j loc => loc.Known mem' _).2 ⟨?_, ?_⟩
  · exact known.mono rfl le_rfl freed
  · exact fun j _ => (inv.known j).mono last grown freed

/-- Counting events: what the call would report is the whole count, unless a thread owns a warning. Then the
    call's reading is close to that thread's, and no warning is due for it. -/
theorem NoteInvariant.add (inv : NoteInvariant c) (narrow : gap ≤ warnIntervalMs) {count nowMs : ℕ}
    (clock : nowMs < u64Max) (events : c.mem.noted + count < 2 ^ 64)
    (within : ReadingsWithin gap
      { mem := c.mem, loc := Function.update c.loc i (.added (fetchAdd c.mem.words.pending count) nowMs) })
    (here : c.loc i = .idle) :
    NoteInvariant
      { mem :=
          { c.mem with
            words := { c.mem.words with pending := fetchAdd c.mem.words.pending count }
            noted := c.mem.noted + count }
        loc := Function.update c.loc i (.added (fetchAdd c.mem.words.pending count) nowMs) } := by
  have balance := inv.balance
  have sum : fetchAdd c.mem.words.pending count = c.mem.words.pending + count := fetchAdd_eq (by omega)
  have total : fetchAdd c.mem.words.pending count + c.mem.reported = c.mem.noted + count := by omega
  refine inv.quiet id rfl (by rw [sum]; exact Nat.le_add_right _ _) total ⟨clock, ?_⟩
  by_cases unowned : Unowned c
  · exact Or.inl ⟨le_rfl, unowned⟩
  · right
    obtain ⟨j, owns⟩ := not_forall_not.1 unowned
    have known := inv.known j
    have apart : j ≠ i := by
      rintro rfl
      rw [here] at owns
      exact owns
    cases there : c.loc j with
    | claimed pending other =>
        rw [there] at known
        obtain ⟨-, last, clock'⟩ := known
        obtain ⟨close, -⟩ := within.of_update apart rfl (congrArg NotePc.reading there)
        show WarnEvery.due c.mem.words.lastMs nowMs = false
        rw [last]
        exact WarnEvery.due_eq_false_iff.2 ⟨clock'.ne, by omega⟩
    | idle | added | swap =>
        rw [there] at owns
        exact owns.elim

/-- Loading the time: a call that finds a warning due still has its events on the count. -/
theorem NoteInvariant.load (inv : NoteInvariant c) {pending nowMs : ℕ} (here : c.loc i = .added pending nowMs) :
    NoteInvariant
      { mem := c.mem, loc := Function.update c.loc i (.afterLoad pending nowMs c.mem.words.lastMs) } := by
  refine inv.quiet (NotePc.not_claims_afterLoad _ _ _) rfl le_rfl inv.balance ?_
  have known := inv.known i
  rw [here] at known
  unfold NotePc.afterLoad
  split
  · rename_i due
    obtain ⟨clock, fresh | late⟩ := known
    · exact ⟨clock, due, le_rfl, fun _ => fresh⟩
    · rw [due] at late
      cases late
  · trivial

/-- Claiming a warning: no other thread owns one, every other call is close to the new time, and a swap still
    to come compares with an older one. -/
theorem NoteInvariant.swapped (inv : NoteInvariant c) (narrow : gap ≤ warnIntervalMs) {pending nowMs : ℕ}
    (within : ReadingsWithin gap
      { mem := c.mem, loc := Function.update c.loc i (.claimed pending nowMs) })
    (here : c.loc i = .swap pending nowMs c.mem.words.lastMs) :
    NoteInvariant
      { mem := { c.mem with words := { c.mem.words with lastMs := nowMs } }
        loc := Function.update c.loc i (.claimed pending nowMs) } := by
  have known := inv.known i
  rw [here] at known
  obtain ⟨clock, due, -, fresh⟩ := known
  obtain ⟨enough, unowned⟩ := fresh rfl
  have forward := WarnEvery.rank_lt_of_due clock due
  have claims : ∀ j, (Function.update c.loc i (.claimed pending nowMs) j).Claims → j = i :=
    (Function.forall_update_iff c.loc fun j loc => loc.Claims → j = i).2
      ⟨fun _ => rfl, fun j _ owns => absurd owns (unowned j)⟩
  refine ⟨inv.balance, ?_, fun j k owns owns' => (claims j owns).trans (claims k owns').symm⟩
  refine (Function.forall_update_iff c.loc fun j loc => loc.Known _ _).2 ⟨⟨enough, rfl, clock⟩, ?_⟩
  intro j apart
  have other := inv.known j
  cases there : c.loc j with
  | idle => trivial
  | added pending' nowMs' =>
      rw [there] at other
      obtain ⟨-, close⟩ := within.of_update apart rfl (congrArg NotePc.reading there)
      have late : WarnEvery.due nowMs nowMs' = false := WarnEvery.due_eq_false_iff.2 ⟨clock.ne, by omega⟩
      exact ⟨other.1, Or.inr late⟩
  | swap pending' nowMs' last =>
      rw [there] at other
      obtain ⟨clock', due', behind, -⟩ := other
      have older := behind.trans_lt forward
      refine ⟨clock', due', older.le, ?_⟩
      rintro rfl
      exact absurd older (lt_irrefl _)
  | claimed pending' nowMs' =>
      have owned := unowned j
      rw [there] at owned
      exact absurd trivial owned

/-- Taking a report off the count: every other call in progress has been passed over by the claim. -/
theorem NoteInvariant.subtract (inv : NoteInvariant c) (events : c.mem.noted < 2 ^ 64) {pending nowMs : ℕ}
    (here : c.loc i = .claimed pending nowMs) :
    NoteInvariant
      { mem :=
          { c.mem with
            words := { c.mem.words with pending := fetchSub c.mem.words.pending pending }
            reported := c.mem.reported + pending }
        loc := Function.update c.loc i .idle } := by
  have known := inv.known i
  rw [here] at known
  obtain ⟨enough, last, clock⟩ := known
  have owner : (c.loc i).Claims := by
    rw [here]
    trivial
  have balance := inv.balance
  have difference : fetchSub c.mem.words.pending pending = c.mem.words.pending - pending :=
    fetchSub_eq (by omega) enough
  have claims : ∀ j, ¬ (Function.update c.loc i .idle j).Claims :=
    (Function.forall_update_iff c.loc fun j loc => ¬ loc.Claims).2
      ⟨id, fun j apart owns => apart (inv.sole j i owns owner)⟩
  refine ⟨?_, ?_, fun j _ owns => absurd owns (claims j)⟩
  · show fetchSub c.mem.words.pending pending + (c.mem.reported + pending) = c.mem.noted
    omega
  refine (Function.forall_update_iff c.loc fun j loc => loc.Known _ _).2 ⟨trivial, ?_⟩
  intro j apart
  have other := inv.known j
  cases there : c.loc j with
  | idle => trivial
  | added pending' nowMs' =>
      rw [there] at other
      obtain ⟨clock', fresh | late⟩ := other
      · exact absurd owner (fresh.2 i)
      · exact ⟨clock', Or.inr late⟩
  | swap pending' nowMs' loaded =>
      rw [there] at other
      obtain ⟨clock', due', behind, fresh⟩ := other
      exact ⟨clock', due', behind, fun same => absurd owner ((fresh same).2 i)⟩
  | claimed pending' nowMs' =>
      have owns : (c.loc j).Claims := by
        rw [there]
        trivial
      exact absurd (inv.sole j i owns owner) apart

theorem NotePc.Advance.noted_le {mem mem' : WarnMemory} {pc pc' : NotePc} (step : Advance mem pc mem' pc') :
    mem.noted ≤ mem'.noted := by
  cases step with
  | add count nowMs word clock => exact Nat.le_add_right _ _
  | load | swapped | failed | subtract => exact le_rfl

/-- One step of one thread keeps the invariant while the readings stay close. -/
theorem NoteInvariant.step (inv : NoteInvariant c) (narrow : gap ≤ warnIntervalMs) {mem' : WarnMemory}
    {loc' : NotePc} (step : NotePc.Advance c.mem (c.loc i) mem' loc') (events : mem'.noted < 2 ^ 64)
    (within : ReadingsWithin gap { mem := mem', loc := Function.update c.loc i loc' }) :
    NoteInvariant { mem := mem', loc := Function.update c.loc i loc' } := by
  generalize here : c.loc i = loc at step
  cases step with
  | add count nowMs word clock => exact inv.add narrow clock events within here
  | load pending nowMs => exact inv.load here
  | swapped pending nowMs => exact inv.swapped narrow within here
  | failed pending nowMs last changed => exact inv.quiet id rfl le_rfl inv.balance trivial
  | subtract pending nowMs => exact inv.subtract events here

/-- Every run with close readings keeps the invariant while there are fewer than `2^64` events. -/
theorem note_invariant (narrow : gap ≤ warnIntervalMs)
    (reach : ReachableThrough noteProgram (ReadingsWithin gap) noteStart c) (events : c.mem.noted < 2 ^ 64) :
    NoteInvariant c := by
  refine reach.invariant (fun c => c.mem.noted < 2 ^ 64 → NoteInvariant c) (fun _ => .start) ?_ events
  intro c i mem' loc' inv step within events
  have step : NotePc.Advance c.mem (c.loc i) mem' loc' := step
  exact (inv (step.noted_le.trans_lt events)).step narrow step events within

end Interleavings

/-!
### Two calls
-/

/-- One thread noting one event again and again at `nowMs`. -/
def NotePc.next (nowMs : ℕ) (mem : WarnMemory) : NotePc → WarnMemory × NotePc
  | .idle =>
      ({ mem with
          words := { mem.words with pending := fetchAdd mem.words.pending 1 }
          noted := mem.noted + 1 },
        .added (fetchAdd mem.words.pending 1) nowMs)
  | .added pending nowMs => (mem, afterLoad pending nowMs mem.words.lastMs)
  | .swap pending nowMs last =>
      if mem.words.lastMs = last then
        ({ mem with words := { mem.words with lastMs := nowMs } }, .claimed pending nowMs)
      else
        (mem, .idle)
  | .claimed pending _ =>
      ({ mem with
          words := { mem.words with pending := fetchSub mem.words.pending pending }
          reported := mem.reported + pending },
        .idle)

theorem NotePc.next_sound {nowMs : ℕ} (clock : nowMs < u64Max) (mem : WarnMemory) (pc : NotePc) :
    Advance mem pc (pc.next nowMs mem).1 (pc.next nowMs mem).2 := by
  cases pc with
  | idle => exact .add mem 1 nowMs (by decide) clock
  | added pending nowMs => exact .load mem pending nowMs
  | swap pending nowMs last =>
      simp only [next]
      split
      · rename_i unchanged
        subst unchanged
        exact .swapped mem pending nowMs
      · rename_i changed
        exact .failed mem pending nowMs last changed
  | claimed pending nowMs => exact .subtract mem pending nowMs

/-- Two calls of one event each, the one of thread `true` at `laterMs` and the other at 0: both are counted,
    the other reports both, and only then does thread `true` load the time. -/
def twoCalls (laterMs : ℕ) (steps : ℕ) : Config Bool WarnMemory NotePc :=
  runSchedule (fun i mem (pc : NotePc) => pc.next (if i then laterMs else 0) mem)
    ([true, false, false, false, false, true, true, true].take steps) noteStart

theorem twoCalls_sound {laterMs : ℕ} (clock : laterMs < u64Max) (i : Bool) (mem : WarnMemory) (pc : NotePc) :
    NotePc.Advance mem pc (pc.next (if i then laterMs else 0) mem).1
      (pc.next (if i then laterMs else 0) mem).2 := by
  apply NotePc.next_sound
  split
  · exact clock
  · decide

theorem twoCalls_reachable {laterMs steps gap : ℕ} (clock : laterMs < u64Max)
    (within : ∀ k < steps, ReadingsWithin gap (twoCalls laterMs (k + 1))) :
    ReachableThrough noteProgram (ReadingsWithin gap) noteStart (twoCalls laterMs steps) := by
  apply ReachableThrough.schedule fun i mem pc => Or.inr (twoCalls_sound clock i mem pc)
  intro k inside
  have early : k < steps := inside.trans_le (List.length_take_le _ _)
  rw [List.take_take, min_eq_left early]
  exact within k early

/-- Once it has claimed a warning again, the later call is to take one event off a count of none. -/
theorem twoCalls_overdraw :
    ((twoCalls 60000 7).loc true).taken = 1 ∧ (twoCalls 60000 7).mem.words.pending = 0 ∧
      (twoCalls 60000 7).mem.noted = 2 := by
  decide +kernel

/-- In every run in which calls in progress at once have readings less than `gap` apart, with fewer than `2^64`
    events in all, every event is reported exactly once and the count never wraps below zero; this is so
    exactly for gaps up to the interval between warnings. -/
theorem events_reported_once_iff_readings_within (gap : ℕ) :
    (∀ (ι : Type) [DecidableEq ι] (c : Config ι WarnMemory NotePc),
        ReachableThrough noteProgram (ReadingsWithin gap) noteStart c → c.mem.noted < 2 ^ 64 →
          ReportedOnce c) ↔
      gap ≤ warnIntervalMs := by
  constructor
  · intro once
    by_contra wide
    have steps : ∀ k < 7, ReadingsWithin 60001 (twoCalls 60000 (k + 1)) := by decide +kernel
    have apart : ∀ k < 7, ReadingsWithin gap (twoCalls 60000 (k + 1)) :=
      fun k inside => (steps k inside).weaken (Nat.lt_of_not_le wide)
    have reach := twoCalls_reachable (by decide) apart
    obtain ⟨taken, count, noted⟩ := twoCalls_overdraw
    have enough := (once Bool _ reach (by rw [noted]; decide)).2 true
    rw [taken, count] at enough
    exact absurd enough (by decide)
  · intro narrow ι _ c reach events
    exact (note_invariant narrow reach events).reportedOnce

/-- A call a millisecond nearer to the other finds no warning due: the other has reported both events. -/
theorem events_reported_once_of_near_calls :
    (twoCalls 59999 6).mem = { words := { pending := 0, lastMs := 0 }, noted := 2, reported := 2 } ∧
      ReportedOnce (twoCalls 59999 6) := by
  have steps : ∀ k < 6, ReadingsWithin 60000 (twoCalls 59999 (k + 1)) := by decide +kernel
  have reach := twoCalls_reachable (by decide) steps
  exact ⟨by decide +kernel, (events_reported_once_iff_readings_within 60000).2 le_rfl Bool _ reach
    (by decide +kernel)⟩

/-- Sixty seconds after the other, the later call finds a warning due once more. It reports an event that
    has been reported, and the count wraps below zero. -/
theorem stale_call_reports_again :
    Reachable noteProgram noteStart (twoCalls 60000 7) ∧ Reachable noteProgram noteStart (twoCalls 60000 8) ∧
      (((twoCalls 60000 7).loc true).taken, (twoCalls 60000 7).mem.words.pending) = (1, 0) ∧
      (∀ i, (twoCalls 60000 8).loc i = .idle) ∧
      (twoCalls 60000 8).mem =
        { words := { pending := 2 ^ 64 - 1, lastMs := 60000 }, noted := 2, reported := 3 } := by
  have reach : ∀ steps, Reachable noteProgram noteStart (twoCalls 60000 steps) := fun steps =>
    Reachable.schedule (fun i mem pc => Or.inr (twoCalls_sound (by decide) i mem pc)) _ _
  exact ⟨reach 7, reach 8, by decide +kernel, by decide +kernel, by decide +kernel⟩

/-!
### One call at a time
-/

/-- The steps of a call that no other thread interrupts. -/
theorem NotePc.run_note (mem : WarnMemory) {count nowMs : ℕ} (word : count ≤ u64Max)
    (clock : nowMs < u64Max) :
    Relation.ReflTransGen (fun x y : WarnMemory × NotePc => Advance x.1 x.2 y.1 y.2)
      (mem, .idle) (mem.note count nowMs, .idle) := by
  let pending := fetchAdd mem.words.pending count
  let counted : WarnMemory :=
    { mem with words := { mem.words with pending }, noted := mem.noted + count }
  have begun : Relation.ReflTransGen (fun x y : WarnMemory × NotePc => Advance x.1 x.2 y.1 y.2)
      (mem, .idle) (counted, afterLoad pending nowMs mem.words.lastMs) := by
    have added : Advance mem .idle counted (.added pending nowMs) := .add mem count nowMs word clock
    exact .head (b := (counted, .added pending nowMs)) added (.single (.load counted pending nowMs))
  by_cases due : WarnEvery.due mem.words.lastMs nowMs = true
  · have claims : afterLoad pending nowMs mem.words.lastMs = .swap pending nowMs counted.words.lastMs :=
      if_pos due
    have reports : mem.note count nowMs =
        { words := { pending := fetchSub pending pending, lastMs := nowMs }
          noted := mem.noted + count, reported := mem.reported + pending } := by
      simp only [WarnMemory.note, WarnEvery.note, if_pos due, Option.getD_some, pending]
    rw [claims] at begun
    rw [reports]
    exact Relation.ReflTransGen.tail (b := (_, _))
      (Relation.ReflTransGen.tail (c := (_, _)) begun (.swapped counted pending nowMs))
      (.subtract _ pending nowMs)
  · have gives : afterLoad pending nowMs mem.words.lastMs = .idle := if_neg due
    have waits : mem.note count nowMs = counted := by
      simp only [WarnMemory.note, WarnEvery.note, if_neg due, Option.getD_none, Nat.add_zero, counted, pending]
    rw [gives] at begun
    rw [waits]
    exact begun

/-- A call that no other thread interrupts is one of the runs. -/
theorem note_alone {ι : Type*} [DecidableEq ι] {c : Config ι WarnMemory NotePc} {i : ι}
    (idle : c.loc i = .idle) {count nowMs : ℕ} (word : count ≤ u64Max) (clock : nowMs < u64Max) :
    Reachable noteProgram c { c with mem := c.mem.note count nowMs } := by
  have run := NotePc.run_note c.mem word clock
  rw [← idle] at run
  have alone : Reachable noteProgram c
      { mem := c.mem.note count nowMs, loc := Function.update c.loc i (c.loc i) } := Reachable.solo c i run
  rw [Function.update_eq_self] at alone
  exact alone

/-- By itself a call accounts for its events, whatever the clock says. -/
theorem WarnEvery.note_account {every : WarnEvery} {count : ℕ} (fits : every.pending + count < 2 ^ 64)
    (nowMs : ℕ) :
    (every.note count nowMs).1.getD 0 + (every.note count nowMs).2.pending = every.pending + count := by
  have sum := fetchAdd_eq fits
  rw [WarnEvery.note]
  split
  · have none_left : fetchSub (fetchAdd every.pending count) (fetchAdd every.pending count) = 0 := by
      rw [fetchSub_eq (by omega) le_rfl, Nat.sub_self]
    rw [Option.getD_some, none_left, sum, Nat.add_zero]
  · rw [Option.getD_none, sum, Nat.zero_add]

section Sequential

variable {K : Type} {warnings : Warnings} {kind asked : WarnKind} {count nowMs : ℕ}

/-- The events the warnings of a kind speak of. -/
def WarnKind.reportedIn (kind : WarnKind) (emitted : List Warning) : ℕ :=
  ((emitted.filter fun warning => warning.kind = kind).map Warning.count).sum

/-- The events of a kind in a check. -/
def WarnKind.eventsOf (kind : WarnKind) (outcome : Outcome K) : ℕ :=
  match kind with
  | .refused => outcome.refused.toNat
  | .overflowed => outcome.reclaimed.overflowed
  | .forgotten => outcome.reclaimed.forgotten

theorem WarnKind.eventsOf_eq (kind : WarnKind) (outcome : Outcome K) :
    kind.eventsOf outcome =
      (if kind = .overflowed then outcome.reclaimed.overflowed else 0) +
        (if kind = .forgotten then outcome.reclaimed.forgotten else 0) +
        (if kind = .refused then outcome.refused.toNat else 0) := by
  cases kind with
  | refused => exact (Nat.zero_add _).symm
  | overflowed => rfl
  | forgotten => exact (Nat.zero_add _).symm

theorem WarnKind.reportedIn_append (kind : WarnKind) (first later : List Warning) :
    kind.reportedIn (first ++ later) = kind.reportedIn first + kind.reportedIn later := by
  rw [reportedIn, List.filter_append, List.map_append, List.sum_append]
  rfl

theorem WarnKind.reportedIn_warning (total : Option ℕ) :
    asked.reportedIn (total.map kind.warning).toList = if asked = kind then total.getD 0 else 0 := by
  cases total with
  | none => simp [WarnKind.reportedIn]
  | some total =>
      by_cases same : asked = kind
      · simp [WarnKind.reportedIn, WarnKind.warning, same]
      · simp [WarnKind.reportedIn, WarnKind.warning, same, Ne.symm same]

theorem Warnings.get_set (every : WarnEvery) :
    (warnings.set every kind).get asked = if asked = kind then every else warnings.get asked := by
  cases kind <;> cases asked <;> rfl

/-- The events of a kind warned of and those still pending are those pending before and the new ones. -/
def WarningsBalance (asked : WarnKind) (warnings : Warnings) (events : ℕ)
    (result : List Warning × Warnings) : Prop :=
  asked.reportedIn result.1 + (result.2.get asked).pending = (warnings.get asked).pending + events

theorem WarningsBalance.append {events events' : ℕ} {first later : List Warning × Warnings}
    (one : WarningsBalance asked warnings events first) (two : WarningsBalance asked first.2 events' later) :
    WarningsBalance asked warnings (events + events') (first.1 ++ later.1, later.2) := by
  unfold WarningsBalance at one two ⊢
  dsimp only
  rw [WarnKind.reportedIn_append]
  omega

/-- What is pending after a call leaves room for further events if what was pending before did. -/
theorem WarningsBalance.fits {events events' : ℕ} {result : List Warning × Warnings}
    (balance : WarningsBalance asked warnings events result)
    (fits : (warnings.get asked).pending + (events + events') < 2 ^ 64) :
    (result.2.get asked).pending + events' < 2 ^ 64 := by
  unfold WarningsBalance at balance
  omega

/-- Noting events of one kind, if there are any, accounts for every kind. -/
theorem warn_balance {guard : Prop} [Decidable guard] {events : ℕ}
    (fits : (warnings.get kind).pending + events < 2 ^ 64) (noted : guard → count = events)
    (nothing : ¬ guard → events = 0) :
    WarningsBalance asked warnings (if asked = kind then events else 0)
      (if guard then warnings.warn kind count nowMs else ([], warnings)) := by
  by_cases some_event : guard
  · obtain rfl := noted some_event
    have account := WarnEvery.note_account fits nowMs
    rw [if_pos some_event]
    unfold WarningsBalance Warnings.warn
    dsimp only
    rw [WarnKind.reportedIn_warning, Warnings.get_set]
    split
    · rename_i same
      rw [same]
      exact account
    · exact Nat.zero_add _
  · rw [if_neg some_event, nothing some_event, ite_self]
    exact Nat.zero_add _

theorem warnReclaimed_balance {reclaimed : Reclaimed K}
    (spilled : (warnings.get .overflowed).pending + reclaimed.overflowed < 2 ^ 64)
    (dropped : (warnings.get .forgotten).pending + reclaimed.forgotten < 2 ^ 64) (asked : WarnKind) :
    WarningsBalance asked warnings
      ((if asked = .overflowed then reclaimed.overflowed else 0) +
        (if asked = .forgotten then reclaimed.forgotten else 0))
      (warnings.warnReclaimed reclaimed nowMs) := by
  have first : ∀ asked, WarningsBalance asked warnings
      (if asked = .overflowed then reclaimed.overflowed else 0)
      (if reclaimed.overflowed > 0 then warnings.warn .overflowed reclaimed.overflowed nowMs
        else ([], warnings)) :=
    fun asked => warn_balance spilled (fun _ => rfl) Nat.eq_zero_of_not_pos
  refine (first asked).append (warn_balance ?_ (fun _ => rfl) Nat.eq_zero_of_not_pos)
  apply (first .forgotten).fits
  simpa using dropped

/-- A check accounts for its events of every kind. -/
theorem afterCheck_balance {outcome : Outcome K}
    (fits : ∀ kind : WarnKind, (warnings.get kind).pending + kind.eventsOf outcome < 2 ^ 64)
    (asked : WarnKind) :
    WarningsBalance asked warnings (asked.eventsOf outcome) (warnings.afterCheck outcome nowMs) := by
  have first := @warnReclaimed_balance K warnings nowMs _ (fits .overflowed) (fits .forgotten)
  have second : WarningsBalance asked (warnings.warnReclaimed outcome.reclaimed nowMs).2
      (if asked = .refused then outcome.refused.toNat else 0)
      (if outcome.refused then (warnings.warnReclaimed outcome.reclaimed nowMs).2.warn .refused 1 nowMs
        else ([], (warnings.warnReclaimed outcome.reclaimed nowMs).2)) := by
    apply warn_balance
    · have total := fits .refused
      rw [WarnKind.eventsOf_eq] at total
      exact (first .refused).fits total
    · intro refused
      rw [refused]
      rfl
    · intro kept
      rw [Bool.eq_false_of_not_eq_true kept]
      rfl
  rw [WarnKind.eventsOf_eq]
  exact (first asked).append second

/-- Checks made one after the other report every event of every kind exactly once, whatever their readings. -/
theorem warnings_account {checks : List (Outcome K × ℕ)}
    (fits : ∀ kind : WarnKind,
      (warnings.get kind).pending + (checks.map fun check => kind.eventsOf check.1).sum < 2 ^ 64)
    (asked : WarnKind) :
    WarningsBalance asked warnings (checks.map fun check => asked.eventsOf check.1).sum
      (warnings.afterChecks checks) := by
  induction checks generalizing warnings with
  | nil => exact Nat.zero_add _
  | cons check rest inductionHypothesis =>
      obtain ⟨outcome, nowMs⟩ := check
      simp only [List.map_cons, List.sum_cons] at fits ⊢
      have first : ∀ asked, WarningsBalance asked warnings (asked.eventsOf outcome)
          (warnings.afterCheck outcome nowMs) :=
        fun asked => afterCheck_balance (fun kind => by have := fits kind; omega) asked
      exact (first asked).append (inductionHypothesis fun kind => (first kind).fits (fits kind))

end Sequential

end RateNet
