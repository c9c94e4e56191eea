/-
Module: RateNet.Clock.CoarseReads
Layer: Clock
Purpose: A limiter on a coarse clock. Every thread counts its reads of spawned clocks in one counter that wraps;
  the read at every 61st count looks at the real clock first, and ticks the clock being read if it is a whole
  interval behind. A check of the limiter reads the coarse clock and then works on its leaky bucket, with the
  reading it got, while real time passes between any two steps and other threads tick, read and check.
Imports: RateNet.Clock.CoarseClock, RateNet.Proofs.GcraInterleaving
Trusted boundary: that of RateNet.Clock.CoarseClock; real time does not run backwards
Main exports: readsPerRefresh, countRead, dueReads, ReadFor, CoarseGrant, CoarseLimiter, CoarseLimiter.lag, CoarsePc,
  CoarseThread, CoarseThread.Step, onCoarseClock, CoarseLimiterConfig.new
-/
import RateNet.Clock.CoarseClock
import RateNet.Proofs.GcraInterleaving

namespace RateNet

open Interleaving

/-!
### The counter of a thread
-/

def readsPerRefresh : ℕ := 61

/-- One more read on a thread: its counter, and whether the read looks at the real clock. -/
def countRead (reads : ℕ) : ℕ × Bool :=
  let next := (reads + 1) % 2 ^ 32
  (next, next % readsPerRefresh == 0)

/-- The clocks whose reads look at the real clock, when a thread reads `clocks` in order. -/
def dueReads {Clock : Type} : ℕ → List Clock → List Clock
  | _, [] => []
  | reads, clock :: rest =>
    if (countRead reads).2 then clock :: dueReads (countRead reads).1 rest else dueReads (countRead reads).1 rest

/-!
### A limiter on the clock
-/

/-- What a thread reads the clock for. -/
inductive ReadFor where
  /-- To build the limiter. -/
  | build
  | check (n : ℕ)
  /-- For anything else. -/
  | look
deriving DecidableEq

/-- A check that was granted: its units, its reading, and the real time at which it read the clock. -/
structure CoarseGrant where
  n : ℕ
  now : ℕ
  readAt : ℕ
deriving DecidableEq

/-- Real time since the clock's origin, the clock, and the limiter on it. -/
structure CoarseLimiter where
  time : ℕ
  clock : CoarseMemory
  /-- The clock's reading when the limiter was built. -/
  epoch : Option ℕ
  /-- The word of the limiter's bucket. -/
  tat : ℕ
  /-- The checks granted so far; no step looks at them. -/
  granted : List CoarseGrant
deriving DecidableEq

/-- How far the clock trails real time. -/
def CoarseLimiter.lag (mem : CoarseLimiter) : ℕ := mem.time - mem.clock.offset

deriving instance DecidableEq for GcraCall

/-- Where a thread is. -/
inductive CoarsePc where
  | idle
  | ticking (pc : TickPc)
  /-- About to look at the real clock, in a read that began at `began`. -/
  | due (purpose : ReadFor) (began : ℕ)
  | refreshing (purpose : ReadFor) (began : ℕ) (pc : TickPc)
  /-- About to take the clock's reading. -/
  | reading (purpose : ReadFor) (began : ℕ)
  /-- Checking with the reading it took when real time was `readAt`. -/
  | checking (call : GcraCall) (readAt : ℕ) (pc : GcraPc)
deriving DecidableEq

/-- A thread: its counter of reads, and where it is. -/
structure CoarseThread where
  reads : ℕ
  /-- When its reads of this clock began, those since it last read another one, the latest first; no step looks
      at them. -/
  done : List ℕ
  pc : CoarsePc
deriving DecidableEq

namespace CoarseThread

/-- One atomic step of a thread, or the passing of time. -/
inductive Step (refreshAfterNs : ℕ) (p : GcraParams) :
    CoarseLimiter → CoarseThread → CoarseLimiter → CoarseThread → Prop where
  | pass {mem : CoarseLimiter} {thread : CoarseThread} {later : ℕ} (forward : mem.time ≤ later) :
      Step refreshAfterNs p mem thread { mem with time := later } thread
  | tick {mem : CoarseLimiter} {reads : ℕ} {done : List ℕ} :
      Step refreshAfterNs p mem ⟨reads, done, .idle⟩
        { mem with clock := TickPc.reading mem.clock (nanos mem.time) }
        ⟨reads, done, .ticking (.entry (nanos mem.time))⟩
  | tickStep {mem : CoarseLimiter} {reads : ℕ} {done : List ℕ} {pc pc' : TickPc} {clock' : CoarseMemory}
      (inside : pc ≠ .idle) (step : TickPc.Advance refreshAfterNs mem.clock pc clock' pc') :
      Step refreshAfterNs p mem ⟨reads, done, .ticking pc⟩ { mem with clock := clock' } ⟨reads, done, .ticking pc'⟩
  | ticked {mem : CoarseLimiter} {reads : ℕ} {done : List ℕ} :
      Step refreshAfterNs p mem ⟨reads, done, .ticking .idle⟩ mem ⟨reads, done, .idle⟩
  /-- A clock that moves only when it is ticked by hand counts no reads. -/
  | beginManual {mem : CoarseLimiter} {reads : ℕ} {done : List ℕ} (purpose : ReadFor) (manual : refreshAfterNs = 0) :
      Step refreshAfterNs p mem ⟨reads, done, .idle⟩ mem ⟨reads, done, .reading purpose (nanos mem.time)⟩
  | begin {mem : CoarseLimiter} {reads : ℕ} {done : List ℕ} (purpose : ReadFor) (spawned : refreshAfterNs ≠ 0)
      (notDue : (countRead reads).2 = false) :
      Step refreshAfterNs p mem ⟨reads, done, .idle⟩ mem
        ⟨(countRead reads).1, done, .reading purpose (nanos mem.time)⟩
  | beginDue {mem : CoarseLimiter} {reads : ℕ} {done : List ℕ} (purpose : ReadFor) (spawned : refreshAfterNs ≠ 0)
      (due : (countRead reads).2 = true) :
      Step refreshAfterNs p mem ⟨reads, done, .idle⟩ mem
        ⟨(countRead reads).1, done, .due purpose (nanos mem.time)⟩
  | look {mem : CoarseLimiter} {reads : ℕ} {done : List ℕ} {purpose : ReadFor} {began : ℕ} :
      Step refreshAfterNs p mem ⟨reads, done, .due purpose began⟩
        { mem with clock := TickPc.reading mem.clock (nanos mem.time) }
        ⟨reads, done, .refreshing purpose began (.staleness (nanos mem.time))⟩
  | refreshStep {mem : CoarseLimiter} {reads : ℕ} {done : List ℕ} {purpose : ReadFor} {began : ℕ} {pc pc' : TickPc}
      {clock' : CoarseMemory} (inside : pc ≠ .idle) (step : TickPc.Advance refreshAfterNs mem.clock pc clock' pc') :
      Step refreshAfterNs p mem ⟨reads, done, .refreshing purpose began pc⟩ { mem with clock := clock' }
        ⟨reads, done, .refreshing purpose began pc'⟩
  | refreshed {mem : CoarseLimiter} {reads : ℕ} {done : List ℕ} {purpose : ReadFor} {began : ℕ} :
      Step refreshAfterNs p mem ⟨reads, done, .refreshing purpose began .idle⟩ mem
        ⟨reads, done, .reading purpose began⟩
  | build {mem : CoarseLimiter} {reads : ℕ} {done : List ℕ} {began : ℕ} (unbuilt : mem.epoch = none) :
      Step refreshAfterNs p mem ⟨reads, done, .reading .build began⟩
        { mem with
          clock := { mem.clock with readings := mem.clock.offset :: mem.clock.readings }
          epoch := some mem.clock.offset }
        ⟨reads, began :: done, .idle⟩
  | readOnly {mem : CoarseLimiter} {reads : ℕ} {done : List ℕ} {began : ℕ} :
      Step refreshAfterNs p mem ⟨reads, done, .reading .look began⟩
        { mem with clock := { mem.clock with readings := mem.clock.offset :: mem.clock.readings } }
        ⟨reads, began :: done, .idle⟩
  /-- The limiter's time is what has passed since it was built. -/
  | read {mem : CoarseLimiter} {reads : ℕ} {done : List ℕ} {n began epoch : ℕ} (built : mem.epoch = some epoch) :
      Step refreshAfterNs p mem ⟨reads, done, .reading (.check n) began⟩
        { mem with clock := { mem.clock with readings := mem.clock.offset :: mem.clock.readings } }
        ⟨reads, began :: done, .checking ⟨n, mem.clock.offset - epoch⟩ mem.time .entry⟩
  | guards {mem : CoarseLimiter} {reads : ℕ} {done : List ℕ} {call : GcraCall} {readAt : ℕ} :
      Step refreshAfterNs p mem ⟨reads, done, .checking call readAt .entry⟩ mem
        ⟨reads, done, .checking call readAt (call.afterGuards p)⟩
  | load {mem : CoarseLimiter} {reads : ℕ} {done : List ℕ} {call : GcraCall} {readAt : ℕ} :
      Step refreshAfterNs p mem ⟨reads, done, .checking call readAt .load⟩ mem
        ⟨reads, done, .checking call readAt (call.afterLoad p mem.tat)⟩
  | swapped {mem : CoarseLimiter} {reads : ℕ} {done : List ℕ} {call : GcraCall} {readAt newTat : ℕ} :
      Step refreshAfterNs p mem ⟨reads, done, .checking call readAt (.swap mem.tat newTat)⟩
        { mem with tat := newTat, granted := ⟨call.n, call.now, readAt⟩ :: mem.granted }
        ⟨reads, done, .checking call readAt (.returned .allow)⟩
  /-- The word changed since the load, or the weak compare-and-swap failed spuriously. -/
  | failed {mem : CoarseLimiter} {reads : ℕ} {done : List ℕ} {call : GcraCall} {readAt current newTat : ℕ} :
      Step refreshAfterNs p mem ⟨reads, done, .checking call readAt (.swap current newTat)⟩ mem
        ⟨reads, done, .checking call readAt .load⟩
  | returned {mem : CoarseLimiter} {reads : ℕ} {done : List ℕ} {call : GcraCall} {readAt : ℕ} {decision : Decision} :
      Step refreshAfterNs p mem ⟨reads, done, .checking call readAt (.returned decision)⟩ mem ⟨reads, done, .idle⟩
  /-- A read of another spawned clock counts, and may refresh that one. -/
  | readOther {mem : CoarseLimiter} {reads : ℕ} {done : List ℕ} :
      Step refreshAfterNs p mem ⟨reads, done, .idle⟩ mem ⟨(countRead reads).1, [], .idle⟩

end CoarseThread

/-- Threads that tick a coarse clock, read it, and check a limiter on it. -/
def onCoarseClock {ι : Type} (refreshAfterNs : ℕ) (p : GcraParams) : Program ι CoarseLimiter CoarseThread :=
  fun _ => CoarseThread.Step refreshAfterNs p

/-- A new clock, no limiter, and threads that have read nothing. -/
def CoarseLimiterConfig.new {ι : Type} : Config ι CoarseLimiter CoarseThread :=
  { mem := { time := 0, clock := { appliedNs := 0, offset := 0, largest := 0, readings := [] }
             epoch := none, tat := 0, granted := [] }
    loc := fun _ => ⟨0, [], .idle⟩ }

end RateNet
