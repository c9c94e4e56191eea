/-
Module: RateNet.Clock.CoarseClock
Layer: Clock
Purpose: The coarse clock as a shared-memory program. A tick reads real time once, claims the span between what
  has been applied and its target by a weak compare-and-swap, and applies the span to the manual clock in a
  step of its own. Readers take the manual clock's offset, and may tick a stale clock first.
Imports: RateNet.Core.Time, RateNet.Lib.Interleaving
Trusted boundary: the manual clock's advance and its reading are single atomic steps; real time is any sequence
  of readings
Main exports: CoarseMemory, TickPc, TickPc.claim, TickPc.Advance, coarseProgram, coarseStart
-/
import RateNet.Core.Time
import RateNet.Lib.Interleaving

namespace RateNet

open Interleaving

/-- The two shared words of a coarse clock, and what has been read so far. -/
structure CoarseMemory where
  /-- Nanoseconds since the origin claimed by a tick. -/
  appliedNs : ℕ
  /-- What the manual clock has been advanced by: a reading is its anchor plus this. -/
  offset : ℕ
  /-- The largest target a tick has read; no step looks at it. -/
  largest : ℕ
  /-- The offsets read off the clock, the latest first; no step looks at them. -/
  readings : List ℕ
deriving DecidableEq

/-- Where a thread is. -/
inductive TickPc where
  /-- Between calls. -/
  | idle
  /-- In `tick_if_stale`, about to load what has been applied. -/
  | staleness (target : ℕ)
  /-- In `advance_to`, about to load what has been applied. -/
  | entry (target : ℕ)
  /-- About to swap `target` in for the loaded `applied`. -/
  | swap (target applied : ℕ)
  /-- Owning a span it has not applied yet. -/
  | claimed (span : ℕ)
deriving DecidableEq

namespace TickPc

/-- The span a thread owns and has not applied. -/
def claim : TickPc → ℕ
  | .claimed span => span
  | _ => 0

/-- The top of the loop of `advance_to`. -/
def atLoop (target applied : ℕ) : TickPc := if target > applied then .swap target applied else .idle

/-- What `tick_if_stale` does with the value it has loaded. -/
def afterStaleness (refreshAfterNs target applied : ℕ) : TickPc :=
  if target - applied ≥ refreshAfterNs then .entry target else .idle

/-- The memory once a call has read `target`. -/
def reading (mem : CoarseMemory) (target : ℕ) : CoarseMemory := { mem with largest := max mem.largest target }

/-- One atomic step of a thread. -/
inductive Advance (refreshAfterNs : ℕ) : CoarseMemory → TickPc → CoarseMemory → TickPc → Prop where
  | tick (mem : CoarseMemory) (elapsed : ℕ) :
      Advance refreshAfterNs mem .idle (reading mem (nanos elapsed)) (.entry (nanos elapsed))
  | tickIfStale (mem : CoarseMemory) (elapsed : ℕ) :
      Advance refreshAfterNs mem .idle (reading mem (nanos elapsed)) (.staleness (nanos elapsed))
  | staleness (mem : CoarseMemory) (target : ℕ) :
      Advance refreshAfterNs mem (.staleness target) mem (afterStaleness refreshAfterNs target mem.appliedNs)
  | load (mem : CoarseMemory) (target : ℕ) :
      Advance refreshAfterNs mem (.entry target) mem (atLoop target mem.appliedNs)
  | swapped (mem : CoarseMemory) (target : ℕ) :
      Advance refreshAfterNs mem (.swap target mem.appliedNs) { mem with appliedNs := target }
        (.claimed (target - mem.appliedNs))
  /-- The word changed since the load, or the weak compare-and-swap failed spuriously. -/
  | failed (mem : CoarseMemory) (target applied : ℕ) :
      Advance refreshAfterNs mem (.swap target applied) mem (atLoop target mem.appliedNs)
  | apply (mem : CoarseMemory) (span : ℕ) :
      Advance refreshAfterNs mem (.claimed span) { mem with offset := mem.offset + span } .idle
  | now (mem : CoarseMemory) :
      Advance refreshAfterNs mem .idle { mem with readings := mem.offset :: mem.readings } .idle

end TickPc

/-- Every thread ticks and reads the one clock, in any order and with any real-time readings. -/
def coarseProgram {ι : Type*} (refreshAfterNs : ℕ) : Program ι CoarseMemory TickPc :=
  fun _ => TickPc.Advance refreshAfterNs

/-- A new clock, and no call started. -/
def coarseStart {ι : Type*} : Config ι CoarseMemory TickPc :=
  { mem := { appliedNs := 0, offset := 0, largest := 0, readings := [] }, loc := fun _ => .idle }

end RateNet
