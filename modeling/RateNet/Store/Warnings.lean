/-
Module: RateNet.Store.Warnings
Layer: Store
Purpose: The store's rate-limited warnings. Each kind counts its events in one word and keeps the time of its
  last warning in another; a call that finds a warning due claims it by a compare-and-swap of the time, and
  takes off the count what it reports. Whole calls come first, as one thread makes them, and then the four
  atomic operations of a call as a shared-memory program.
Imports: RateNet.Store.Store, RateNet.Lib.Interleaving
Trusted boundary: the atomic operations of all threads interleave; `tracing` records every warning
Main exports: WarnEvery, WarnEvery.note, Warnings, Warnings.afterCheck, Warnings.afterChecks, WarnMemory, NotePc,
  NotePc.Advance, noteProgram, noteStart, WarnMemory.note
-/
import RateNet.Store.Store
import RateNet.Lib.Interleaving

namespace RateNet

open Interleaving

/-- The least time between two warnings of one kind. -/
def warnIntervalMs : ℕ := 60000

/-- One kind of rate-limited warning: events since the last warning, and when it was. -/
structure WarnEvery where
  pending : ℕ
  /-- Milliseconds since the epoch of the last warning; `u64Max` for none. -/
  lastMs : ℕ
deriving DecidableEq

/-- `AtomicU64::fetch_add`. -/
def fetchAdd (word count : ℕ) : ℕ := (word + count) % 2 ^ 64

/-- `AtomicU64::fetch_sub`. -/
def fetchSub (word count : ℕ) : ℕ := (word + (2 ^ 64 - count)) % 2 ^ 64

namespace WarnEvery

def new : WarnEvery := { pending := 0, lastMs := u64Max }

/-- Whether a warning is due at `nowMs`: the first event, or the interval has passed. -/
def due (last nowMs : ℕ) : Bool := last == u64Max || decide (nowMs - last ≥ warnIntervalMs)

/-- Counts `count` events at `nowMs`, nothing else running; answers the total to report if a warning is due. -/
def note (every : WarnEvery) (count nowMs : ℕ) : Option ℕ × WarnEvery :=
  let pending := fetchAdd every.pending count
  if due every.lastMs nowMs then
    (some pending, { pending := fetchSub pending pending, lastMs := nowMs })
  else
    (none, { every with pending })

end WarnEvery

/-!
### The three kinds
-/

/-- The events an operator must act on. -/
inductive WarnKind where
  /-- Newcomers refused because a shard is saturated. -/
  | refused
  /-- Debts spilled past the exact table. -/
  | overflowed
  /-- Debts dropped. -/
  | forgotten
deriving DecidableEq

/-- A recorded warning; its count is given under the name of its kind. -/
structure Warning where
  target : String
  kind : WarnKind
  count : ℕ
  message : String
deriving DecidableEq

/-- What is said about `count` events of a kind. -/
def WarnKind.warning (kind : WarnKind) (count : ℕ) : Warning :=
  { target := "rate_net::eviction", kind, count
    message := match kind with
      | .refused =>
        s!"rate-net: a shard is saturated with still-limited keys whose debts cannot be kept, so {count} new " ++
          "key(s) were refused with a retry time (Overflow::FailClosed); raise the eviction cap"
      | .overflowed =>
        s!"rate-net: {count} evicted debt(s) did not fit the exact recovery table and spilled into the shared " ++
          "sketch, which can charge keys that never owed anything (Overflow::FailClosed); raise the eviction cap"
      | .forgotten =>
        s!"rate-net: {count} evicted debt(s) did not fit the exact recovery table and were dropped, so those " ++
          "keys may return with a fresh allowance (Overflow::Forget); raise the eviction cap" }

structure Warnings where
  refused : WarnEvery
  overflowed : WarnEvery
  forgotten : WarnEvery
deriving DecidableEq

namespace Warnings

def new : Warnings := { refused := .new, overflowed := .new, forgotten := .new }

def get (warnings : Warnings) : WarnKind → WarnEvery
  | .refused => warnings.refused
  | .overflowed => warnings.overflowed
  | .forgotten => warnings.forgotten

def set (warnings : Warnings) (every : WarnEvery) : WarnKind → Warnings
  | .refused => { warnings with refused := every }
  | .overflowed => { warnings with overflowed := every }
  | .forgotten => { warnings with forgotten := every }

/-- Notes events of one kind, and warns of what it answers. -/
def warn (warnings : Warnings) (kind : WarnKind) (count nowMs : ℕ) : List Warning × Warnings :=
  let (total, every) := (warnings.get kind).note count nowMs
  ((total.map kind.warning).toList, warnings.set every kind)

/-- `Warnings::refused`. -/
def warnRefused (warnings : Warnings) (nowMs : ℕ) : List Warning × Warnings :=
  warnings.warn .refused 1 nowMs

/-- `Warnings::reclaimed`. -/
def warnReclaimed {K : Type} (warnings : Warnings) (reclaimed : Reclaimed K) (nowMs : ℕ) :
    List Warning × Warnings :=
  let (spilled, warnings) :=
    if reclaimed.overflowed > 0 then warnings.warn .overflowed reclaimed.overflowed nowMs else ([], warnings)
  let (dropped, warnings) :=
    if reclaimed.forgotten > 0 then warnings.warn .forgotten reclaimed.forgotten nowMs else ([], warnings)
  (spilled ++ dropped, warnings)

/-- What a check warns of: what it reclaimed to make room, and then its refusal. -/
def afterCheck {K : Type} (warnings : Warnings) (outcome : Outcome K) (nowMs : ℕ) :
    List Warning × Warnings :=
  let (reclaimed, warnings) := warnings.warnReclaimed outcome.reclaimed nowMs
  let (refused, warnings) := if outcome.refused then warnings.warnRefused nowMs else ([], warnings)
  (reclaimed ++ refused, warnings)

/-- What checks made one after the other warn of, each with its `now_ms`. -/
def afterChecks {K : Type} : Warnings → List (Outcome K × ℕ) → List Warning × Warnings
  | warnings, [] => ([], warnings)
  | warnings, (outcome, nowMs) :: rest =>
    let (first, warnings) := warnings.afterCheck outcome nowMs
    let (later, warnings) := afterChecks warnings rest
    (first ++ later, warnings)

end Warnings

/-!
### Atomic steps
-/

/-- The two shared words of a kind, and what has been counted so far. -/
structure WarnMemory where
  words : WarnEvery
  /-- Events noted; no step looks at them. -/
  noted : ℕ
  /-- Events reported, over all answers; no step looks at them. -/
  reported : ℕ
deriving DecidableEq

/-- Where a thread is, with the `pending` and the `now_ms` of its call. -/
inductive NotePc where
  /-- Between calls. -/
  | idle
  /-- Having counted its events, about to load when the last warning was. -/
  | added (pending nowMs : ℕ)
  /-- Having found a warning due, about to swap `nowMs` in for `last`. -/
  | swap (pending nowMs last : ℕ)
  /-- Owning a warning, about to take off what it reports. -/
  | claimed (pending nowMs : ℕ)
deriving DecidableEq

namespace NotePc

/-- What a call does with the time it has loaded. -/
def afterLoad (pending nowMs last : ℕ) : NotePc :=
  if WarnEvery.due last nowMs then .swap pending nowMs last else .idle

/-- The clock reading of a call in progress. -/
def reading : NotePc → Option ℕ
  | .idle => none
  | .added _ nowMs => some nowMs
  | .swap _ nowMs _ => some nowMs
  | .claimed _ nowMs => some nowMs

/-- What a thread is about to take off the count. -/
def taken : NotePc → ℕ
  | .claimed pending _ => pending
  | _ => 0

/-- One atomic step of a thread. -/
inductive Advance : WarnMemory → NotePc → WarnMemory → NotePc → Prop where
  | add (mem : WarnMemory) (count nowMs : ℕ) (word : count ≤ u64Max) (clock : nowMs < u64Max) :
      Advance mem .idle
        { mem with
          words := { mem.words with pending := fetchAdd mem.words.pending count }
          noted := mem.noted + count }
        (.added (fetchAdd mem.words.pending count) nowMs)
  | load (mem : WarnMemory) (pending nowMs : ℕ) :
      Advance mem (.added pending nowMs) mem (afterLoad pending nowMs mem.words.lastMs)
  | swapped (mem : WarnMemory) (pending nowMs : ℕ) :
      Advance mem (.swap pending nowMs mem.words.lastMs)
        { mem with words := { mem.words with lastMs := nowMs } } (.claimed pending nowMs)
  | failed (mem : WarnMemory) (pending nowMs last : ℕ) (changed : mem.words.lastMs ≠ last) :
      Advance mem (.swap pending nowMs last) mem .idle
  | subtract (mem : WarnMemory) (pending nowMs : ℕ) :
      Advance mem (.claimed pending nowMs)
        { mem with
          words := { mem.words with pending := fetchSub mem.words.pending pending }
          reported := mem.reported + pending }
        .idle

end NotePc

/-- Every thread notes events of the one kind, any number of times, with any counts and clock readings. -/
def noteProgram {ι : Type*} : Program ι WarnMemory NotePc := fun _ => NotePc.Advance

/-- No event noted, and no call started. -/
def noteStart {ι : Type*} : Config ι WarnMemory NotePc :=
  { mem := { words := .new, noted := 0, reported := 0 }, loc := fun _ => .idle }

/-- A call with no other thread in between. -/
def WarnMemory.note (mem : WarnMemory) (count nowMs : ℕ) : WarnMemory :=
  let (total, words) := mem.words.note count nowMs
  { words, noted := mem.noted + count, reported := mem.reported + total.getD 0 }

end RateNet
