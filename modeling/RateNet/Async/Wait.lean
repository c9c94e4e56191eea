/-
Module: RateNet.Async.Wait
Layer: Async
Purpose: Awaiting an admission. A wait checks, and while it is refused it sleeps for the reported retry time
  and a random jitter before it checks again; a bounded wait returns the denial when the retry time does
  not fit in its budget, and never asks to sleep past its deadline. Any number of tasks wait on one limiter
  at the same time, each wait of theirs may be dropped at any point between its steps, and the limiter is
  also used otherwise meanwhile. Time passes between any two steps. A call reads the limiter's clock first
  and comes to the limiter later, so that readings may come to it out of order; what the clock may show at
  an instant of the runtime's timer is a parameter. What is kept besides the source's variables is only
  looked at by the statements about it.
Imports: RateNet.Lib.Interleaving, RateNet.Algo.Direct, RateNet.Store.KeyPolicy
Trusted boundary: a sleep resumes at its wake instant or later; a check of a limiter is one step
Main exports: randomJitter, Waiter, Waiter.left, Waiter.sleepFor, Awaitable, WaitMem, WaitPc, WaitStep,
  waiting, Awaitable.ComesTo, directLimiter, RateLimiter.awaitable
-/
import RateNet.Lib.Interleaving
import RateNet.Algo.Direct
import RateNet.Store.KeyPolicy

namespace RateNet

open Interleaving

/-- A random delay of up to `max`, from a random word. -/
def randomJitter (max draw : ℕ) : ℕ :=
  if max = 0 then 0 else draw % satAdd (min max u64Max) 1

/-!
### One wait
-/

/-- What a refusal at the instant `refusedAt` promised: a retry at `due`, the limiter having granted `grants`
    requests by then. -/
structure Promise where
  refusedAt : ℕ
  due : ℕ
  grants : ℕ
deriving DecidableEq

/-- The variables of one wait for `request`.  `since`, `refusals` and `promise` are not the source's: the
    requests granted when the wait began, how often it has been refused, and what the last refusal said. -/
structure Waiter (R : Type) where
  request : R
  maxWait : Option ℕ
  deadline : Option ℕ
  /-- Only a bounded wait has a deadline. -/
  bounded : deadline.isSome = true → maxWait.isSome = true
  since : ℕ
  refusals : ℕ
  promise : Option Promise
deriving DecidableEq

namespace Waiter

variable {R : Type}

/-- The instant by which a wait of at most `maxWait` is over.  An unrepresentably distant deadline is no
    deadline. -/
def deadlineOf (lastInstant now : ℕ) (maxWait : Option ℕ) : Option ℕ :=
  maxWait.bind fun budget => if now + budget ≤ lastInstant then some (now + budget) else none

theorem isSome_of_deadlineOf {lastInstant now : ℕ} {maxWait : Option ℕ}
    (given : (deadlineOf lastInstant now maxWait).isSome = true) : maxWait.isSome = true := by
  cases maxWait with
  | none => cases given
  | some budget => rfl

/-- A wait that begins at `now`. -/
def start (lastInstant : ℕ) (request : R) (maxWait : Option ℕ) (now grants : ℕ) : Waiter R :=
  { request, maxWait
    deadline := deadlineOf lastInstant now maxWait
    bounded := isSome_of_deadlineOf
    since := grants, refusals := 0, promise := none }

/-- What is left of the budget of a bounded wait. -/
def left (waiter : Waiter R) (now : ℕ) : ℕ := waiter.deadline.elim durationMax (· - now)

/-- How long a refused wait sleeps; none if it returns the denial. -/
def sleepFor (waiter : Waiter R) (retryAfter jitter now : ℕ) : Option ℕ :=
  let sleepFor := durationAdd retryAfter jitter
  if waiter.maxWait.isSome then
    if waiter.left now < retryAfter then none else some (min sleepFor (waiter.left now))
  else some sleepFor

/-- The wait after a refusal at `now`. -/
def refuse (waiter : Waiter R) (retryAfter now grants : ℕ) : Waiter R :=
  { waiter with
    refusals := waiter.refusals + 1
    promise := some { refusedAt := now, due := now + retryAfter, grants } }

end Waiter

/-!
### Waits on one limiter
-/

/-- What can be awaited: a limiter in `M` that is checked for a request, and used otherwise meanwhile. -/
structure Awaitable (R O M : Type) where
  check : R → ℕ → M → Decision × M
  other : O → ℕ → M → M

/-- What changes a limiter for good: a granted request, or another use, at a reading of its clock. -/
inductive Op (R O : Type) where
  | granted (request : R) (reading : ℕ)
  | other (use : O) (reading : ℕ)

def Op.isGrant {R O : Type} : Op R O → Bool
  | .granted _ _ => true
  | .other _ _ => false

/-- A wait that returned, at the instant `now`, the `decision` of a check at `reading`, when `grants` requests
    had been granted to others since the start. -/
structure Returned (R : Type) where
  waiter : Waiter R
  decision : Decision
  reading : ℕ
  now : ℕ
  grants : ℕ

/-- The instant, the limiter, and the record of what was done to it, of the readings that came to it, and of
    what was returned. -/
structure WaitMem (R O M : Type) where
  now : ℕ
  limiter : M
  ops : List (Op R O)
  readings : List ℕ
  returned : List (Returned R)

def WaitMem.grants {R O M : Type} (mem : WaitMem R O M) : ℕ := mem.ops.countP Op.isGrant

/-- Where a task is. -/
inductive WaitPc (R O : Type) where
  | idle
  /-- The clock is read for another use, which has not come to the limiter yet. -/
  | applying (use : O) (reading : ℕ)
  | checking (waiter : Waiter R)
  /-- The clock is read for a check, which has not come to the limiter yet. -/
  | judging (waiter : Waiter R) (reading : ℕ)
  /-- Refused, with the budget not looked at yet. -/
  | refused (waiter : Waiter R) (reading retryAfter : ℕ)
  /-- About to sleep, as decided at `asOf`. -/
  | resting (waiter : Waiter R) (sleepFor asOf : ℕ)
  /-- Asleep until `wake`, having taken `late` to get there. -/
  | asleep (waiter : Waiter R) (wake late : ℕ)
deriving DecidableEq

variable {R O M : Type}

section Step

variable (limiter : Awaitable R O M) (jitter lastInstant : ℕ) (Reads : ℕ → ℕ → Prop)

/-- One step of a task, at the instant `t`. `Reads t reading` says that the limiter's clock may show `reading`
    then. -/
inductive WaitStep : WaitMem R O M → WaitPc R O → WaitMem R O M → WaitPc R O → Prop where
  /-- Another use of the limiter. -/
  | look {mem : WaitMem R O M} (use : O) (t : ℕ) {reading : ℕ} (later : mem.now ≤ t) (reads : Reads t reading) :
      WaitStep mem .idle { mem with now := t } (.applying use reading)
  | use {mem : WaitMem R O M} {use : O} {reading : ℕ} (t : ℕ) (later : mem.now ≤ t) :
      WaitStep mem (.applying use reading)
        { mem with
          now := t, limiter := limiter.other use reading mem.limiter
          ops := mem.ops ++ [.other use reading], readings := mem.readings ++ [reading] } .idle
  | begin {mem : WaitMem R O M} (request : R) (maxWait : Option ℕ) (t : ℕ) (later : mem.now ≤ t) :
      WaitStep mem .idle { mem with now := t } (.checking (.start lastInstant request maxWait t mem.grants))
  | read {mem : WaitMem R O M} {waiter : Waiter R} (t : ℕ) {reading : ℕ} (later : mem.now ≤ t)
      (reads : Reads t reading) : WaitStep mem (.checking waiter) { mem with now := t } (.judging waiter reading)
  | admitted {mem : WaitMem R O M} {waiter : Waiter R} {reading : ℕ} (t : ℕ) (later : mem.now ≤ t)
      (allowed : (limiter.check waiter.request reading mem.limiter).1 = .allow) :
      WaitStep mem (.judging waiter reading)
        { now := t, limiter := (limiter.check waiter.request reading mem.limiter).2
          ops := mem.ops ++ [.granted waiter.request reading], readings := mem.readings ++ [reading]
          returned := mem.returned ++ [{ waiter, decision := .allow, reading, now := t, grants := mem.grants }] }
        .idle
  /-- No amount of waiting could admit the request. -/
  | impossible {mem : WaitMem R O M} {waiter : Waiter R} {reading : ℕ} (t : ℕ) (later : mem.now ≤ t)
      (denied : (limiter.check waiter.request reading mem.limiter).1 = .deny durationMax) :
      WaitStep mem (.judging waiter reading)
        { mem with
          now := t, limiter := (limiter.check waiter.request reading mem.limiter).2
          readings := mem.readings ++ [reading]
          returned := mem.returned ++
            [{ waiter, decision := .deny durationMax, reading, now := t, grants := mem.grants }] } .idle
  | denied {mem : WaitMem R O M} {waiter : Waiter R} {reading retryAfter : ℕ} (t : ℕ) (later : mem.now ≤ t)
      (denied : (limiter.check waiter.request reading mem.limiter).1 = .deny retryAfter)
      (possible : retryAfter ≠ durationMax) :
      WaitStep mem (.judging waiter reading)
        { mem with
          now := t, limiter := (limiter.check waiter.request reading mem.limiter).2
          readings := mem.readings ++ [reading] }
        (.refused (waiter.refuse retryAfter t mem.grants) reading retryAfter)
  /-- The retry time does not fit in what is left of the budget. -/
  | giveUp {mem : WaitMem R O M} {waiter : Waiter R} {reading retryAfter : ℕ} (t draw : ℕ) (later : mem.now ≤ t)
      (short : waiter.sleepFor retryAfter (randomJitter jitter draw) t = none) :
      WaitStep mem (.refused waiter reading retryAfter)
        { mem with
          now := t
          returned := mem.returned ++
            [{ waiter, decision := .deny retryAfter, reading, now := t, grants := mem.grants }] } .idle
  | rest {mem : WaitMem R O M} {waiter : Waiter R} {reading retryAfter sleepFor : ℕ} (t draw : ℕ)
      (later : mem.now ≤ t) (long : waiter.sleepFor retryAfter (randomJitter jitter draw) t = some sleepFor) :
      WaitStep mem (.refused waiter reading retryAfter) { mem with now := t } (.resting waiter sleepFor t)
  | sleep {mem : WaitMem R O M} {waiter : Waiter R} {sleepFor asOf : ℕ} (t : ℕ) (later : mem.now ≤ t) :
      WaitStep mem (.resting waiter sleepFor asOf) { mem with now := t }
        (.asleep waiter (t + sleepFor) (t - asOf))
  | wake {mem : WaitMem R O M} {waiter : Waiter R} {wake late : ℕ} (t : ℕ) (later : mem.now ≤ t)
      (due : wake ≤ t) : WaitStep mem (.asleep waiter wake late) { mem with now := t } (.checking waiter)
  /-- The future is dropped. -/
  | drop {mem : WaitMem R O M} {pc : WaitPc R O} (t : ℕ) (later : mem.now ≤ t) :
      WaitStep mem pc { mem with now := t } .idle

/-- Tasks that wait on one limiter. -/
def waiting {ι : Type} : Program ι (WaitMem R O M) (WaitPc R O) :=
  fun _ => WaitStep limiter jitter lastInstant Reads

end Step

/-- A limiter at instant zero, and no wait begun. -/
def WaitMem.new (limiter : M) : WaitMem R O M := { now := 0, limiter, ops := [], readings := [], returned := [] }

def WaitConfig.new (limiter : M) {ι : Type} : Config ι (WaitMem R O M) (WaitPc R O) :=
  { mem := .new limiter, loc := fun _ => .idle }

/-- Tasks that wait on `limiter`, each at its point. -/
abbrev Awaitable.Waits (_ : Awaitable R O M) (ι : Type) : Type := Config ι (WaitMem R O M) (WaitPc R O)

/-- Tasks come to `c` that wait on `limiter` from the state `start` on. -/
abbrev Awaitable.ComesTo {ι : Type} [DecidableEq ι] (limiter : Awaitable R O M) (jitter lastInstant : ℕ)
    (Reads : ℕ → ℕ → Prop) (start : M) (c : limiter.Waits ι) : Prop :=
  Reachable (waiting limiter jitter lastInstant Reads) (WaitConfig.new start) c

/-!
### The limiters
-/

/-- Another use of a direct limiter than a check.  A plain check is a wait with no budget at all. -/
inductive DirectUse where
  | peek
  | reset
deriving DecidableEq

/-- A direct limiter is asked for units. -/
def directLimiter (S : Type) [KeyState S] : Awaitable ℕ DirectUse (AlgoState S) where
  check n now state := state.acquire n now
  other use now state :=
    match use with
    | .peek => (state.peek now).2
    | .reset => state.reset now

/-- Units of one of the keys in `used`. -/
abbrev KeyedRequest (used : Set KeyRef) : Type := { key // key ∈ used } × ℕ

/-- Any call about no other key. -/
abbrev KeyedUse (used : Set KeyRef) : Type := { request : Request KeyRef // ∀ key ∈ request.key, key ∈ used }

/-- A keyed limiter is asked for units of a key, and takes any other call meanwhile. -/
def RateLimiter.awaitable (limiter : RateLimiter) (S : Type) [KeyState S] (used : Set KeyRef) :
    Awaitable (KeyedRequest used) (KeyedUse used) (Store limiter.config S) where
  check request now store := limiter.checkRef store request.1.1 request.2 now
  other request now store := (limiter.call store { request := request.1, now }).2

end RateNet
