/-
Module: RateNet.Algo.Checked
Layer: Algo
Purpose: The algorithms once more, with every step of their arithmetic that the source leaves unchecked made
  to fail where it is not exact: each `+`, `-`, `*`, `/`, `%`, shift and narrowing cast on a machine word
  is a step of `CheckedArith` at the source's own width, and each saturating, checked or clamping one is
  left as it is. The deliberate truncation of a window number to its low bits is not a step.
Imports: RateNet.Algo.Lawful, RateNet.Algo.TokenBucket, RateNet.Lib.CheckedArith
Trusted boundary: none
Main exports: CheckedKeyState, KeyCall, performAll, performAllChecked, BucketConfig.restoreChecked,
  Algorithm.recoveryTimeChecked
-/
import RateNet.Algo.Lawful
import RateNet.Algo.TokenBucket
import RateNet.Lib.CheckedArith

namespace RateNet

open CheckedArith

/-!
### The leaky bucket
-/

namespace GcraParams

def newChecked (quota : Quota) : Option GcraParams := do
  let periodNs := nanos quota.period
  let burst := quota.burst
  let limit := min quota.limit periodNs
  let perNs ←
    if limit = 0 ∨ burst = 0 then some 0
    else do
      let scaled ← shl 128 limit 64
      div scaled periodNs
  some { limit, periodNs, perNs, tolerance := burst - 1, quota }

def intervalsAtChecked (p : GcraParams) (nowNs : ℕ) : Option ℕ := do
  let product ← mul 128 nowNs p.perNs
  let estimate ← narrow 64 (product >>> 64)
  let next ← add 128 estimate 1
  let scaled ← mul 128 next p.periodNs
  let elapsed ← mul 128 nowNs p.limit
  if scaled ≤ elapsed then add 64 estimate 1 else some estimate

def nanosAtChecked (p : GcraParams) (interval : ℕ) : Option ℕ := do
  let scaled ← mul 128 interval p.periodNs
  let ns ← divCeil scaled p.limit
  some (min ns u64Max)

def checkNInChecked (p : GcraParams) (tat n now : ℕ) : Option (Decision × ℕ) :=
  if n = 0 then
    some (.allow, tat)
  else do
    let span ← sub n 1
    if p.closed ∨ span > p.tolerance then
      some (.deny durationMax, tat)
    else do
      let nowNs := nanos now
      let nowIv ← p.intervalsAtChecked nowNs
      let ceiling := satAdd nowIv p.tolerance
      let effective := max tat nowIv
      if satAdd effective span ≤ ceiling then
        some (.allow, satAdd effective n)
      else do
        let readyIv ← sub (satAdd effective span) p.tolerance
        let readyNs ← p.nanosAtChecked readyIv
        some (.deny (max (readyNs - nowNs) 1), tat)

def peekInChecked (p : GcraParams) (tat now : ℕ) : Option Snapshot :=
  if p.closed then
    some .closed
  else do
    let burst ← add 64 p.tolerance 1
    let nowNs := nanos now
    let nowIv ← p.intervalsAtChecked nowNs
    let tat := max tat nowIv
    let remaining := satAdd nowIv burst - tat
    let resetAfter ←
      if tat = nowIv then some 0
      else do
        let ns ← p.nanosAtChecked tat
        some (ns - nowNs)
    some (.new (min burst u32Max) (min remaining u32Max) resetAfter)

def restoreUntilInChecked (p : GcraParams) (tat «until» : ℕ) : Option ℕ :=
  if p.closed then
    some tat
  else do
    let untilNs := nanos «until»
    let floor ← p.intervalsAtChecked untilNs
    let start ← p.nanosAtChecked floor
    let interval := if start ≥ untilNs then floor else satAdd floor 1
    some (max tat interval)

end GcraParams

/-!
### The fixed window
-/

namespace FixedWindow

def packChecked (windowIndex count : ℕ) : Option ℕ := do
  let high ← shl 64 windowIndex 32
  some (high ||| count)

def unpackChecked (state : ℕ) : Option (ℕ × ℕ) := do
  let index ← narrow 32 (state >>> 32)
  let count ← narrow 32 (state &&& (2 ^ 32 - 1))
  some (index, count)

def newChecked (quota : Quota) (now : ℕ) : Option FixedWindow := do
  let periodNs := nanos quota.period
  let window := nanos now / periodNs
  let state ← packChecked (lowBits window) 0
  some { state, latest := window, periodNs, limit := quota.limit
         denyAll := quota.limit == 0 || periodNs == 0 }

def countInChecked (window current latest : ℕ) : Option ℕ := do
  let (index, count) ← unpackChecked current
  some (if latest = window ∧ index = lowBits window then count else 0)

def acquireChecked (fw : FixedWindow) (n now : ℕ) : Option (Decision × FixedWindow) :=
  if n = 0 then
    some (.allow, fw)
  else if fw.denyAll ∨ n > fw.limit then
    some (.deny durationMax, fw)
  else do
    let nowNs := nanos now
    let window := max (fw.windowOf nowNs) fw.latest
    let base ← countInChecked window fw.state fw.latest
    let total ← add 64 base n
    if total > fw.limit then
      some (.deny (fw.untilEndOf window nowNs), fw)
    else do
      let state ← packChecked (lowBits window) (min total u32Max)
      some (.allow, { fw with state, latest := max fw.latest window })

def peekChecked (fw : FixedWindow) (now : ℕ) : Option Snapshot :=
  if fw.denyAll then
    some .closed
  else do
    let nowNs := nanos now
    let window := max (fw.windowOf nowNs) fw.latest
    let count ← countInChecked window fw.state fw.latest
    let used := min count fw.limit
    let resetAfter := if used = 0 then 0 else fw.untilEndOf window nowNs
    let left ← sub fw.limit used
    some (.new fw.limit left resetAfter)

def resetChecked (fw : FixedWindow) : Option FixedWindow := do
  let state ← packChecked (lowBits fw.latest) 0
  some { fw with state }

end FixedWindow

/-!
### The sliding log
-/

def Log.inWindowChecked (log : Log) : Option ℕ := sub log.total log.expiredTotal

namespace SlidingLog

def acquireChecked (sl : SlidingLog) (n now : ℕ) : Option (Decision × SlidingLog) :=
  if n = 0 then
    some (.allow, sl)
  else if sl.limit = 0 ∨ sl.periodNs = 0 ∨ n > sl.limit then
    some (.deny durationMax, sl)
  else do
    let realNowNs := nanos now
    let nowNs := sl.log.instant realNowNs
    let log := sl.log.expireAt realNowNs sl.periodNs
    let inWindow ← log.inWindowChecked
    let sum ← add 64 inWindow n
    if sum ≤ sl.limit then
      some (.allow, { sl with log := log.record n nowNs })
    else do
      let sum ← add 64 inWindow n
      let excess ← sub sum sl.limit
      let target ← add 64 log.expiredTotal excess
      let index := log.runs.findIdx fun run => !decide (run.total < target)
      let expireAt := log.runs[index]?.elim nowNs fun run => satAdd run.atNs sl.periodNs
      some (.deny (expireAt - realNowNs), { sl with log })

def peekChecked (sl : SlidingLog) (now : ℕ) : Option (Snapshot × SlidingLog) :=
  if sl.limit = 0 ∨ sl.periodNs = 0 then
    some (.closed, sl)
  else do
    let realNowNs := nanos now
    let log := sl.log.expireAt realNowNs sl.periodNs
    let inWindow ← log.inWindowChecked
    let used := min inWindow u32Max
    let resetAfter := log.runs.getLast?.elim 0 fun newest => satAdd newest.atNs sl.periodNs - realNowNs
    some (.new sl.limit (sl.limit - used) resetAfter, { sl with log })

end SlidingLog

/-!
### The sliding counter
-/

namespace SlidingCounter

def weightedChecked (sc : SlidingCounter) (offset : ℕ) : Option ℕ := do
  let share ← sub sc.periodNs offset
  let prev ← mul 128 sc.prev share
  let curr ← mul 128 sc.curr sc.periodNs
  add 128 prev curr

def fitsChecked (sc : SlidingCounter) (offset n : ℕ) : Option Bool := do
  let weighted ← sc.weightedChecked offset
  let asked ← mul 128 n sc.periodNs
  let sum ← add 128 weighted asked
  let whole ← mul 128 sc.limit sc.periodNs
  some (sum ≤ whole)

def earliestFitChecked (sc : SlidingCounter) (offset n : ℕ) : Option ℕ := do
  let sum ← add 128 sc.curr n
  if sum ≤ sc.limit ∧ sc.prev > 0 then do
    let room ← sub sc.limit n
    let room ← sub room sc.curr
    let scaled ← mul 128 room sc.periodNs
    let slack ← div scaled sc.prev
    let fitAt ← sub sc.periodNs (min slack sc.periodNs)
    some (max (min fitAt u64Max - offset) 1)
  else do
    let room ← sub sc.limit n
    let scaled ← mul 128 room sc.periodNs
    let slack := if sc.curr = 0 then sc.periodNs else scaled / sc.curr
    let x ← sub sc.periodNs (min slack sc.periodNs)
    let toBoundary ← sub sc.periodNs offset
    some (satAdd toBoundary (min x u64Max))

def rollChecked (sc : SlidingCounter) (realNowNs : ℕ) : Option ((ℕ × ℕ) × SlidingCounter) := do
  let nowNs := sc.instant realNowNs
  let windowNumber ← div nowNs sc.periodNs
  let sc ←
    if windowNumber > sc.window then do
      let next ← add 64 sc.window 1
      some { sc with
        prev := if windowNumber = next then sc.curr else 0
        curr := 0
        window := windowNumber }
    else some sc
  let offset ← rem nowNs sc.periodNs
  some ((nowNs, offset), sc)

def acquireChecked (sc : SlidingCounter) (n now : ℕ) : Option (Decision × SlidingCounter) :=
  if n = 0 then
    some (.allow, sc)
  else if sc.limit = 0 ∨ sc.periodNs = 0 ∨ n > sc.limit then
    some (.deny durationMax, sc)
  else do
    let realNowNs := nanos now
    let ((nowNs, offset), sc) ← sc.rollChecked realNowNs
    let fits ← sc.fitsChecked offset n
    if fits then
      some (.allow, { sc with curr := min (sc.curr + n) u32Max })
    else do
      let waitNs ← sc.earliestFitChecked offset n
      let lateBy ← sub nowNs realNowNs
      some (.deny (max (satAdd waitNs lateBy) 1), sc)

def peekChecked (sc : SlidingCounter) (now : ℕ) : Option (Snapshot × SlidingCounter) :=
  if sc.limit = 0 ∨ sc.periodNs = 0 then
    some (.closed, sc)
  else do
    let realNowNs := nanos now
    let ((nowNs, offset), sc) ← sc.rollChecked realNowNs
    let whole ← mul 128 sc.limit sc.periodNs
    let weighted ← sc.weightedChecked offset
    let headroom := whole - weighted
    let units ← div headroom sc.periodNs
    let remaining := min units u32Max
    let toBoundary ← sub sc.periodNs offset
    let fullIn :=
      if sc.curr > 0 then satAdd toBoundary sc.periodNs
      else if sc.prev > 0 then toBoundary
      else 0
    let lateBy ← sub nowNs realNowNs
    let resetAfter := if fullIn = 0 then 0 else satAdd fullIn lateBy
    some (.new sc.limit remaining resetAfter, sc)

end SlidingCounter

/-!
### Key states
-/

/-- What a snapshot taken at `now` leaves owing. -/
def Snapshot.debtChecked (snapshot : Snapshot) (now : ℕ) : Option (Option Debt) := do
  let spent ← sub snapshot.limit snapshot.remaining
  some (if 0 < spent then some { spent, «until» := durationAdd now snapshot.resetAfter } else none)

/-- One key's state under one algorithm, in checked steps.  `debt` and `restore` carry the trait's default
    bodies. -/
class CheckedKeyState (S : Type) where
  create : Quota → ℕ → Option (Option S)
  acquire : S → ℕ → ℕ → Option (Decision × S)
  peek : S → ℕ → Option (Snapshot × S)
  reset : S → ℕ → Option S
  debt : S → ℕ → Option (Option Debt × S) := fun state now => do
    let (snapshot, state) ← peek state now
    let owed ← snapshot.debtChecked now
    some (owed, state)
  restore : S → Debt → ℕ → Option S := fun state owed now =>
    if owed.until ≤ now ∨ owed.spent = 0 then
      some state
    else do
      let (snapshot, state) ← peek state now
      let units := min owed.spent snapshot.limit
      if 0 < units then do
        let (_, state) ← acquire state units now
        some state
      else some state

def Gcra.newChecked (quota : Quota) : Option Gcra := do
  let params ← GcraParams.newChecked quota
  some { tat := 0, params }

instance : CheckedKeyState Gcra where
  create quota _ :=
    if admitsAnything .leakyBucket quota then (Gcra.newChecked quota).map some else some none
  acquire g n now := do
    let (decision, tat) ← g.params.checkNInChecked g.tat n now
    some (decision, { g with tat })
  peek g now := do
    let snapshot ← g.params.peekInChecked g.tat now
    some (snapshot, g)
  reset g _ := some g.reset
  restore g debt now :=
    if debt.until > now then do
      let tat ← g.params.restoreUntilInChecked g.tat debt.until
      some { g with tat }
    else some g

instance : CheckedKeyState FixedWindow where
  create quota now :=
    if admitsAnything .fixedWindow quota then (FixedWindow.newChecked quota now).map some else some none
  acquire fw n now := fw.acquireChecked n now
  peek fw now := do
    let snapshot ← fw.peekChecked now
    some (snapshot, fw)
  reset fw _ := fw.resetChecked

instance : CheckedKeyState SlidingLog where
  create quota _ := some (if admitsAnything .slidingWindowLog quota then some (.new quota) else none)
  acquire sl n now := sl.acquireChecked n now
  peek sl now := sl.peekChecked now
  reset sl _ := some sl.reset

instance : CheckedKeyState SlidingCounter where
  create quota now :=
    some (if admitsAnything .slidingWindowCounter quota then some (.new quota now) else none)
  acquire sc n now := sc.acquireChecked n now
  peek sc now := sc.peekChecked now
  reset sc _ := some sc.reset

/-!
### Calls
-/

/-- A call on a key's state. -/
inductive KeyCall where
  /-- Makes the state anew, for any quota. -/
  | create (quota : Quota) (now : ℕ)
  | acquire (n now : ℕ)
  | peek (now : ℕ)
  | reset (now : ℕ)
  | debt (now : ℕ)
  | restore (debt : Debt) (now : ℕ)

/-- What a call returns. -/
inductive KeyAnswer where
  | created (made : Bool)
  | decided (decision : Decision)
  | read (snapshot : Snapshot)
  | owed (debt : Option Debt)
  | done
deriving DecidableEq

section Calls

variable {S : Type}

/-- One call: its answer and the state it leaves.  A quota that admits nothing makes no state, and the old one
    stays. -/
def KeyCall.perform [KeyState S] (state : S) : KeyCall → KeyAnswer × S
  | .create quota now =>
    let made := KeyState.create quota now
    (.created made.isSome, made.getD state)
  | .acquire n now =>
    let (decision, state) := KeyState.acquire state n now
    (.decided decision, state)
  | .peek now =>
    let (snapshot, state) := KeyState.peek state now
    (.read snapshot, state)
  | .reset now => (.done, KeyState.reset state now)
  | .debt now =>
    let (owed, state) := KeyState.debt state now
    (.owed owed, state)
  | .restore owed now => (.done, KeyState.restore state owed now)

/-- The same call in checked steps. -/
def KeyCall.performChecked [CheckedKeyState S] (state : S) : KeyCall → Option (KeyAnswer × S)
  | .create quota now => do
    let made ← CheckedKeyState.create quota now
    some (.created made.isSome, made.getD state)
  | .acquire n now => do
    let (decision, state) ← CheckedKeyState.acquire state n now
    some (.decided decision, state)
  | .peek now => do
    let (snapshot, state) ← CheckedKeyState.peek state now
    some (.read snapshot, state)
  | .reset now => do
    let state ← CheckedKeyState.reset state now
    some (.done, state)
  | .debt now => do
    let (owed, state) ← CheckedKeyState.debt state now
    some (.owed owed, state)
  | .restore owed now => do
    let state ← CheckedKeyState.restore state owed now
    some (.done, state)

/-- A sequence of calls: the answers in order and the state left. -/
def performAll [KeyState S] (state : S) : List KeyCall → List KeyAnswer × S
  | [] => ([], state)
  | call :: calls =>
    let (answer, state) := call.perform state
    let (answers, state) := performAll state calls
    (answer :: answers, state)

def performAllChecked [CheckedKeyState S] (state : S) : List KeyCall → Option (List KeyAnswer × S)
  | [] => some ([], state)
  | call :: calls => do
    let (answer, state) ← call.performChecked state
    let (answers, state) ← performAllChecked state calls
    some (answer :: answers, state)

end Calls

/-!
### The token bucket
-/

/-- The bucket that was empty one full refill before `debt.until`. -/
def BucketConfig.restoreChecked (config : BucketConfig) (debt : Debt) (now : ℕ) :
    Option (Option BucketCore) :=
  if debt.until ≤ now then
    some none
  else do
    let scaled ← mul 128 config.capacity config.refillPeriod
    let full ← div scaled config.refillAmount
    let short := full - debt.until
    let lacking ← mul 128 short config.refillAmount
    let k ← divCeil lacking config.refillPeriod
    let tokens ← mul 128 k config.refillPeriod
    let wait ← divCeil tokens config.refillAmount
    let ahead ← add 128 debt.until wait
    let anchor := min (ahead - full) u64Max
    let initial := if k ≤ u32Max then k else config.capacity
    some (some { config := { config with initial := min initial config.capacity }, anchor })

def refillTimeChecked (quota : Quota) : Option ℕ := do
  let scaled ← mul 128 quota.burst quota.period
  let nanos ← divCeil scaled quota.limit
  some (min nanos u64Max)

def Algorithm.recoveryTimeChecked (algorithm : Algorithm) (quota : Quota) : Option ℕ :=
  if quota.limit = 0 ∨ quota.period = 0 then
    some 0
  else
    match algorithm with
    | .tokenBucket | .leakyBucket => refillTimeChecked quota
    | .fixedWindow | .slidingWindowLog => some quota.period
    | .slidingWindowCounter => some (min (quota.period * 2) durationMax)

end RateNet
