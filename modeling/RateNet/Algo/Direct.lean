/-
Module: RateNet.Algo.Direct
Layer: Algo
Purpose: The limiter of one stream: a single algorithm state, made when the limiter is built, with no key, no
  store and no eviction. A quota that admits nothing has no state and stays closed.
Imports: RateNet.Core.KeyState
Trusted boundary: the limiter's clock is read once per call; its counters are left out
Main exports: AlgoState, AlgoState.new, AlgoState.acquire, AlgoState.peek, AlgoState.reset
-/
import RateNet.Core.KeyState

namespace RateNet

/-- The state of a direct limiter: nothing, or the state of its algorithm. -/
inductive AlgoState (S : Type) where
  | closed
  | running (state : S)
deriving DecidableEq

namespace AlgoState

variable {S : Type} [KeyState S]

def new (quota : Quota) (now : ℕ) : AlgoState S := (KeyState.create quota now).elim .closed .running

def acquire (state : AlgoState S) (n now : ℕ) : Decision × AlgoState S :=
  match state with
  | .closed => (RateNet.closed n, .closed)
  | .running s =>
    let (decision, s) := KeyState.acquire s n now
    (decision, .running s)

def peek (state : AlgoState S) (now : ℕ) : Snapshot × AlgoState S :=
  match state with
  | .closed => (.closed, .closed)
  | .running s =>
    let (snapshot, s) := KeyState.peek s now
    (snapshot, .running s)

def reset (state : AlgoState S) (now : ℕ) : AlgoState S :=
  match state with
  | .closed => .closed
  | .running s => .running (KeyState.reset s now)

end AlgoState

end RateNet
