/-
Module: RateNet.Net.Service
Layer: Net
Purpose: The service that limits the requests of another one. A request is charged to the key an extractor picks,
  or, with no identity, to an anonymous key, or it is rejected. An admitted request is passed to the inner
  service, and its response is the inner one's with the rate-limit headers added when it is ready; a denied
  request is answered at once, with `Retry-After` and the rate-limit headers. Services on many threads share
  one limiter, so between the check of a request and the read for its headers others may come.
Imports: RateNet.Lib.Interleaving, RateNet.Net.Headers, RateNet.Store.KeyPolicy
Trusted boundary: a header map keeps the values of each name in order; the inner service and its futures are
  arbitrary functions
Main exports: HeaderMap, Response, Anonymous, LayerConfig, LayerConfig.keyOf, writeHeaders, ResponseFuture,
  ResponseFuture.poll, RateLimited.call, ServiceMem, ServicePc, ServiceStep, serving
-/
import RateNet.Lib.Interleaving
import RateNet.Net.Headers
import RateNet.Store.KeyPolicy

namespace RateNet

open Interleaving StructuredField

/-!
### Responses
-/

/-- The names of the headers the service writes, and any other. -/
inductive HeaderName where
  | retryAfter
  | ratelimitLimit
  | ratelimitRemaining
  | ratelimitReset
  | ratelimit
  | ratelimitPolicy
  | other (name : String)
deriving DecidableEq

/-- The values of each name, in order. -/
abbrev HeaderMap := HeaderName → List (List Char)

namespace HeaderMap

def new : HeaderMap := fun _ => []

/-- Sets the only value of a name. -/
def insert (headers : HeaderMap) (name : HeaderName) (value : List Char) : HeaderMap :=
  Function.update headers name [value]

/-- The names in `extra` take the values they have there. -/
def extend (headers extra : HeaderMap) : HeaderMap :=
  fun name => if (extra name).isEmpty then headers name else extra name

end HeaderMap

/-- A header value from text: only visible characters, blanks and tabs. -/
def headerValue (text : List Char) : Option (List Char) :=
  if text.all fun c => printable c || c == '\t' then some text else none

structure Response (B : Type) where
  status : ℕ
  headers : HeaderMap
  body : B

def tooManyRequests : ℕ := 429

/-- A response with a status and the body type's default. -/
def Response.ofStatus {B : Type} [Inhabited B] (status : ℕ) : Response B :=
  { status, headers := .new, body := default }

/-!
### Who is charged
-/

/-- What is done with a request that has no identity. -/
inductive Anonymous where
  | shared
  | key (key : Key)
  | reject (status : ℕ)

/-- The settings of a layer.  Its cost is never zero: a check of nothing always succeeds. -/
structure LayerConfig (Req : Type) where
  extract : Req → Option Key
  cost : ℕ
  cost_pos : 1 ≤ cost
  policy : Option String
  headersOnSuccess : Bool
  impossibleStatus : ℕ
  anonymous : Anonymous

namespace LayerConfig

variable {Req : Type}

def shared (extract : Req → Option Key) : LayerConfig Req :=
  { extract, cost := 1, cost_pos := le_rfl, policy := none, headersOnSuccess := false
    impossibleStatus := tooManyRequests, anonymous := .shared }

/-- The key a request is charged to, or the status it is rejected with. -/
def keyOf (config : LayerConfig Req) (request : Req) : Except ℕ Key :=
  match config.extract request with
  | some key => .ok key
  | none =>
    match config.anonymous with
    | .shared => .ok .anonymous
    | .key key => .ok key
    | .reject status => .error status

/-- The rate-limit headers for `snapshot`, of a key under `quota`. -/
def writeHeaders (config : LayerConfig Req) (headers : HeaderMap) (snapshot : Snapshot) (quota : Quota) :
    HeaderMap :=
  let headers := headers.insert .ratelimitLimit (Nat.toDigits 10 snapshot.limit)
  let headers := headers.insert .ratelimitRemaining (Nat.toDigits 10 snapshot.remaining)
  let headers := headers.insert .ratelimitReset (Nat.toDigits 10 snapshot.resetHeaderSecs)
  match config.policy with
  | none => headers
  | some policy =>
    let headers := (headerValue (snapshot.ratelimit policy).display).elim headers (headers.insert .ratelimit)
    (headerValue (quota.ratelimitPolicy policy).display).elim headers (headers.insert .ratelimitPolicy)

/-- The response to a denied request. -/
def denial (config : LayerConfig Req) {B : Type} [Inhabited B] (decision : Decision) (snapshot : Snapshot)
    (quota : Quota) : Response B :=
  let impossible := decision = .deny durationMax
  let response := Response.ofStatus (if impossible then config.impossibleStatus else tooManyRequests)
  let headers := decision.retryAfterSecs.elim response.headers fun secs =>
    response.headers.insert .retryAfter (Nat.toDigits 10 secs)
  { response with headers := config.writeHeaders headers snapshot quota }

/-- The headers to add to the response of an admitted request. -/
def successHeaders (config : LayerConfig Req) (snapshot : Snapshot) (quota : Quota) : HeaderMap :=
  config.writeHeaders .new snapshot quota

end LayerConfig

/-!
### The future of a response
-/

inductive Poll (α : Type) where
  | pending
  | ready (value : α)
deriving DecidableEq

/-- The inner service's future and the headers to add to its response, or a response to hand over. -/
inductive ResponseFuture (F B : Type) where
  | inner (future : F) (headers : Option HeaderMap)
  | limited (response : Option (Response B))

namespace ResponseFuture

variable {F B E : Type}

/-- One poll, by the poll of the inner future. -/
def poll (pollInner : F → Poll (Except E (Response B)) × F) :
    ResponseFuture F B → Poll (Except E (Response B)) × ResponseFuture F B
  | .inner future headers =>
    match pollInner future with
    | (.ready (.ok response), future) =>
      (.ready (.ok (headers.elim response fun extra =>
        { response with headers := response.headers.extend extra })), .inner future none)
    | (other, future) => (other, .inner future headers)
  | .limited (some response) => (.ready (.ok response), .limited none)
  -- polled again after completing
  | .limited none => (.pending, .limited none)

/-- Whether the request was passed on. -/
def isInner : ResponseFuture F B → Bool
  | .inner _ _ => true
  | .limited _ => false

end ResponseFuture

/-!
### The service
-/

variable {Req S : Type} [KeyState S]

/-- Handles one request: its check reads the clock at `now`, the read for its headers at `seen`. -/
def RateLimited.call {F B I : Type} [Inhabited B] (limiter : RateLimiter) (config : LayerConfig Req)
    (callInner : Req → I → F × I) (request : Req) (now seen : ℕ) (store : Store limiter.config S) (inner : I) :
    ResponseFuture F B × Store limiter.config S × I :=
  match config.keyOf request with
  | .error status => (.limited (some (.ofStatus status)), store, inner)
  | .ok key =>
    let (decision, store) := limiter.checkRef store key.asKeyRef config.cost now
    if decision.isAllow then
      if config.headersOnSuccess then
        let (snapshot, store) := limiter.peekRef store key.asKeyRef seen
        let headers := config.successHeaders snapshot (limiter.quotaOfRef key.asKeyRef)
        let (future, inner) := callInner request inner
        (.inner future (some headers), store, inner)
      else
        let (future, inner) := callInner request inner
        (.inner future none, store, inner)
    else
      let (snapshot, store) := limiter.peekRef store key.asKeyRef seen
      (.limited (some (config.denial decision snapshot (limiter.quotaOfRef key.asKeyRef))), store, inner)

/-!
### Services on many threads
-/

/-- A request passed to the inner service: its key, and the reading its check was made at. -/
structure Passed (Req : Type) where
  request : Req
  key : KeyRef
  now : ℕ

/-- The limiter's store, the calls made of the limiter with their replies, and the requests passed on. -/
structure ServiceMem (Req : Type) (limiter : RateLimiter) (S : Type) where
  store : Store limiter.config S
  calls : List (Call KeyRef × Reply)
  passed : List (Passed Req)

/-- Where a thread is with its request. -/
inductive ServicePc (Req : Type) where
  | idle
  | keyed (request : Req) (key : Key)
  | admitted (request : Req) (key : Key) (now : ℕ)
  | denied (request : Req) (key : Key) (decision : Decision)

/-- The limiter after one more call. -/
def ServiceMem.called {limiter : RateLimiter} (mem : ServiceMem Req limiter S) (call : Call KeyRef) :
    ServiceMem Req limiter S :=
  { mem with
    store := (limiter.call mem.store call).2
    calls := mem.calls ++ [(call, (limiter.call mem.store call).1)] }

/-- One step of a thread: a request, a call of the limiter, or the call of the inner service. -/
inductive ServiceStep (limiter : RateLimiter) (config : LayerConfig Req) :
    ServiceMem Req limiter S → ServicePc Req → ServiceMem Req limiter S → ServicePc Req → Prop where
  /-- The limiter is shared with other code. -/
  | other {mem : ServiceMem Req limiter S} (call : Call KeyRef) :
      ServiceStep limiter config mem .idle (mem.called call) .idle
  | reject {mem : ServiceMem Req limiter S} (request : Req) {status : ℕ}
      (rejected : config.keyOf request = .error status) : ServiceStep limiter config mem .idle mem .idle
  | arrive {mem : ServiceMem Req limiter S} (request : Req) {key : Key} (keyed : config.keyOf request = .ok key) :
      ServiceStep limiter config mem .idle mem (.keyed request key)
  | grant {mem : ServiceMem Req limiter S} {request : Req} {key : Key} (now : ℕ)
      (allowed : (limiter.checkRef mem.store key.asKeyRef config.cost now).1 = .allow) :
      ServiceStep limiter config mem (.keyed request key)
        (mem.called ⟨.check key.asKeyRef config.cost, now⟩) (.admitted request key now)
  | deny {mem : ServiceMem Req limiter S} {request : Req} {key : Key} (now : ℕ) {decision : Decision}
      (refused : (limiter.checkRef mem.store key.asKeyRef config.cost now).1 = decision)
      (denied : decision.isAllow = false) :
      ServiceStep limiter config mem (.keyed request key)
        (mem.called ⟨.check key.asKeyRef config.cost, now⟩) (.denied request key decision)
  /-- The read for the headers of a success. -/
  | passShown {mem : ServiceMem Req limiter S} {request : Req} {key : Key} {now : ℕ} (seen : ℕ)
      (headers : config.headersOnSuccess = true) :
      ServiceStep limiter config mem (.admitted request key now)
        { mem.called ⟨.peek key.asKeyRef, seen⟩ with
          passed := mem.passed ++ [⟨request, key.asKeyRef, now⟩] } .idle
  | pass {mem : ServiceMem Req limiter S} {request : Req} {key : Key} {now : ℕ}
      (plain : config.headersOnSuccess = false) :
      ServiceStep limiter config mem (.admitted request key now)
        { mem with passed := mem.passed ++ [⟨request, key.asKeyRef, now⟩] } .idle
  | answer {mem : ServiceMem Req limiter S} {request : Req} {key : Key} {decision : Decision} (seen : ℕ) :
      ServiceStep limiter config mem (.denied request key decision)
        (mem.called ⟨.peek key.asKeyRef, seen⟩) .idle

/-- Threads that serve requests with one limiter. -/
def serving (limiter : RateLimiter) (config : LayerConfig Req) {ι : Type} :
    Program ι (ServiceMem Req limiter S) (ServicePc Req) := fun _ => ServiceStep limiter config

def ServiceConfig.new (limiter : RateLimiter) {ι : Type} : Config ι (ServiceMem Req limiter S) (ServicePc Req) :=
  { mem := { store := Store.new, calls := [], passed := [] }, loc := fun _ => .idle }

end RateNet
