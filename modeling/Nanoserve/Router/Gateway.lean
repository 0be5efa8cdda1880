import Nanoserve.Router.Proxy
import Nanoserve.Router.RateLimit

/-! # The gateway

`ServeGenerate` of `router/proxy.go`: a request is checked, charged with all the tokens it may use,
streamed, and refunded what it has not used. Any number of them are under way at once. A call of the
limiter may be answered, may not reach Redis, or may be carried out there with its answer lost.
-/

namespace Nanoserve.Router

open Lib
open Model (Text BPETokenizer)
open Engine (Config)

/-! ## Requests -/

structure HttpRequest where
  body : Option GenerateBody  -- what the decoder makes of it
  apiKey : Text := []
  clientId : Text := []
  remoteAddr : Text := []
  remoteHost : Option Text := none  -- what `net.SplitHostPort` makes of the address
  flushes : Bool := true

def clientKey (request : HttpRequest) : Text :=
  if request.apiKey ≠ [] then "key:".toList ++ request.apiKey
  else if request.clientId ≠ [] then "client:".toList ++ request.clientId
  else "ip:".toList ++ request.remoteHost.getD request.remoteAddr

inductive HttpError where
  | invalidJson
  | promptRequired
  | streamingUnsupported
  | limiterUnavailable
  | oversized
  | rateLimited (retryAfter : Int)  -- the header, in seconds
deriving DecidableEq, Repr

namespace HttpError

def status : HttpError → Nat
  | invalidJson | promptRequired => 400
  | streamingUnsupported => 500
  | limiterUnavailable => 503
  | oversized => 413
  | rateLimited _ => 429

def text : HttpError → String
  | invalidJson => "\x7b\"error\":\"invalid json\"\x7d"
  | promptRequired => "\x7b\"error\":\"prompt is required\"\x7d"
  | streamingUnsupported => "\x7b\"error\":\"streaming unsupported\"\x7d"
  | limiterUnavailable => "\x7b\"error\":\"rate limiter unavailable\"\x7d"
  | oversized => "\x7b\"error\":\"max_tokens exceeds this tier's burst limit\"\x7d"
  | rateLimited _ => "\x7b\"error\":\"rate limit exceeded\"\x7d"

end HttpError

/-- The body with its defaults, or why it is refused. -/
def checkBody (request : HttpRequest) (nanos : Nat) : Except HttpError GenerateBody :=
  match request.body with
  | none => .error .invalidJson
  | some body =>
    if body.prompt = [] then .error .promptRequired
    else if ¬request.flushes then .error .streamingUnsupported
    else
      .ok { body with
        maxTokens := if body.maxTokens = 0 then 128 else body.maxTokens
        requestId := if body.requestId = "" then "r-" ++ toString nanos else body.requestId }

/-! ## The limiter from afar -/

/-- How a call to Redis fares. -/
inductive Link where
  | up
  | lost  -- the script runs, and its answer is lost
  | down
deriving DecidableEq, Repr

namespace RateLimiter

variable (cfg : RateLimitConfig) (redis : Redis) (link : Link) (now : Rat) (client : Text)

def allowOver (tokenCost : Int) : Except LimiterError Verdict × Redis :=
  ((allow cfg redis (link = .up) now client tokenCost).1, (allow cfg redis (link ≠ .down) now client tokenCost).2)

def refundOver (tokens : Int) : Except LimiterError Unit × Redis :=
  ((refund cfg redis (link = .up) now client tokens).1, (refund cfg redis (link ≠ .down) now client tokens).2)

/-- What the script of an `Allow` takes out of the token bucket, if it runs. -/
def charge (tokenCost : Nat) : Nat :=
  if link ≠ .down ∧ (serve cfg redis ⟨now, client, .allow tokenCost, true⟩).1 then tokenCost else 0

end RateLimiter

structure GatewayConfig where
  proxy : Proxy := {}
  limiter : Option RateLimitConfig := none
  metrics : Bool := false

/-! ## Serving -/

/-- The labels of `requests_total`. -/
inductive Outcome where
  | success
  | error
  | rejected
  | throttled
deriving DecidableEq, Repr

/-- What a request adds to the counters, those of `stream` apart. -/
structure Tally where
  requests : Nat := 0
  failures : Nat := 0
  throttled : Nat := 0
  degraded : Nat := 0
  outcomes : List Outcome := []
  durations : Nat := 0
deriving DecidableEq, Repr

inductive ServePhase where
  | refused (error : HttpError)
  | looping  -- in `stream`, about to pick a replica
  | dispatched (replica : String)
  | ending (err : Option StreamError)  -- `stream` has returned
  | returned (err : Option StreamError) (refundFailed : Bool)
deriving DecidableEq

structure Served where
  client : Text
  body : GenerateBody
  startedAt : Rat
  phase : ServePhase
  degraded : Bool := false
  progress : Progress := {}
  tally : Tally := {}
  charged : Nat := 0
  refunded : Nat := 0
  picks : Nat := 0
  releases : Nat := 0

section Admission

variable (config : GatewayConfig)

def observe (outcome : Outcome) (tally : Tally) : Tally :=
  if config.metrics then
    { tally with
      outcomes := tally.outcomes ++ [outcome]
      durations := if outcome = .success then tally.durations + 1 else tally.durations }
  else tally

def observeThrottle (tally : Tally) : Tally := observe config .throttled { tally with throttled := tally.throttled + 1 }

/-- What the limiter's answer means for the request. -/
def admission (verdict : Except LimiterError Verdict) : ServePhase × Bool × Tally :=
  match verdict with
  | .error _ => (.refused .limiterUnavailable, false, observeThrottle config {})
  | .ok verdict =>
    let tally : Tally := if verdict.degraded then { degraded := 1 } else {}
    if ¬verdict.allowed then
      let tally := observeThrottle config { tally with throttled := tally.throttled + 1 }
      if verdict.permanent then (.refused .oversized, verdict.degraded, tally)
      else (.refused (.rateLimited ⌈(verdict.retryAfter : Rat) / 1000000000⌉), verdict.degraded, tally)
    else (.looping, verdict.degraded, { tally with requests := 1 })

/-- `ServeGenerate` up to `stream`. -/
def arrive (redis : Redis) (request : HttpRequest) (nanos : Nat) (now : Rat) (link : Link) : Served × Redis :=
  let client := clientKey request
  let startedAt : Rat := (nanos / 1000000000 : Nat)
  match checkBody request nanos with
  | .error error =>
    let body := request.body.getD { prompt := [], maxTokens := 0, requestId := "" }
    ({ client, body, startedAt, phase := .refused error }, redis)
  | .ok body =>
    match config.limiter with
    | none => ({ client, body, startedAt, phase := .looping, tally := { requests := 1 } }, redis)
    | some cfg =>
      let (verdict, next) := RateLimiter.allowOver cfg redis link now client body.maxTokens
      let (phase, degraded, tally) := admission config verdict
      ({ client, body, startedAt, phase, degraded, tally,
          charged := RateLimiter.charge cfg redis link now client body.maxTokens }, next)

/-- What is left of the reservation. -/
def Served.unused (request : Served) : Int := request.body.maxTokens - request.progress.deliveredOut

/-- The rest of `ServeGenerate` once `stream` has returned `err`, with the deferred refund. -/
def finish (redis : Redis) (request : Served) (err : Option StreamError) (now : Rat) (link : Link) : Served × Redis :=
  -- `stream` has recorded a rejection itself.
  let tally := (List.replicate request.progress.rejected Outcome.rejected).foldl (fun tally outcome =>
    observe config outcome tally) request.tally
  let tally :=
    match err with
    | none => observe config .success tally
    | some _ => observe config .error { tally with failures := tally.failures + 1 }
  match config.limiter with
  | none => ({ request with phase := .returned err false, tally }, redis)
  | some cfg =>
    if request.unused > 0 then
      let (result, next) := RateLimiter.refundOver cfg redis link now request.client request.unused
      ({ request with
          phase := .returned err (result matches .error _)
          tally
          refunded := if link = .down then 0 else request.unused.toNat }, next)
    else ({ request with phase := .returned err false, tally }, redis)

end Admission

/-! ## All requests together -/

structure Gateway where
  ring : Ring
  redis : Redis := .empty
  requests : List Served := []

inductive GatewayEvent (V S : Type) where
  | arrive (request : HttpRequest) (nanos : Nat) (now : Rat) (link : Link)
  | pick (index : Nat)
  | answer (index : Nat) (visit : Visit V S)  -- an attempt ends; the ring of the visit is not looked at
  | finish (index : Nat) (now : Rat) (link : Link)
  | ring (call : RingCall)

namespace Served

/-- `stream` picks a replica for its next attempt, or returns. -/
def pick (proxy : Proxy) (request : Served) (ring : Ring) : Served × Ring :=
  match ring.pickExcluding (prefixKey request.body.prompt proxy.prefixLen) request.progress.tried with
  | none => ({ request with phase := .ending (some (.failed (request.progress.lastErr.getD .noReplicas))) }, ring)
  | some (replica, next) =>
    ({ request with
        phase := .dispatched replica.id
        progress := request.progress.dispatch replica.id
        picks := request.picks + 1 }, next)

variable {X V L S : Type} (cfg : Config X V L S) (tok : BPETokenizer)

/-- The attempt on a replica is over: it is released, and `stream` goes on or returns. -/
def answer (proxy : Proxy) (request : Served) (ring : Ring) (replica : String) (visit : Visit V S) : Served × Ring :=
  let result := attempt cfg tok request.body request.startedAt replica request.progress.delivered visit
  let request := { request with releases := request.releases + 1 }
  match settle proxy request.progress result visit.clientGone with
  | .ok progress => ({ request with phase := .looping, progress }, ring.release replica)
  | .error ended => ({ request with phase := .ending ended.err, progress := ended.progress }, ring.release replica)

end Served

namespace Gateway

variable {X V L S : Type} (cfg : Config X V L S) (tok : BPETokenizer) (config : GatewayConfig)

def step (gateway : Gateway) : GatewayEvent V S → Except Unit Gateway
  | .arrive request nanos now link =>
    let (served, redis) := Router.arrive config gateway.redis request nanos now link
    .ok { gateway with redis, requests := gateway.requests ++ [served] }
  | .pick index =>
    match gateway.requests[index]? with
    | some request =>
      match request.phase with
      | .looping =>
        let (request, ring) := request.pick config.proxy gateway.ring
        .ok { gateway with ring, requests := gateway.requests.set index request }
      | _ => .error ()
    | none => .error ()
  | .answer index visit =>
    match gateway.requests[index]? with
    | some request =>
      match request.phase with
      | .dispatched replica =>
        let (request, ring) := request.answer cfg tok config.proxy gateway.ring replica visit
        .ok { gateway with ring, requests := gateway.requests.set index request }
      | _ => .error ()
    | none => .error ()
  | .finish index now link =>
    match gateway.requests[index]? with
    | some request =>
      match request.phase with
      | .ending err =>
        let (request, redis) := Router.finish config gateway.redis request err now link
        .ok { gateway with redis, requests := gateway.requests.set index request }
      | _ => .error ()
    | none => .error ()
  | .ring call => .ok { gateway with ring := gateway.ring.call call }

end Gateway

end Nanoserve.Router
