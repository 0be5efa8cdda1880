import Mathlib.Algebra.Order.Floor.Defs
import Mathlib.Data.Rat.Floor
import Nanoserve.Model.Tokenizer

/-! # The distributed rate limiter

`router/ratelimit.go` with its two Lua scripts. A script runs in one piece at the time Redis gives
it.
-/

namespace Nanoserve.Router

open Lib Model

/-! ## Configuration -/

structure RateLimitConfig where
  requestsPerMinute : Rat
  tokensPerMinute : Rat
  requestBurst : Rat
  tokenBurst : Rat
  idleTTL : Int  -- nanoseconds
  failOpen : Bool
deriving DecidableEq, Repr

def defaultRateLimitConfig : RateLimitConfig where
  requestsPerMinute := 60
  tokensPerMinute := 60000
  requestBurst := 10
  tokenBurst := 10000
  idleTTL := 10 * 60 * 1000000000
  failOpen := true

/-- The error reads `requirement, got …`. -/
structure InvalidConfig where
  requirement : String
  got : Rat
deriving DecidableEq, Repr

def RateLimitConfig.validate (cfg : RateLimitConfig) : Except InvalidConfig Unit :=
  if cfg.requestsPerMinute ≤ 0 then .error ⟨"RequestsPerMinute must be > 0", cfg.requestsPerMinute⟩
  else if cfg.tokensPerMinute ≤ 0 then .error ⟨"TokensPerMinute must be > 0", cfg.tokensPerMinute⟩
  else if cfg.requestBurst < 1 then .error ⟨"RequestBurst must be >= 1", cfg.requestBurst⟩
  else if cfg.tokenBurst < 1 then .error ⟨"TokenBurst must be >= 1", cfg.tokenBurst⟩
  else if cfg.idleTTL ≤ 0 then .error ⟨"IdleTTL must be > 0", cfg.idleTTL⟩
  else .ok ()

/-- `cfg.IdleTTL.Seconds()` -/
def RateLimitConfig.ttl (cfg : RateLimitConfig) : Rat := cfg.idleTTL / 1000000000

/-! ## The scripts -/

/-- The hash under a bucket's key. -/
structure StoredBucket where
  tokens : Rat
  ts : Rat
  expiresAt : Rat
deriving DecidableEq, Repr

abbrev Redis := Dict Text StoredBucket

/-- `HSET` of both fields and `PEXPIRE`. -/
def persist (redis : Redis) (key : Text) (tokens now ttl : Rat) : Redis :=
  redis.set key { tokens, ts := now, expiresAt := now + (⌈ttl * 1000⌉ : Int) / 1000 }

/-- `refill` of the first script; a bucket that is not there is full. -/
def refill (redis : Redis) (key : Text) (cap rate now : Rat) : Rat :=
  match redis.get? key with
  | none => cap
  | some bucket =>
    let elapsed := now - bucket.ts
    let elapsed := if elapsed < 0 then 0 else elapsed
    let filled := bucket.tokens + elapsed * rate
    if filled > cap then cap else filled

structure ScriptReply where
  allowed : Bool
  reqRemaining : Rat
  tokRemaining : Rat
  retryAfter : Rat
deriving DecidableEq, Repr

def rateLimitScript (redis : Redis) (now : Rat) (reqKey tokKey : Text) (reqCap reqRate tokCap tokRate cost ttl : Rat) :
    ScriptReply × Redis :=
  -- More than the bucket can ever hold: nothing is written.
  if cost > tokCap then ({ allowed := false, reqRemaining := -1, tokRemaining := -1, retryAfter := -1 }, redis)
  else
    let reqTokens := refill redis reqKey reqCap reqRate now
    let tokTokens := refill redis tokKey tokCap tokRate now
    let retry := if reqTokens < 1 then max 0 ((1 - reqTokens) / reqRate) else 0
    let retry := if tokTokens < cost then max retry ((cost - tokTokens) / tokRate) else retry
    let allowed := decide (1 ≤ reqTokens) && decide (cost ≤ tokTokens)
    let reqTokens := if allowed then reqTokens - 1 else reqTokens
    let tokTokens := if allowed then tokTokens - cost else tokTokens
    -- The refill is kept on rejection too.
    ({ allowed, reqRemaining := reqTokens, tokRemaining := tokTokens, retryAfter := retry },
      persist (persist redis reqKey reqTokens now ttl) tokKey tokTokens now ttl)

def refundScript (redis : Redis) (now : Rat) (key : Text) (cap rate refund ttl : Rat) : Rat × Redis :=
  let state :=
    match redis.get? key with
    | none => (cap, now)
    | some bucket => (bucket.tokens, bucket.ts)
  let elapsed := now - state.2
  let elapsed := if elapsed < 0 then 0 else elapsed
  let tokens := state.1 + elapsed * rate + refund
  let tokens := if tokens > cap then cap else tokens
  (tokens, persist redis key tokens now ttl)

/-! ## The limiter -/

structure Verdict where
  allowed : Bool
  retryAfter : Int := 0  -- nanoseconds; negative for a request that can never be admitted
  requestRemaining : Rat := 0
  tokenRemaining : Rat := 0
  degraded : Bool := false
deriving DecidableEq, Repr

def Verdict.permanent (verdict : Verdict) : Bool := !verdict.allowed && decide (verdict.retryAfter < 0)

def parseVerdict (reply : ScriptReply) : Verdict where
  allowed := reply.allowed
  retryAfter :=
    if reply.allowed then 0 else if reply.retryAfter < 0 then -1 else ⌊reply.retryAfter * 1000000000⌋
  requestRemaining := reply.reqRemaining
  tokenRemaining := reply.tokRemaining

/-- `ErrLimiterUnavailable` -/
inductive LimiterError where
  | unavailable
deriving DecidableEq, Repr

namespace RateLimiter

def reqKey (client : Text) : Text := "ratelimit:\x7b".toList ++ client ++ "\x7d:req".toList

def tokKey (client : Text) : Text := "ratelimit:\x7b".toList ++ client ++ "\x7d:tok".toList

variable (cfg : RateLimitConfig)

def allow (redis : Redis) (reachable : Bool) (now : Rat) (client : Text) (tokenCost : Int) :
    Except LimiterError Verdict × Redis :=
  if reachable then
    let (reply, redis) := rateLimitScript redis now (reqKey client) (tokKey client) cfg.requestBurst
      (cfg.requestsPerMinute / 60) cfg.tokenBurst (cfg.tokensPerMinute / 60) tokenCost cfg.ttl
    (.ok (parseVerdict reply), redis)
  else if cfg.failOpen then (.ok { allowed := true, degraded := true }, redis)
  else (.error .unavailable, redis)

def refund (redis : Redis) (reachable : Bool) (now : Rat) (client : Text) (tokens : Int) :
    Except LimiterError Unit × Redis :=
  if tokens ≤ 0 then (.ok (), redis)
  else if reachable then
    (.ok (), (refundScript redis now (tokKey client) cfg.tokenBurst (cfg.tokensPerMinute / 60) tokens cfg.ttl).2)
  else (.error .unavailable, redis)

end RateLimiter

/-! ## Calls from the routers -/

inductive LimiterAction where
  | allow (tokenCost : Int)
  | refund (tokens : Int)
deriving DecidableEq, Repr

/-- A call of some router and the time of Redis when it gets there. -/
structure LimiterCall where
  now : Rat
  client : Text
  action : LimiterAction
  reachable : Bool := true
deriving DecidableEq, Repr

namespace RateLimiter

variable (cfg : RateLimitConfig)

/-- Runs a call and says whether its script admitted the request, or took the refund. -/
def serve (redis : Redis) (call : LimiterCall) : Bool × Redis :=
  match call.action with
  | .allow tokenCost =>
    let (result, redis) := allow cfg redis call.reachable call.now call.client tokenCost
    (match result with
      | .ok verdict => verdict.allowed && !verdict.degraded
      | .error _ => false, redis)
  | .refund tokens =>
    (call.reachable && decide (0 < tokens), (refund cfg redis call.reachable call.now call.client tokens).2)

def serveAll (redis : Redis) : List LimiterCall → Redis
  | [] => redis
  | call :: calls => serveAll (serve cfg redis call).2 calls

/-- The calls that had an effect on what a client may still spend. -/
def granted (redis : Redis) : List LimiterCall → List LimiterCall
  | [] => []
  | call :: calls =>
    let (taken, next) := serve cfg redis call
    if taken then call :: granted next calls else granted next calls

/-! ## Expiry -/

/-- To a script, a key whose time is over does not exist. -/
def expire (redis : Redis) (now : Rat) : Redis := redis.filter fun _ bucket => decide (now ≤ bucket.expiresAt)

/-- What a call returns; a refund that went through has no verdict. -/
def respond (redis : Redis) (call : LimiterCall) : Except LimiterError (Option Verdict) × Redis :=
  match call.action with
  | .allow tokenCost =>
    let (result, redis) := allow cfg redis call.reachable call.now call.client tokenCost
    (result.map some, redis)
  | .refund tokens =>
    let (result, redis) := refund cfg redis call.reachable call.now call.client tokens
    (result.map fun _ => none, redis)

/-- What is there when a call comes, in a Redis that lets keys expire and in one that does not. -/
def present (expiring : Bool) (redis : Redis) (now : Rat) : Redis := if expiring then expire redis now else redis

def respondAll (expiring : Bool) (redis : Redis) : List LimiterCall → List (Except LimiterError (Option Verdict)) × Redis
  | [] => ([], redis)
  | call :: calls =>
    let (answer, redis) := respond cfg (present expiring redis call.now) call
    let (answers, redis) := respondAll expiring redis calls
    (answer :: answers, redis)

end RateLimiter

end Nanoserve.Router
