import Nanoserve.Verified.Expiry

/-! # Refused requests

A refused request writes the refill of its time back and takes nothing.
-/

namespace Nanoserve.Verified

open Lib Router RateLimiter List
open Model (Text)

/-- The script as `Allow` runs it. -/
def allowScript (cfg : RateLimitConfig) (redis : Redis) (now : Rat) (client : Text) (cost : Rat) : ScriptReply × Redis :=
  rateLimitScript redis now (reqKey client) (tokKey client) cfg.requestBurst (cfg.requestsPerMinute / 60)
    cfg.tokenBurst (cfg.tokensPerMinute / 60) cost cfg.ttl

def requestLevel (cfg : RateLimitConfig) (redis : Redis) (client : Text) (now : Rat) : Rat :=
  refill redis (reqKey client) cfg.requestBurst (cfg.requestsPerMinute / 60) now

def tokenLevel (cfg : RateLimitConfig) (redis : Redis) (client : Text) (now : Rat) : Rat :=
  refill redis (tokKey client) cfg.tokenBurst (cfg.tokensPerMinute / 60) now

section Script

variable {cfg : RateLimitConfig} {redis : Redis} {now : Rat} {client : Text} {cost : Rat}

theorem allow_eq (cfg : RateLimitConfig) (redis : Redis) (now : Rat) (client : Text) (tokenCost : Int) :
    allow cfg redis true now client tokenCost =
      (.ok (parseVerdict (allowScript cfg redis now client tokenCost).1), (allowScript cfg redis now client tokenCost).2) := by
  rw [allow, if_pos rfl]
  rfl

theorem allowScript_oversized (oversized : cfg.tokenBurst < cost) :
    allowScript cfg redis now client cost =
      ({ allowed := false, reqRemaining := -1, tokRemaining := -1, retryAfter := -1 }, redis) := by
  rw [allowScript, rateLimitScript, if_pos oversized]

theorem allowScript_reply {other : Redis} (requests : requestLevel cfg redis client now = requestLevel cfg other client now)
    (tokens : tokenLevel cfg redis client now = tokenLevel cfg other client now) :
    (allowScript cfg redis now client cost).1 = (allowScript cfg other now client cost).1 := by
  simp only [allowScript, rateLimitScript]
  rw [requestLevel, requestLevel] at requests
  rw [tokenLevel, tokenLevel] at tokens
  rw [requests, tokens]
  split <;> rfl

section

variable (fits : cost ≤ cfg.tokenBurst)
include fits

theorem allowScript_allowed :
    (allowScript cfg redis now client cost).1.allowed = true ↔
      1 ≤ requestLevel cfg redis client now ∧ cost ≤ tokenLevel cfg redis client now := by
  rw [allowScript, rateLimitScript, if_neg (not_lt.mpr fits)]
  simp only [Bool.and_eq_true, decide_eq_true_eq, requestLevel, tokenLevel]

theorem get?_allowScript :
    (allowScript cfg redis now client cost).2.get? (reqKey client) =
        some ⟨(allowScript cfg redis now client cost).1.reqRemaining, now, now + keptFor cfg⟩ ∧
      (allowScript cfg redis now client cost).2.get? (tokKey client) =
        some ⟨(allowScript cfg redis now client cost).1.tokRemaining, now, now + keptFor cfg⟩ := by
  simp only [allowScript, rateLimitScript, if_neg (not_lt.mpr fits), get?_persist, reqKey_ne_tokKey, if_true, if_false]
  exact ⟨rfl, rfl⟩

theorem allowScript_refused (refused : (allowScript cfg redis now client cost).1.allowed = false) :
    (allowScript cfg redis now client cost).1.reqRemaining = requestLevel cfg redis client now ∧
      (allowScript cfg redis now client cost).1.tokRemaining = tokenLevel cfg redis client now := by
  simp only [allowScript, rateLimitScript, if_neg (not_lt.mpr fits)] at refused ⊢
  simp only [refused, Bool.false_eq_true, if_false]
  exact ⟨rfl, rfl⟩

theorem allowScript_retryAfter :
    (allowScript cfg redis now client cost).1.retryAfter =
      let retry :=
        if requestLevel cfg redis client now < 1 then
          max 0 ((1 - requestLevel cfg redis client now) / (cfg.requestsPerMinute / 60))
        else 0
      if tokenLevel cfg redis client now < cost then
        max retry ((cost - tokenLevel cfg redis client now) / (cfg.tokensPerMinute / 60))
      else retry := by
  rw [allowScript, rateLimitScript, if_neg (not_lt.mpr fits)]
  rfl

theorem retryAfter_le_iff (valid : cfg.validate = .ok ()) {wait : Rat} (nonneg : 0 ≤ wait) :
    (allowScript cfg redis now client cost).1.retryAfter ≤ wait ↔
      (1 - requestLevel cfg redis client now) / (cfg.requestsPerMinute / 60) ≤ wait ∧
        (cost - tokenLevel cfg redis client now) / (cfg.tokensPerMinute / 60) ≤ wait := by
  obtain ⟨_, _, -⟩ := (validate_iff cfg).mp valid
  have requestsFlow : 0 < cfg.requestsPerMinute / 60 := by positivity
  have tokensFlow : 0 < cfg.tokensPerMinute / 60 := by positivity
  -- A bucket that has enough gives no reason to wait.
  have requestsEnough (enough : ¬ requestLevel cfg redis client now < 1) :
      (1 - requestLevel cfg redis client now) / (cfg.requestsPerMinute / 60) ≤ wait :=
    (div_nonpos_of_nonpos_of_nonneg (by linarith) requestsFlow.le).trans nonneg
  have tokensEnough (enough : ¬ tokenLevel cfg redis client now < cost) :
      (cost - tokenLevel cfg redis client now) / (cfg.tokensPerMinute / 60) ≤ wait :=
    (div_nonpos_of_nonpos_of_nonneg (by linarith) tokensFlow.le).trans nonneg
  simp only [allowScript_retryAfter fits]
  by_cases requests : requestLevel cfg redis client now < 1
  · by_cases tokens : tokenLevel cfg redis client now < cost
    · simp only [if_pos requests, if_pos tokens, max_le_iff, nonneg, true_and]
    · simp only [if_pos requests, if_neg tokens, max_le_iff, nonneg, true_and, tokensEnough tokens, and_true]
  · by_cases tokens : tokenLevel cfg redis client now < cost
    · simp only [if_neg requests, if_pos tokens, max_le_iff, nonneg, true_and, requestsEnough requests]
    · simp only [if_neg requests, if_neg tokens, nonneg, requestsEnough requests, tokensEnough tokens, and_self]

theorem retryAfter_pos (valid : cfg.validate = .ok ())
    (refused : (allowScript cfg redis now client cost).1.allowed = false) :
    0 < (allowScript cfg redis now client cost).1.retryAfter := by
  obtain ⟨_, _, -⟩ := (validate_iff cfg).mp valid
  by_contra noWait
  obtain ⟨requests, tokens⟩ := (retryAfter_le_iff fits valid (le_refl 0)).mp (not_lt.mp noWait)
  rw [div_le_iff₀ (by positivity), zero_mul, sub_nonpos] at requests tokens
  rw [(allowScript_allowed fits).mpr ⟨requests, tokens⟩] at refused
  cases refused

end

end Script

/-! ## The hint -/

theorem serve_others {cfg : RateLimitConfig} {client : Text} {call : LimiterCall} (other : call.client ≠ client)
    (redis : Redis) :
    (serve cfg redis call).2.get? (reqKey client) = redis.get? (reqKey client) ∧
      (serve cfg redis call).2.get? (tokKey client) = redis.get? (tokKey client) := by
  obtain ⟨now, _, action, reachable⟩ := call
  cases reachable with
  | false =>
    rw [serve_unreachable]
    exact ⟨rfl, rfl⟩
  | true =>
    cases action with
    | allow tokenCost =>
      rw [serve_allow]
      exact get?_rateLimitScript_of_ne other.symm now tokenCost
    | refund tokens =>
      rw [serve_refund]
      by_cases given : 0 < tokens
      · rw [if_pos given]
        exact ⟨get?_refundScript_of_ne (reqKey_ne_tokKey _ _) .., get?_refundScript_of_ne (tokKey_injective.ne other.symm) ..⟩
      · rw [if_neg given]
        exact ⟨rfl, rfl⟩

theorem serveAll_others {cfg : RateLimitConfig} {client : Text} {calls : List LimiterCall}
    (others : ∀ call ∈ calls, call.client ≠ client) (redis : Redis) :
    (serveAll cfg redis calls).get? (reqKey client) = redis.get? (reqKey client) ∧
      (serveAll cfg redis calls).get? (tokKey client) = redis.get? (tokKey client) := by
  induction calls generalizing redis with
  | nil => exact ⟨rfl, rfl⟩
  | cons call _ ih =>
    obtain ⟨requests, tokens⟩ := ih (fun other mem => others other (mem_cons_of_mem _ mem))
      (serve cfg redis call).2
    have here := @serve_others cfg client call (others call mem_cons_self) redis
    exact ⟨requests.trans here.1, tokens.trans here.2⟩

section Hint

variable {cfg : RateLimitConfig} (valid : cfg.validate = .ok ()) {redis : Redis} {now : Rat} {client : Text} {cost : Rat}
  (fits : cost ≤ cfg.tokenBurst) (refused : (allowScript cfg redis now client cost).1.allowed = false)
  {others : List LimiterCall} (foreign : ∀ call ∈ others, call.client ≠ client) {later : Rat} (onward : now ≤ later)
include valid fits refused foreign onward

theorem levels_after_refusal :
    let after := serveAll cfg (allowScript cfg redis now client cost).2 others
    (1 ≤ requestLevel cfg after client later ↔
        now + (1 - requestLevel cfg redis client now) / (cfg.requestsPerMinute / 60) ≤ later) ∧
      (cost ≤ tokenLevel cfg after client later ↔
        now + (cost - tokenLevel cfg redis client now) / (cfg.tokensPerMinute / 60) ≤ later) := by
  obtain ⟨_, _, requestBurst, -⟩ := (validate_iff cfg).mp valid
  obtain ⟨requests, tokens⟩ := serveAll_others foreign (allowScript cfg redis now client cost).2
  obtain ⟨requestsKept, tokensKept⟩ := get?_allowScript fits
  obtain ⟨noRequest, noToken⟩ := allowScript_refused fits refused
  rw [noRequest] at requestsKept
  rw [noToken] at tokensKept
  constructor
  · rw [requestLevel, refill_eq_available, requests, requestsKept]
    exact le_available_iff requestBurst (by positivity) onward
  · rw [tokenLevel, refill_eq_available, tokens, tokensKept]
    exact le_available_iff fits (by positivity) onward

theorem allowed_after_refusal_iff :
    (allowScript cfg (serveAll cfg (allowScript cfg redis now client cost).2 others) later client cost).1.allowed = true ↔
      now + (allowScript cfg redis now client cost).1.retryAfter ≤ later := by
  obtain ⟨requests, tokens⟩ := levels_after_refusal valid fits refused foreign onward
  rw [allowScript_allowed fits, requests, tokens, ← le_sub_iff_add_le', ← le_sub_iff_add_le', ← le_sub_iff_add_le']
  exact (retryAfter_le_iff fits valid (sub_nonneg.mpr onward)).symm

end Hint

theorem parseVerdict_retryAfter {reply : ScriptReply} (refused : reply.allowed = false) (waits : 0 < reply.retryAfter) :
    (parseVerdict reply).retryAfter = ⌊reply.retryAfter * 1000000000⌋ := by
  rw [parseVerdict, if_neg (by simp [refused]), if_neg (not_lt.mpr waits.le)]

theorem permanent_iff {cfg : RateLimitConfig} (valid : cfg.validate = .ok ()) (redis : Redis) (now : Rat) (client : Text)
    (cost : Rat) :
    (parseVerdict (allowScript cfg redis now client cost).1).permanent = true ↔ cfg.tokenBurst < cost := by
  by_cases oversized : cfg.tokenBurst < cost
  · rw [allowScript_oversized oversized]
    exact iff_of_true rfl oversized
  · refine iff_of_false ?_ oversized
    intro permanent
    simp only [Verdict.permanent, Bool.and_eq_true, Bool.not_eq_true', decide_eq_true_eq] at permanent
    obtain ⟨refused, negative⟩ := permanent
    have waits := retryAfter_pos (not_lt.mp oversized) valid refused
    -- A wait is never negative, whatever of it is cut off.
    rw [parseVerdict_retryAfter refused waits, Int.floor_lt, Int.cast_zero] at negative
    linarith

/-- The hint of a refused request is exact. -/
theorem retry_after_exact (cfg : RateLimitConfig) (valid : cfg.validate = .ok ()) (redis : Redis) (client : Text)
    (cost : Int) (now : Rat) :
    let reply := (allowScript cfg redis now client cost).1
    let verdict := parseVerdict reply
    (allow cfg redis true now client cost).1 = .ok verdict ∧
      (verdict.permanent = true ↔ cfg.tokenBurst < cost) ∧
      (cost ≤ cfg.tokenBurst → verdict.allowed = false →
        0 < reply.retryAfter ∧ verdict.retryAfter = ⌊reply.retryAfter * 1000000000⌋ ∧
          ∀ others later, (∀ call ∈ others, call.client ≠ client) → now ≤ later →
            (admitted (respond cfg (serveAll cfg (allow cfg redis true now client cost).2 others)
                ⟨later, client, .allow cost, true⟩).1 = true ↔
              now + reply.retryAfter ≤ later)) := by
  simp only [allow_eq, true_and]
  refine ⟨permanent_iff valid .., ?_⟩
  intro fits refused
  have waits := retryAfter_pos fits valid refused
  refine ⟨waits, parseVerdict_retryAfter refused waits, ?_⟩
  intro others later foreign onward
  simp only [respond, allow_eq]
  exact allowed_after_refusal_iff valid fits refused foreign onward

/-- Ten requests at once are the burst; the next one has to wait for a second. -/
theorem retry_after_exact_burst :
    let redis := serveAll defaultRateLimitConfig .empty (List.replicate 10 ⟨0, ['c'], .allow 100, true⟩)
    let reply := (allowScript defaultRateLimitConfig redis 0 ['c'] 100).1
    reply.retryAfter = 1 ∧
      ∀ later, 0 ≤ later →
        (admitted (respond defaultRateLimitConfig (serveAll defaultRateLimitConfig
            (allow defaultRateLimitConfig redis true 0 ['c'] 100).2 [⟨0, ['d'], .allow 7, true⟩])
            ⟨later, ['c'], .allow 100, true⟩).1 = true ↔ 1 ≤ later) := by
  intro redis reply
  have wait : reply.retryAfter = 1 := by decide +kernel
  have exact := (retry_after_exact defaultRateLimitConfig (by decide +kernel) redis ['c'] 100 0).2.2
    (by decide +kernel) (by decide +kernel)
  refine ⟨wait, ?_⟩
  intro later onward
  have again := exact.2.2 [⟨0, ['d'], .allow 7, true⟩] later (by decide +kernel) onward
  rw [show (allowScript defaultRateLimitConfig redis 0 ['c'] ((100 : Int) : Rat)).1.retryAfter = 1 by decide +kernel,
    zero_add] at again
  exact again

/-! ## Without the refused -/

structure Indistinct (cap rate now : Rat) (first second : Option StoredBucket) : Prop where
  firstPast : ∀ stored, first.map StoredBucket.bucket = some stored → stored.since ≤ now
  secondPast : ∀ stored, second.map StoredBucket.bucket = some stored → stored.since ≤ now
  same : ∀ time, now ≤ time →
    available cap rate (first.map StoredBucket.bucket) time = available cap rate (second.map StoredBucket.bucket) time

namespace Indistinct

variable {cap rate now : Rat} {first second : Option StoredBucket}

theorem later (indistinct : Indistinct cap rate now first second) {next : Rat} (onward : now ≤ next) :
    Indistinct cap rate next first second where
  firstPast stored present := (indistinct.firstPast stored present).trans onward
  secondPast stored present := (indistinct.secondPast stored present).trans onward
  same time later := indistinct.same time (onward.trans later)

theorem settled (fills : 0 ≤ rate) (indistinct : Indistinct cap rate now first second) (expiresAt : Rat) :
    Indistinct cap rate now (some ⟨available cap rate (first.map StoredBucket.bucket) now, now, expiresAt⟩) second where
  firstPast stored present := by
    cases present
    exact le_refl now
  secondPast := indistinct.secondPast
  same time later := (available_settled fills indistinct.firstPast later).trans (indistinct.same time later)

theorem written (cap rate : Rat) {stored : StoredBucket} (written : stored.ts = now) :
    Indistinct cap rate now (some stored) (some stored) where
  firstPast bucket present := by
    cases present
    exact written.le
  secondPast bucket present := by
    cases present
    exact written.le
  same _ _ := rfl

end Indistinct

def Interchangeable (cfg : RateLimitConfig) (now : Rat) (first second : Redis) : Prop :=
  ∀ client, Indistinct cfg.requestBurst (cfg.requestsPerMinute / 60) now (first.get? (reqKey client))
      (second.get? (reqKey client)) ∧
    Indistinct cfg.tokenBurst (cfg.tokensPerMinute / 60) now (first.get? (tokKey client)) (second.get? (tokKey client))

theorem respond_snd (cfg : RateLimitConfig) (redis : Redis) (call : LimiterCall) :
    (respond cfg redis call).2 = (serve cfg redis call).2 := by
  obtain ⟨_, _, action, _⟩ := call
  cases action with
  | allow => rfl
  | refund => rfl

theorem refundScript_eq_refill (redis : Redis) (key : Text) (cap rate now ttl : Rat) {given : Rat} (nonneg : 0 ≤ given) :
    refundScript redis now key cap rate given ttl =
      let tokens := min cap (refill redis key cap rate now + given)
      (tokens, persist redis key tokens now ttl) := by
  simp only [refundScript, refill, elapsed_eq_max, clamp_eq_min]
  cases redis.get? key with
  | none => simp
  | some => simp only [min_add_min _ nonneg]

namespace Interchangeable

variable {cfg : RateLimitConfig} {now : Rat} {first second : Redis}

theorem nothing (cfg : RateLimitConfig) (now : Rat) : Interchangeable cfg now .empty .empty := by
  intro client
  exact ⟨⟨nofun, nofun, fun _ _ => rfl⟩, nofun, nofun, fun _ _ => rfl⟩

section

variable (interchangeable : Interchangeable cfg now first second)
include interchangeable

theorem later {next : Rat} (onward : now ≤ next) :
    Interchangeable cfg next first second := fun client =>
  ⟨(interchangeable client).1.later onward, (interchangeable client).2.later onward⟩

theorem levels (client : Text) :
    requestLevel cfg first client now = requestLevel cfg second client now ∧
      tokenLevel cfg first client now = tokenLevel cfg second client now := by
  simp only [requestLevel, tokenLevel, refill_eq_available]
  exact ⟨(interchangeable client).1.same now (le_refl now), (interchangeable client).2.same now (le_refl now)⟩

theorem own {client : Text} {firstNext secondNext : Redis}
    (firstFrame : ∀ other, client ≠ other →
      firstNext.get? (reqKey other) = first.get? (reqKey other) ∧ firstNext.get? (tokKey other) = first.get? (tokKey other))
    (secondFrame : ∀ other, client ≠ other →
      secondNext.get? (reqKey other) = second.get? (reqKey other) ∧
        secondNext.get? (tokKey other) = second.get? (tokKey other))
    (requests : Indistinct cfg.requestBurst (cfg.requestsPerMinute / 60) now (firstNext.get? (reqKey client))
      (secondNext.get? (reqKey client)))
    (tokens : Indistinct cfg.tokenBurst (cfg.tokensPerMinute / 60) now (firstNext.get? (tokKey client))
      (secondNext.get? (tokKey client))) : Interchangeable cfg now firstNext secondNext := by
  intro other
  by_cases same : client = other
  · subst same
    exact ⟨requests, tokens⟩
  · rw [(firstFrame other same).1, (firstFrame other same).2, (secondFrame other same).1, (secondFrame other same).2]
    exact interchangeable other

end

theorem refuse (valid : cfg.validate = .ok ()) {client : Text} {tokenCost : Int}
    (refused : (allowScript cfg first now client tokenCost).1.allowed = false)
    (interchangeable : Interchangeable cfg now first second) :
    Interchangeable cfg now (allowScript cfg first now client tokenCost).2 second := by
  obtain ⟨_, _, -⟩ := (validate_iff cfg).mp valid
  by_cases oversized : cfg.tokenBurst < tokenCost
  · rw [allowScript_oversized oversized]
    exact interchangeable
  · obtain ⟨requestsKept, tokensKept⟩ := get?_allowScript (not_lt.mp oversized)
    obtain ⟨noRequest, noToken⟩ := allowScript_refused (not_lt.mp oversized) refused
    rw [noRequest, requestLevel, refill_eq_available] at requestsKept
    rw [noToken, tokenLevel, refill_eq_available] at tokensKept
    refine interchangeable.own (fun other differs => get?_rateLimitScript_of_ne differs.symm now tokenCost)
      (fun _ _ => ⟨rfl, rfl⟩) ?_ ?_
    · rw [requestsKept]
      exact (interchangeable client).1.settled (by positivity) _
    · rw [tokensKept]
      exact (interchangeable client).2.settled (by positivity) _

theorem req {client : Text} (tokenCost : Int) (interchangeable : Interchangeable cfg now first second) :
    (allowScript cfg first now client tokenCost).1 = (allowScript cfg second now client tokenCost).1 ∧
      Interchangeable cfg now (allowScript cfg first now client tokenCost).2
        (allowScript cfg second now client tokenCost).2 := by
  obtain ⟨requests, tokens⟩ := interchangeable.levels client
  have reply := @allowScript_reply cfg first now client tokenCost second requests tokens
  refine ⟨reply, ?_⟩
  by_cases oversized : cfg.tokenBurst < tokenCost
  · rw [allowScript_oversized oversized, allowScript_oversized oversized]
    exact interchangeable
  · obtain ⟨firstRequests, firstTokens⟩ := get?_allowScript (not_lt.mp oversized)
    obtain ⟨secondRequests, secondTokens⟩ := get?_allowScript (not_lt.mp oversized)
    refine interchangeable.own (fun other differs => get?_rateLimitScript_of_ne differs.symm now tokenCost)
      (fun other differs => get?_rateLimitScript_of_ne differs.symm now tokenCost) ?_ ?_
    · rw [firstRequests, secondRequests, reply]
      exact .written _ _ rfl
    · rw [firstTokens, secondTokens, reply]
      exact .written _ _ rfl

theorem refund {client : Text} {given : Rat} (nonneg : 0 ≤ given)
    (interchangeable : Interchangeable cfg now first second) :
    let script (redis : Redis) :=
      (refundScript redis now (tokKey client) cfg.tokenBurst (cfg.tokensPerMinute / 60) given cfg.ttl).2
    Interchangeable cfg now (script first) (script second) := by
  have same := (interchangeable.levels client).2
  have frame (redis : Redis) (other : Text) (differs : client ≠ other) :
      (refundScript redis now (tokKey client) cfg.tokenBurst (cfg.tokensPerMinute / 60) given cfg.ttl).2.get? (reqKey other) =
          redis.get? (reqKey other) ∧
        (refundScript redis now (tokKey client) cfg.tokenBurst (cfg.tokensPerMinute / 60) given cfg.ttl).2.get?
          (tokKey other) = redis.get? (tokKey other) :=
    ⟨get?_refundScript_of_ne (reqKey_ne_tokKey _ _) .., get?_refundScript_of_ne (tokKey_injective.ne differs.symm) ..⟩
  refine interchangeable.own (frame first) (frame second) ?_ ?_
  · rw [get?_refundScript_of_ne (reqKey_ne_tokKey _ _), get?_refundScript_of_ne (reqKey_ne_tokKey _ _)]
    exact (interchangeable client).1
  · rw [tokenLevel, tokenLevel] at same
    simp only [refundScript_eq_refill _ _ _ _ _ _ nonneg, same, get?_persist, if_true]
    exact .written _ _ rfl

theorem respond (call : LimiterCall) (interchangeable : Interchangeable cfg call.now first second) :
    (respond cfg first call).1 = (respond cfg second call).1 ∧
      Interchangeable cfg call.now (RateLimiter.respond cfg first call).2 (RateLimiter.respond cfg second call).2 := by
  obtain ⟨now, client, action, reachable⟩ := call
  cases action with
  | allow tokenCost =>
    cases reachable with
    | true =>
      obtain ⟨reply, next⟩ := @req cfg now first second client tokenCost interchangeable
      simp only [RateLimiter.respond, allow_eq, reply, true_and]
      exact next
    | false =>
      simp only [respond_snd, serve_unreachable]
      refine ⟨?_, interchangeable⟩
      by_cases failOpen : cfg.failOpen = true
      · simp only [RateLimiter.respond, allow, Bool.false_eq_true, if_false, failOpen, if_true]
      · simp only [RateLimiter.respond, allow, Bool.false_eq_true, if_false, failOpen]
  | refund tokens =>
    by_cases given : tokens ≤ 0
    · simp only [RateLimiter.respond, RateLimiter.refund, if_pos given, true_and]
      exact interchangeable
    · cases reachable with
      | false =>
        simp only [RateLimiter.respond, RateLimiter.refund, if_neg given, Bool.false_eq_true, if_false, true_and]
        exact interchangeable
      | true =>
        have amount : (0 : Rat) ≤ tokens := by exact_mod_cast (not_le.mp given).le
        simp only [RateLimiter.respond, RateLimiter.refund, if_neg given, if_true, true_and]
        exact interchangeable.refund amount

end Interchangeable

/-- The answer to a request that was denied, for now or for good. -/
def refused : Except LimiterError (Option Verdict) → Bool
  | .ok (some verdict) => !verdict.allowed
  | .ok none | .error _ => false

theorem refused_refund (cfg : RateLimitConfig) (redis : Redis) (now : Rat) (client : Text) (tokens : Int)
    (reachable : Bool) : refused (respond cfg redis ⟨now, client, .refund tokens, reachable⟩).1 = false := by
  simp only [respond]
  cases (refund cfg redis reachable now client tokens).1 with
  | ok => rfl
  | error => rfl

theorem Interchangeable.refused {cfg : RateLimitConfig} (valid : cfg.validate = .ok ()) {first second : Redis}
    {call : LimiterCall} (denied : refused (RateLimiter.respond cfg first call).1 = true)
    (interchangeable : Interchangeable cfg call.now first second) :
    Interchangeable cfg call.now (RateLimiter.respond cfg first call).2 second := by
  obtain ⟨_, _, action, reachable⟩ := call
  cases action with
  | allow =>
    cases reachable with
    | true =>
      exact interchangeable.refuse valid ((Bool.not_eq_true' _).mp denied)
    | false =>
      rw [respond_snd, serve_unreachable]
      exact interchangeable
  | refund =>
    rw [refused_refund] at denied
    cases denied

/-- The calls that remain, with the answers they had. -/
def undenied (chosen : LimiterCall → Bool) (calls : List LimiterCall)
    (answers : List (Except LimiterError (Option Verdict))) : List (LimiterCall × Except LimiterError (Option Verdict)) :=
  (calls.zip answers).filter fun (call, answer) => !(chosen call && refused answer)

theorem respondAll_undenied {cfg : RateLimitConfig} (valid : cfg.validate = .ok ()) (chosen : LimiterCall → Bool)
    {calls : List LimiterCall} (ordered : calls.Pairwise fun first second => first.now ≤ second.now) {time : Rat}
    (later : ∀ call ∈ calls, time ≤ call.now) {first second : Redis} (interchangeable : Interchangeable cfg time first second) :
    let remaining := undenied chosen calls (respondAll cfg false first calls).1
    (respondAll cfg false second (remaining.map Prod.fst)).1 = remaining.map Prod.snd := by
  induction calls generalizing first second time with
  | nil => rfl
  | cons call _ ih =>
    obtain ⟨onward, orderedRest⟩ := pairwise_cons.mp ordered
    have now := interchangeable.later (later call mem_cons_self)
    simp only [undenied, respondAll, present, Bool.false_eq_true, if_false, zip_cons_cons, filter_cons]
    by_cases denied : (chosen call && refused (respond cfg first call).1) = true
    · simp only [denied, Bool.not_true, Bool.false_eq_true, if_false]
      exact ih orderedRest onward (now.refused valid (Bool.and_eq_true_iff.mp denied).2)
    · obtain ⟨answer, next⟩ := now.respond call
      simp only [denied, Bool.not_false, if_true, map_cons, respondAll, present, Bool.false_eq_true, if_false,
        ← answer, cons.injEq, true_and]
      exact ih orderedRest onward next

/-- Whoever keeps asking while refused is answered as if they had waited. -/
theorem denied_leave_no_trace (cfg : RateLimitConfig) (valid : cfg.validate = .ok ()) (calls : List LimiterCall)
    (ordered : calls.Pairwise fun first second => first.now ≤ second.now) (chosen : LimiterCall → Bool) :
    let remaining := undenied chosen calls (respondAll cfg false .empty calls).1
    (respondAll cfg false .empty (remaining.map Prod.fst)).1 = remaining.map Prod.snd := by
  obtain ⟨time, later⟩ := exists_earlier ordered
  exact respondAll_undenied valid chosen ordered later (.nothing cfg time)

/-- A client that is refused twice, once for good, before its budget comes back. -/
def impatient : List LimiterCall :=
  [⟨0, ['c'], .allow 9000, true⟩, ⟨1, ['c'], .allow 4000, true⟩, ⟨2, ['c'], .allow 20000, true⟩,
    ⟨3, ['c'], .refund 100, true⟩, ⟨4, ['c'], .allow 4000, true⟩]

theorem denied_leave_no_trace_impatient :
    let remaining := undenied (fun _ => true) impatient (respondAll defaultRateLimitConfig false .empty impatient).1
    remaining.length = 3 ∧
      (respondAll defaultRateLimitConfig false .empty (remaining.map Prod.fst)).1 = remaining.map Prod.snd :=
  ⟨by decide +kernel, denied_leave_no_trace defaultRateLimitConfig (by decide +kernel) impatient (by decide +kernel) _⟩

end Nanoserve.Verified
