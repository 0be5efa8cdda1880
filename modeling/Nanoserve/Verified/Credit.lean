import Nanoserve.Verified.Refusals

/-! # What flows into a bucket

A script credits a bucket for the time since the script before it.
-/

namespace Nanoserve.Verified

open Lib Router RateLimiter List
open Model (Text)

/-- What a client has two buckets of. -/
inductive Dimension where
  | requests
  | tokens
deriving DecidableEq, Repr

namespace Dimension

def key : Dimension → Text → Text
  | requests => reqKey
  | tokens => tokKey

def cap (cfg : RateLimitConfig) : Dimension → Rat
  | requests => cfg.requestBurst
  | tokens => cfg.tokenBurst

def rate (cfg : RateLimitConfig) : Dimension → Rat
  | requests => cfg.requestsPerMinute / 60
  | tokens => cfg.tokensPerMinute / 60

theorem rate_pos {cfg : RateLimitConfig} (valid : cfg.validate = .ok ()) (dimension : Dimension) :
    0 < dimension.rate cfg := by
  obtain ⟨requestRate, tokenRate, -⟩ := (validate_iff cfg).mp valid
  cases dimension with
  | requests => exact div_pos requestRate (by norm_num)
  | tokens => exact div_pos tokenRate (by norm_num)

end Dimension

/-- What a script adds to a bucket for the time that has passed, before it cuts off. -/
def credit (redis : Redis) (key : Text) (rate now : Rat) : Rat :=
  match redis.get? key with
  | none => 0
  | some bucket => (if now - bucket.ts < 0 then 0 else now - bucket.ts) * rate

/-- What it starts from; a bucket that is not there is full. -/
def storedLevel (redis : Redis) (key : Text) (cap : Rat) : Rat :=
  match redis.get? key with
  | none => cap
  | some bucket => bucket.tokens

theorem refill_eq_credit (redis : Redis) (key : Text) (cap rate now : Rat) :
    refill redis key cap rate now = min cap (storedLevel redis key cap + credit redis key rate now) := by
  simp only [refill, storedLevel, credit]
  cases redis.get? key with
  | none => simp
  | some => exact clamp_eq_min _ _

theorem refundScript_eq_credit (redis : Redis) (key : Text) (cap rate now given ttl : Rat) :
    (refundScript redis now key cap rate given ttl).1 =
      min cap (storedLevel redis key cap + credit redis key rate now + given) := by
  simp only [refundScript, storedLevel, credit, clamp_eq_min]
  cases redis.get? key with
  | none => simp
  | some => rfl

/-- The call runs a script that refills the bucket and writes it. -/
def settles (cfg : RateLimitConfig) (dimension : Dimension) (client : Text) (call : LimiterCall) : Bool :=
  call.reachable && decide (call.client = client) &&
    match call.action, dimension with
    | .allow tokenCost, _ => decide (tokenCost ≤ cfg.tokenBurst)
    | .refund tokens, .tokens => decide (0 < tokens)
    | .refund _, .requests => false

theorem respond_settles (cfg : RateLimitConfig) (dimension : Dimension) (client : Text) (redis : Redis) (call : LimiterCall) :
    ((respond cfg redis call).2.get? (dimension.key client)).map StoredBucket.ts =
      if settles cfg dimension client call then some call.now
      else (redis.get? (dimension.key client)).map StoredBucket.ts := by
  by_cases own : call.client = client
  · subst own
    obtain ⟨now, caller, action, reachable⟩ := call
    rw [respond_snd]
    cases reachable with
    | false =>
      rw [serve_unreachable]
      rfl
    | true =>
      cases action with
      | allow tokenCost =>
        by_cases fits : (tokenCost : Rat) ≤ cfg.tokenBurst
        · obtain ⟨requests, tokens⟩ := get?_allowScript fits
          rw [serve_allow, if_pos (by simp [settles, fits])]
          cases dimension with
          | requests => exact congrArg _ requests
          | tokens => exact congrArg _ tokens
        · have oversized := @allowScript_oversized cfg redis now caller tokenCost (not_le.mp fits)
          rw [serve_allow, if_neg (by simp [settles, fits])]
          exact congrArg (fun ran : ScriptReply × Redis => (ran.2.get? (dimension.key caller)).map StoredBucket.ts) oversized
      | refund tokens =>
        rw [serve_refund]
        by_cases given : 0 < tokens
        · rw [if_pos given]
          cases dimension with
          | requests =>
            rw [if_neg (by simp [settles])]
            exact congrArg _ (get?_refundScript_of_ne (reqKey_ne_tokKey _ _) ..)
          | tokens =>
            rw [if_pos (by simp [settles, given])]
            simp only [refundScript, Dimension.key, get?_persist, if_true, Option.map_some]
        · rw [if_neg given, if_neg]
          cases dimension <;> simp [settles, given]
  · obtain ⟨requests, tokens⟩ := serve_others own redis
    rw [respond_snd, if_neg (by simp [settles, own])]
    cases dimension with
    | requests => exact congrArg _ requests
    | tokens => exact congrArg _ tokens

/-! ## Whole runs -/

/-- The times that the scripts on a bucket read. -/
def readings (cfg : RateLimitConfig) (dimension : Dimension) (client : Text) (calls : List LimiterCall) : List Rat :=
  (calls.filter (settles cfg dimension client)).map LimiterCall.now

/-- What they credit it with, all together. -/
def credited (cfg : RateLimitConfig) (expiring : Bool) (dimension : Dimension) (client : Text) (redis : Redis) :
    List LimiterCall → Rat
  | [] => 0
  | call :: calls =>
    let found := present expiring redis call.now
    (if settles cfg dimension client call then credit found (dimension.key client) (dimension.rate cfg) call.now else 0) +
      credited cfg expiring dimension client (respond cfg found call).2 calls

def marks (cfg : RateLimitConfig) (dimension : Dimension) (client : Text) (redis : Redis) (calls : List LimiterCall) :
    List Rat :=
  ((redis.get? (dimension.key client)).map StoredBucket.ts).toList ++ readings cfg dimension client calls

section Credited

variable {cfg : RateLimitConfig} {dimension : Dimension} {client : Text}

theorem climbed_marks_cons (redis : Redis) (call : LimiterCall) (calls : List LimiterCall) :
    climbed (marks cfg dimension client redis (call :: calls)) * dimension.rate cfg =
      (if settles cfg dimension client call then credit redis (dimension.key client) (dimension.rate cfg) call.now else 0) +
        climbed (marks cfg dimension client (respond cfg redis call).2 calls) * dimension.rate cfg := by
  simp only [marks, respond_settles, readings, filter_cons]
  by_cases settled : settles cfg dimension client call = true
  · simp only [settled, if_true, map_cons, credit]
    cases redis.get? (dimension.key client) with
    | none => simp
    | some =>
      simp only [elapsed_eq_max, Option.map_some, Option.toList_some, cons_append, nil_append, climbed]
      ring
  · simp [settled]

theorem credited_eq (redis : Redis) (calls : List LimiterCall) :
    credited cfg false dimension client redis calls =
      climbed (marks cfg dimension client redis calls) * dimension.rate cfg := by
  induction calls generalizing redis with
  | nil =>
    simp only [credited, marks, readings, filter_nil, map_nil, append_nil]
    cases redis.get? (dimension.key client) <;> simp [climbed]
  | cons _ _ ih =>
    simp only [credited, present, Bool.false_eq_true, if_false, climbed_marks_cons, ih]

theorem climbed_marks_expire (redis : Redis) (now : Rat) (calls : List LimiterCall) :
    climbed (marks cfg dimension client (expire redis now) calls) ≤ climbed (marks cfg dimension client redis calls) := by
  simp only [marks, RateLimiter.expire, Dict.get?_filter]
  cases redis.get? (dimension.key client) with
  | none => exact le_refl _
  | some bucket =>
    by_cases isKept : now ≤ bucket.expiresAt
    · simp [Option.filter, isKept]
    · simp only [Option.filter, isKept, decide_false, Bool.false_eq_true, if_false]
      exact climbed_le_cons _ _

theorem credited_le (valid : cfg.validate = .ok ()) (redis : Redis) (calls : List LimiterCall) :
    credited cfg true dimension client redis calls ≤
      climbed (marks cfg dimension client redis calls) * dimension.rate cfg := by
  have fills := (dimension.rate_pos valid).le
  induction calls generalizing redis with
  | nil => exact mul_nonneg (climbed_nonneg _) fills
  | cons call calls ih =>
    simp only [credited, present, if_true]
    calc _ ≤ _ + climbed (marks cfg dimension client (respond cfg (expire redis call.now) call).2 calls) *
          dimension.rate cfg := by gcongr; exact ih _
      _ = climbed (marks cfg dimension client (expire redis call.now) (call :: calls)) * dimension.rate cfg :=
        (climbed_marks_cons _ _ _).symm
      _ ≤ _ := by gcongr; exact climbed_marks_expire _ _ _

end Credited

/-- A script adds the credit of its time and then cuts off. From the first script on a bucket on,
all credit together is within what the clock has covered exactly as long as the clock, once it has
gone back, does not go forward again; deleted buckets make the credit less. -/
theorem credit_bounded_iff (cfg : RateLimitConfig) (valid : cfg.validate = .ok ()) (dimension : Dimension) (client : Text)
    (calls : List LimiterCall) {first : Rat} {rest : List Rat}
    (read : readings cfg dimension client calls = first :: rest) :
    (∀ redis now, refill redis (dimension.key client) (dimension.cap cfg) (dimension.rate cfg) now =
        min (dimension.cap cfg) (storedLevel redis (dimension.key client) (dimension.cap cfg) +
          credit redis (dimension.key client) (dimension.rate cfg) now)) ∧
      (∀ redis now given, (refundScript redis now (dimension.key client) (dimension.cap cfg) (dimension.rate cfg) given
          cfg.ttl).1 = min (dimension.cap cfg) (storedLevel redis (dimension.key client) (dimension.cap cfg) +
            credit redis (dimension.key client) (dimension.rate cfg) now + given)) ∧
      (credited cfg false dimension client .empty calls ≤ dimension.rate cfg * (rest.foldl max first - first) ↔
        RisesFirst (first :: rest)) ∧
      (RisesFirst (first :: rest) →
        credited cfg true dimension client .empty calls ≤ dimension.rate cfg * (rest.foldl max first - first)) := by
  have fills := dimension.rate_pos valid
  have noBucket : marks cfg dimension client .empty calls = first :: rest := read
  have covered : climbed (first :: rest) * dimension.rate cfg ≤ dimension.rate cfg * (rest.foldl max first - first) ↔
      RisesFirst (first :: rest) := by
    rw [mul_comm, mul_le_mul_iff_right₀ fills]
    exact climbed_le_iff first rest
  refine ⟨fun redis now => refill_eq_credit .., fun redis now given => refundScript_eq_credit .., ?_, ?_⟩
  · rw [credited_eq, noBucket]
    exact covered
  · intro rises
    exact (credited_le valid .empty calls).trans (noBucket ▸ covered.mpr rises)

/-- Three requests while the clock of Redis is set back by five seconds and catches up. -/
def setBack : List LimiterCall :=
  [⟨10, ['c'], .allow 4000, true⟩, ⟨5, ['c'], .allow 4000, true⟩, ⟨10, ['c'], .allow 4000, true⟩]

theorem credit_bounded_ahead :
    credited defaultRateLimitConfig false .tokens ['c'] .empty
        [⟨10, ['c'], .allow 100, true⟩, ⟨12, ['c'], .refund 40, true⟩, ⟨5, ['c'], .allow 100, true⟩] ≤ 1000 * (12 - 10) := by
  have bounded := (credit_bounded_iff defaultRateLimitConfig (by decide +kernel) .tokens ['c']
    [⟨10, ['c'], .allow 100, true⟩, ⟨12, ['c'], .refund 40, true⟩, ⟨5, ['c'], .allow 100, true⟩]
    (show readings _ _ _ _ = 10 :: [12, 5] by decide +kernel)).2.2.1.mpr (by decide +kernel)
  exact bounded.trans (by decide +kernel)

/-- Five seconds are credited that have not passed, and pay for the third request. -/
theorem set_back_credited_twice :
    defaultRateLimitConfig.validate = .ok () ∧
      readings defaultRateLimitConfig .tokens ['c'] setBack = [10, 5, 10] ∧
      credited defaultRateLimitConfig false .tokens ['c'] .empty setBack = 5000 ∧
      Dimension.tokens.rate defaultRateLimitConfig * ([5, 10].foldl max 10 - 10) = 0 ∧
      (respondAll defaultRateLimitConfig false .empty setBack).1.map admitted = [true, true, true] := by
  decide +kernel

end Nanoserve.Verified
