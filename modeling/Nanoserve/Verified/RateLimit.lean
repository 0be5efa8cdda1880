import Nanoserve.Lib.TokenBucket
import Nanoserve.Router.RateLimit

/-! # The limiter is a pair of token buckets

Every script that reaches the buckets of a client draws on them.
-/

namespace Nanoserve.Verified

open Lib Router RateLimiter List
open Model (Text)

variable {redis : Redis} {key : Text} {cap rate now amount time : Rat} {before after : Option StoredBucket}

theorem reqKey_injective : Function.Injective reqKey := by
  intro first second same
  exact append_cancel_left (append_cancel_right same)

theorem tokKey_injective : Function.Injective tokKey := by
  intro first second same
  exact append_cancel_left (append_cancel_right same)

theorem append_ne_append {first second : Text} {last other : Char} (differ : last ≠ other) (fronts : Text × Text)
    (ends : first.getLast? = some last) (endsToo : second.getLast? = some other) :
    fronts.1 ++ first ≠ fronts.2 ++ second := by
  intro same
  have lasts := congrArg getLast? same
  rw [getLast?_append, getLast?_append, ends, endsToo] at lasts
  exact differ (Option.some.inj lasts)

theorem reqKey_ne_tokKey (first second : Text) : reqKey first ≠ tokKey second :=
  @append_ne_append _ _ 'q' 'k' (by decide) ("ratelimit:\x7b".toList ++ first, "ratelimit:\x7b".toList ++ second)
    (by decide +kernel) (by decide +kernel)

def StoredBucket.bucket (stored : StoredBucket) : Bucket Rat := ⟨stored.tokens, stored.ts⟩

theorem elapsed_eq_max (now ts : Rat) : (if now - ts < 0 then 0 else now - ts) = max 0 (now - ts) := by
  rw [max_def]
  split_ifs <;> linarith

theorem clamp_eq_min (level cap : Rat) : (if level > cap then cap else level) = min cap level := by
  rw [min_def]
  split_ifs <;> linarith

theorem refill_eq_available (redis : Redis) (key : Text) (cap rate now : Rat) :
    refill redis key cap rate now = available cap rate ((redis.get? key).map StoredBucket.bucket) now := by
  unfold refill
  cases redis.get? key with
  | none => rfl
  | some =>
    simp only [elapsed_eq_max, clamp_eq_min]
    rfl

inductive Moves (cap rate now : Rat) (proper : Prop) : Option StoredBucket → Option StoredBucket → Rat → Prop
  | untouched (bucket : Option StoredBucket) : Moves cap rate now proper bucket bucket 0
  | written {bucket : Option StoredBucket} {stored : StoredBucket} {amount : Rat} (written : stored.ts = now)
    (nonneg : 0 ≤ stored.tokens)
    (paid : amount + stored.tokens ≤ available cap rate (bucket.map StoredBucket.bucket) now)
    (bounded : proper → stored.tokens ≤ cap) : Moves cap rate now proper bucket (some stored) amount

def Nonneg (bucket : Option StoredBucket) : Prop := ∀ stored, bucket = some stored → 0 ≤ stored.tokens

theorem get?_persist (redis : Redis) (key other : Text) (tokens now ttl : Rat) :
    (persist redis key tokens now ttl).get? other =
      if other = key then some { tokens, ts := now, expiresAt := now + (⌈ttl * 1000⌉ : Int) / 1000 }
      else redis.get? other := Dict.get?_set _ _ _ _

theorem refill_nonneg (pos : 0 ≤ cap) (fills : 0 ≤ rate) (holds : Nonneg (redis.get? key)) (now : Rat) :
    0 ≤ refill redis key cap rate now := by
  rw [refill_eq_available]
  refine available_nonneg pos fills ?_ now
  intro bucket same
  obtain ⟨stored, present, rfl⟩ := Option.map_eq_some_iff.mp same
  exact holds stored present

theorem refill_le (redis : Redis) (key : Text) (cap rate now : Rat) : refill redis key cap rate now ≤ cap := by
  rw [refill_eq_available]
  exact available_le_capacity _ _

theorem moves_persist {redis : Redis} {key : Text} {cap rate now amount expiresAt : Rat} {proper : Prop}
    (enough : amount ≤ refill redis key cap rate now) (takes : proper → 0 ≤ amount) :
    Moves cap rate now proper (redis.get? key)
      (some { tokens := refill redis key cap rate now - amount, ts := now, expiresAt }) amount := by
  refine .written rfl (sub_nonneg.mpr enough) ?_ ?_
  · rw [← refill_eq_available]
    simp
  · intro called
    exact (sub_le_self _ (takes called)).trans (refill_le ..)

theorem moves_kept {expiresAt : Rat} {proper : Prop} (nonneg : 0 ≤ refill redis key cap rate now) :
    Moves cap rate now proper (redis.get? key)
      (some { tokens := refill redis key cap rate now, ts := now, expiresAt }) 0 := by
  have moved := @moves_persist redis key cap rate now 0 expiresAt proper nonneg fun _ => le_refl 0
  rwa [sub_zero] at moved

theorem refundScript_tokens (pos : 0 ≤ cap) (fills : 0 ≤ rate) (holds : Nonneg (redis.get? key))
    (now refund ttl : Rat) :
    ∃ level, 0 ≤ level ∧ min cap level = refill redis key cap rate now ∧
      (refundScript redis now key cap rate refund ttl).1 = min cap (level + refund) := by
  simp only [refundScript, refill, elapsed_eq_max, clamp_eq_min]
  cases present : redis.get? key with
  | none =>
    refine ⟨cap, pos, min_self cap, ?_⟩
    simp
  | some stored =>
    have inflow : 0 ≤ max 0 (now - stored.ts) * rate := mul_nonneg (le_max_left _ _) fills
    exact ⟨_, add_nonneg (holds stored present) inflow, rfl, rfl⟩

theorem moves_refundScript {refund : Rat} (pos : 0 ≤ cap) (fills : 0 ≤ rate) (holds : Nonneg (redis.get? key))
    (now ttl : Rat) (given : 0 ≤ refund) :
    Moves cap rate now True (redis.get? key) ((refundScript redis now key cap rate refund ttl).2.get? key)
      (-refund) := by
  obtain ⟨level, nonneg, refilled, tokens⟩ := refundScript_tokens pos fills holds now refund ttl
  have written : (refundScript redis now key cap rate refund ttl).2 =
      persist redis key (refundScript redis now key cap rate refund ttl).1 now ttl := rfl
  rw [written, tokens, get?_persist, if_pos rfl]
  refine .written rfl (le_min pos (add_nonneg nonneg given)) ?_ ?_
  · rw [← refill_eq_available, ← refilled]
    refine le_min ?_ ?_
    · linarith [min_le_left cap (level + refund)]
    · linarith [min_le_right cap (level + refund)]
  · exact fun _ => min_le_left _ _

/-! ## One call on the buckets of a client -/

def requestShare (call : LimiterCall) : Rat :=
  match call.action with
  | .allow _ => 1
  | .refund _ => 0

def tokenShare (call : LimiterCall) : Rat :=
  match call.action with
  | .allow tokenCost => tokenCost
  | .refund tokens => -tokens

/-- A request costs something.  The proxy passes a `uint32` on. -/
def LimiterCall.proper (call : LimiterCall) : Prop :=
  match call.action with
  | .allow tokenCost => 0 ≤ tokenCost
  | .refund _ => True

theorem validate_iff (cfg : RateLimitConfig) :
    cfg.validate = .ok () ↔ 0 < cfg.requestsPerMinute ∧ 0 < cfg.tokensPerMinute ∧ 1 ≤ cfg.requestBurst ∧
      1 ≤ cfg.tokenBurst ∧ 0 < cfg.idleTTL := by
  unfold RateLimitConfig.validate
  split_ifs <;> simp_all

section Serve

variable {cfg : RateLimitConfig} (valid : cfg.validate = .ok ())
include valid

theorem moves_rateLimitScript {client : Text} (now : Rat) (cost : Rat)
    (requests : Nonneg (redis.get? (reqKey client))) (tokens : Nonneg (redis.get? (tokKey client))) :
    let ran := rateLimitScript redis now (reqKey client) (tokKey client) cfg.requestBurst (cfg.requestsPerMinute / 60)
      cfg.tokenBurst (cfg.tokensPerMinute / 60) cost cfg.ttl
    Moves cfg.requestBurst (cfg.requestsPerMinute / 60) now True (redis.get? (reqKey client))
        (ran.2.get? (reqKey client)) (if ran.1.allowed then 1 else 0) ∧
      Moves cfg.tokenBurst (cfg.tokensPerMinute / 60) now (0 ≤ cost) (redis.get? (tokKey client))
        (ran.2.get? (tokKey client)) (if ran.1.allowed then cost else 0) := by
  obtain ⟨_, _, requestBurst, tokenBurst, -⟩ := (validate_iff cfg).mp valid
  unfold rateLimitScript
  by_cases oversized : cost > cfg.tokenBurst
  · simp only [oversized, if_true]
    exact ⟨.untouched _, .untouched _⟩
  · simp only [oversized, if_false, get?_persist, reqKey_ne_tokKey, if_true]
    by_cases granted : 1 ≤ refill redis (reqKey client) cfg.requestBurst (cfg.requestsPerMinute / 60) now ∧
        cost ≤ refill redis (tokKey client) cfg.tokenBurst (cfg.tokensPerMinute / 60) now
    · simp only [granted.1, granted.2, decide_true, Bool.and_self, if_true]
      exact ⟨moves_persist granted.1 fun _ => zero_le_one, moves_persist granted.2 id⟩
    · have denied : (decide (1 ≤ refill redis (reqKey client) cfg.requestBurst (cfg.requestsPerMinute / 60) now) &&
          decide (cost ≤ refill redis (tokKey client) cfg.tokenBurst (cfg.tokensPerMinute / 60) now)) = false := by
        rw [← Bool.not_eq_true, Bool.and_eq_true, decide_eq_true_eq, decide_eq_true_eq]
        exact granted
      -- Denied, it leaves both refills behind.
      simp only [denied, Bool.false_eq_true, if_false]
      exact ⟨moves_kept (refill_nonneg (le_trans zero_le_one requestBurst) (by positivity) requests now),
        moves_kept (refill_nonneg (le_trans zero_le_one tokenBurst) (by positivity) tokens now)⟩

omit valid in
theorem get?_rateLimitScript_of_ne {redis : Redis} {client other : Text} (differs : other ≠ client) (now cost : Rat) :
    let ran := rateLimitScript redis now (reqKey client) (tokKey client) cfg.requestBurst (cfg.requestsPerMinute / 60)
      cfg.tokenBurst (cfg.tokensPerMinute / 60) cost cfg.ttl
    ran.2.get? (reqKey other) = redis.get? (reqKey other) ∧ ran.2.get? (tokKey other) = redis.get? (tokKey other) := by
  unfold rateLimitScript
  by_cases oversized : cost > cfg.tokenBurst
  · simp only [oversized, if_true, and_self]
  · simp only [oversized, if_false, get?_persist, reqKey_ne_tokKey, (reqKey_ne_tokKey _ _).symm,
      reqKey_injective.ne differs, tokKey_injective.ne differs, and_self]

omit valid in
theorem serve_allow (redis : Redis) (now : Rat) (client : Text) (tokenCost : Int) :
    serve cfg redis ⟨now, client, .allow tokenCost, true⟩ =
      let ran := rateLimitScript redis now (reqKey client) (tokKey client) cfg.requestBurst
        (cfg.requestsPerMinute / 60) cfg.tokenBurst (cfg.tokensPerMinute / 60) tokenCost cfg.ttl
      (ran.1.allowed, ran.2) := by
  simp [serve, allow, parseVerdict]

omit valid in
theorem serve_unreachable (redis : Redis) (now : Rat) (client : Text) (action : LimiterAction) :
    serve cfg redis ⟨now, client, action, false⟩ = (false, redis) := by
  cases action with
  | allow => cases failOpen : cfg.failOpen <;> simp [serve, allow, failOpen]
  | refund tokens => by_cases given : tokens ≤ 0 <;> simp [serve, refund, given]

omit valid in
theorem serve_refund (redis : Redis) (now : Rat) (client : Text) (tokens : Int) :
    serve cfg redis ⟨now, client, .refund tokens, true⟩ =
      if 0 < tokens then
        (true, (refundScript redis now (tokKey client) cfg.tokenBurst (cfg.tokensPerMinute / 60) tokens cfg.ttl).2)
      else (false, redis) := by
  by_cases given : 0 < tokens
  · simp [serve, refund, given, not_le.mpr given]
  · simp [serve, refund, given, not_lt.mp given]

omit valid in
theorem get?_refundScript_of_ne {other : Text} (differs : other ≠ key) (now cap rate given ttl : Rat) :
    (refundScript redis now key cap rate given ttl).2.get? other = redis.get? other := by
  simp only [refundScript, get?_persist, differs, if_false]

theorem serve_moves (redis : Redis) (call : LimiterCall) (client : Text)
    (requests : Nonneg (redis.get? (reqKey client))) (tokens : Nonneg (redis.get? (tokKey client))) :
    Moves cfg.requestBurst (cfg.requestsPerMinute / 60) call.now True (redis.get? (reqKey client))
        ((serve cfg redis call).2.get? (reqKey client))
        (if (serve cfg redis call).1 ∧ call.client = client then requestShare call else 0) ∧
      Moves cfg.tokenBurst (cfg.tokensPerMinute / 60) call.now (LimiterCall.proper call) (redis.get? (tokKey client))
        ((serve cfg redis call).2.get? (tokKey client))
        (if (serve cfg redis call).1 ∧ call.client = client then tokenShare call else 0) := by
  obtain ⟨-, _, -, tokenBurst, -⟩ := (validate_iff cfg).mp valid
  obtain ⟨now, caller, action, reachable⟩ := call
  cases reachable with
  | false =>
    simp only [serve_unreachable, Bool.false_eq_true, false_and, if_false]
    exact ⟨.untouched _, .untouched _⟩
  | true =>
    cases action with
    | allow tokenCost =>
      rw [serve_allow]
      by_cases same : caller = client
      · subst same
        simp only [and_true, requestShare, tokenShare]
        have ran := moves_rateLimitScript valid now tokenCost requests tokens
        simpa only [LimiterCall.proper, Int.cast_nonneg_iff] using ran
      · have frame := @get?_rateLimitScript_of_ne cfg redis caller client (Ne.symm same) now tokenCost
        simp only [same, and_false, if_false, frame.1, frame.2]
        exact ⟨.untouched _, .untouched _⟩
    | refund returned =>
      rw [serve_refund]
      by_cases given : 0 < returned
      · have amount : (0 : Rat) ≤ returned := by exact_mod_cast given.le
        simp only [if_pos given, true_and]
        rw [get?_refundScript_of_ne (reqKey_ne_tokKey client caller)]
        by_cases same : caller = client
        · subst same
          simp only [if_true, requestShare, tokenShare]
          exact ⟨.untouched _,
            moves_refundScript (le_trans zero_le_one tokenBurst) (by positivity) tokens now cfg.ttl amount⟩
        · rw [get?_refundScript_of_ne (tokKey_injective.ne (Ne.symm same))]
          simp only [same, if_false]
          exact ⟨.untouched _, .untouched _⟩
      · simp only [if_neg given, Bool.false_eq_true, false_and, if_false]
        exact ⟨.untouched _, .untouched _⟩

end Serve

/-! ## Whole runs -/

def HeldAt (time : Rat) (bucket : Option StoredBucket) : Prop :=
  ∀ stored, bucket = some stored → 0 ≤ stored.tokens ∧ stored.ts ≤ time

theorem HeldAt.nonneg {bucket : Option StoredBucket} (holds : HeldAt time bucket) : Nonneg bucket :=
  fun stored present => (holds stored present).1

theorem Moves.holds {proper : Prop} (moves : Moves cap rate now proper before after amount) (later : time ≤ now)
    (held : HeldAt time before) : HeldAt now after := by
  cases moves with
  | untouched =>
    intro stored present
    obtain ⟨nonneg, earlier⟩ := held stored present
    exact ⟨nonneg, earlier.trans later⟩
  | written written nonneg =>
    rintro stored ⟨⟩
    exact ⟨nonneg, written.le⟩

def Leveled (cap : Rat) (proper : Prop) (bucket : Option StoredBucket) : Prop :=
  ∀ stored, bucket = some stored → 0 ≤ stored.tokens ∧ (proper → stored.tokens ≤ cap)

theorem Leveled.nonneg {proper : Prop} {bucket : Option StoredBucket} (leveled : Leveled cap proper bucket) :
    Nonneg bucket := fun stored present => (leveled stored present).1

theorem Moves.leveled {proper called : Prop} (moves : Moves cap rate now called before after amount)
    (well : proper → called) (leveled : Leveled cap proper before) : Leveled cap proper after := by
  cases moves with
  | untouched => exact leveled
  | written _ nonneg _ bounded =>
    rintro stored ⟨⟩
    exact ⟨nonneg, fun holds => bounded (well holds)⟩

theorem Moves.draws {proper : Prop} (moves : Moves cap rate now proper before after amount) (later : time ≤ now)
    (held : HeldAt time before) {rest : List (Rat × Rat)}
    (drawn : Draws cap rate (after.map StoredBucket.bucket) rest) :
    ∃ draws, Draws cap rate (before.map StoredBucket.bucket) draws ∧ ∀ start stop,
      takenWithin start stop draws =
        (if start ≤ now ∧ now ≤ stop then amount else 0) + takenWithin start stop rest := by
  cases moves with
  | untouched =>
    refine ⟨rest, drawn, ?_⟩
    intro start stop
    rw [ite_self, zero_add]
  | @written stored _ written nonneg paid =>
    subst written
    refine ⟨(stored.ts, amount) :: rest, ?_, fun start stop => takenWithin_cons start stop _ rest⟩
    refine Draws.draw ?_ nonneg paid drawn
    intro earlier same
    obtain ⟨known, present, rfl⟩ := Option.map_eq_some_iff.mp same
    exact (held known present).2.trans later

def sharesWithin (share : LimiterCall → Rat) (client : Text) (start stop : Rat) (calls : List LimiterCall) : Rat :=
  ((calls.filter fun call => call.client = client ∧ start ≤ call.now ∧ call.now ≤ stop).map share).sum

theorem sharesWithin_cons (share : LimiterCall → Rat) (client : Text) (start stop : Rat) (call : LimiterCall)
    (calls : List LimiterCall) :
    sharesWithin share client start stop (call :: calls) =
      (if call.client = client ∧ start ≤ call.now ∧ call.now ≤ stop then share call else 0) +
        sharesWithin share client start stop calls := by
  unfold sharesWithin
  rw [filter_cons]
  split
  · next inside => rw [if_pos (of_decide_eq_true inside), map_cons, sum_cons]
  · next outside => rw [if_neg (fun inside => outside (decide_eq_true inside)), zero_add]

theorem sharesWithin_granted (cfg : RateLimitConfig) (redis : Redis) (share : LimiterCall → Rat) (client : Text)
    (start stop : Rat) (call : LimiterCall) (calls : List LimiterCall) :
    sharesWithin share client start stop (granted cfg redis (call :: calls)) =
      (if start ≤ call.now ∧ call.now ≤ stop then
        if (serve cfg redis call).1 ∧ call.client = client then share call else 0 else 0) +
        sharesWithin share client start stop (granted cfg (serve cfg redis call).2 calls) := by
  simp only [granted]
  by_cases taken : (serve cfg redis call).1 = true
  · rw [if_pos taken, sharesWithin_cons]
    congr 1
    simp only [taken, true_and]
    split_ifs <;> tauto
  · simp [taken]

section Runs

variable {cfg : RateLimitConfig} (valid : cfg.validate = .ok ()) (client : Text)
include valid

theorem exists_draws {calls : List LimiterCall} (ordered : calls.Pairwise fun first second => first.now ≤ second.now)
    {time : Rat} (later : ∀ call ∈ calls, time ≤ call.now) {redis : Redis}
    (requests : HeldAt time (redis.get? (reqKey client))) (tokens : HeldAt time (redis.get? (tokKey client))) :
    (∃ draws, Draws cfg.requestBurst (cfg.requestsPerMinute / 60)
        ((redis.get? (reqKey client)).map StoredBucket.bucket) draws ∧ ∀ start stop,
          takenWithin start stop draws = sharesWithin requestShare client start stop (granted cfg redis calls)) ∧
      ∃ draws, Draws cfg.tokenBurst (cfg.tokensPerMinute / 60)
        ((redis.get? (tokKey client)).map StoredBucket.bucket) draws ∧ ∀ start stop,
          takenWithin start stop draws = sharesWithin tokenShare client start stop (granted cfg redis calls) := by
  induction calls generalizing redis time with
  | nil => exact ⟨⟨[], .done _, fun _ _ => rfl⟩, [], .done _, fun _ _ => rfl⟩
  | cons call _ ih =>
    obtain ⟨first, orderedRest⟩ := pairwise_cons.mp ordered
    have onward := later call mem_cons_self
    obtain ⟨requestMove, tokenMove⟩ := serve_moves valid redis call client requests.nonneg tokens.nonneg
    obtain ⟨⟨_, requestDrawn, requestSums⟩, _, tokenDrawn, tokenSums⟩ :=
      ih orderedRest first (requestMove.holds onward requests) (tokenMove.holds onward tokens)
    simp only [sharesWithin_granted, ← requestSums, ← tokenSums]
    exact ⟨requestMove.draws onward requests requestDrawn, tokenMove.draws onward tokens tokenDrawn⟩

theorem serveAll_leveled {calls : List LimiterCall} {proper : Prop}
    (well : proper → ∀ call ∈ calls, LimiterCall.proper call) {redis : Redis}
    (requests : Leveled cfg.requestBurst True (redis.get? (reqKey client)))
    (tokens : Leveled cfg.tokenBurst proper (redis.get? (tokKey client))) :
    Leveled cfg.requestBurst True ((serveAll cfg redis calls).get? (reqKey client)) ∧
      Leveled cfg.tokenBurst proper ((serveAll cfg redis calls).get? (tokKey client)) := by
  induction calls generalizing redis with
  | nil => exact ⟨requests, tokens⟩
  | cons call _ ih =>
    obtain ⟨requestMove, tokenMove⟩ := serve_moves valid redis call client requests.nonneg tokens.nonneg
    exact ih (fun holds other mem => well holds other (mem_cons_of_mem _ mem))
      (requestMove.leveled id requests) (tokenMove.leveled (fun holds => well holds call mem_cons_self) tokens)

end Runs

/-- Where nothing is stored yet, any time up to the first call will do. -/
theorem exists_earlier {calls : List LimiterCall} (ordered : calls.Pairwise fun first second => first.now ≤ second.now) :
    ∃ time, ∀ call ∈ calls, time ≤ call.now := by
  cases calls with
  | nil => exact ⟨0, nofun⟩
  | cons call => exact ⟨call.now, List.forall_mem_cons.mpr ⟨le_refl _, (List.pairwise_cons.mp ordered).1⟩⟩

/-! ## The limits -/

/-- The costs of a client's requests that were allowed from `start` to `stop`. -/
def allowedCosts (client : Text) (start stop : Rat) (calls : List LimiterCall) : List Int :=
  (calls.filter fun call => call.client = client ∧ start ≤ call.now ∧ call.now ≤ stop).filterMap fun call =>
    match call.action with
    | .allow tokenCost => some tokenCost
    | .refund _ => none

/-- Its refunds. -/
def refunds (client : Text) (start stop : Rat) (calls : List LimiterCall) : List Int :=
  (calls.filter fun call => call.client = client ∧ start ≤ call.now ∧ call.now ≤ stop).filterMap fun call =>
    match call.action with
    | .allow _ => none
    | .refund tokens => some tokens

theorem length_allowedCosts (client : Text) (start stop : Rat) (calls : List LimiterCall) :
    ((allowedCosts client start stop calls).length : Rat) = sharesWithin requestShare client start stop calls := by
  unfold allowedCosts sharesWithin
  induction calls.filter fun call => call.client = client ∧ start ≤ call.now ∧ call.now ≤ stop with
  | nil => rfl
  | cons call _ ih =>
    rw [filterMap_cons, map_cons, sum_cons, ← ih, requestShare]
    cases call.action with
    | allow =>
      rw [length_cons]
      push_cast
      ring
    | refund => rw [zero_add]

theorem sum_allowedCosts_sub_refunds (client : Text) (start stop : Rat) (calls : List LimiterCall) :
    (((allowedCosts client start stop calls).sum - (refunds client start stop calls).sum : Int) : Rat) =
      sharesWithin tokenShare client start stop calls := by
  unfold allowedCosts refunds sharesWithin
  induction calls.filter fun call => call.client = client ∧ start ≤ call.now ∧ call.now ≤ stop with
  | nil => simp
  | cons call _ ih =>
    rw [filterMap_cons, filterMap_cons, map_cons, sum_cons, ← ih, tokenShare]
    cases call.action with
    | allow =>
      rw [sum_cons]
      push_cast
      ring
    | refund =>
      rw [sum_cons]
      push_cast
      ring

/-- However the calls of the routers interleave, a client gets no more in any interval than its
bursts and what flows in meanwhile. -/
theorem limits_hold (cfg : RateLimitConfig) (valid : cfg.validate = .ok ()) (calls : List LimiterCall)
    (ordered : calls.Pairwise fun first second => first.now ≤ second.now) (client : Text) {start stop : Rat}
    (interval : start ≤ stop) :
    (∀ stored, (serveAll cfg .empty calls).get? (reqKey client) = some stored →
        0 ≤ stored.tokens ∧ stored.tokens ≤ cfg.requestBurst) ∧
      (∀ stored, (serveAll cfg .empty calls).get? (tokKey client) = some stored →
        0 ≤ stored.tokens ∧ ((∀ call ∈ calls, LimiterCall.proper call) → stored.tokens ≤ cfg.tokenBurst)) ∧
      (∀ now,
        let redis := serveAll cfg .empty calls
        let requests := refill redis (reqKey client) cfg.requestBurst (cfg.requestsPerMinute / 60) now
        let tokens := refill redis (tokKey client) cfg.tokenBurst (cfg.tokensPerMinute / 60) now
        (0 ≤ requests ∧ requests ≤ cfg.requestBurst) ∧ 0 ≤ tokens ∧ tokens ≤ cfg.tokenBurst) ∧
      ((allowedCosts client start stop (granted cfg .empty calls)).length : Rat) ≤
        cfg.requestBurst + cfg.requestsPerMinute / 60 * (stop - start) ∧
      (((allowedCosts client start stop (granted cfg .empty calls)).sum -
          (refunds client start stop (granted cfg .empty calls)).sum : Int) : Rat) ≤
        cfg.tokenBurst + cfg.tokensPerMinute / 60 * (stop - start) := by
  obtain ⟨requestRate, tokenRate, requestBurst, tokenBurst, -⟩ := (validate_iff cfg).mp valid
  obtain ⟨requestLevels, tokenLevels⟩ := @serveAll_leveled cfg valid client calls
    (∀ call ∈ calls, LimiterCall.proper call) id .empty nofun nofun
  obtain ⟨time, later⟩ := exists_earlier ordered
  obtain ⟨⟨requestDraws, requestDrawn, requestSums⟩, tokenDraws, tokenDrawn, tokenSums⟩ :=
    @exists_draws cfg valid client calls ordered time later .empty nofun nofun
  have requestCap : 0 ≤ cfg.requestBurst := le_trans zero_le_one requestBurst
  have tokenCap : 0 ≤ cfg.tokenBurst := le_trans zero_le_one tokenBurst
  refine ⟨?_, tokenLevels, ?_, ?_, ?_⟩
  · intro stored present
    obtain ⟨nonneg, bounded⟩ := requestLevels stored present
    exact ⟨nonneg, bounded trivial⟩
  · intro now
    exact ⟨⟨refill_nonneg requestCap (by positivity) requestLevels.nonneg now, refill_le ..⟩,
      refill_nonneg tokenCap (by positivity) tokenLevels.nonneg now, refill_le ..⟩
  · rw [length_allowedCosts, ← requestSums, mul_comm]
    exact requestDrawn.takenWithin_le requestCap (by positivity) interval
  · rw [sum_allowedCosts_sub_refunds, ← tokenSums, mul_comm]
    exact tokenDrawn.takenWithin_le tokenCap (by positivity) interval

/-- Two routers and a client that asks twice at the same time, with a refund in between. -/
def contested : List LimiterCall :=
  [⟨0, ['c'], .allow 8000, true⟩, ⟨0, ['c'], .allow 8000, true⟩, ⟨1, ['d'], .allow 10, true⟩,
    ⟨1, ['c'], .refund 7000, true⟩, ⟨2, ['c'], .allow 9000, true⟩]

theorem limits_hold_contested :
    ((allowedCosts ['c'] 0 2 (granted defaultRateLimitConfig .empty contested)).length : Rat) ≤ 10 + 60 / 60 * (2 - 0) ∧
      (granted defaultRateLimitConfig .empty contested).length = 4 := by
  refine ⟨?_, by decide +kernel⟩
  exact (limits_hold defaultRateLimitConfig (by decide +kernel) contested (by decide +kernel) ['c']
    (by decide +kernel)).2.2.2.1

/-- A negative cost is granted and fills the bucket past its capacity. -/
theorem negative_cost_overfills :
    defaultRateLimitConfig.validate = .ok () ∧
      ((serveAll defaultRateLimitConfig .empty [⟨0, ['c'], .allow (-1), true⟩]).get? (tokKey ['c'])).map
          StoredBucket.tokens = some 10001 ∧
      defaultRateLimitConfig.tokenBurst = 10000 := by
  decide +kernel

end Nanoserve.Verified
