import Mathlib.Algebra.Order.Archimedean.Basic
import Nanoserve.Verified.RateLimit

/-! # Idle buckets

A bucket that Redis has deleted reads as a full one.
-/

namespace Nanoserve.Verified

open Lib Router RateLimiter Dict List
open Model (Text)

variable {next tokens : Rat} {key : Text} {calls : List LimiterCall} {redis : Redis}
variable {cap rate kept now : Rat} {client : Text} {cfg : RateLimitConfig}

/-- How long a bucket is kept after its last use, in seconds. -/
def keptFor (cfg : RateLimitConfig) : Rat := (⌈cfg.ttl * 1000⌉ : Int) / 1000

/-- Both buckets fill up while they are kept. -/
def RefillsInTime (cfg : RateLimitConfig) : Prop :=
  cfg.requestBurst ≤ keptFor cfg * (cfg.requestsPerMinute / 60) ∧ cfg.tokenBurst ≤ keptFor cfg * (cfg.tokensPerMinute / 60)

instance decidableRefillsInTime (cfg : RateLimitConfig) : Decidable (RefillsInTime cfg) :=
  inferInstanceAs (Decidable (_ ∧ _))

structure Tidy (kept now : Rat) (stored : StoredBucket) : Prop where
  nonneg : 0 ≤ stored.tokens
  past : stored.ts ≤ now
  expires : stored.expiresAt = stored.ts + kept

structure Alike (cap rate kept now : Rat) (first second : Option StoredBucket) : Prop where
  tidy : ∀ stored ∈ first, Tidy kept now stored
  same : second = first ∨ second = none ∧ ∀ stored ∈ first, cap ≤ stored.tokens + (now - stored.ts) * rate

namespace Alike

variable {first second : Option StoredBucket}

theorem later (fills : 0 ≤ rate) (alike : Alike cap rate kept now first second) (onward : now ≤ next) :
    Alike cap rate kept next first second := by
  constructor
  · intro stored present
    have tidy := alike.tidy stored present
    exact ⟨tidy.nonneg, tidy.past.trans onward, tidy.expires⟩
  · cases alike.same with
    | inl same => exact .inl same
    | inr full =>
      refine .inr ⟨full.1, ?_⟩
      intro stored present
      calc cap ≤ stored.tokens + (now - stored.ts) * rate := full.2 stored present
        _ ≤ stored.tokens + (next - stored.ts) * rate := by gcongr

theorem expire (fills : 0 ≤ rate) (inTime : cap ≤ kept * rate) (alike : Alike cap rate kept now first second) :
    Alike cap rate kept now first (second.filter fun stored => decide (now ≤ stored.expiresAt)) := by
  refine ⟨alike.tidy, ?_⟩
  cases alike.same with
  | inr full => exact .inr ⟨by rw [full.1, Option.filter_none], full.2⟩
  | inl same =>
    subst same
    cases second with
    | none => exact .inl rfl
    | some stored =>
      by_cases isKept : now ≤ stored.expiresAt
      · grind
      · right
        refine ⟨by simp [Option.filter, isKept], ?_⟩
        intro other isStored
        cases isStored
        have tidy := alike.tidy stored rfl
        have idle : kept ≤ now - stored.ts := by linarith [tidy.expires]
        calc cap ≤ kept * rate := inTime
          _ ≤ (now - stored.ts) * rate := by gcongr
          _ ≤ stored.tokens + (now - stored.ts) * rate := le_add_of_nonneg_left tidy.nonneg

theorem available_eq (alike : Alike cap rate kept now first second) :
    available cap rate (first.map StoredBucket.bucket) now = available cap rate (second.map StoredBucket.bucket) now := by
  cases alike.same with
  | inl same => rw [same]
  | inr full =>
    obtain ⟨expired, isFull⟩ := full
    subst expired
    cases first with
    | none => rfl
    | some stored =>
      have past := (alike.tidy stored rfl).past
      have level := isFull stored rfl
      show min cap (stored.tokens + max 0 (now - stored.ts) * rate) = cap
      rw [max_eq_right (sub_nonneg.mpr past), min_eq_left level]

end Alike

inductive Together (kept now : Rat) (first second : Option StoredBucket) :
    Option StoredBucket → Option StoredBucket → Prop
  | untouched : Together kept now first second first second
  | written {stored : StoredBucket} (tidy : Tidy kept now stored) :
    Together kept now first second (some stored) (some stored)

theorem Together.alike {first second firstNext secondNext : Option StoredBucket}
    (together : Together kept now first second firstNext secondNext) (alike : Alike cap rate kept now first second) :
    Alike cap rate kept now firstNext secondNext := by
  cases together with
  | untouched => exact alike
  | written tidy =>
    refine ⟨?_, .inl rfl⟩
    intro stored isStored
    cases isStored
    exact tidy

theorem Together.trans {kept now : Rat} {first second firstMiddle secondMiddle firstLast secondLast : Option StoredBucket}
    (one : Together kept now first second firstMiddle secondMiddle)
    (two : Together kept now firstMiddle secondMiddle firstLast secondLast) :
    Together kept now first second firstLast secondLast := by
  cases two with
  | untouched => exact one
  | written tidy => exact .written tidy

section Scripts

variable {first second : Redis}

theorem persist_together (first second : Redis) (key : Text) (nonneg : 0 ≤ tokens) (other : Text) :
    Together (keptFor cfg) now (first.get? other) (second.get? other)
      ((persist first key tokens now cfg.ttl).get? other) ((persist second key tokens now cfg.ttl).get? other) := by
  rw [get?_persist, get?_persist]
  by_cases same : other = key
  · rw [if_pos same, if_pos same]
    exact .written ⟨nonneg, le_refl _, rfl⟩
  · rw [if_neg same, if_neg same]
    exact .untouched

theorem refill_eq (alike : Alike cap rate (keptFor cfg) now (first.get? key) (second.get? key)) :
    refill first key cap rate now = refill second key cap rate now := by
  rw [refill_eq_available, refill_eq_available, alike.available_eq]

theorem Alike.nonneg {bucket other : Option StoredBucket} (alike : Alike cap rate kept now bucket other) :
    Nonneg bucket :=
  fun stored present => (alike.tidy stored present).nonneg

theorem rateLimitScript_together (valid : cfg.validate = .ok ()) (cost : Rat)
    (requests : Alike cfg.requestBurst (cfg.requestsPerMinute / 60) (keptFor cfg) now (first.get? (reqKey client))
      (second.get? (reqKey client)))
    (tokens : Alike cfg.tokenBurst (cfg.tokensPerMinute / 60) (keptFor cfg) now (first.get? (tokKey client))
      (second.get? (tokKey client))) :
    let script (redis : Redis) := rateLimitScript redis now (reqKey client) (tokKey client) cfg.requestBurst
      (cfg.requestsPerMinute / 60) cfg.tokenBurst (cfg.tokensPerMinute / 60) cost cfg.ttl
    (script first).1 = (script second).1 ∧ ∀ key, Together (keptFor cfg) now (first.get? key) (second.get? key)
      ((script first).2.get? key) ((script second).2.get? key) := by
  obtain ⟨_, _, requestBurst, tokenBurst, -⟩ := (validate_iff cfg).mp valid
  have requestLevel : 0 ≤ refill first (reqKey client) cfg.requestBurst (cfg.requestsPerMinute / 60) now :=
    refill_nonneg (le_trans zero_le_one requestBurst) (by positivity) requests.nonneg now
  have tokenLevel : 0 ≤ refill first (tokKey client) cfg.tokenBurst (cfg.tokensPerMinute / 60) now :=
    refill_nonneg (le_trans zero_le_one tokenBurst) (by positivity) tokens.nonneg now
  simp only [rateLimitScript, ← refill_eq requests, ← refill_eq tokens]
  by_cases oversized : cost > cfg.tokenBurst
  · simp only [if_pos oversized]
    exact ⟨trivial, fun key => .untouched⟩
  · simp only [if_neg oversized, true_and]
    intro key
    refine (persist_together first second (reqKey client) ?_ key).trans (persist_together _ _ (tokKey client) ?_ key)
    -- What is taken out was there.
    · split
      case isTrue allowed =>
        simp only [Bool.and_eq_true, decide_eq_true_eq] at allowed
        linarith
      case isFalse => exact requestLevel
    · split
      case isTrue allowed =>
        simp only [Bool.and_eq_true, decide_eq_true_eq] at allowed
        linarith
      case isFalse => exact tokenLevel

theorem refundScript_eq {given : Rat} (nonneg : 0 ≤ given)
    (alike : Alike cap rate (keptFor cfg) now (first.get? key) (second.get? key)) :
    (refundScript first now key cap rate given cfg.ttl).1 = (refundScript second now key cap rate given cfg.ttl).1 := by
  simp only [refundScript, elapsed_eq_max, clamp_eq_min]
  cases alike.same with
  | inl same => rw [same]
  | inr full =>
    rw [full.1]
    cases present : first.get? key with
    | none => rfl
    | some stored =>
      have past := (alike.tidy stored present).past
      have level := full.2 stored present
      -- Both are full with or without the refund.
      simp only [sub_self, max_self, zero_mul, add_zero, max_eq_right (sub_nonneg.mpr past)]
      rw [min_eq_left (le_add_of_nonneg_right nonneg), min_eq_left (le_add_of_le_of_nonneg level nonneg)]

theorem refundScript_together {given : Rat} (pos : 0 ≤ cap) (fills : 0 ≤ rate) (nonneg : 0 ≤ given)
    (alike : Alike cap rate (keptFor cfg) now (first.get? key) (second.get? key)) (other : Text) :
    Together (keptFor cfg) now (first.get? other) (second.get? other)
      ((refundScript first now key cap rate given cfg.ttl).2.get? other)
      ((refundScript second now key cap rate given cfg.ttl).2.get? other) := by
  obtain ⟨_, levelNonneg, -, tokens⟩ := refundScript_tokens pos fills alike.nonneg now given cfg.ttl
  have written : ∀ redis, (refundScript redis now key cap rate given cfg.ttl).2 =
      persist redis key (refundScript redis now key cap rate given cfg.ttl).1 now cfg.ttl := fun _ => rfl
  rw [written, written, ← refundScript_eq nonneg alike, tokens]
  exact persist_together first second key (le_min pos (add_nonneg levelNonneg nonneg)) other

end Scripts

def Replicates (cfg : RateLimitConfig) (now : Rat) (first second : Redis) : Prop :=
  ∀ client, Alike cfg.requestBurst (cfg.requestsPerMinute / 60) (keptFor cfg) now (first.get? (reqKey client))
      (second.get? (reqKey client)) ∧
    Alike cfg.tokenBurst (cfg.tokensPerMinute / 60) (keptFor cfg) now (first.get? (tokKey client))
      (second.get? (tokKey client))

namespace Replicates

variable {first second : Redis}

theorem nothing (cfg : RateLimitConfig) (now : Rat) : Replicates cfg now .empty .empty := by
  intro client
  constructor
  · exact ⟨fun stored present => (by cases present), .inl rfl⟩
  · exact ⟨fun stored present => (by cases present), .inl rfl⟩

theorem later (valid : cfg.validate = .ok ()) (replicates : Replicates cfg now first second) (onward : now ≤ next) :
    Replicates cfg next first second := by
  obtain ⟨_, _, -⟩ := (validate_iff cfg).mp valid
  intro client
  exact ⟨(replicates client).1.later (by positivity) onward, (replicates client).2.later (by positivity) onward⟩

theorem expire (valid : cfg.validate = .ok ()) (inTime : RefillsInTime cfg) (replicates : Replicates cfg now first second) :
    Replicates cfg now first (expire second now) := by
  obtain ⟨_, _, -⟩ := (validate_iff cfg).mp valid
  intro client
  simp only [RateLimiter.expire, get?_filter]
  exact ⟨(replicates client).1.expire (by positivity) inTime.1, (replicates client).2.expire (by positivity) inTime.2⟩

theorem together (replicates : Replicates cfg now first second) {firstNext secondNext : Redis}
    (both : ∀ key, Together (keptFor cfg) now (first.get? key) (second.get? key) (firstNext.get? key) (secondNext.get? key)) :
    Replicates cfg now firstNext secondNext := by
  intro client
  exact ⟨(both _).alike (replicates client).1, (both _).alike (replicates client).2⟩

theorem respond (valid : cfg.validate = .ok ()) (call : LimiterCall) (replicates : Replicates cfg call.now first second) :
    (respond cfg first call).1 = (respond cfg second call).1 ∧
      Replicates cfg call.now (RateLimiter.respond cfg first call).2 (RateLimiter.respond cfg second call).2 := by
  obtain ⟨_, _, _, tokenBurst, -⟩ := (validate_iff cfg).mp valid
  obtain ⟨_, client, action, reachable⟩ := call
  cases action with
  | allow tokenCost =>
    cases reachable with
    | true =>
      obtain ⟨reply, both⟩ := rateLimitScript_together valid tokenCost (replicates client).1 (replicates client).2
      simp only [RateLimiter.respond, allow, if_true, reply, true_and]
      exact replicates.together both
    | false =>
      by_cases failOpen : cfg.failOpen = true
      · simp only [RateLimiter.respond, allow, failOpen, if_true, Bool.false_eq_true, if_false, true_and]
        exact replicates
      · simp only [RateLimiter.respond, allow, failOpen, Bool.false_eq_true, if_false, true_and]
        exact replicates
  | refund tokens =>
    by_cases given : tokens ≤ 0
    · simp only [RateLimiter.respond, RateLimiter.refund, if_pos given, true_and]
      exact replicates
    · cases reachable with
      | false =>
        simp only [RateLimiter.respond, RateLimiter.refund, if_neg given, Bool.false_eq_true, if_false, true_and]
        exact replicates
      | true =>
        have amount : (0 : Rat) ≤ tokens := by exact_mod_cast (not_le.mp given).le
        simp only [RateLimiter.respond, RateLimiter.refund, if_neg given, if_true, true_and]
        apply replicates.together
        exact refundScript_together (le_trans zero_le_one tokenBurst) (by positivity) amount (replicates client).2

end Replicates

theorem respondAll_eq (valid : cfg.validate = .ok ()) (inTime : RefillsInTime cfg)
    (ordered : calls.Pairwise fun first second => first.now ≤ second.now) {time : Rat}
    (later : ∀ call ∈ calls, time ≤ call.now) {first second : Redis} (replicates : Replicates cfg time first second) :
    (respondAll cfg true second calls).1 = (respondAll cfg false first calls).1 := by
  induction calls generalizing first second time with
  | nil => rfl
  | cons call _ ih =>
    obtain ⟨onward, orderedRest⟩ := pairwise_cons.mp ordered
    have now := (replicates.later valid (later call mem_cons_self)).expire valid inTime
    obtain ⟨answer, next⟩ := now.respond valid call
    simp only [respondAll, present, if_true, Bool.false_eq_true, if_false, answer]
    rw [ih orderedRest onward next]

/-! ## Waiting for the deletion -/

/-- The request went through. -/
def admitted : Except LimiterError (Option Verdict) → Bool
  | .ok (some verdict) => verdict.allowed
  | .ok none | .error _ => false

def rounds (client : Text) (cost : Int) (count : Nat) (period : Rat) : Rat → Nat → List LimiterCall
  | _, 0 => []
  | now, more + 1 =>
    replicate count ⟨now, client, .allow cost, true⟩ ++ rounds client cost count period (now + period) more

section Rounds

variable {cost : Int} {count : Nat} {period : Rat}

theorem length_rounds (now : Rat) (more : Nat) : (rounds client cost count period now more).length = more * count := by
  induction more generalizing now with
  | zero => simp [rounds]
  | succ _ ih =>
    rw [rounds, length_append, length_replicate, ih]
    ring

theorem mem_rounds (pauses : 0 ≤ period) {more : Nat} {call : LimiterCall}
    (mem : call ∈ rounds client cost count period now more) :
    now ≤ call.now ∧ call.now ≤ now + more * period ∧ call.client = client ∧ call.action = .allow cost ∧
      call.reachable = true := by
  induction more generalizing now with
  | zero => cases mem
  | succ more ih =>
    have onward : 0 ≤ (more : Rat) * period := by positivity
    rw [Nat.cast_succ]
    cases mem_append.mp mem with
    | inl first =>
      obtain rfl := eq_of_mem_replicate first
      refine ⟨le_refl _, ?_, rfl, rfl, rfl⟩
      show now ≤ now + (more + 1) * period
      linarith
    | inr later =>
      obtain ⟨_, _, same⟩ := ih later
      exact ⟨by linarith, by linarith, same⟩

theorem ordered_rounds (pauses : 0 ≤ period) (now : Rat) (more : Nat) :
    (rounds client cost count period now more).Pairwise fun first second => first.now ≤ second.now := by
  induction more generalizing now with
  | zero => exact List.Pairwise.nil
  | succ _ ih =>
    rw [rounds, pairwise_append]
    refine ⟨pairwise_replicate.mpr (.inr (le_refl _)), ih _, ?_⟩
    intro first isFirst second isSecond
    obtain rfl := eq_of_mem_replicate isFirst
    have after := (mem_rounds pauses isSecond).1
    linarith

theorem respondAll_append (expiring : Bool) (redis : Redis) (first second : List LimiterCall) :
    respondAll cfg expiring redis (first ++ second) =
      ((respondAll cfg expiring redis first).1 ++ (respondAll cfg expiring (respondAll cfg expiring redis first).2 second).1,
        (respondAll cfg expiring (respondAll cfg expiring redis first).2 second).2) := by
  induction first generalizing redis with
  | nil => rfl
  | cons _ _ ih => simp only [cons_append, respondAll, ih]

theorem respond_admits {requests : Rat}
    (requestLevel : refill redis (reqKey client) cfg.requestBurst (cfg.requestsPerMinute / 60) now = requests)
    (tokenLevel : refill redis (tokKey client) cfg.tokenBurst (cfg.tokensPerMinute / 60) now = tokens)
    (enough : 1 ≤ requests) (affords : cost ≤ tokens) :
    admitted (respond cfg redis ⟨now, client, .allow cost, true⟩).1 = true ∧
      (respond cfg redis ⟨now, client, .allow cost, true⟩).2.get? (reqKey client) =
        some ⟨requests - 1, now, now + keptFor cfg⟩ ∧
      (respond cfg redis ⟨now, client, .allow cost, true⟩).2.get? (tokKey client) =
        some ⟨tokens - cost, now, now + keptFor cfg⟩ := by
  have upTo : tokens ≤ cfg.tokenBurst := tokenLevel ▸ refill_le ..
  have fits : ¬(cost : Rat) > cfg.tokenBurst := not_lt.mpr (affords.trans upTo)
  simp only [respond, allow, if_true, rateLimitScript, if_neg fits, requestLevel, tokenLevel, enough, affords, decide_true,
    Bool.and_self, get?_persist, reqKey_ne_tokKey, if_false]
  exact ⟨rfl, rfl, rfl⟩

theorem keptFor_nonneg (valid : cfg.validate = .ok ()) : 0 ≤ keptFor cfg := by
  obtain ⟨-, -, -, -, _⟩ := (validate_iff cfg).mp valid
  have ttl : 0 ≤ cfg.ttl * 1000 := by
    unfold RateLimitConfig.ttl
    positivity
  unfold keptFor
  positivity

theorem refill_just_written (valid : cfg.validate = .ok ())
    (written : redis.get? key = some ⟨tokens, now, now + keptFor cfg⟩) (upTo : tokens ≤ cap) :
    refill (expire redis now) key cap rate now = tokens := by
  have kept : now ≤ now + keptFor cfg := le_add_of_nonneg_right (keptFor_nonneg valid)
  rw [refill_eq_available, RateLimiter.expire, get?_filter, written]
  simp [Option.filter, kept, available, StoredBucket.bucket, upTo]

def UsedAt (cfg : RateLimitConfig) (client : Text) (now : Rat) (redis : Redis) : Prop :=
  ∀ key, key = reqKey client ∨ key = tokKey client →
    ∃ tokens, redis.get? key = some ⟨tokens, now, now + keptFor cfg⟩

theorem respondAll_replicate (valid : cfg.validate = .ok ()) (costs : 0 ≤ cost) {requests : Rat}
    (requestLevel : refill (expire redis now) (reqKey client) cfg.requestBurst (cfg.requestsPerMinute / 60) now = requests)
    (tokenLevel : refill (expire redis now) (tokKey client) cfg.tokenBurst (cfg.tokensPerMinute / 60) now = tokens)
    (enough : count ≤ requests) (affords : count * cost ≤ tokens) :
    let ran := respondAll cfg true redis (replicate count ⟨now, client, .allow cost, true⟩)
    (∀ answer ∈ ran.1, admitted answer = true) ∧ (count ≠ 0 → UsedAt cfg client now ran.2) := by
  induction count generalizing redis requests tokens with
  | zero => exact ⟨by simp [respondAll], fun nothing => absurd rfl nothing⟩
  | succ count ih =>
    have price : (0 : Rat) ≤ cost := by exact_mod_cast costs
    have others : 0 ≤ (count : Rat) * cost := by positivity
    rw [Nat.cast_succ] at enough affords
    obtain ⟨through, requestWritten, tokenWritten⟩ :=
      respond_admits requestLevel tokenLevel (by linarith) (by linarith)
    have requestUpTo := requestLevel ▸ refill_le ..
    have tokenUpTo : tokens ≤ cfg.tokenBurst := tokenLevel ▸ refill_le ..
    obtain ⟨throughRest, usedRest⟩ := ih
      (refill_just_written valid requestWritten (by linarith)) (refill_just_written valid tokenWritten (by linarith))
      (by linarith) (by linarith)
    refine ⟨forall_mem_cons.mpr ⟨through, throughRest⟩, ?_⟩
    intro _
    cases count with
    | zero =>
      rintro key (rfl | rfl)
      · exact ⟨_, requestWritten⟩
      · exact ⟨_, tokenWritten⟩
    | succ count => exact usedRest (Nat.succ_ne_zero count)

def GoneBy (client : Text) (now : Rat) (redis : Redis) : Prop :=
  (expire redis now).get? (reqKey client) = none ∧ (expire redis now).get? (tokKey client) = none

theorem UsedAt.goneBy (used : UsedAt cfg client now redis) (later : now + keptFor cfg < next) :
    GoneBy client next redis := by
  constructor
  · obtain ⟨tokens, written⟩ := used _ (.inl rfl)
    rw [RateLimiter.expire, get?_filter, written]
    simp [Option.filter, later]
  · obtain ⟨tokens, written⟩ := used _ (.inr rfl)
    rw [RateLimiter.expire, get?_filter, written]
    simp [Option.filter, later]

theorem rounds_admitted (valid : cfg.validate = .ok ()) (costs : 0 ≤ cost) (some_ : count ≠ 0)
    (enough : count ≤ cfg.requestBurst) (affords : count * cost ≤ cfg.tokenBurst) (pauses : keptFor cfg < period)
    (gone : GoneBy client now redis) (more : Nat) :
    ∀ answer ∈ (respondAll cfg true redis (rounds client cost count period now more)).1, admitted answer = true := by
  induction more generalizing redis now with
  | zero => simp [rounds, respondAll]
  | succ _ ih =>
    have requestLevel : refill (expire redis now) (reqKey client) cfg.requestBurst (cfg.requestsPerMinute / 60) now =
        cfg.requestBurst := by
      rw [refill_eq_available, gone.1]
      rfl
    have tokenLevel : refill (expire redis now) (tokKey client) cfg.tokenBurst (cfg.tokensPerMinute / 60) now =
        cfg.tokenBurst := by
      rw [refill_eq_available, gone.2]
      rfl
    obtain ⟨through, used⟩ := respondAll_replicate valid costs requestLevel tokenLevel enough affords
    rw [rounds, respondAll_append]
    intro answer mem
    cases mem_append.mp mem with
    | inl first => exact through answer first
    | inr later => exact ih ((used some_).goneBy (by linarith)) answer later

theorem serve_eq_respond {call : LimiterCall} (action : call.action = .allow cost) (reachable : call.reachable = true) :
    serve cfg redis call = (admitted (respond cfg redis call).1, (respond cfg redis call).2) := by
  obtain ⟨_, _, _, _⟩ := call
  cases action
  cases reachable
  rw [serve_allow]
  simp [respond, allow, admitted, Except.map, parseVerdict]

theorem granted_of_admitted (requests : ∀ call ∈ calls, call.action = .allow cost ∧ call.reachable = true)
    (through : ∀ answer ∈ (respondAll cfg false redis calls).1, admitted answer = true) :
    granted cfg redis calls = calls := by
  induction calls generalizing redis with
  | nil => rfl
  | cons _ _ ih =>
    obtain ⟨⟨action, reachable⟩, requestsRest⟩ := forall_mem_cons.mp requests
    simp only [respondAll, present, Bool.false_eq_true, if_false, forall_mem_cons] at through
    simp only [granted, serve_eq_respond action reachable, through.1, if_true]
    rw [ih requestsRest through.2]

theorem sharesWithin_const {share : LimiterCall → Rat} {amount start stop : Rat}
    (alike : ∀ call ∈ calls, call.client = client ∧ start ≤ call.now ∧ call.now ≤ stop ∧ share call = amount) :
    sharesWithin share client start stop calls = calls.length * amount := by
  induction calls with
  | nil => simp [sharesWithin]
  | cons _ _ ih =>
    obtain ⟨⟨own, after, upTo, same⟩, alikeRest⟩ := forall_mem_cons.mp alike
    rw [sharesWithin_cons, if_pos ⟨own, after, upTo⟩, ih alikeRest, same, length_cons, Nat.cast_succ]
    ring

theorem rounds_bounded (valid : cfg.validate = .ok ()) (pauses : 0 ≤ period) (more : Nat)
    (through : ∀ answer ∈ (respondAll cfg false .empty (rounds client cost count period 0 more)).1,
      admitted answer = true) :
    (more * count : Rat) ≤ cfg.requestBurst + more * period * (cfg.requestsPerMinute / 60) ∧
      (more * count : Rat) * cost ≤ cfg.tokenBurst + more * period * (cfg.tokensPerMinute / 60) := by
  obtain ⟨_, _, requestBurst, tokenBurst, -⟩ := (validate_iff cfg).mp valid
  have granted := granted_of_admitted (fun call mem => (mem_rounds pauses mem).2.2.2) through
  have later : ∀ call ∈ rounds client cost count period 0 more, (0 : Rat) ≤ call.now := fun call mem =>
    (mem_rounds pauses mem).1
  have nothing : ∀ key, HeldAt 0 ((empty : Redis).get? key) := by
    intro key stored present
    cases present
  obtain ⟨⟨_, requestDrawn, requestSums⟩, _, tokenDrawn, tokenSums⟩ :=
    exists_draws valid client (ordered_rounds pauses 0 more) later (nothing _) (nothing _)
  have span : (0 : Rat) ≤ more * period := by positivity
  have total : ((rounds client cost count period 0 more).length : Rat) = more * count := by
    rw [length_rounds]
    push_cast
    rfl
  constructor
  · have bound := requestDrawn.takenWithin_le (le_trans zero_le_one requestBurst) (by positivity) span
    rw [requestSums, granted, sharesWithin_const, total, mul_one, sub_zero] at bound
    · exact bound
    · intro call mem
      obtain ⟨after, upTo, own, action, -⟩ := mem_rounds pauses mem
      exact ⟨own, after, by linarith, by simp only [requestShare, action]⟩
  · have bound := tokenDrawn.takenWithin_le (le_trans zero_le_one tokenBurst) (by positivity) span
    rw [tokenSums, granted, sharesWithin_const, total, sub_zero] at bound
    · exact bound
    · intro call mem
      obtain ⟨after, upTo, own, action, -⟩ := mem_rounds pauses mem
      exact ⟨own, after, by linarith, by simp only [tokenShare, action]⟩

theorem rounds_differ (valid : cfg.validate = .ok ()) (client : Text) (costs : 0 ≤ cost) (several : count ≠ 0)
    (enough : count ≤ cfg.requestBurst) (affords : count * cost ≤ cfg.tokenBurst) {burst rate amount : Rat}
    (fills : 0 < rate) (slow : keptFor cfg * rate < amount)
    (bounded : ∀ (period : Rat) (more : Nat), 0 ≤ period → (∀ answer ∈ (respondAll cfg false .empty
      (rounds client cost count period 0 more)).1, admitted answer = true) → more * amount ≤ burst + more * period * rate) :
    ∃ calls : List LimiterCall, calls.Pairwise (fun first second => first.now ≤ second.now) ∧
      (respondAll cfg true .empty calls).1.map admitted ≠ (respondAll cfg false .empty calls).1.map admitted := by
  obtain ⟨period, longer, shorter⟩ := exists_between ((lt_div_iff₀ fills).mpr slow)
  have gap : 0 < amount - period * rate := sub_pos.mpr ((lt_div_iff₀ fills).mp shorter)
  obtain ⟨more, beyond⟩ := exists_nat_gt (burst / (amount - period * rate))
  have pauses : 0 ≤ period := (keptFor_nonneg valid).trans longer.le
  refine ⟨rounds client cost count period 0 more, ordered_rounds pauses 0 more, ?_⟩
  intro same
  have expiring := rounds_admitted valid costs several enough affords longer
    (show GoneBy client 0 .empty from ⟨rfl, rfl⟩) more
  -- All of them went through in the one, so all did in the other.
  have through : ∀ answer ∈ (respondAll cfg false .empty (rounds client cost count period 0 more)).1,
      admitted answer = true := by
    rw [← forall_mem_map (P := fun answer => answer = true), ← same, forall_mem_map]
    exact expiring
  have atMost := bounded period more pauses through
  rw [div_lt_iff₀ gap] at beyond
  linarith

end Rounds

/-- Idle expiry goes unnoticed in every run if both buckets fill up while they are kept. -/
theorem idle_expiry_unobservable (cfg : RateLimitConfig) (valid : cfg.validate = .ok ()) :
    (RefillsInTime cfg → ∀ calls : List LimiterCall, calls.Pairwise (fun first second => first.now ≤ second.now) →
      (respondAll cfg true .empty calls).1 = (respondAll cfg false .empty calls).1) ∧
    (keptFor cfg * (cfg.requestsPerMinute / 60) < ⌊cfg.requestBurst⌋₊ ∨
        keptFor cfg * (cfg.tokensPerMinute / 60) < ⌊cfg.tokenBurst⌋₊ →
      ∃ calls : List LimiterCall, calls.Pairwise (fun first second => first.now ≤ second.now) ∧
        (respondAll cfg true .empty calls).1.map admitted ≠ (respondAll cfg false .empty calls).1.map admitted) := by
  obtain ⟨requestRate, tokenRate, requestBurst, tokenBurst, -⟩ := (validate_iff cfg).mp valid
  have requestFloor := Nat.floor_le (le_trans zero_le_one requestBurst)
  have tokenFloor := Nat.floor_le (le_trans zero_le_one tokenBurst)
  constructor
  · intro inTime calls ordered
    cases calls with
    | nil => rfl
    | cons call calls =>
      have later : ∀ other ∈ call :: calls, call.now ≤ other.now :=
        List.forall_mem_cons.mpr ⟨le_refl _, (List.pairwise_cons.mp ordered).1⟩
      exact respondAll_eq valid inTime ordered later (.nothing cfg call.now)
  · rintro (slow | slow)
    · -- Many requests that cost nothing.
      refine @rounds_differ cfg 0 ⌊cfg.requestBurst⌋₊ valid [] (le_refl 0) ?_ requestFloor ?_ cfg.requestBurst _ _
        (by positivity) slow ?_
      · exact (Nat.floor_pos.mpr requestBurst).ne'
      · simpa using le_trans zero_le_one tokenBurst
      · intro period more pauses through
        exact (rounds_bounded valid pauses more through).1
    · -- One request for all of the tokens.
      refine @rounds_differ cfg ⌊cfg.tokenBurst⌋₊ 1 valid [] (Int.natCast_nonneg _) one_ne_zero ?_ ?_ cfg.tokenBurst _ _
        (by positivity) slow ?_
      · simpa using requestBurst
      · simpa using tokenFloor
      · intro period more pauses through
        simpa using (rounds_bounded valid pauses more through).2

theorem idle_expiry_unobservable_by_default :
    RefillsInTime defaultRateLimitConfig ∧
      ∀ calls : List LimiterCall, calls.Pairwise (fun first second => first.now ≤ second.now) →
        (respondAll defaultRateLimitConfig true .empty calls).1 = (respondAll defaultRateLimitConfig false .empty calls).1 := by
  have inTime : RefillsInTime defaultRateLimitConfig := by decide +kernel
  exact ⟨inTime, (idle_expiry_unobservable defaultRateLimitConfig rfl).1 inTime⟩

/-- The default tier with buckets kept for a second. -/
theorem waiting_resets_the_bucket :
    { defaultRateLimitConfig with idleTTL := 1000000000 }.validate = .ok () ∧
      (respondAll { defaultRateLimitConfig with idleTTL := 1000000000 } true .empty
        [⟨0, [], .allow 10000, true⟩, ⟨2, [], .allow 10000, true⟩]).1.map admitted = [true, true] ∧
      (respondAll { defaultRateLimitConfig with idleTTL := 1000000000 } false .empty
        [⟨0, [], .allow 10000, true⟩, ⟨2, [], .allow 10000, true⟩]).1.map admitted = [true, false] := by
  refine ⟨rfl, ?_, ?_⟩
  · decide +kernel
  · decide +kernel

end Nanoserve.Verified
