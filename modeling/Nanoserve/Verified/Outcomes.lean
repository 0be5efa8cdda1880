import Nanoserve.Verified.Billing

/-! # Outcomes

What the counters say about a request.
-/

namespace Nanoserve.Verified

open Lib Router Proto List
open Model (Text BPETokenizer)
open Engine (Config)

variable {X V L S : Type} {cfg : Config X V L S} {tok : BPETokenizer} {config : GatewayConfig}
variable {rep : String} {req : Served}

def isDone : ClientEvent → Bool
  | .done _ _ _ => true
  | .token _ _ | .rejected _ => false

/-- The client has been sent what a Finish message says that is no rejection. -/
def finished (progress : Progress) : Bool := progress.written.any isDone

def fromLimiter : HttpError → Bool
  | .limiterUnavailable | .oversized | .rateLimited _ => true
  | .invalidJson | .promptRequired | .streamingUnsupported => false

/-- What the counters should say about a request that is over and had a valid body. -/
def OneOutcome (request : Served) : Prop :=
  match request.phase with
  | .refused error => fromLimiter error = true →
      request.tally.outcomes = [.throttled] ∧ request.tally.durations = 0 ∧ request.tally.throttled = 1
  | .returned _ _ => request.tally.outcomes.length = 1 ∧
      (0 < request.tally.durations → finished request.progress = true) ∧ request.tally.throttled = 0
  | .looping | .dispatched _ | .ending _ => True

def Untold (request : Served) : Prop :=
  match request.phase with
  | .looping | .dispatched _ => request.tally.outcomes = [] ∧ request.tally.durations = 0 ∧ request.tally.throttled = 0 ∧
      request.progress.rejected = 0 ∧ finished request.progress = false
  | .ending err => request.tally.outcomes = [] ∧ request.tally.durations = 0 ∧ request.tally.throttled = 0 ∧
      (err ≠ none ∨ finished request.progress = true → request.progress.rejected = 0)
  | .refused _ | .returned _ _ => True

theorem receive_unfinished {broken failure : Failure} {chunks : List GenerateChunk}
    (failed : (receive rep broken chunks).failure = some failure) :
    (receive rep broken chunks).written.any isDone = false := by
  induction chunks with
  | nil => rfl
  | cons chunk _ ih =>
    cases chunk with
    | token => exact ih failed
    | finish =>
      simp only [receive] at failed ⊢
      split at failed
      · next rejected =>
        rw [if_pos rejected]
        rfl
      · cases failed

theorem attempt_unfinished {body : GenerateBody} {now : Rat} {resume : List Nat} {visit : Visit V S}
    {failure : Failure} (failed : (attempt cfg tok body now rep resume visit).failure = some failure) :
    (attempt cfg tok body now rep resume visit).written.any isDone = false := by
  simp only [attempt] at failed ⊢
  by_cases connected : visit.connected = true
  · simp only [connected, not_true_eq_false, if_false] at failed ⊢
    cases refusal : visit.refused with
    | some => rfl
    | none =>
      rw [refusal] at failed
      exact receive_unfinished failed
  · simp [connected]

/-! ## Its steps -/

namespace Untold

theorem arrive (redis : Redis) (req : HttpRequest) (nanos : Nat) (now : Rat) (link : Link) :
    Untold (arrive config redis req nanos now link).1 := by
  simp only [Router.arrive]
  split
  · trivial
  · split
    · exact ⟨rfl, rfl, rfl, rfl, rfl⟩
    · simp only [admission]
      split
      case h_1 => trivial
      case h_2 verdict answered =>
        split
        · split
          · trivial
          · trivial
        · cases verdict.degraded with
          | false => exact ⟨rfl, rfl, rfl, rfl, rfl⟩
          | true => exact ⟨rfl, rfl, rfl, rfl, rfl⟩

theorem pick (looping : req.phase = .looping) (untold : Untold req) (ring : Ring) :
    Untold (req.pick config.proxy ring).1 := by
  simp only [Untold, looping] at untold
  obtain ⟨outcomes, durations, throttled, rejected, unfinished⟩ := untold
  simp only [Served.pick]
  split
  · exact ⟨outcomes, durations, throttled, fun _ => rejected⟩
  · exact ⟨outcomes, durations, throttled, rejected, unfinished⟩

theorem answer (dispatched : req.phase = .dispatched rep) (untold : Untold req) (ring : Ring)
    (visit : Visit V S) : Untold (req.answer cfg tok config.proxy ring rep visit).1 := by
  simp only [Untold, dispatched] at untold
  obtain ⟨outcomes, durations, throttled, rejected, unfinished⟩ := untold
  simp only [Served.answer, settle]
  cases failed : (attempt cfg tok req.body req.startedAt rep req.progress.delivered visit).failure with
  | none => exact ⟨outcomes, durations, throttled, fun _ => rejected⟩
  | some failure =>
    -- Whatever it is that broke the stream, no Finish message came before it.
    have broken : (req.progress.written ++
        (attempt cfg tok req.body req.startedAt rep req.progress.delivered visit).written).any isDone =
          false := by
      rw [any_append, attempt_unfinished failed, Bool.or_false]
      exact unfinished
    by_cases gone : visit.clientGone = true
    · simp only [gone, if_true]
      exact ⟨outcomes, durations, throttled, fun _ => rejected⟩
    · by_cases rejection : failure.isRejection = true
      · simp only [gone, rejection, Bool.false_eq_true, if_false, if_true]
        refine ⟨outcomes, durations, throttled, ?_⟩
        simp only [finished, any_append, any_append ▸ broken, ne_eq, not_true_eq_false, false_or]
        intro impossible
        cases impossible
      · by_cases again : req.progress.attempt + 1 ≤ config.proxy.maxRetries
        · simp only [gone, rejection, again, Bool.false_eq_true, if_false, if_true]
          exact ⟨outcomes, durations, throttled, rejected, broken⟩
        · simp only [gone, rejection, again, Bool.false_eq_true, if_false]
          exact ⟨outcomes, durations, throttled, fun _ => rejected⟩

theorem finish (req : Served) (err : Option StreamError) (redis : Redis) (now : Rat) (link : Link) :
    Untold (finish config redis req err now link).1 := by
  simp only [Router.finish]
  split
  · trivial
  · split
    · trivial
    · trivial

end Untold

/-- The limiter denies the request, for now or for good. -/
def denied (config : GatewayConfig) (redis : Redis) (request : HttpRequest) (nanos : Nat) (now : Rat) (link : Link) :
    Bool :=
  match (arrive config redis request nanos now link).1.phase with
  | .refused .oversized | .refused (.rateLimited _) => true
  | _ => false

section

variable (metrics : config.metrics = true)
include metrics

theorem oneOutcome_arrive (redis : Redis) (req : HttpRequest) (nanos : Nat)
    (now : Rat) (link : Link) :
    OneOutcome (arrive config redis req nanos now link).1 ↔ denied config redis req nanos now link = false := by
  simp only [denied, arrive]
  split
  case h_1 error invalid =>
    -- None of the checks is the limiter's.
    simp only [checkBody] at invalid
    split at invalid
    · cases invalid
      simp [OneOutcome, fromLimiter]
    · split at invalid
      · cases invalid
        simp [OneOutcome, fromLimiter]
      · split at invalid
        · cases invalid
          simp [OneOutcome, fromLimiter]
        · cases invalid
  case h_2 body valid =>
    split
    case h_1 => simp [OneOutcome]
    case h_2 limits limited =>
      simp only [admission]
      split
      case h_1 => simp [OneOutcome, observeThrottle, observe, metrics]
      case h_2 verdict answered =>
        by_cases allowed : verdict.allowed = true
        · simp [OneOutcome, allowed]
        · cases verdict.degraded <;> cases verdict.permanent <;>
            simp [OneOutcome, observeThrottle, observe, metrics, allowed, fromLimiter]

theorem foldl_observe_rejected (count : Nat) (tally : Tally) :
    (replicate count Outcome.rejected).foldl (fun tally outcome => observe config outcome tally) tally =
      { tally with outcomes := tally.outcomes ++ replicate count .rejected } := by
  induction count generalizing tally with
  | zero => simp
  | succ _ ih =>
    rw [replicate_succ, foldl_cons, ih]
    simp [observe, metrics]

theorem finish_told (req : Served) (err : Option StreamError) (redis : Redis)
    (now : Rat) (link : Link) :
    let closed := (finish config redis req err now link).1
    (∃ failed, closed.phase = .returned err failed) ∧ closed.progress = req.progress ∧
      closed.tally.outcomes = req.tally.outcomes ++ replicate req.progress.rejected .rejected ++
        [if err = none then .success else .error] ∧
      closed.tally.durations = req.tally.durations + (if err = none then 1 else 0) ∧
      closed.tally.throttled = req.tally.throttled := by
  simp only [finish, foldl_observe_rejected metrics]
  cases err with
  | none =>
    split
    · simp [observe, metrics]
    · split
      · simp [observe, metrics]
      · simp [observe, metrics]
  | some =>
    split
    · simp [observe, metrics]
    · split
      · simp [observe, metrics]
      · simp [observe, metrics]

theorem oneOutcome_finish {err : Option StreamError}
    (ending : req.phase = .ending err) (untold : Untold req) (redis : Redis) (now : Rat) (link : Link) :
    OneOutcome (finish config redis req err now link).1 ↔ (err = none → finished req.progress = true) := by
  simp only [Untold, ending] at untold
  obtain ⟨outcomes, durations, throttled, rejected⟩ := untold
  obtain ⟨⟨failed, phase⟩, prog, allOutcomes, allDurations, allThrottled⟩ :=
    finish_told metrics req err redis now link
  have told : OneOutcome (finish config redis req err now link).1 ↔
      req.progress.rejected = 0 ∧ (err = none → finished req.progress = true) := by
    simp only [OneOutcome, phase, prog, allOutcomes, allDurations, allThrottled, outcomes, durations, throttled]
    cases err with
    | none => simp
    | some => simp
  rw [told]
  constructor
  · exact fun both => both.2
  · intro ends
    refine ⟨rejected ?_, ends⟩
    cases err with
    | none => exact .inr (ends rfl)
    | some => exact .inl nofun

end

/-! ## All requests -/

/-- A request comes in that the limiter does not deny, or returns without an error only after its
Finish message. -/
def Plain (config : GatewayConfig) (gateway : Gateway) : GatewayEvent V S → Prop
  | .arrive request nanos now link => denied config gateway.redis request nanos now link = false
  | .finish index _ _ => ∀ request ∈ gateway.requests[index]?,
      request.phase = .ending none → finished request.progress = true
  | .pick _ | .answer _ _ | .ring _ => True

instance (config : GatewayConfig) (gateway : Gateway) (event : GatewayEvent V S) : Decidable (Plain config gateway event) :=
  match event with
  | .arrive _ _ _ _ => inferInstanceAs (Decidable (_ = _))
  | .finish index _ _ => inferInstanceAs (Decidable (∀ request ∈ gateway.requests[index]?, _ → _))
  | .pick _ | .answer _ _ | .ring _ => .isTrue trivial

theorem untold_step {gateway next : Gateway} {event : GatewayEvent V S}
    (held : ∀ req ∈ gateway.requests, Untold req) (went : gateway.step cfg tok config event = .ok next) :
    ∀ req ∈ next.requests, Untold req := by
  apply forall_step (fun req nanos now link _ => .arrive _ req nanos now link) _ _ _ held went
  · exact fun req ring looping untold => untold.pick looping ring
  · exact fun req ring rep visit dispatched untold => untold.answer dispatched ring visit
  · exact fun index req err now link _ _ _ _ => .finish req err _ now link

theorem oneOutcome_pick (req : Served) (ring : Ring) : OneOutcome (req.pick config.proxy ring).1 := by
  simp only [Served.pick]
  split
  · trivial
  · trivial

theorem oneOutcome_answer (req : Served) (ring : Ring) (rep : String) (visit : Visit V S) :
    OneOutcome (req.answer cfg tok config.proxy ring rep visit).1 := by
  simp only [Served.answer]
  split
  · trivial
  · trivial

theorem oneOutcome_step (metrics : config.metrics = true) {gateway next : Gateway} {event : GatewayEvent V S}
    (untold : ∀ req ∈ gateway.requests, Untold req) (held : ∀ req ∈ gateway.requests, OneOutcome req)
    (went : gateway.step cfg tok config event = .ok next) :
    (∀ req ∈ next.requests, OneOutcome req) ↔ Plain config gateway event := by
  constructor
  · intro told
    cases event with
    | arrive =>
      cases went
      exact (oneOutcome_arrive metrics ..).mp (told _ (mem_append_right _ mem_cons_self))
    | finish =>
      intro req found ending
      simp only [Gateway.step, Option.mem_def.mp found, ending] at went
      cases went
      have changed := told _ (mem_set (List.getElem?_eq_some_iff.mp found).1 _)
      exact (oneOutcome_finish metrics ending (untold req (mem_of_getElem? found)) ..).mp changed rfl
    | pick | answer | ring => trivial
  · intro plain
    apply forall_step _ _ _ _ held went
    · intro req nanos now link isArrive
      subst isArrive
      exact (oneOutcome_arrive metrics ..).mpr plain
    · exact fun req ring _ _ => oneOutcome_pick req ring
    · exact fun req ring rep visit _ _ => oneOutcome_answer req ring rep visit
    · intro index req err now link isFinish found ending _
      subst isFinish
      refine (oneOutcome_finish metrics ending (untold req (mem_of_getElem? found)) ..).mpr ?_
      rintro rfl
      exact plain req found ending

/-- However the requests interleave, each of them counts as one outcome in all of a run exactly if
the limiter denies none and every one that returns without an error has had its Finish message. -/
theorem one_outcome_iff (cfg : Config X V L S) (tok : BPETokenizer) (config : GatewayConfig)
    (metrics : config.metrics = true) (ring : Ring) (redis : Redis) (events : List (GatewayEvent V S)) :
    Throughout (Gateway.step cfg tok config) (fun gateway => ∀ request ∈ gateway.requests, OneOutcome request)
        { ring, redis } events ↔
      Along (Gateway.step cfg tok config) (Plain config) { ring, redis } events := by
  refine @along_iff_throughout _ _ _ _ (fun gateway => ∀ request ∈ gateway.requests, Untold request) _ _
    (fun _ _ _ held stepped => untold_step held stepped)
    (fun gateway event next untold held stepped => oneOutcome_step metrics untold held stepped) ?_ _ _ (by simp) (by simp)
  intro gateway event raised _ failed
  cases event with
  | finish =>
    intro request found ending
    simp [Gateway.step, Option.mem_def.mp found, ending] at failed
  | arrive => cases failed
  | pick | answer | ring => trivial

/-- With a limiter and with metrics. -/
def metered : GatewayConfig := { limiter := some defaultRateLimitConfig, metrics := true }

theorem one_outcome_iff_failover :
    Along (Gateway.step counting spelling metered) (Plain metered) { ring := pair } failover ∧
      Throughout (Gateway.step counting spelling metered) (fun gateway => ∀ request ∈ gateway.requests, OneOutcome request)
        { ring := pair } failover := by
  have plain : Along (Gateway.step counting spelling metered) (Plain metered) { ring := pair } failover := by
    decide +kernel
  exact ⟨plain, (one_outcome_iff counting spelling metered rfl pair .empty failover).mpr plain⟩

/-- One request that its replica has no room for, one whose client has gone. -/
def unlucky : List (GatewayEvent Nat Unit) :=
  [.arrive (billed 3) 0 0 .up, .pick 0,
    .answer 0 { serving 0 with refused := some (.status .resourceExhausted "no capacity") }, .finish 0 0 .up,
    .arrive (billed 3) 0 0 .up, .pick 1, .answer 1 { serving 1 with clientGone := true }, .finish 1 0 .up,
    .arrive (billed 20000) 0 0 .up]

/-- The first has two outcomes and a duration, the second a duration without a Finish message. -/
theorem unlucky_outcomes :
    Yields (run (Gateway.step counting spelling metered) { ring := pair } unlucky) fun gateway =>
      gateway.requests.map (fun request => (request.tally.outcomes, request.tally.durations)) =
          [([.rejected, .success], 1), ([.success], 1), ([.throttled], 0)] ∧
        gateway.requests.map (fun request => (finished request.progress, request.tally.throttled)) =
          [(false, 0), (false, 0), (false, 2)] := by
  decide +kernel

end Nanoserve.Verified
