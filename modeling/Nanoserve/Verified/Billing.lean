import Nanoserve.Router.Gateway
import Nanoserve.Verified.Dispatch
import Nanoserve.Verified.RateLimit

/-! # The bill

Every request the gateway serves goes through `stream` as it does on its own, whatever happens to
the others meanwhile.
-/

namespace Nanoserve.Verified

open Lib Router Proto List
open Model (Text BPETokenizer)
open Engine (Config)

variable {X V L S : Type} {cfg : Config X V L S} {tok : BPETokenizer} {config : GatewayConfig}
variable {req : Served} {proxy : Proxy} {body : GenerateBody} {now : Rat} {prog : Progress}
  {err : Option StreamError} {gateway next : Gateway} {event : GatewayEvent V S}

def StreamEnds (cfg : Config X V L S) (tok : BPETokenizer) (proxy : Proxy) (request : Served) (err : Option StreamError) :
    Prop :=
  ∃ visits, stream cfg tok proxy request.body request.startedAt visits = .error ⟨request.progress, err⟩ ∨
    stream cfg tok proxy request.body request.startedAt visits = .ok request.progress ∧
      err = some (.failed (request.progress.lastErr.getD .noReplicas))

def Follows (cfg : Config X V L S) (tok : BPETokenizer) (proxy : Proxy) (request : Served) : Prop :=
  match request.phase with
  | .refused _ => True
  | .looping => ∃ visits, stream cfg tok proxy request.body request.startedAt visits = .ok request.progress
  | .dispatched replica => ∃ (visits : List (Visit V S)) (progress : Progress) (ring next : Ring) (picked : Replica),
      stream cfg tok proxy request.body request.startedAt visits = .ok progress ∧
      ring.pickExcluding (prefixKey request.body.prompt proxy.prefixLen) progress.tried = some (picked, next) ∧
      picked.id = replica ∧ request.progress = progress.dispatch replica
  | .ending err | .returned err _ => StreamEnds cfg tok proxy request err

theorem follows_pick (looping : req.phase = .looping) (follows : Follows cfg tok config.proxy req)
    (ring : Ring) : Follows cfg tok config.proxy (req.pick config.proxy ring).1 := by
  simp only [Follows, looping] at follows
  obtain ⟨visits, streamed⟩ := follows
  simp only [Served.pick]
  split
  · exact ⟨visits, .inr ⟨streamed, rfl⟩⟩
  case h_2 picked next found => exact ⟨visits, req.progress, ring, next, picked, streamed, found, rfl, rfl⟩

theorem stream_answer {visits : List (Visit V S)} {ring next : Ring} {picked : Replica} (visit : Visit V S)
    (streamed : stream cfg tok proxy body now visits = .ok prog)
    (found : ring.pickExcluding (prefixKey body.prompt proxy.prefixLen) prog.tried = some (picked, next)) :
    stream cfg tok proxy body now (visits ++ [{ visit with ring }]) =
      settle proxy (prog.dispatch picked.id) (attempt cfg tok body now picked.id prog.delivered visit)
        visit.clientGone := by
  have once : iteration cfg tok proxy body now prog { visit with ring } =
      settle proxy (prog.dispatch picked.id) (attempt cfg tok body now picked.id prog.delivered visit)
        visit.clientGone := by
    simp only [iteration, found]
    rfl
  rw [stream, run_append_ok _ streamed, run, once]
  cases settle proxy (prog.dispatch picked.id) (attempt cfg tok body now picked.id prog.delivered visit)
    visit.clientGone with
  | ok => rfl
  | error => rfl

theorem follows_answer {rep : String} (dispatched : req.phase = .dispatched rep)
    (follows : Follows cfg tok config.proxy req) (ring : Ring) (visit : Visit V S) :
    Follows cfg tok config.proxy (req.answer cfg tok config.proxy ring rep visit).1 := by
  simp only [Follows, dispatched] at follows
  obtain ⟨visits, prog, earlier, next, picked, streamed, found, rfl, same⟩ := follows
  have further := stream_answer visit streamed found
  have resume : req.progress.delivered = prog.delivered := by rw [same]; rfl
  rw [← same, ← resume] at further
  simp only [Served.answer]
  split
  case h_1 after settled => exact ⟨_, further.trans settled⟩
  case h_2 ended settled => exact ⟨_, .inl (further.trans settled)⟩

theorem follows_finish (ending : req.phase = .ending err) (follows : Follows cfg tok config.proxy req)
    (redis : Redis) (now : Rat) (link : Link) :
    Follows cfg tok config.proxy (finish config redis req err now link).1 := by
  simp only [Follows, ending] at follows
  simp only [finish]
  split
  · exact follows
  · split
    · exact follows
    · exact follows

theorem follows_arrive (redis : Redis) (req : HttpRequest) (nanos : Nat) (now : Rat) (link : Link) :
    Follows cfg tok config.proxy (arrive config redis req nanos now link).1 := by
  simp only [arrive]
  split
  · trivial
  · split
    · exact ⟨[], rfl⟩
    · simp only [admission]
      split
      · trivial
      · split
        · split
          · trivial
          · trivial
        · exact ⟨[], rfl⟩

theorem attempt_counts (body : GenerateBody) (now : Rat) (rep : String) (resume : List Nat) (visit : Visit V S) :
    (tokenEvents (attempt cfg tok body now rep resume visit).written).length =
      (attempt cfg tok body now rep resume visit).delivered.length := by
  simp only [attempt]
  split
  · rfl
  · split
    · rfl
    · obtain ⟨count, -, delivered, written⟩ := receive_spec rep visit.broken
        (visit.chunks cfg tok (body.request now resume))
      rw [delivered, written, length_map, length_map]

def Reported (progress : Progress) : Prop := progress.deliveredOut = (tokenEvents progress.written).length

structure Resumable (progress : Progress) : Prop where
  reported : Reported progress
  told : progress.delivered.length = progress.deliveredOut

structure Counts (outcome : Except Ended Progress) : Prop where
  continued : ∀ progress, outcome = .ok progress → Resumable progress
  returned : ∀ ended, outcome = .error ended → Reported ended.progress

theorem counts_ok (resumable : Resumable prog) : Counts (.ok prog) := by
  constructor
  · grind
  · simp

theorem counts_error {ended : Ended} (reported : Reported ended.progress) : Counts (.error ended) := by
  constructor
  · simp
  · grind

theorem settle_counts (resumable : Resumable prog) {result : Attempt}
    (counts : (tokenEvents result.written).length = result.delivered.length) (clientGone : Bool) :
    Counts (settle proxy prog result clientGone) := by
  have total : prog.delivered.length + result.delivered.length =
      (tokenEvents (prog.written ++ result.written)).length := by
    rw [tokenEvents_append, length_append, counts, resumable.told, resumable.reported]
  simp only [settle]
  cases result.failure with
  | none => exact counts_error total
  | some failure =>
    by_cases gone : clientGone = true
    · simp only [if_pos gone]
      exact counts_error total
    · simp only [if_neg gone]
      by_cases rejects : failure.isRejection = true
      · simp only [if_pos rejects]
        apply counts_error
        -- The event that says so is not a token.
        have silent : tokenEvents (prog.written ++ result.written ++ [.rejected failure.text]) =
            tokenEvents (prog.written ++ result.written) := by
          rw [tokenEvents_append _ [_]]
          exact append_nil _
        exact total.trans (congrArg List.length silent.symm)
      · simp only [if_neg rejects]
        split
        · exact counts_ok ⟨total, length_append⟩
        · exact counts_error total

theorem iteration_counts (resumable : Resumable prog) (visit : Visit V S) :
    Counts (iteration cfg tok proxy body now prog visit) := by
  simp only [iteration]
  split
  · exact counts_error resumable.reported
  case h_2 rep _ _ =>
    have dispatched : Resumable (prog.dispatch rep.id) := ⟨resumable.reported, resumable.told⟩
    exact settle_counts dispatched (attempt_counts body now rep.id prog.delivered visit) visit.clientGone

theorem stream_counts (visits : List (Visit V S)) : Counts (stream cfg tok proxy body now visits) := by
  have outcome := @run_outcome _ _ _ (iteration cfg tok proxy body now) Resumable (fun ended => Reported ended.progress)
    (fun _ _ => True) (fun _ visit _ held _ went => (iteration_counts held visit).continued _ went)
    (fun _ visit _ held _ went => (iteration_counts held visit).returned _ went) visits {} ⟨rfl, rfl⟩
    (along_trivial (fun _ _ => trivial) _ _)
  rw [stream]
  cases ran : run (iteration cfg tok proxy body now) {} visits with
  | ok =>
    rw [ran] at outcome
    exact counts_ok outcome
  | error =>
    rw [ran] at outcome
    exact counts_error outcome

theorem StreamEnds.reported (ends : StreamEnds cfg tok proxy req err) : Reported req.progress := by
  obtain ⟨visits, ended⟩ := ends
  cases ended with
  | inl returned => exact (stream_counts visits).returned _ returned
  | inr looping => exact ((stream_counts visits).continued _ looping.1).reported

/-! ## Charges and refunds -/

def outstanding : ServePhase → Nat
  | .dispatched _ => 1
  | .refused _ | .looping | .ending _ | .returned _ _ => 0

def isRefused : ServePhase → Bool
  | .refused _ => true
  | .looping | .dispatched _ | .ending _ | .returned _ _ => false

def hasReturned : ServePhase → Bool
  | .returned _ _ => true
  | .refused _ | .looping | .dispatched _ | .ending _ => false

structure Accounts (config : GatewayConfig) (request : Served) : Prop where
  charge : request.charged = 0 ∨ request.charged = request.body.maxTokens
  sober : config.limiter.isSome = true → request.degraded = false → isRefused request.phase = false →
    request.charged = request.body.maxTokens
  atMost : request.refunded ≤ request.unused.toNat
  notYet : hasReturned request.phase = false → request.refunded = 0
  settled : config.limiter.isSome = true → ∀ err, request.phase = .returned err false →
    request.refunded = request.unused.toNat
  balance : request.releases + outstanding request.phase = request.picks

theorem charge_eq (limits : RateLimitConfig) (redis : Redis) (link : Link) (now : Rat) (client : Text) (cost : Nat) :
    RateLimiter.charge limits redis link now client cost = 0 ∨
      RateLimiter.charge limits redis link now client cost = cost := by
  rw [RateLimiter.charge]
  split
  · exact .inr rfl
  · exact .inl rfl

theorem charge_of_admission (limits : RateLimitConfig) (redis : Redis) (link : Link) (now : Rat) (client : Text)
    (cost : Nat) {phase : ServePhase} {tally : Tally}
    (admitted : admission config (RateLimiter.allowOver limits redis link now client cost).1 = (phase, false, tally))
    (goesOn : isRefused phase = false) : RateLimiter.charge limits redis link now client cost = cost := by
  by_cases up : link = .up
  · subst up
    simp only [RateLimiter.allowOver, RateLimiter.allow, decide_true, if_true, admission] at admitted
    split at admitted
    · split at admitted
      · cases admitted
        cases goesOn
      · cases admitted
        cases goesOn
    case isFalse denied =>
      rw [RateLimiter.charge, serve_allow]
      refine if_pos ⟨by decide, ?_⟩
      simpa [parseVerdict] using denied
  · -- Without an answer it is refused, or let in as degraded.
    simp only [RateLimiter.allowOver, RateLimiter.allow, up, decide_false, Bool.false_eq_true, if_false, admission]
      at admitted
    cases failsOpen : limits.failOpen with
    | true => simp [failsOpen] at admitted
    | false =>
      simp only [failsOpen, Bool.false_eq_true, if_false] at admitted
      cases admitted
      cases goesOn

theorem admission_phase (verdict : Except LimiterError Verdict) :
    hasReturned (admission config verdict).1 = false ∧ outstanding (admission config verdict).1 = 0 := by
  simp only [admission]
  split
  · exact ⟨rfl, rfl⟩
  · split
    · split
      · exact ⟨rfl, rfl⟩
      · exact ⟨rfl, rfl⟩
    · exact ⟨rfl, rfl⟩

namespace Accounts

theorem new {req : Served} (charge : req.charged = 0 ∨ req.charged = req.body.maxTokens)
    (sober : config.limiter.isSome = true → req.degraded = false → isRefused req.phase = false →
      req.charged = req.body.maxTokens)
    (still : hasReturned req.phase = false) (nobody : outstanding req.phase = 0) (untouched : req.refunded = 0)
    (noPicks : req.picks = 0) (noReleases : req.releases = 0) : Accounts config req := by
  refine ⟨charge, sober, ?_, fun _ => untouched, ?_, ?_⟩
  · omega
  · intro _ err returned
    rw [returned] at still
    cases still
  · rw [nobody, noPicks, noReleases]

theorem goOn (accounts : Accounts config req) (admitted : isRefused req.phase = false)
    (before : hasReturned req.phase = false) {phase : ServePhase} (still : hasReturned phase = false)
    (prog : Progress) {picks releases : Nat} (balance : releases + outstanding phase = picks) :
    Accounts config { req with phase, progress := prog, picks, releases } := by
  have nothing := accounts.notYet before
  refine ⟨accounts.charge, fun limited sober _ => accounts.sober limited sober admitted, ?_, fun _ => nothing, ?_, balance⟩
  · grind
  · intro _ err returned
    cases returned
    cases still

theorem arrive (redis : Redis) (req : HttpRequest) (nanos : Nat) (now : Rat) (link : Link) :
    Accounts config (arrive config redis req nanos now link).1 := by
  simp only [Router.arrive]
  split
  · exact .new (.inl rfl) (fun _ _ admitted => (by cases admitted)) rfl rfl rfl rfl rfl
  · split
    case h_1 unlimited =>
      refine .new (.inl rfl) (fun limited => ?_) rfl rfl rfl rfl rfl
      rw [unlimited] at limited
      cases limited
    case h_2 limits limited =>
      obtain ⟨still, nobody⟩ := admission_phase (RateLimiter.allowOver limits redis link now (clientKey req) _).1
      refine .new (charge_eq ..) ?_ still nobody rfl rfl rfl
      intro _ sober admitted
      exact charge_of_admission limits redis link now (clientKey req) _ (Prod.ext rfl (Prod.ext sober rfl)) admitted

theorem pick (looping : req.phase = .looping) (accounts : Accounts config req) (ring : Ring) :
    Accounts config (req.pick config.proxy ring).1 := by
  have balance := accounts.balance
  rw [looping] at balance
  simp only [Served.pick]
  split
  · exact accounts.goOn (by rw [looping]; rfl) (by rw [looping]; rfl) rfl _ balance
  · exact accounts.goOn (by rw [looping]; rfl) (by rw [looping]; rfl) rfl _ (congrArg (· + 1) balance)

theorem answer {rep : String} (dispatched : req.phase = .dispatched rep)
    (accounts : Accounts config req) (ring : Ring) (visit : Visit V S) :
    Accounts config (req.answer cfg tok config.proxy ring rep visit).1 := by
  have balance := accounts.balance
  rw [dispatched] at balance
  simp only [Served.answer]
  split
  · exact accounts.goOn (by rw [dispatched]; rfl) (by rw [dispatched]; rfl) rfl _ balance
  · exact accounts.goOn (by rw [dispatched]; rfl) (by rw [dispatched]; rfl) rfl _ balance

theorem close (ending : req.phase = .ending err) (accounts : Accounts config req) {failed : Bool}
    {refunded : Nat} (tally : Tally) (atMost : refunded ≤ req.unused.toNat)
    (settled : config.limiter.isSome = true → failed = false → refunded = req.unused.toNat) :
    Accounts config { req with phase := .returned err failed, tally, refunded } := by
  have balance := accounts.balance
  rw [ending] at balance
  refine ⟨accounts.charge, ?_, atMost, fun still => (by cases still), ?_, balance⟩
  · intro limited sober _
    exact accounts.sober limited sober (by rw [ending]; rfl)
  · intro limited other returned
    cases returned
    exact settled limited rfl

theorem finish (ending : req.phase = .ending err) (accounts : Accounts config req) (redis : Redis) (now : Rat)
    (link : Link) : Accounts config (finish config redis req err now link).1 := by
  have nothing := accounts.notYet (by rw [ending]; rfl)
  simp only [Router.finish]
  split
  case h_1 unlimited =>
    refine accounts.close ending _ accounts.atMost ?_
    intro limited
    rw [unlimited] at limited
    cases limited
  case h_2 limits limited =>
    split
    case isTrue left =>
      apply accounts.close ending
      · grind
      · intro _ answered
        have spent : ¬req.unused ≤ 0 := Int.not_le.mpr left
        by_cases up : link = .up
        · grind
        · simp [RateLimiter.refundOver, RateLimiter.refund, spent, up] at answered
    case isFalse spent =>
      refine accounts.close ending _ accounts.atMost ?_
      intro _ _
      rw [nothing, Int.toNat_of_nonpos (Int.not_lt.mp spent)]

end Accounts

/-! ## All requests -/

theorem forall_step {Holds : Served → Prop}
    (arrives : ∀ req nanos now link, event = .arrive req nanos now link →
      Holds (arrive config gateway.redis req nanos now link).1)
    (picks : ∀ req ring, req.phase = .looping → Holds req → Holds (req.pick config.proxy ring).1)
    (answers : ∀ req ring rep (visit : Visit V S), req.phase = .dispatched rep → Holds req →
      Holds (req.answer cfg tok config.proxy ring rep visit).1)
    (finishes : ∀ index req err now link, event = .finish index now link → gateway.requests[index]? = some req →
      req.phase = .ending err → Holds req → Holds (finish config gateway.redis req err now link).1)
    (held : ∀ req ∈ gateway.requests, Holds req) (went : gateway.step cfg tok config event = .ok next) :
    ∀ req ∈ next.requests, Holds req := by
  have updated : ∀ {index : Nat} {changed : Served}, Holds changed →
      ∀ req ∈ gateway.requests.set index changed, Holds req := by grind
  cases event with
  | arrive =>
    cases went
    intro served mem
    cases mem_append.mp mem with
    | inl old => exact held served old
    | inr new =>
      obtain rfl := mem_singleton.mp new
      exact arrives _ _ _ _ rfl
  | pick =>
    simp only [Gateway.step] at went
    split at went
    case h_1 req found => grind
    case h_2 => cases went
  | answer _ visit =>
    simp only [Gateway.step] at went
    split at went
    case h_1 req found =>
      split at went
      case h_1 rep dispatched =>
        cases went
        exact updated (answers req _ rep visit dispatched (held req (mem_of_getElem? found)))
      case h_2 => cases went
    case h_2 => cases went
  | finish index now link =>
    simp only [Gateway.step] at went
    split at went
    case h_1 req found =>
      split at went
      case h_1 err ending =>
        cases went
        exact updated (finishes index req err now link rfl found ending (held req (mem_of_getElem? found)))
      case h_2 => cases went
    case h_2 => cases went
  | ring =>
    cases went
    exact held

theorem follows_step (held : ∀ req ∈ gateway.requests, Follows cfg tok config.proxy req)
    (went : gateway.step cfg tok config event = .ok next) :
    ∀ req ∈ next.requests, Follows cfg tok config.proxy req := by
  apply forall_step (fun req nanos now link _ => follows_arrive _ req nanos now link) _ _ _ held went
  · exact fun req ring looping follows => follows_pick looping follows ring
  · exact fun req ring rep visit dispatched follows => follows_answer dispatched follows ring visit
  · exact fun index req err now link _ _ ending follows => follows_finish ending follows _ now link

theorem accounts_step (held : ∀ req ∈ gateway.requests, Accounts config req)
    (went : gateway.step cfg tok config event = .ok next) :
    ∀ req ∈ next.requests, Accounts config req := by
  apply forall_step (fun req nanos now link _ => .arrive _ req nanos now link) _ _ _ held went
  · exact fun req ring looping accounts => accounts.pick looping ring
  · exact fun req ring rep visit dispatched accounts => accounts.answer dispatched ring visit
  · exact fun index req err now link _ _ ending accounts => accounts.finish ending _ now link

/-- In every run, a request that was let in on the limiter's word and has returned, its refund
included, has paid for the tokens the client was sent, up to what it asked for, and has released
every replica it picked. -/
theorem every_exit_settles_the_bill (cfg : Config X V L S) (tok : BPETokenizer) (config : GatewayConfig)
    (limited : config.limiter.isSome = true) (ring : Ring) (redis : Redis) (events : List (GatewayEvent V S))
    (gateway : Gateway) (ran : run (Gateway.step cfg tok config) { ring, redis } events = .ok gateway) (request : Served)
    (member : request ∈ gateway.requests) (err : Option StreamError) (returned : request.phase = .returned err false)
    (sober : request.degraded = false) :
    (request.charged : Int) - request.refunded =
        min request.body.maxTokens (tokenEvents request.progress.written).length ∧
      request.releases = request.picks := by
  have both : ∀ request ∈ gateway.requests, Follows cfg tok config.proxy request ∧ Accounts config request := by
    refine @run_preserves _ _ _ _ (fun gateway => ∀ request ∈ gateway.requests, Follows cfg tok config.proxy request ∧
      Accounts config request) (fun _ _ => True) ?_ events _ gateway (by simp) (along_trivial (fun _ _ => trivial) _ _) ran
    intro before event after held _ stepped served isServed
    exact ⟨follows_step (fun other isOther => (held other isOther).1) stepped served isServed,
      accounts_step (fun other isOther => (held other isOther).2) stepped served isServed⟩
  obtain ⟨follows, accounts⟩ := both request member
  simp only [Follows, returned] at follows
  have reported := follows.reported
  have charged := accounts.sober limited sober (by rw [returned]; rfl)
  have refunded := accounts.settled limited err returned
  have balance := accounts.balance
  rw [returned] at balance
  refine ⟨?_, balance⟩
  rw [charged, refunded, ← reported, Served.unused]
  omega

def limited : GatewayConfig := { limiter := some defaultRateLimitConfig }

/-- A request of the default tier, billed to its API key. -/
def billed (maxTokens : Nat) : HttpRequest := { body := some (asking ['A'] maxTokens), apiKey := ['k'] }

/-- The first replica dies after a token and the second one sends the rest. -/
def failover : List (GatewayEvent Nat Unit) :=
  [.arrive (billed 3) 0 0 .up, .pick 0, .answer 0 (serving 1), .pick 0, .answer 0 (serving 5), .finish 0 1 .up]

theorem every_exit_settles_the_bill_of_failover :
    Yields (run (Gateway.step counting spelling limited) { ring := pair } failover) fun gateway =>
      ∃ request ∈ gateway.requests, request.picks = 2 ∧
        (request.charged : Int) - request.refunded =
          min request.body.maxTokens (tokenEvents request.progress.written).length ∧
        request.releases = request.picks := by
  have served : Yields (run (Gateway.step counting spelling limited) { ring := pair } failover) fun gateway =>
      ∃ request ∈ gateway.requests, request.phase = .returned none false ∧ request.degraded = false ∧
        request.picks = 2 := by decide +kernel
  obtain ⟨gateway, ran, request, member, returned, sober, two⟩ := served
  exact ⟨gateway, ran, request, member, two, every_exit_settles_the_bill counting spelling limited rfl pair .empty failover
    gateway ran request member none returned sober⟩

/-! ## Refunds -/

def chargedTo (gateway : Gateway) (client : Text) : Nat :=
  ((gateway.requests.filter fun request => request.client = client).map Served.charged).sum

def refundedTo (gateway : Gateway) (client : Text) : Nat :=
  ((gateway.requests.filter fun request => request.client = client).map Served.refunded).sum

/-- No client gets back more than was taken from it. -/
structure NoMinting (gateway : Gateway) : Prop where
  total : ∀ client, refundedTo gateway client ≤ chargedTo gateway client
  each : ∀ request ∈ gateway.requests, request.charged = 0 → request.refunded = 0

/-- A request that was not charged returns with something left only while Redis is out of reach. -/
def Earned (config : GatewayConfig) (gateway : Gateway) : GatewayEvent V S → Prop
  | .finish index _ link => ∀ request err, gateway.requests[index]? = some request → request.phase = .ending err →
      config.limiter.isSome = true → request.charged = 0 → request.unused ≤ 0 ∨ link = .down
  | _ => True

theorem noMinting_iff (accounts : ∀ req ∈ gateway.requests, Accounts config req) :
    NoMinting gateway ↔ ∀ req ∈ gateway.requests, req.refunded ≤ req.charged := by
  constructor
  · intro minting req mem
    have account := accounts req mem
    cases account.charge with
    | inl free => rw [minting.each req mem free, free]
    | inr =>
      refine Nat.le_trans account.atMost ?_
      rw [Served.unused]
      omega
  · intro each
    constructor
    · intro client
      apply sum_le_sum
      intro req mem
      exact each req (mem_of_mem_filter mem)
    · grind

theorem finish_paid (ending : req.phase = .ending err) (accounts : Accounts config req) (redis : Redis)
    (now : Rat) (link : Link) :
    (finish config redis req err now link).1.refunded ≤ (finish config redis req err now link).1.charged ↔
      (config.limiter.isSome = true → req.charged = 0 → req.unused ≤ 0 ∨ link = .down) := by
  have nothing := accounts.notYet (by rw [ending]; rfl)
  have free : req.refunded ≤ req.charged := by
    rw [nothing]
    exact Nat.zero_le _
  simp only [finish]
  split
  case h_1 unlimited => grind
  case h_2 limits limited =>
    rw [limited]
    by_cases left : req.unused > 0
    · simp only [if_pos left]
      by_cases down : link = .down
      · grind
      · simp only [if_neg down]
        -- All of it was charged, or nothing.
        have most : req.unused ≤ req.body.maxTokens := Int.sub_le_self _ (Int.natCast_nonneg _)
        constructor
        · omega
        · intro earned
          cases accounts.charge with
          | inl uncharged => exact absurd ((earned rfl uncharged).resolve_right down) (Int.not_le.mpr left)
          | inr =>
            omega
    · grind

theorem refunded_arrive (redis : Redis) (req : HttpRequest) (nanos : Nat) (now : Rat) (link : Link) :
    (arrive config redis req nanos now link).1.refunded = 0 := by
  simp only [arrive]
  split
  · rfl
  · grind

theorem accounts_pick (req : Served) (ring : Ring) :
    (req.pick config.proxy ring).1.refunded = req.refunded ∧
      (req.pick config.proxy ring).1.charged = req.charged := by
  simp only [Served.pick]
  split
  · exact ⟨rfl, rfl⟩
  · exact ⟨rfl, rfl⟩

theorem accounts_answer (req : Served) (ring : Ring) (rep : String) (visit : Visit V S) :
    (req.answer cfg tok config.proxy ring rep visit).1.refunded = req.refunded ∧
      (req.answer cfg tok config.proxy ring rep visit).1.charged = req.charged := by
  simp only [Served.answer]
  split
  · exact ⟨rfl, rfl⟩
  · exact ⟨rfl, rfl⟩

theorem paid_step (accounts : ∀ req ∈ gateway.requests, Accounts config req)
    (paid : ∀ req ∈ gateway.requests, req.refunded ≤ req.charged)
    (went : gateway.step cfg tok config event = .ok next) :
    (∀ req ∈ next.requests, req.refunded ≤ req.charged) ↔ Earned config gateway event := by
  constructor
  · intro paidNext
    cases event with
    | finish index now link =>
      intro req err found ending
      have closed : next.requests = gateway.requests.set index (finish config gateway.redis req err now link).1 := by
        simp only [Gateway.step, found, ending] at went
        cases went
        rfl
      have changed : (finish config gateway.redis req err now link).1 ∈ next.requests := by
        rw [closed]
        exact mem_set (List.getElem?_eq_some_iff.mp found).1 _
      exact (finish_paid ending (accounts req (mem_of_getElem? found)) _ now link).mp (paidNext _ changed)
    | arrive | pick | answer | ring => trivial
  · intro earned
    -- Only a request that returns gets anything back.
    apply forall_step _ _ _ _ paid went
    · intro req nanos now link _
      rw [refunded_arrive]
      exact Nat.zero_le _
    · intro req ring _ isPaid
      rw [(accounts_pick req ring).1, (accounts_pick req ring).2]
      exact isPaid
    · intro req ring rep visit _ isPaid
      rw [(accounts_answer req ring rep visit).1, (accounts_answer req ring rep visit).2]
      exact isPaid
    · intro index req err now link isFinish found ending _
      subst isFinish
      exact (finish_paid ending (accounts req (mem_of_getElem? found)) _ now link).mpr
        (earned req err found ending)

/-- Refunds stay within the charges in all of a run exactly if every request that was let in without
being charged, and has tokens left when it returns, does so while Redis is out of reach. -/
theorem refunds_within_charges_iff (cfg : Config X V L S) (tok : BPETokenizer) (config : GatewayConfig) (ring : Ring)
    (redis : Redis) (events : List (GatewayEvent V S)) :
    Throughout (Gateway.step cfg tok config) NoMinting { ring, redis } events ↔
      Along (Gateway.step cfg tok config) (Earned config) { ring, redis } events := by
  have nobody : NoMinting { ring, redis } := ⟨fun _ => Nat.le_refl _, by simp⟩
  refine @along_iff_throughout _ _ _ _ (fun gateway => ∀ request ∈ gateway.requests, Accounts config request) _ _
    (fun _ _ _ held stepped => accounts_step held stepped) ?_ ?_ _ _ (by simp) nobody
  · intro gateway event next accounts minting stepped
    rw [noMinting_iff (accounts_step accounts stepped)]
    exact paid_step accounts ((noMinting_iff accounts).mp minting) stepped
  · intro gateway event raised _ failed
    cases event with
    | finish =>
      intro request err found ending
      simp [Gateway.step, found, ending] at failed
    | arrive | pick | answer | ring => trivial

/-- Two requests of one client and no replica for either. The first is charged; Redis is out of
reach when the second comes in and back when it returns. The client is charged a thousand tokens and
gets two thousand back. -/
theorem degraded_request_is_refunded :
    Yields (run (Gateway.step counting spelling limited) { ring := Ring.new 1 (.finite (1 / 4)) }
        [.arrive (billed 1000) 0 0 .up, .arrive (billed 1000) 1 0 .down, .pick 1, .finish 1 0 .up, .pick 0, .finish 0 0 .up])
      fun gateway =>
        gateway.requests.map (fun request => (request.degraded, request.charged, request.refunded)) =
            [(false, 1000, 1000), (true, 0, 1000)] ∧
          chargedTo gateway "key:k".toList = 1000 ∧ refundedTo gateway "key:k".toList = 2000 := by
  decide +kernel

end Nanoserve.Verified
