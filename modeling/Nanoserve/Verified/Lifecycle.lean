import Nanoserve.Verified.Ledger
import Nanoserve.Verified.Blocks

/-! # The life of a request

A submitted request stands in exactly one place.
-/

namespace Nanoserve.Verified

open Engine Lib List Function
open ContinuousBatchingEngine
open PrefixCache (hashChain)

variable {X V L S : Type} {cfg : Config X V L S}
variable {req maxActive : Nat} {before after : Ledger}

/-! ## Standing -/

def Ledger.standing (ledger : Ledger) (request : Nat) : Nat :=
  ledger.waiting.count request + ledger.active.count request + ledger.outcomes.count request

structure Orderly (maxActive : Nat) (ledger : Ledger) : Prop where
  partition : ∀ request, ledger.standing request = ledger.submitted.count request
  ended : ∀ request, (ledger.requests request).finishReason.isSome ↔ request ∈ ledger.outcomes
  counted : ledger.numFinished = ledger.outcomes.length
  bounded : ledger.active.length ≤ maxActive

section Ended

variable {requests : Nat → Request} {outcomes : List Nat} {changed : Nat} {next : Request}

theorem ended_append (ended : ∀ req, (requests req).finishReason.isSome ↔ req ∈ outcomes)
    (ends : next.finishReason.isSome) (req : Nat) :
    (update requests changed next req).finishReason.isSome ↔ req ∈ outcomes ++ [changed] := by
  by_cases here : req = changed
  · subst here
    simp [ends]
  · rw [update_of_ne here, ended req]
    simp [here]

theorem ended_update (ended : ∀ req, (requests req).finishReason.isSome ↔ req ∈ outcomes)
    (same : next.finishReason = (requests changed).finishReason) (req : Nat) :
    (update requests changed next req).finishReason.isSome ↔ req ∈ outcomes := by
  by_cases here : req = changed
  · subst here
    rw [update_self, same]
    exact ended req
  · rw [update_of_ne here]
    exact ended req

end Ended

namespace Orderly

section

variable (orderly : Orderly maxActive before)
include orderly

theorem step (step : LedgerStep maxActive before after) :
    Orderly maxActive after := by
  have partition := orderly.partition
  have bounded := orderly.bounded
  have counted := orderly.counted
  simp only [Ledger.standing] at partition
  cases step with
  | enqueue =>
    refine ⟨fun req => ?_, orderly.ended, counted, bounded⟩
    have there := partition req
    simp only [Ledger.standing, count_append]
    omega
  | refuse =>
    refine ⟨fun req => ?_, fun req => ended_append orderly.ended rfl req, by simp [counted], bounded⟩
    have there := partition req
    simp only [Ledger.standing, count_append]
    omega
  | start _ _ queued slot =>
    refine ⟨fun req => ?_, orderly.ended, counted,
      by rw [length_append]; exact slot⟩
    have there := partition req
    simp only [queued, count_cons] at there
    simp only [Ledger.standing, count_append, count_singleton]
    omega
  | produce =>
    exact ⟨partition, fun req => ended_update orderly.ended (by rfl) req, counted, bounded⟩
  | requeue _ _ _ standing =>
    simp only [standing, length_append, length_cons] at bounded
    refine ⟨fun req => ?_, fun req => ended_update orderly.ended (by rfl) req, counted,
      by simp only [length_append]; omega⟩
    have there := partition req
    simp only [standing, count_append, count_cons] at there
    simp only [Ledger.standing, count_append, count_cons]
    omega
  | retire _ _ _ _ standing =>
    simp only [standing, length_append, length_cons] at bounded
    refine ⟨fun req => ?_, fun req => ended_append orderly.ended rfl req, by simp [counted],
      by simp only [length_append]; omega⟩
    have there := partition req
    simp only [standing, count_append, count_cons] at there
    simp only [Ledger.standing, count_append, count_singleton]
    omega
  | withdraw _ _ _ _ queued =>
    refine ⟨fun req => ?_, fun req => ended_append orderly.ended rfl req, by simp [counted], bounded⟩
    have there := partition req
    simp only [queued, count_append, count_cons] at there
    simp only [Ledger.standing, count_append, count_singleton]
    omega

theorem steps (steps : LedgerSteps maxActive before after) :
    Orderly maxActive after := by
  induction steps with
  | refl => exact orderly
  | tail _ last ih => exact ih.step last

theorem elsewhere (distinct : before.submitted.Nodup)
    (settled : req ∈ before.outcomes) :
    req ∈ before.submitted ∧ req ∉ before.waiting ∧ req ∉ before.active := by
  have once := orderly.partition req
  have reported := count_pos_iff.mpr settled
  have most := nodup_iff_count_le_one.mp distinct req
  simp only [Ledger.standing] at once
  refine ⟨count_pos_iff.mp (by omega), ?_, ?_⟩
  · rw [← count_eq_zero]
    omega
  · rw [← count_eq_zero]
    omega

theorem known_active (active : req ∈ before.active) :
    req ∈ before.submitted := by
  have once := orderly.partition req
  have standing := count_pos_iff.mpr active
  simp only [Ledger.standing] at once
  exact count_pos_iff.mp (by omega)

theorem queued (distinct : before.submitted.Nodup)
    (waiting : req ∈ before.waiting) : req ∉ before.active ∧ req ∉ before.outcomes := by
  have once := orderly.partition req
  have standing := count_pos_iff.mpr waiting
  have most := nodup_iff_count_le_one.mp distinct req
  simp only [Ledger.standing] at once
  rw [← count_eq_zero, ← count_eq_zero]
  omega

theorem active_nodup (distinct : before.submitted.Nodup) : before.active.Nodup := by
  rw [nodup_iff_count_le_one] at distinct ⊢
  intro req
  have once := orderly.partition req
  have most := distinct req
  simp only [Ledger.standing] at once
  omega

end

end Orderly

/-- A request that is neither active nor ended has produced nothing. -/
def Ledger.Fresh (ledger : Ledger) : Prop :=
  ∀ request, request ∉ ledger.active → request ∉ ledger.outcomes → (ledger.requests request).outputTokenIds = []

theorem LedgerStep.fresh (step : LedgerStep maxActive before after) (fresh : before.Fresh) : after.Fresh := by
  intro req notActive notEnded
  cases step with
  | enqueue => exact fresh req notActive notEnded
  | refuse =>
    dsimp only at notActive notEnded ⊢
    simp only [mem_append, mem_singleton, not_or] at notEnded
    rw [update_of_ne notEnded.2]
    exact fresh req notActive notEnded.1
  | start =>
    simp only [mem_append, not_or] at notActive
    exact fresh req notActive.1 notEnded
  | produce _ _ standing =>
    dsimp only at notActive notEnded ⊢
    rw [update_of_ne (ne_of_mem_of_not_mem standing notActive).symm]
    exact fresh req notActive notEnded
  | requeue _ requeued _ standing =>
    dsimp only at notActive notEnded ⊢
    by_cases here : req = requeued
    · subst here
      rw [update_self]
    · rw [update_of_ne here]
      refine fresh req ?_ notEnded
      simpa [standing, here] using notActive
  | retire _ _ _ _ standing =>
    dsimp only at notActive notEnded ⊢
    simp only [mem_append, mem_singleton, not_or] at notActive notEnded
    rw [update_of_ne notEnded.2]
    refine fresh req ?_ notEnded.1
    simpa [standing, notEnded.2] using notActive
  | withdraw =>
    dsimp only at notActive notEnded ⊢
    simp only [mem_append, mem_singleton, not_or] at notEnded
    rw [update_of_ne notEnded.2]
    exact fresh req notActive notEnded.1

theorem LedgerSteps.fresh (steps : LedgerSteps maxActive before after) (fresh : before.Fresh) : after.Fresh := by
  induction steps with
  | refl => exact fresh
  | tail _ last ih => exact last.fresh ih

section Settled

theorem LedgerStep.submitted_grows (step : LedgerStep maxActive before after) :
    before.submitted <+: after.submitted := by
  cases step with
  | enqueue => exact prefix_append _ _
  | refuse => exact prefix_append _ _
  | _ => exact prefix_rfl

theorem LedgerSteps.submitted_grows (steps : LedgerSteps maxActive before after) :
    before.submitted <+: after.submitted := by
  induction steps with
  | refl => exact prefix_rfl
  | tail _ last ih => exact ih.trans last.submitted_grows

theorem LedgerStep.settled (step : LedgerStep maxActive before after) (orderly : Orderly maxActive before)
    (distinct : after.submitted.Nodup) (settled : req ∈ before.outcomes) :
    after.requests req = before.requests req ∧ req ∈ after.outcomes := by
  obtain ⟨known, notWaiting, notActive⟩ :=
    orderly.elsewhere (distinct.sublist step.submitted_grows.sublist) settled
  cases step with
  | refuse added =>
    have new : req ≠ added := by
      rintro rfl
      exact (nodup_append.mp distinct).2.2 req known req (by simp) rfl
    exact ⟨update_of_ne new _ _, mem_append_left _ settled⟩
  | produce _ _ standing =>
    exact ⟨update_of_ne (ne_of_mem_of_not_mem standing notActive).symm _ _, settled⟩
  | requeue _ _ _ standing =>
    exact ⟨update_of_ne (fun same => notActive (by simp [standing, same])) _ _, settled⟩
  | retire _ _ _ _ standing =>
    exact ⟨update_of_ne (fun same => notActive (by simp [standing, same])) _ _,
      mem_append_left _ settled⟩
  | withdraw _ _ _ _ queued =>
    exact ⟨update_of_ne (fun same => notWaiting (by simp [queued, same])) _ _,
      mem_append_left _ settled⟩
  | _ => exact ⟨rfl, settled⟩

theorem LedgerSteps.settled (steps : LedgerSteps maxActive before after) (orderly : Orderly maxActive before)
    (distinct : after.submitted.Nodup) (settled : req ∈ before.outcomes) :
    after.requests req = before.requests req ∧ req ∈ after.outcomes := by
  induction steps with
  | refl => exact ⟨rfl, settled⟩
  | tail steps last ih =>
    obtain ⟨same, reported⟩ := ih (distinct.sublist last.submitted_grows.sublist)
    obtain ⟨sameLast, reportedLast⟩ := last.settled (orderly.steps steps) distinct reported
    exact ⟨sameLast.trans same, reportedLast⟩

theorem LedgerStep.emits (step : LedgerStep maxActive before after) (orderly : Orderly maxActive before)
    (distinct : after.submitted.Nodup) :
    ∃ new, after.emitted = before.emitted ++ new ∧
      ∀ entry ∈ new, entry.1 ∈ after.submitted ∧ entry.1 ∉ before.outcomes := by
  cases step with
  | produce produced token standing =>
    refine ⟨[(produced, token)], rfl, fun entry mem => ?_⟩
    obtain rfl := mem_singleton.mp mem
    exact ⟨orderly.known_active standing, fun settled => (orderly.elsewhere distinct settled).2.2 standing⟩
  | _ => exact ⟨[], (append_nil _).symm, fun _ mem => absurd mem not_mem_nil⟩

theorem LedgerSteps.emits (steps : LedgerSteps maxActive before after) (orderly : Orderly maxActive before)
    (distinct : after.submitted.Nodup) :
    ∃ new, after.emitted = before.emitted ++ new ∧
      ∀ entry ∈ new, entry.1 ∈ after.submitted ∧ entry.1 ∉ before.outcomes := by
  induction steps with
  | refl => exact ⟨[], (append_nil _).symm, fun _ mem => absurd mem not_mem_nil⟩
  | tail steps last ih =>
    have distinctBefore := distinct.sublist last.submitted_grows.sublist
    obtain ⟨first, firstEq, firstLive⟩ := ih distinctBefore
    obtain ⟨second, secondEq, secondLive⟩ := last.emits (orderly.steps steps) distinct
    refine ⟨first ++ second, by rw [secondEq, firstEq, append_assoc], fun entry mem => ?_⟩
    cases mem_append.mp mem with
    | inl early => exact ⟨last.submitted_grows.subset (firstLive entry early).1, (firstLive entry early).2⟩
    | inr late =>
      obtain ⟨known, live⟩ := secondLive entry late
      exact ⟨known, fun settled => live (LedgerSteps.settled steps orderly distinctBefore settled).2⟩

end Settled

/-! ## Whole runs -/

/-- The requests a list of calls adds. -/
def added : List Call → List Nat
  | [] => []
  | .addRequest request _ :: calls => request :: added calls
  | _ :: calls => added calls

theorem submitted_call {sess next : Session V S} {call : Call} (called : sess.call cfg call = .ok next) :
    next.submitted = sess.submitted ++ added [call] := by
  cases call with
  | addRequest =>
    cases called
    rfl
  | applyCancellations | cancel requestId | step | clearPrefixCache =>
    simp only [Session.call] at called
    split at called
    · cases called
    · cases called
      simp [added]
  | requestCancel requestId | drainEmitted | drainFinished =>
    cases called
    simp [added]

theorem submitted_after {sess last : Session V S} {calls : List Call} (ran : sess.after cfg calls = .ok last) :
    last.submitted = sess.submitted ++ added calls := by
  induction calls generalizing sess with
  | nil =>
    cases ran
    simp [added]
  | cons call _ ih =>
    obtain ⟨_, called, rest⟩ := run_cons_inv ran
    rw [ih rest, submitted_call called, append_assoc]
    cases call <;> rfl

theorem Orderly.new (numBlocks size : Nat) (caching : Bool) (zero : V) (clients : Nat → Submission)
    (rng : S) : Orderly cfg.maxBatchSize
      ({ session := Session.new cfg numBlocks size caching zero clients rng } : Machine V S).ledger where
  partition req := rfl
  ended req := by simp [Machine.ledger, Session.new, Session.outcomes, Submission.request]
  counted := rfl
  bounded := Nat.zero_le _

/-- Where the requests of a session stand. -/
structure ExactlyOnce (cfg : Config X V L S) (session : Session V S) : Prop where
  one : ∀ request ∈ session.submitted, session.engine.waiting.count request +
    (session.engine.running.map Sequence.request).count request + session.outcomes.count request = 1
  finished : ∀ request ∈ session.submitted,
    (session.engine.requests request).finishReason.isSome ↔ session.outcomes.count request = 1
  counted : session.engine.numFinished =
    (session.submitted.filter fun request => (session.engine.requests request).finishReason.isSome).length
  bounded : session.engine.running.length ≤ cfg.maxBatchSize

theorem Orderly.exactlyOnce {m : Machine V S} (orderly : Orderly cfg.maxBatchSize m.ledger)
    (idle : m.pending = []) (distinct : m.session.submitted.Nodup) : ExactlyOnce cfg m.session := by
  have activeEq : m.ledger.active = m.engine.running.map Sequence.request := by
    simp [Machine.ledger, Machine.seqs, idle]
  have partition : ∀ req, m.engine.waiting.count req +
      (m.engine.running.map Sequence.request).count req + m.session.outcomes.count req =
      m.session.submitted.count req := by
    intro req
    rw [← activeEq]
    exact orderly.partition req
  have ended : ∀ req, (m.engine.requests req).finishReason.isSome ↔
    req ∈ m.session.outcomes := orderly.ended
  have most : ∀ req, m.session.outcomes.count req ≤ 1 := by
    intro req
    have once := partition req
    have most := nodup_iff_count_le_one.mp distinct req
    omega
  have known : ∀ req ∈ m.session.outcomes, req ∈ m.session.submitted :=
    fun req settled => (orderly.elsewhere distinct settled).1
  refine ⟨?_, ?_, ?_, ?_⟩
  · intro req mem
    rw [partition req]
    exact count_eq_one_of_mem distinct mem
  · intro req mem
    rw [ended req, ← count_pos_iff]
    have bound := most req
    omega
  · have perm : m.session.outcomes.Perm (m.session.submitted.filter fun req =>
        (m.engine.requests req).finishReason.isSome) := by
      rw [perm_ext_iff_of_nodup (nodup_iff_count_le_one.mpr most) (distinct.filter _)]
      intro req
      rw [mem_filter, ended req]
      exact ⟨fun settled => ⟨known req settled, settled⟩, fun both => both.2⟩
    rw [← perm.length_eq]
    exact orderly.counted
  · have bounded := orderly.bounded
    rw [activeEq, length_map] at bounded
    exact bounded

/-- Requests with distinct ids, any calls, and any further calls: every added request stands in
exactly one place, and what has finished stays as it is. -/
theorem outcomes_exactly_once (cfg : Config X V L S) (numBlocks blockSize : Nat) (enablePrefixCache : Bool) (zero : V)
    (clients : Nat → Submission) (rng : S) (positive : 0 < blockSize)
    (calls more : List Call)
    (distinct : ((added (calls ++ more)).map fun request => (clients request).requestId).Nodup) :
    ∃ session last,
      (Session.new cfg numBlocks blockSize enablePrefixCache zero clients rng).after cfg calls = .ok session ∧
      session.after cfg more = .ok last ∧ session.submitted = added calls ∧ ExactlyOnce cfg session ∧
      ∀ request, (session.engine.requests request).finishReason.isSome →
        last.engine.requests request = session.engine.requests request ∧ last.outcomes.count request = 1 := by
  have stock := @Stock.new X V L S cfg numBlocks blockSize enablePrefixCache zero clients rng positive
  have orderly := @Orderly.new X V L S cfg numBlocks blockSize enablePrefixCache zero clients rng
  obtain ⟨middle, ran, idle, steps, -⟩ := run_steps stock rfl calls
  have middleStock := stock.reaches steps
  have middleOrderly := orderly.steps (steps.ledgerSteps stock)
  obtain ⟨last, ranMore, lastIdle, moreSteps, -⟩ := run_steps middleStock idle more
  have lastOrderly := middleOrderly.steps (moreSteps.ledgerSteps middleStock)
  have submitted : middle.session.submitted = added calls := by simpa [Session.new] using submitted_after ran
  have lastDistinct : last.session.submitted.Nodup := by
    have whole : (Session.new cfg numBlocks blockSize enablePrefixCache zero clients rng).after cfg (calls ++ more) =
        .ok last.session := by rw [Session.after, run_append_ok _ ran]; exact ranMore
    have all : last.session.submitted = added (calls ++ more) := by simpa [Session.new] using submitted_after whole
    rw [all]
    exact distinct.of_map
  have middleDistinct : middle.session.submitted.Nodup :=
    lastDistinct.sublist (moreSteps.ledgerSteps middleStock).submitted_grows.sublist
  refine ⟨middle.session, last.session, ran, ranMore, submitted, middleOrderly.exactlyOnce idle middleDistinct, ?_⟩
  intro request finished
  obtain ⟨same, reported⟩ := (moreSteps.ledgerSteps middleStock).settled middleOrderly lastDistinct
    ((middleOrderly.ended request).mp finished)
  have once := lastOrderly.exactlyOnce lastIdle lastDistinct
  refine ⟨same, (once.finished request (lastOrderly.elsewhere lastDistinct reported).1).mp ?_⟩
  exact (lastOrderly.ended request).mpr reported

theorem outcomes_exactly_once_competing :
    0 < 1 ∧
      ((added (competition 4 ++ [.requestCancel "second", .step])).map fun request =>
        (competing 4 request).requestId).Nodup ∧
      ∃ session last,
        (Session.new counting 6 1 true 0 (competing 4) ()).after counting (competition 4) = .ok session ∧
        session.after counting [.requestCancel "second", .step] = .ok last ∧
        session.submitted = added (competition 4) ∧ ExactlyOnce counting session ∧
        ∀ request, (session.engine.requests request).finishReason.isSome →
          last.engine.requests request = session.engine.requests request ∧ last.outcomes.count request = 1 :=
  ⟨Nat.one_pos, by decide,
    outcomes_exactly_once counting 6 1 true 0 (competing 4) () Nat.one_pos (competition 4)
      [.requestCancel "second", .step] (by decide)⟩

/-- An engine to which requests with empty prompts come. -/
def speechless : EngineState Nat Unit where
  pool := .new 6 1 1 0
  prefixCache := .new true
  requests _ := { promptTokenIds := [], requestId := "" }
  rng := ()

/-- `_admit` takes a request from the queue before it prefills it. The prefill of an empty prompt
raises, and the request stands nowhere. -/
theorem empty_prompt_is_lost :
    ∃ queued, Session.call counting { engine := speechless } (.addRequest 0 false) = .ok queued ∧
      queued.engine.waiting = [0] ∧ queued.call counting .step = .error .emptyPrompt ∧
      ¬ExactlyOnce counting { queued with engine := { queued.engine with waiting := queued.engine.waiting.tail } } := by
  refine ⟨_, rfl, rfl, rfl, fun once => ?_⟩
  have one := once.one 0 (mem_singleton_self 0)
  contradiction

end Nanoserve.Verified
