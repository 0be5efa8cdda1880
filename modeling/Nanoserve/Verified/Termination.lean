import Nanoserve.Verified.Passes
import Nanoserve.Verified.Lengths
import Mathlib.Data.Prod.Lex
import Mathlib.Order.WithBot

/-! # Draining a list of requests ends

Preemption throws work away, so neither the tokens produced nor the sequences running count down.
-/

namespace Nanoserve.Verified

open Engine Lib List Machine BatchedPagedCache
open ContinuousBatchingEngine

variable {X V L S : Type} {cfg : Config X V L S}
variable {req : Nat}

def oldestLeft (engine : EngineState V S) : WithTop Nat :=
  match engine.running with
  | [] => ⊤
  | seq :: _ =>
    WithTop.some ((engine.requests seq.request).params.maxTokens - (engine.requests seq.request).outputLen)

def workLeft (engine : EngineState V S) : Nat ×ₗ (WithTop Nat ×ₗ Nat) :=
  toLex (engine.waiting.length + engine.running.length, toLex (oldestLeft engine, engine.running.length))

section WorkLeft

variable {before after : EngineState V S}

theorem workLeft_lt_of_ended (fewer : after.waiting.length + after.running.length <
    before.waiting.length + before.running.length) : workLeft after < workLeft before :=
  Prod.Lex.toLex_lt_toLex.mpr (.inl fewer)

theorem workLeft_lt_of_oldest (same : after.waiting.length + after.running.length =
    before.waiting.length + before.running.length) (less : oldestLeft after < oldestLeft before) :
    workLeft after < workLeft before :=
  Prod.Lex.toLex_lt_toLex.mpr (.inr ⟨same, Prod.Lex.toLex_lt_toLex.mpr (.inl less)⟩)

theorem workLeft_lt_of_running (same : after.waiting.length + after.running.length =
    before.waiting.length + before.running.length) (oldest : oldestLeft after = oldestLeft before)
    (fewer : after.running.length < before.running.length) : workLeft after < workLeft before :=
  Prod.Lex.toLex_lt_toLex.mpr (.inr ⟨same, Prod.Lex.toLex_lt_toLex.mpr (.inr ⟨oldest, fewer⟩)⟩)

end WorkLeft

theorem Proceeds.workLeft_lt {before after : EngineState V S} (proceeds : Proceeds before after)
    (ended : before.numFinished < after.numFinished) : workLeft after < workLeft before := by
  have counted := proceeds.counted
  exact workLeft_lt_of_ended (by omega)

section Decode

variable {m : Machine V S} {done ended : List Nat} {next : EngineState V S}

theorem decode_settles (memory : Memory cfg m) (idle : m.pending = [])
    (busy : m.engine.running ≠ []) (once : (m.engine.running.map Sequence.request).Nodup)
    (enough : need m.engine.pool m.engine.running ≤
      m.engine.pool.allocator.numFree)
    (decoded : decode cfg m.engine done = .ok (ended, next)) :
    m.engine.numFinished < next.numFinished ∨ oldestLeft next < oldestLeft m.engine := by
  rcases decode_cases memory.stock idle busy done with ⟨_, -⟩ | ⟨-, _, grown, tokens, _, names, rows, result, step⟩
  · omega
  · rw [decoded] at result
    have settling := memory.transition step
    have batchNames : (grown.zip tokens).map (fun row => row.1.request) =
        m.engine.running.map Sequence.request := by
      rw [← names, ← rows, map_map]
      simp only [rows]
      rfl
    -- The first row of the batch belongs to the oldest sequence.
    obtain ⟨oldest, _, runningEq⟩ := exists_cons_of_ne_nil busy
    rw [runningEq, map_cons] at batchNames once
    obtain ⟨⟨seq, _⟩, batch, batchEq⟩ : ∃ row batch, grown.zip tokens = row :: batch := by
      cases batchIs : grown.zip tokens with
      | nil => simp [batchIs] at batchNames
      | cons row batch => exact ⟨row, batch, rfl⟩
    rw [batchEq] at settling result batchNames
    simp only [map_cons, cons.injEq] at batchNames
    obtain ⟨sameRequest, otherNames⟩ := batchNames
    have alone : seq.request ∉ batch.map fun row => row.1.request := by
      rw [otherNames, sameRequest]
      exact (nodup_cons.mp once).1
    rcases settle_oldest m settling.stock result.symm alone with ended | ⟨⟨rest, stays⟩, recorded, left⟩
    · exact .inl ended
    · right
      simp only [oldestLeft, stays, runningEq, ← sameRequest, recorded, Request.params_recordToken,
        Request.outputLen_recordToken, WithTop.coe_lt_coe]
      simp only at left
      omega

theorem decode_preempts (memory : Memory cfg m) (idle : m.pending = [])
    (once : (m.engine.running.map Sequence.request).Nodup)
    (short : m.engine.pool.allocator.numFree <
      need m.engine.pool m.engine.running)
    (decoded : decode cfg m.engine done = .ok (ended, next)) :
    ∃ front victim, m.engine.running = front ++ [victim] ∧ next.running = front ∧
      (front ≠ [] → oldestLeft next = oldestLeft m.engine) := by
  have busy : m.engine.running ≠ [] := by
    intro nothing
    simp [nothing, need] at short
  rcases decode_cases memory.stock idle busy done with
    ⟨-, front, victim, pool, cache, runningEq, -, result⟩ | ⟨enough, -⟩
  · rw [decoded] at result
    cases result
    refine ⟨front, victim, runningEq, rfl, ?_⟩
    intro others
    obtain ⟨oldest, _, frontEq⟩ := exists_cons_of_ne_nil others
    have differs : oldest.request ≠ victim.request := by
      rw [runningEq, frontEq] at once
      simp only [cons_append, map_cons, map_append, nodup_cons, mem_append, not_or] at once
      intro same
      exact once.1.2 (by simp [same])
    simp only [oldestLeft, runningEq, frontEq, cons_append, Function.update_of_ne differs]
  · omega

end Decode

/-! ## One round -/

structure Quiet (cfg : Config X V L S) (machine : Machine V S) : Prop where
  memory : Memory cfg machine
  idle : machine.pending = []
  orderly : Orderly cfg.maxBatchSize machine.ledger
  fresh : machine.ledger.Fresh
  distinct : machine.session.submitted.Nodup
  budgeted : Budgeted machine
  metered : Metered machine
  uncached : Uncached machine.engine.prefixCache
  quiet : machine.engine.cancelRequested = []

namespace Quiet

variable {m next : Machine V S}

theorem reaches (quiet : Quiet cfg m) (steps : Reaches cfg m next) (idle : next.pending = [])
    (distinct : next.session.submitted.Nodup) (uncancelled : next.engine.cancelRequested = []) : Quiet cfg next := by
  have memory := quiet.memory
  have ledgerSteps := Reaches.ledgerSteps memory.stock steps
  exact ⟨memory.reaches steps, idle, quiet.orderly.steps ledgerSteps, ledgerSteps.fresh quiet.fresh, distinct,
    quiet.budgeted.reaches memory.stock quiet.orderly quiet.fresh steps distinct,
    quiet.metered.reaches memory.stock quiet.orderly quiet.fresh steps distinct,
    quiet.uncached.reaches memory.stock steps, uncancelled⟩

theorem new (numBlocks : Nat) {size : Nat} (zero : V) (clients : Nat → Submission) (rng : S)
    (pos : 0 < size) :
    Quiet cfg { session := Session.new cfg numBlocks size false zero clients rng } :=
  ⟨.new numBlocks false zero rng pos nofun, rfl, .new .., fun _ _ _ => rfl, nodup_nil, .new .., .new ..,
    ⟨rfl, rfl⟩, rfl⟩

section

variable (quiet : Quiet cfg m)
include quiet

theorem running_nodup : (m.engine.running.map Sequence.request).Nodup := by
  have once := quiet.orderly.active_nodup quiet.distinct
  simpa [ledger, seqs, quiet.idle] using once

theorem ended (known : req ∈ m.session.submitted)
    (notWaiting : req ∉ m.engine.waiting) (nobody : m.engine.running = []) :
    req ∈ m.session.outcomes ∧ (m.engine.requests req).finishReason.isSome := by
  have once := quiet.orderly.partition req
  have submitted := count_pos_iff.mpr known
  have unqueued := count_eq_zero.mpr notWaiting
  simp only [Ledger.standing, ledger, seqs, quiet.idle, nobody, map_nil, append_nil,
    count_nil, unqueued] at once
  have reported : req ∈ m.session.outcomes := count_pos_iff.mp (by omega)
  exact ⟨reported, (quiet.orderly.ended req).mpr reported⟩

theorem ended_of_done (done : hasWork m.engine = false)
    (known : req ∈ m.session.submitted) : (m.engine.requests req).finishReason.isSome := by
  simp only [hasWork, Bool.or_eq_false_iff, Bool.not_eq_false', List.isEmpty_iff] at done
  have notWaiting : req ∉ m.engine.waiting := by
    rw [done.1]
    exact not_mem_nil
  exact (quiet.ended known notWaiting done.2).2

theorem unended_of_queued (queued : req ∈ m.engine.waiting) :
    (m.engine.requests req).finishReason = none := by
  rw [← Option.not_isSome_iff_eq_none]
  intro ended
  exact (quiet.orderly.queued quiet.distinct queued).2 ((quiet.orderly.ended req).mp ended)

theorem round :
    ∃ next : Machine V S,
      runRound cfg (m.engine, m.session.drainedFinished) = .ok (next.engine, next.session.drainedFinished) ∧
      Quiet cfg next ∧ Reaches cfg m next ∧ next.session.submitted = m.session.submitted ∧
      Proceeds m.engine next.engine ∧
      ∃ ended engine, step cfg m.engine = .ok (ended, engine) ∧ workLeft next.engine = workLeft engine := by
  obtain ⟨ended, engine, _, went, -, steps⟩ := step_steps quiet.memory.stock quiet.idle
  have proceeds := step_proceeds quiet.memory.stock quiet.idle quiet.quiet went
  have drained := (steps.tail (.drainEmitted _)).tail (.drainFinished _)
  refine ⟨_, ?_, quiet.reaches drained quiet.idle quiet.distinct (proceeds.cancelRequested.trans quiet.quiet), drained, rfl,
    ⟨proceeds.cancelRequested, proceeds.counted, proceeds.grows, proceeds.natural⟩, ended, engine, went, rfl⟩
  simp only [runRound, went]
  rfl

end

end Quiet

/-- The pool can take the request when nothing else runs, and hold it to its end. -/
structure Servable (cfg : Config X V L S) (numBlocks blockSize : Nat) (request : Request) : Prop where
  admissible : ceilDiv request.promptLen blockSize + 1 + max cfg.reserveBlocks 1 ≤ numBlocks
  completable : ceilDiv (request.promptLen + request.params.maxTokens - 1) blockSize ≤ numBlocks

structure Underway (cfg : Config X V L S) (machine : Machine V S) : Prop extends Quiet cfg machine where
  servable : ∀ request ∈ machine.session.submitted,
    Servable cfg machine.engine.pool.allocator.numBlocks machine.engine.pool.blockSize (machine.engine.requests request)

namespace Underway

variable {m next : Machine V S}

theorem still_servable (steps : Reaches cfg m next) (memory : Memory cfg m)
    (servable : Servable cfg m.engine.pool.allocator.numBlocks m.engine.pool.blockSize (m.engine.requests req)) :
    Servable cfg next.engine.pool.allocator.numBlocks next.engine.pool.blockSize (next.engine.requests req) := by
  have client := steps.sameClient req
  have shape := memory.stock.sameShape_reaches steps
  rw [shape.numBlocks, shape.blockSize]
  refine ⟨?_, ?_⟩
  · rw [client.promptLen]
    exact servable.admissible
  · rw [client.promptLen, client.params]
    exact servable.completable

section

variable (underway : Underway cfg m)
include underway

theorem later (quiet : Quiet cfg next) (steps : Reaches cfg m next)
    (submitted : next.session.submitted = m.session.submitted) : Underway cfg next :=
  ⟨quiet, fun req known =>
    still_servable steps underway.memory (underway.servable req (submitted ▸ known))⟩

theorem alone_fits {seq : Sequence} (alone : m.engine.running = [seq]) :
    need m.engine.pool m.engine.running ≤ m.engine.pool.allocator.numFree := by
  have memory := underway.memory
  have mem : seq ∈ m.engine.running := by simp [alone]
  have pos := memory.positive
  have beside := memory.free_beside underway.idle underway.uncached alone
  have tokens := underway.metered.running seq mem
  have budget := underway.budgeted.running seq mem
  have known : seq.request ∈ m.session.submitted :=
    underway.orderly.known_active (by simp [ledger, seqs, alone])
  have completable := (underway.servable seq.request known).completable
  rw [memory.need_alone underway.idle underway.uncached alone]
  split
  · next boundary =>
    -- One more token starts a block, and the request was to fit with that token.
    have below := (ceilDiv_le_iff pos).mp completable
    have fewer : ceilDiv seq.cache.numTokens m.engine.pool.blockSize <
        m.engine.pool.allocator.numBlocks :=
      ceilDiv_lt_of_mod_eq_zero pos boundary (by omega)
    omega
  · exact Nat.zero_le _

theorem admits_somebody (slots : 0 < cfg.maxBatchSize)
    (busy : hasWork m.engine = true) (nobody : m.engine.running = []) {newSeqs : List Sequence}
    {admitted : EngineState V S} (admits : Admits cfg m.engine [] m.engine.waiting newSeqs admitted)
    (none : newSeqs = []) : m.engine.numFinished < admitted.numFinished := by
  have memory := underway.memory
  have waits : m.engine.waiting ≠ [] := by simpa [hasWork, nobody] using busy
  obtain ⟨req, rest, queueEq⟩ := exists_cons_of_ne_nil waits
  by_contra same
  have counted := admits.counted
  have grows := admits.grows
  rw [none, length_nil] at counted
  have unpopped := admits.popped.eq_of_length (by omega)
  have known : req ∈ m.session.submitted := by
    have once := underway.orderly.partition req
    have standing : 0 < m.ledger.waiting.count req :=
      count_pos_iff.mpr (by simp [ledger, queueEq])
    simp only [Ledger.standing] at once
    exact count_pos_iff.mp (by simp only [ledger] at once standing; omega)
  have admissible := (underway.servable req known).admissible
  have free := memory.all_free underway.idle underway.uncached nobody
  rcases admits.stops req rest queueEq unpopped with full | noRoom
  · rw [nobody, append_nil, length_nil] at full
    omega
  · rw [nobody, append_nil, underway.uncached.spare] at noRoom
    simp only [admissionNeed, blocksNeeded, length_nil, Nat.zero_add] at noRoom
    omega

theorem oldestLeft_scheduled {newSeqs : List Sequence} {admitted : EngineState V S}
    (admits : Admits cfg m.engine [] m.engine.waiting newSeqs admitted)
    (somebody : m.engine.running ≠ []) :
    oldestLeft { admitted with running := admitted.running ++ newSeqs } = oldestLeft m.engine := by
  obtain ⟨oldest, _, runningEq⟩ := exists_cons_of_ne_nil somebody
  have outside : oldest.request ∉ m.engine.waiting := by
    intro queued
    exact (underway.orderly.queued underway.distinct queued).1 (by simp [ledger, seqs, runningEq])
  simp only [oldestLeft, admits.running, runningEq, cons_append, admits.others _ outside]

theorem step_workLeft_lt (slots : 0 < cfg.maxBatchSize)
    (busy : hasWork m.engine = true) {ended : List Nat} {next : EngineState V S}
    (went : step cfg m.engine = .ok (ended, next)) : workLeft next < workLeft m.engine := by
  have memory := underway.memory
  have idle := underway.idle
  obtain ⟨newSeqs, _, admitted, scheduled, admits, first⟩ := schedule_admits memory.stock idle underway.quiet
  have whole := step_proceeds memory.stock idle underway.quiet went
  -- From here on nobody ends in this step, so as many requests are left as before.
  by_cases more : m.engine.numFinished < next.numFinished
  · exact whole.workLeft_lt more
  have counted := whole.counted
  have grows := whole.grows
  let engine : EngineState V S := { admitted with running := admitted.running ++ newSeqs }
  have proceeds := admits.proceeds
  have middle : Underway cfg (m.withEngine engine) := underway.later
    (underway.reaches first idle underway.distinct (proceeds.cancelRequested.trans underway.quiet)) first rfl
  have runningEq : engine.running = m.engine.running ++ newSeqs := by simp only [engine, admits.running]
  simp only [step, scheduled] at went
  by_cases nothing : engine.running = []
  · obtain ⟨nobody, none⟩ := append_eq_nil_iff.mp (runningEq.symm.trans nothing)
    have ended := underway.admits_somebody slots busy nobody admits none
    rw [if_pos (List.isEmpty_iff.mpr nothing)] at went
    simp only [Except.ok.injEq, Prod.mk.injEq] at went
    rw [← went.2] at more
    exact absurd ended more
  · rw [if_neg (by rw [List.isEmpty_iff]; exact nothing)] at went
    by_cases short : engine.pool.allocator.numFree < need engine.pool engine.running
    · obtain ⟨front, victim, split, nextRunning, oldest⟩ :=
        decode_preempts middle.memory idle middle.running_nodup short went
      have others : front ≠ [] := by
        rintro rfl
        exact Nat.not_lt.mpr (middle.alone_fits split) short
      have nobodyNew : newSeqs = [] := by
        by_contra joined
        have room : engine.running.length ≤ engine.pool.allocator.numFree := admits.room (.inr joined)
        have need := need_le_length engine.pool engine.running
        omega
      rw [nobodyNew, append_nil] at runningEq
      refine workLeft_lt_of_running (by omega)
        ((oldest others).trans (underway.oldestLeft_scheduled admits (runningEq ▸ nothing))) ?_
      rw [← runningEq, nextRunning, show engine.running = front ++ [victim] from split, length_append]
      exact Nat.lt_succ_self _
    · have bound : oldestLeft engine ≤ oldestLeft m.engine := by
        by_cases nobody : m.engine.running = []
        · simp only [oldestLeft, nobody, le_top]
        · exact (underway.oldestLeft_scheduled admits nobody).le
      rcases decode_settles middle.memory idle nothing middle.running_nodup (Nat.le_of_not_lt short) went with
        ended | less
      · exact absurd (proceeds.grows.trans_lt ended) more
      · exact workLeft_lt_of_oldest (by omega) (less.trans_le bound)

end

end Underway

/-! ## The whole list -/

section AddAll

variable (requests : List (Nat × Bool))

theorem after_addAll (sess : Session V S) :
    sess.after cfg (requests.map fun req => .addRequest req.1 req.2) = .ok { sess with
      engine := addAll cfg sess.engine requests
      submitted := sess.submitted ++ requests.map Prod.fst } := by
  induction requests generalizing sess with
  | nil => simp [Session.after, addAll]
  | cons _ _ ih =>
    rw [map_cons, Session.after, run_cons_ok _ rfl]
    refine (ih _).trans ?_
    simp [addAll]

theorem addAll_frame (engine : EngineState V S) :
    (addAll cfg engine requests).running = engine.running ∧
      (addAll cfg engine requests).cancelRequested = engine.cancelRequested ∧
      (∀ req, ((addAll cfg engine requests).requests req).finishReason =
          (engine.requests req).finishReason ∨
        ((addAll cfg engine requests).requests req).finishReason = some .rejected) ∧
      (cfg.admission = none →
        (addAll cfg engine requests).waiting = engine.waiting ++ requests.map Prod.fst) := by
  induction requests generalizing engine with
  | nil => exact ⟨rfl, rfl, fun _ => .inl rfl, fun _ => (append_nil _).symm⟩
  | cons added requests ih =>
    obtain ⟨running, cancelRequested, reasons, waiting⟩ :=
      ih (addRequest cfg engine added.1 added.2)
    have unfolded : addAll cfg engine (added :: requests) =
      addAll cfg (addRequest cfg engine added.1 added.2) requests := rfl
    rw [unfolded]
    cases verdict : cfg.admission.bind fun config => admissionReason config engine.waiting.length added.2 with
    | some reason =>
      have rejected : addRequest cfg engine added.1 added.2 = reject cfg engine added.1 reason := by
        simp only [addRequest, verdict]
      rw [rejected] at running cancelRequested reasons ⊢
      refine ⟨running, cancelRequested, fun req => ?_, fun none => ?_⟩
      · rcases reasons req with same | ended
        · by_cases here : req = added.1
          · subst here
            exact .inr (same.trans (by simp [reject, finish, recordFinished, Request.finish]))
          · exact .inl (same.trans (by simp [reject, finish, recordFinished, Function.update_of_ne here]))
        · exact .inr ended
      · simp [none] at verdict
    | none =>
      have queued : addRequest cfg engine added.1 added.2 =
        { engine with waiting := engine.waiting ++ [added.1] } := by simp only [addRequest, verdict]
      rw [queued] at running cancelRequested reasons waiting ⊢
      refine ⟨running, cancelRequested, reasons, fun none => ?_⟩
      rw [waiting none, append_assoc]
      rfl

end AddAll

theorem Quiet.arrived {numBlocks size : Nat} {zero : V} {clients : Nat → Submission} {rng : S}
    {requests : List (Nat × Bool)} (pos : 0 < size) (distinct : (requests.map Prod.fst).Nodup) :
    ∃ start : Machine V S, Quiet cfg start ∧ start.session.submitted = requests.map Prod.fst ∧
      start.session.drainedFinished = [] ∧
      start.engine = addAll cfg (Session.new cfg numBlocks size false zero clients rng).engine requests ∧
      Reaches cfg { session := Session.new cfg numBlocks size false zero clients rng } start := by
  have booted := @Quiet.new X V L S cfg numBlocks size zero clients rng pos
  obtain ⟨start, ran, idle, arrival, -⟩ :=
    run_steps booted.memory.stock rfl (requests.map fun req => Call.addRequest req.1 req.2)
  rw [after_addAll] at ran
  simp only [Except.ok.injEq] at ran
  have engineEq : start.engine =
      addAll cfg (Session.new cfg numBlocks size false zero clients rng).engine requests := by
    rw [engine, ← ran]
  have submitted : start.session.submitted = requests.map Prod.fst := by
    rw [← ran]
    exact nil_append _
  refine ⟨start, booted.reaches arrival idle (submitted ▸ distinct) ?_, submitted, by rw [← ran]; rfl, engineEq, arrival⟩
  rw [engineEq]
  exact (addAll_frame requests _).2.1

structure Continued (cfg : Config X V L S) (start machine : Machine V S) : Prop extends Underway cfg machine where
  steps : Reaches cfg start machine
  submitted : machine.session.submitted = start.session.submitted
  natural : ∀ request, Natural (start.engine.requests request) (machine.engine.requests request)

section Continued

variable {start m : Machine V S}

theorem Continued.round_lt (continued : Continued cfg start m) (slots : 0 < cfg.maxBatchSize)
    (busy : hasWork m.engine = true) :
    ∃ next : Machine V S,
      runRound cfg (m.engine, m.session.drainedFinished) = .ok (next.engine, next.session.drainedFinished) ∧
      Continued cfg start next ∧ workLeft next.engine < workLeft m.engine := by
  obtain ⟨next, ran, quiet, more, same, proceeds, _, _, went, left⟩ := continued.round
  refine ⟨next, ran, ?_, left.trans_lt (continued.step_workLeft_lt slots busy went)⟩
  exact {
    toUnderway := continued.later quiet more same
    steps := continued.steps.trans more
    submitted := same.trans continued.submitted
    natural := fun req => (continued.natural req).trans (proceeds.natural req) }

def Between (cfg : Config X V L S) (start : Machine V S) (state : EngineState V S × List Nat) : Prop :=
  ∃ machine : Machine V S, (machine.engine, machine.session.drainedFinished) = state ∧ Continued cfg start machine

theorem Between.progress {state : EngineState V S × List Nat} (between : Between cfg start state)
    (slots : 0 < cfg.maxBatchSize) (busy : hasWork state.1 = true) :
    ∃ next, runRound cfg state = .ok next ∧ Between cfg start next ∧ workLeft next.1 < workLeft state.1 := by
  obtain ⟨_, rfl, continued⟩ := between
  obtain ⟨next, ran, held, less⟩ := continued.round_lt slots busy
  exact ⟨_, ran, ⟨next, rfl, held⟩, less⟩

theorem Underway.loop_ends (underway : Underway cfg start) (slots : 0 < cfg.maxBatchSize) :
    ∃ fuel, ∃ last : Machine V S,
      loop (fun state => hasWork state.1) (runRound cfg) fuel (start.engine, start.session.drainedFinished) =
        .ok (some (last.engine, last.session.drainedFinished)) ∧
      Continued cfg start last ∧ hasWork last.engine = false := by
  have initially : Between cfg start (start.engine, start.session.drainedFinished) :=
    ⟨start, rfl, underway, .refl, rfl, fun _ => .refl _⟩
  obtain ⟨fuel, _, looped, ⟨last, rfl, continued⟩, done⟩ :=
    loop_halts (fun state : EngineState V S × List Nat => workLeft state.1)
      (fun _ between busy => between.progress slots busy) initially
  exact ⟨fuel, last, looped, continued, done⟩

theorem Continued.ended_naturally (continued : Continued cfg start m) (underway : Underway cfg start)
    (done : hasWork m.engine = false) (known : req ∈ start.session.submitted)
    (queued : req ∈ start.engine.waiting) :
    (m.engine.requests req).finishReason = some .eos ∨
      (m.engine.requests req).finishReason = some .length := by
  have lastEnded := continued.ended_of_done done (continued.submitted ▸ known)
  rcases continued.natural req with same | ended
  · rw [same, underway.unended_of_queued queued] at lastEnded
    cases lastEnded
  · exact ended

theorem Continued.same_outcome (continued : Continued cfg start m) (underway : Underway cfg start)
    (reported : req ∈ start.session.outcomes) :
    (m.engine.requests req).finishReason = (start.engine.requests req).finishReason := by
  have settled := (Reaches.ledgerSteps underway.memory.stock continued.steps).settled underway.orderly continued.distinct
    reported
  have same : m.engine.requests req = start.engine.requests req := settled.1
  rw [same]

end Continued

/-- Every list of requests each of which the pool can take and hold on its own is drained, whatever
the model samples and however often sequences are thrown out: the requests taken up end because of
their tokens. -/
theorem run_terminates (cfg : Config X V L S) (numBlocks blockSize : Nat) (zero : V) (clients : Nat → Submission)
    (rng : S) (requests : List (Nat × Bool)) (positive : 0 < blockSize) (slots : 0 < cfg.maxBatchSize)
    (distinct : (requests.map Prod.fst).Nodup)
    (servable : ∀ request ∈ requests.map Prod.fst, Servable cfg numBlocks blockSize (clients request).request) :
    let engine := (Session.new cfg numBlocks blockSize false zero clients rng).engine
    ∃ fuel out last, ContinuousBatchingEngine.run cfg fuel engine requests = .ok (some (out, last)) ∧
      (∀ request ∈ requests.map Prod.fst, if request ∈ (addAll cfg engine requests).waiting then
          (last.requests request).finishReason = some .eos ∨ (last.requests request).finishReason = some .length
        else (last.requests request).finishReason = some .rejected) ∧
      (cfg.admission = none → (addAll cfg engine requests).waiting = requests.map Prod.fst) := by
  intro engine
  obtain ⟨start, quiet, startSubmitted, startDrained, startEngine, arrival⟩ :=
    Quiet.arrived positive distinct
  have underway : Underway cfg start := ⟨quiet, fun request known =>
    Underway.still_servable arrival (Quiet.new numBlocks zero clients rng positive).memory
      (servable request (startSubmitted ▸ known))⟩
  obtain ⟨runningEq, -, reasons, waiting⟩ := addAll_frame requests engine
  obtain ⟨fuel, last, looped, continued, done⟩ := underway.loop_ends slots
  have ran : loop (fun state => hasWork state.1) (runRound cfg) fuel (addAll cfg engine requests, []) =
      .ok (some (last.engine, last.session.drainedFinished)) := by
    rw [← looped, startEngine, startDrained]
  refine ⟨fuel, _, _, by simp only [ContinuousBatchingEngine.run, ran]; rfl, ?_,
    fun none => by rw [waiting none]; rfl⟩
  intro request asked
  have known : request ∈ start.session.submitted := startSubmitted ▸ asked
  have nobody : start.engine.running = [] := by rw [startEngine, runningEq]; rfl
  rw [← startEngine] at reasons ⊢
  split
  · next queued => exact continued.ended_naturally underway done known queued
  · next turnedAway =>
    obtain ⟨reported, startEnded⟩ := underway.ended known turnedAway nobody
    have rejected : (start.engine.requests request).finishReason = some .rejected := by
      rcases reasons request with same | rejected
      · rw [same] at startEnded
        cases startEnded
      · exact rejected
    exact (continued.same_outcome underway reported).trans rejected

def rivals (client : Nat) : Submission where
  promptTokenIds := [5]
  params := { maxTokens := 5 }
  requestId := if client = 0 then "first" else "second"
  nonempty := five_ne_nil

abbrev rivalry : EngineState Nat Unit := (Session.new counting 6 1 false 0 rivals ()).engine

theorem servable_rivals (unreserved : cfg.reserveBlocks = 0) (req : Nat) :
    Servable cfg 6 1 (rivals req).request where
  admissible := by
    rw [unreserved]
    exact (by decide : ceilDiv 1 1 + 1 + max 0 1 ≤ 6)
  completable := (by decide : ceilDiv (1 + 5 - 1) 1 ≤ 6)

theorem run_terminates_rivals :
    0 < 1 ∧ 0 < counting.maxBatchSize ∧ ([(0, false), (1, false)].map Prod.fst).Nodup ∧
      (∀ request, Servable counting 6 1 (rivals request).request) ∧
      ∃ fuel out last, ContinuousBatchingEngine.run counting fuel rivalry
          [(0, false), (1, false)] = .ok (some (out, last)) ∧
        (∀ request ∈ [(0, false), (1, false)].map Prod.fst,
          if request ∈ (addAll counting rivalry
              [(0, false), (1, false)]).waiting then
            (last.requests request).finishReason = some .eos ∨ (last.requests request).finishReason = some .length
          else (last.requests request).finishReason = some .rejected) ∧
        (counting.admission = none → (addAll counting rivalry
          [(0, false), (1, false)]).waiting = [(0, false), (1, false)].map Prod.fst) :=
  ⟨Nat.one_pos, by decide, by decide, servable_rivals rfl,
    run_terminates counting 6 1 0 rivals () [(0, false), (1, false)] Nat.one_pos (by decide) (by decide)
      fun request _ => servable_rivals rfl request⟩

example : Yields (ContinuousBatchingEngine.run counting 12 rivalry
    [(0, false), (1, false)]) fun drained => drained.any fun (out, last) => out = [0, 1] ∧ last.preemptions = 1 := by
  decide +kernel

/-- An admission controller turns the second of two requests away. -/
theorem some_runs_reject_or_never_end :
    (∀ request, Servable { counting with admission := some { maxQueueDepth := some 1 } } 6 1 (rivals request).request) ∧
    (∀ request, Servable { counting with maxBatchSize := 0 } 6 1 (rivals request).request) ∧
    (Yields (ContinuousBatchingEngine.run { counting with admission := some { maxQueueDepth := some 1 } } 12
      rivalry [(0, false), (1, false)]) fun drained =>
        drained.any fun (_, last) => (last.requests 1).finishReason = some .rejected) ∧
    ∀ fuel, ContinuousBatchingEngine.run { counting with maxBatchSize := 0 } fuel
      rivalry [(0, false)] = .ok none := by
  refine ⟨servable_rivals rfl, servable_rivals rfl, by decide +kernel, fun fuel => ?_⟩
  let queued := addAll { counting with maxBatchSize := 0 } rivalry [(0, false)]
  have stays : ∀ state, state = (queued, []) → hasWork state.1 = true ∧
      ∃ next, runRound { counting with maxBatchSize := 0 } state = .ok next ∧ next = (queued, []) := by
    rintro _ rfl
    exact ⟨rfl, _, rfl, rfl⟩
  have looped := loop_forever stays rfl fuel
  simp only [ContinuousBatchingEngine.run]
  rw [show addAll { counting with maxBatchSize := 0 } rivalry
    [(0, false)] = queued from rfl, looped]

end Nanoserve.Verified
