import Nanoserve.Verified.Termination

/-! # Requests the pool cannot serve

Two kinds of requests are larger than the pool.
-/

namespace Nanoserve.Verified

open Engine Lib List Machine
open ContinuousBatchingEngine
open PrefixCache (hashChain)

variable {X V L S : Type} {cfg : Config X V L S}
variable {state : EngineState V S × List Nat} {m : Machine V S} {req : Nat}

/-! ## Prompts that do not fit -/

structure Blocked (cfg : Config X V L S) (machine : Machine V S) (request : Nat) : Prop where
  stock : Stock cfg machine
  idle : machine.pending = []
  nobody : machine.engine.running = []
  head : ∃ behind, machine.engine.waiting = request :: behind
  uncancelled : (machine.engine.requests request).requestId ∉ machine.engine.cancelRequested
  oversized : machine.engine.pool.allocator.numBlocks < admissionNeed cfg machine.engine request

theorem cancelWaiting_running (requests : List Nat) (engine : EngineState V S) :
    (cancelWaiting cfg engine requests).running = engine.running := by
  induction requests generalizing engine with
  | nil => rfl
  | cons _ _ ih => exact ih _

theorem applyCancellations_idle {engine : EngineState V S} (nobody : engine.running = []) :
    ∃ cancelled next, applyCancellations cfg engine = .ok (cancelled, next) ∧ next.running = [] ∧
      next.waiting = engine.waiting.filter (fun req => !wants engine engine.cancelRequested req) ∧
      next.cancelRequested = [] ∧
      ∀ req, wants engine engine.cancelRequested req = false → next.requests req = engine.requests req := by
  by_cases quiet : engine.cancelRequested = []
  · refine ⟨[], engine, applyCancellations_quiet quiet, nobody, ?_, quiet, fun _ _ => rfl⟩
    simp [wants, quiet]
  · let filtered : EngineState V S :=
      { engine with
        cancelRequested := []
        running := []
        waiting := engine.waiting.filter fun req => !wants engine engine.cancelRequested req }
    let queued := engine.waiting.filter (wants engine engine.cancelRequested)
    obtain ⟨waiting, cancelRequested⟩ := cancelWaiting_frame queued filtered
    refine ⟨queued, cancelWaiting cfg filtered queued, ?_, cancelWaiting_running queued filtered, waiting,
      cancelRequested, ?_⟩
    · rw [applyCancellations, if_neg (by rw [List.isEmpty_iff]; exact quiet)]
      simp only [nobody, filter_nil, cancelRunning, map_nil, nil_append]
      rfl
    · intro req unwanted
      refine cancelWaiting_others queued filtered ?_
      intro mem
      rw [(mem_filter.mp mem).2] at unwanted
      cases unwanted

namespace Blocked

section

variable (blocked : Blocked cfg m req)
include blocked

theorem step :
    ∃ ended next, ContinuousBatchingEngine.step cfg m.engine = .ok (ended, next) ∧
      Blocked cfg (m.withEngine next) req ∧ next.requests req = m.engine.requests req ∧
      next.waiting.Sublist m.engine.waiting := by
  have stock := blocked.stock
  have idle := blocked.idle
  obtain ⟨_, headEq⟩ := blocked.head
  obtain ⟨cancelled, engine, applied, nobody, waiting, quiet, requests⟩ :=
    applyCancellations_idle blocked.nobody
  have unwanted : wants m.engine m.engine.cancelRequested req = false :=
    decide_eq_false blocked.uncancelled
  have kept : ∃ rest, engine.waiting = req :: rest := by
    rw [waiting, headEq, filter_cons_of_pos (by rw [unwanted]; rfl)]
    exact ⟨_, rfl⟩
  obtain ⟨rest, keptEq⟩ := kept
  obtain ⟨_, _, appliedAgain, first⟩ := applyCancellations_steps stock
  rw [applied] at appliedAgain
  cases appliedAgain
  have shape := stock.sameShape_reaches first
  have needEq : admissionNeed cfg engine req = admissionNeed cfg m.engine req := by
    have sizeEq : engine.pool.blockSize = m.engine.pool.blockSize := shape.blockSize
    simp only [admissionNeed, blocksNeeded, nobody, blocked.nobody, requests req unwanted, sizeEq]
  have shown : m.withEngine engine = m.admitting engine [] (req :: rest) := by
    rw [admitting_nil, showing_nil idle, ← keptEq]
  have engineStock := stock.reaches first
  rw [shown] at engineStock
  rcases @admitLoop_cons X V L S cfg m engine [] [] req rest engineStock with
    ⟨pool, prefixCache, stopped, -, -, second⟩ | ⟨_, _, _, -, -, -, -, possible, -⟩
  · have admitted : admitRequests cfg engine = .ok ([], [], { engine with pool, prefixCache, waiting := req :: rest }) := by
      rw [admitRequests, keptEq]
      exact stopped
    have went : ContinuousBatchingEngine.step cfg m.engine =
        .ok (cancelled ++ [], { engine with pool, prefixCache, waiting := req :: rest }) := by
      simp only [ContinuousBatchingEngine.step, schedule, applied, admitted, append_nil, nobody, isEmpty_nil,
        if_true]
    have lastStock := engineStock.reaches second
    have lastShape := engineStock.sameShape_reaches second
    have numBlocksEq : pool.allocator.numBlocks = m.engine.pool.allocator.numBlocks :=
      lastShape.numBlocks.trans shape.numBlocks
    have sizeEq : pool.blockSize = engine.pool.blockSize := lastShape.blockSize
    refine ⟨_, _, went, ⟨?_, idle, nobody, ⟨rest, rfl⟩, ?_, ?_⟩, requests req unwanted, ?_⟩
    · refine lastStock.congr rfl rfl ?_ fun _ => .refl _
      simp [seqs, showing, withEngine, idle, nobody]
    · simp only [withEngine, quiet]
      exact not_mem_nil
    · have same : admissionNeed cfg { engine with pool, prefixCache, waiting := req :: rest } req =
          admissionNeed cfg engine req := by
        simp only [admissionNeed, blocksNeeded, sizeEq]
      simp only [withEngine]
      rw [same, needEq, numBlocksEq]
      exact blocked.oversized
    · rw [← keptEq, waiting]
      exact filter_sublist
  · -- Blocks that can be made free are blocks the pool has.
    rw [append_nil] at possible
    have numBlocksEq := shape.numBlocks
    have oversized := blocked.oversized
    rw [← needEq, ← numBlocksEq] at oversized
    exact absurd possible (Nat.not_le.mpr oversized)

theorem steps (count : Nat) :
    ∃ last, m.session.after cfg (replicate count .step) = .ok last ∧
      (∃ behind, last.engine.waiting = req :: behind) ∧ last.engine.waiting.Sublist m.engine.waiting ∧
      last.engine.running = [] ∧ last.engine.requests req = m.engine.requests req := by
  induction count generalizing m with
  | zero => exact ⟨m.session, rfl, blocked.head, Sublist.refl _, blocked.nobody, rfl⟩
  | succ _ ih =>
    obtain ⟨_, next, went, again, same, fewer⟩ := blocked.step
    obtain ⟨last, ran, head, thinned, nobody, unchanged⟩ := ih again
    have called : m.session.call cfg .step = .ok (m.withEngine next).session := by
      simp only [Session.call, went, withEngine]
    refine ⟨last, ?_, head, thinned.trans fewer, nobody, unchanged.trans same⟩
    rw [replicate_succ, Session.after, run_cons_ok _ called]
    exact ran

theorem addRequest (added : Nat) (late : Bool) :
    Blocked cfg
      { m with
        session := { m.session with
          engine := ContinuousBatchingEngine.addRequest cfg m.engine added late
          submitted := m.session.submitted ++ [added] } } req := by
  have step : Transition cfg m _ := .submit m added late
  have client := step.sameClient req
  obtain ⟨behind, headEq⟩ := blocked.head
  have frame : (ContinuousBatchingEngine.addRequest cfg m.engine added late).running = [] ∧
      (∃ rest, (ContinuousBatchingEngine.addRequest cfg m.engine added late).waiting = req :: rest) ∧
      (ContinuousBatchingEngine.addRequest cfg m.engine added late).cancelRequested =
        m.engine.cancelRequested ∧
      (ContinuousBatchingEngine.addRequest cfg m.engine added late).pool = m.engine.pool := by
    unfold ContinuousBatchingEngine.addRequest
    split
    · exact ⟨blocked.nobody, ⟨behind, headEq⟩, rfl, rfl⟩
    · exact ⟨blocked.nobody, ⟨behind ++ [added], by simp [headEq]⟩, rfl, rfl⟩
  obtain ⟨nobody, head, cancelRequested, pool⟩ := frame
  refine ⟨blocked.stock.transition step, blocked.idle, nobody, head, ?_, ?_⟩
  · rw [client.requestId, cancelRequested]
    exact blocked.uncancelled
  · have oversized := blocked.oversized
    simp only [admissionNeed, blocksNeeded, engine, nobody, pool, client.promptLen] at oversized ⊢
    rw [blocked.nobody] at oversized
    exact oversized

end

theorem addAll (requests : List (Nat × Bool)) (blocked : Blocked cfg m req) :
    ∃ next : Machine V S, next.engine = ContinuousBatchingEngine.addAll cfg m.engine requests ∧
      Blocked cfg next req := by
  induction requests generalizing m with
  | nil => exact ⟨m, rfl, blocked⟩
  | cons added _ ih => exact ih (blocked.addRequest added.1 added.2)

def InRun (cfg : Config X V L S) (request : Nat) (state : EngineState V S × List Nat) : Prop :=
  ∃ machine : Machine V S, machine.engine = state.1 ∧ Blocked cfg machine request

theorem InRun.stays (inRun : InRun cfg req state) :
    hasWork state.1 = true ∧ ∃ next, runRound cfg state = .ok next ∧ InRun cfg req next := by
  obtain ⟨_, _⟩ := state
  obtain ⟨m, rfl, blocked⟩ := inRun
  obtain ⟨_, headEq⟩ := blocked.head
  obtain ⟨_, next, went, again, -⟩ := blocked.step
  refine ⟨by simp [hasWork, headEq], _, by simp only [runRound, went]; rfl, ?_⟩
  exact ⟨m.withEngine { next with emitted := [], newlyFinished := [] }, rfl,
    ⟨again.stock.congr rfl rfl rfl fun _ => .refl _, again.idle, again.nobody, again.head, again.uncancelled,
      again.oversized⟩⟩

theorem run_never_returns (blocked : Blocked cfg m req) (fuel : Nat) (requests : List (Nat × Bool)) :
    ContinuousBatchingEngine.run cfg fuel m.engine requests = .ok none := by
  obtain ⟨start, startEq, startBlocked⟩ := blocked.addAll requests
  have initially : InRun cfg req (ContinuousBatchingEngine.addAll cfg m.engine requests, []) :=
    ⟨start, startEq, startBlocked⟩
  have forever := loop_forever (fun _ inRun => InRun.stays inRun) initially fuel
  simp only [ContinuousBatchingEngine.run, forever]

end Blocked

theorem step_rejects_nobody {ended : List Nat} {next : EngineState V S} (stock : Stock cfg m)
    (idle : m.pending = []) (went : step cfg m.engine = .ok (ended, next)) (req : Nat)
    (rejected : (next.requests req).finishReason = some .rejected) :
    (m.engine.requests req).finishReason = some .rejected := by
  obtain ⟨_, _, applied, proceeds⟩ := step_cases stock idle went
  rcases proceeds.natural req with same | ended | ended
  · rcases applyCancellations_withdrawn applied req with before | ended
    · rw [← before, ← same, rejected]
    · rw [rejected, ended] at same
      cases same
  · rw [rejected] at ended
    cases ended
  · rw [rejected] at ended
    cases ended

/-- A head of the queue that needs more blocks than the pool has is not rejected, although nothing
runs. -/
theorem oversized_head_is_never_rejected (cfg : Config X V L S) (numBlocks blockSize : Nat) (enablePrefixCache : Bool)
    (zero : V) (clients : Nat → Submission) (rng : S) (positive : 0 < blockSize)
    (calls : List Call) {session : Session V S}
    (ran : (Session.new cfg numBlocks blockSize enablePrefixCache zero clients rng).after cfg calls = .ok session)
    {request : Nat} {behind : List Nat} (nobody : session.engine.running = [])
    (queued : session.engine.waiting = request :: behind)
    (oversized : numBlocks <
      ceilDiv (clients request).promptTokenIds.length blockSize + 1 + max cfg.reserveBlocks 1) :
    (∃ ended next, step cfg session.engine = .ok (ended, next) ∧
      ((next.requests request).finishReason = some .rejected →
        (session.engine.requests request).finishReason = some .rejected)) ∧
    ((session.engine.requests request).requestId ∉ session.engine.cancelRequested →
      (∀ count, ∃ last, session.after cfg (List.replicate count .step) = .ok last ∧
        (∃ rest, last.engine.waiting = request :: rest) ∧ last.engine.waiting.Sublist (request :: behind) ∧
        last.engine.running = [] ∧ last.engine.requests request = session.engine.requests request) ∧
      ∀ fuel requests, ContinuousBatchingEngine.run cfg fuel session.engine requests = .ok none) := by
  have booted := @Stock.new X V L S cfg numBlocks blockSize enablePrefixCache zero clients rng positive
  obtain ⟨machine, reached, idle, steps, -⟩ := run_steps booted rfl calls
  rw [ran] at reached
  simp only [Except.ok.injEq] at reached
  subst reached
  have stock := booted.reaches steps
  refine ⟨?_, fun uncancelled => ?_⟩
  · obtain ⟨ended, next, -, stepped, -, -⟩ := step_steps stock idle
    exact ⟨ended, next, stepped, step_rejects_nobody stock idle stepped request⟩
  · have shape := booted.sameShape_reaches steps
    have promptEq := (steps.sameClient request).promptLen
    have blocked : Blocked cfg machine request := by
      refine ⟨stock, idle, nobody, ⟨behind, queued⟩, uncancelled, ?_⟩
      rw [shape.numBlocks]
      simp only [admissionNeed, blocksNeeded, nobody, List.length_nil, Nat.zero_add, promptEq, shape.blockSize]
      exact oversized
    refine ⟨fun count => ?_, blocked.run_never_returns⟩
    rw [← queued]
    exact blocked.steps count

/-- Request 0 needs five blocks and the pool has four, which are enough for request 1. -/
def overfull : Session Nat Unit where
  engine := { (Session.new counting 4 1 true 0 (competing 6) ()).engine with waiting := [0, 1] }
  submitted := [0, 1]

theorem oversized_head_is_never_rejected_overfull :
    0 < 1 ∧
      (Session.new counting 4 1 true 0 (competing 6) ()).after counting [.addRequest 0 false, .addRequest 1 false] =
        .ok overfull ∧
      (overfull.engine.running = [] ∧ overfull.engine.waiting = [0, 1] ∧
        4 < ceilDiv (competing 6 0).promptTokenIds.length 1 + 1 + max counting.reserveBlocks 1) ∧
      (∃ ended next, step counting overfull.engine = .ok (ended, next) ∧
        ((next.requests 0).finishReason = some .rejected →
          (overfull.engine.requests 0).finishReason = some .rejected)) ∧
      ((overfull.engine.requests 0).requestId ∉ overfull.engine.cancelRequested →
        (∀ count, ∃ last, overfull.after counting (List.replicate count .step) = .ok last ∧
          (∃ rest, last.engine.waiting = 0 :: rest) ∧ last.engine.waiting.Sublist [0, 1] ∧
          last.engine.running = [] ∧ last.engine.requests 0 = overfull.engine.requests 0) ∧
        ∀ fuel requests, ContinuousBatchingEngine.run counting fuel overfull.engine requests = .ok none) :=
  ⟨Nat.one_pos, rfl, ⟨rfl, rfl, by decide⟩,
    oversized_head_is_never_rejected counting 4 1 true 0 (competing 6) () Nat.one_pos
      [.addRequest 0 false, .addRequest 1 false] rfl rfl rfl (by decide)⟩

/-- Ten steps later the request that needs five of four blocks is still there. -/
theorem oversized_head_stays :
    4 < ceilDiv (competing 6 0).promptTokenIds.length 1 + 1 + max counting.reserveBlocks 1 ∧
    ceilDiv (competing 6 1).promptTokenIds.length 1 + 1 + max counting.reserveBlocks 1 ≤ 4 ∧
    Yields ((Session.new counting 4 1 true 0 (competing 6) ()).after counting
      ([.addRequest 0 false, .addRequest 1 false] ++ List.replicate 10 .step)) fun session =>
        session.engine.waiting = [0, 1] ∧ session.engine.running = [] ∧
        (session.engine.requests 0).finishReason = none := by
  decide +kernel

/-! ## Outputs that do not fit -/

theorem Memory.table_le (memory : Memory cfg m) {seq : Sequence} (mem : seq ∈ m.seqs) :
    ceilDiv seq.cache.numTokens m.engine.pool.blockSize ≤ m.engine.pool.allocator.numBlocks := by
  have formed := memory.wellFormed seq mem
  have known : seq.cache.blockTable ⊆ range m.engine.pool.allocator.numBlocks := by
    intro block inTable
    refine mem_range.mpr (memory.balanced.bound block (Multiset.mem_add.mpr (.inr ?_)))
    exact mem_heldBy.mpr ⟨seq, mem, inTable⟩
  have fewer := (formed.nodup.subperm known).length_le
  rwa [length_range, formed.covers] at fewer

structure Outgrows (pool : PagedCachePool V) (request : Request) : Prop where
  ignoresEos : request.params.ignoreEos = true
  tooLong : pool.allocator.numBlocks < ceilDiv (request.promptLen + request.params.maxTokens - 1) pool.blockSize

theorem Outgrows.later {before after : PagedCachePool V} {req next : Request} (outgrows : Outgrows before req)
    (shape : SameShape before after) (client : SameClient req next) : Outgrows after next := by
  refine ⟨by rw [client.params]; exact outgrows.ignoresEos, ?_⟩
  rw [shape.numBlocks, shape.blockSize, client.promptLen, client.params]
  exact outgrows.tooLong

def Completed (request : Request) : Prop := request.finishReason = some .eos ∨ request.finishReason = some .length

theorem not_completed_update {requests : Nat → Request} {changed : Nat} {next : Request}
    (there : req = changed → ¬Completed next) (before : ¬Completed (requests req)) :
    ¬Completed (Function.update requests changed next req) := by
  by_cases here : req = changed
  · subst here
    rw [Function.update_self]
    exact there rfl
  · rw [Function.update_of_ne here]
    exact before

theorem not_completed_finish {req : Request} {reason : FinishReason} (other : reason ≠ .eos ∧ reason ≠ .length) :
    ¬Completed (req.finish reason) := by
  simpa [Completed, Request.finish] using other

theorem Outgrows.transition {next : Machine V S}
    (outgrows : Outgrows m.engine.pool (m.engine.requests req)) (memory : Memory cfg m)
    (metered : Metered m) (step : Transition cfg m next)
    (before : ¬Completed (m.engine.requests req)) : ¬Completed (next.engine.requests req) := by
  cases step with
  | submit =>
    simp only [addRequest]
    split
    case h_1 =>
      refine not_completed_update (fun _ => ?_) (not_completed_update (fun _ => not_completed_finish (by decide)) before)
      simp [Completed, finish, Request.finish]
    case h_2 => exact before
  | cancelRunning =>
    exact not_completed_update (fun _ => not_completed_finish (by decide)) before
  | cancelWaiting =>
    exact not_completed_update (fun _ => not_completed_finish (by decide)) before
  | makeRoom _ _ _ made =>
    obtain ⟨pool, _, rfl⟩ := makeRoom_requests made
    exact before
  | reject =>
    exact not_completed_update (fun _ => not_completed_finish (by decide)) before
  | keep =>
    refine not_completed_update (fun here => ?_) before
    subst here
    exact before
  | fill seq token _ pool _ pendingEq =>
    have ours : req ≠ seq.request := by
      -- All its tokens but the last would have to be in the pool.
      rintro rfl
      have tokens := metered.pending (seq, token) (by simp [pendingEq])
      have holds := memory.table_le (show seq ∈ m.seqs by simp [seqs, pendingEq])
      have most := ceilDiv_mono memory.positive (show (m.engine.requests seq.request).promptLen +
        (m.engine.requests seq.request).params.maxTokens - 1 ≤ seq.cache.numTokens by simp only at tokens; omega)
      exact absurd (most.trans holds) (Nat.not_le.mpr outgrows.tooLong)
    exact not_completed_update (absurd · ours) (not_completed_update (absurd · ours) before)
  | stop _ _ _ _ _ _ stops =>
    refine not_completed_update (fun here => ?_) before
    subst here
    exact absurd outgrows.ignoresEos stops.2
  | preempt =>
    refine not_completed_update (fun here => ?_) before
    subst here
    exact before
  | _ => exact before

theorem Outgrows.reaches {next : Machine V S}
    (outgrows : Outgrows m.engine.pool (m.engine.requests req)) (quiet : Quiet cfg m)
    (steps : Reaches cfg m next) (distinct : next.session.submitted.Nodup)
    (unended : (m.engine.requests req).finishReason = none) :
    ¬Completed (next.engine.requests req) := by
  induction steps with
  | refl => simp [Completed, unended]
  | tail steps last ih =>
    have memory := quiet.memory.reaches steps
    have distinctBefore := distinct.sublist (last.ledgerSteps memory.stock).submitted_grows.sublist
    have metered := quiet.metered.reaches quiet.memory.stock quiet.orderly quiet.fresh steps distinctBefore
    exact (outgrows.later (quiet.memory.stock.sameShape_reaches steps) (Reaches.sameClient steps req)).transition memory metered
      last (ih distinctBefore)

structure Endless (cfg : Config X V L S) (request : Nat) (machine : Machine V S) : Prop extends Quiet cfg machine where
  known : request ∈ machine.session.submitted
  unended : (machine.engine.requests request).finishReason = none
  outgrows : Outgrows machine.engine.pool (machine.engine.requests request)

namespace Endless

theorem busy (endless : Endless cfg req m) : hasWork m.engine = true := by
  by_contra done
  have ended := endless.ended_of_done (Bool.eq_false_of_not_eq_true done) endless.known
  rw [endless.unended] at ended
  cases ended

theorem next_round (endless : Endless cfg req m) :
    ∃ next : Machine V S,
      runRound cfg (m.engine, m.session.drainedFinished) = .ok (next.engine, next.session.drainedFinished) ∧
      Endless cfg req next := by
  obtain ⟨next, ran, quiet, more, same, proceeds, -⟩ := endless.round
  have uncompleted := endless.outgrows.reaches endless.toQuiet more quiet.distinct endless.unended
  -- A round changes the outcome of a request only by completing it.
  have still := (proceeds.natural req).resolve_right uncompleted
  refine ⟨next, ran, quiet, same ▸ endless.known, still.trans endless.unended, ?_⟩
  exact endless.outgrows.later (endless.memory.stock.sameShape_reaches more) (more.sameClient req)

def InRun (cfg : Config X V L S) (request : Nat) (state : EngineState V S × List Nat) : Prop :=
  ∃ machine : Machine V S, (machine.engine, machine.session.drainedFinished) = state ∧ Endless cfg request machine

theorem InRun.stays (inRun : InRun cfg req state) :
    hasWork state.1 = true ∧ ∃ next, runRound cfg state = .ok next ∧ InRun cfg req next := by
  obtain ⟨_, rfl, endless⟩ := inRun
  obtain ⟨next, ran, again⟩ := endless.next_round
  exact ⟨endless.busy, _, ran, next, rfl, again⟩

end Endless

theorem Outgrows.run_never_returns {numBlocks size : Nat} {zero : V} {clients : Nat → Submission} {rng : S}
    {requests : List (Nat × Bool)} (pos : 0 < size) (distinct : (requests.map Prod.fst).Nodup)
    (uncontrolled : cfg.admission = none) (mem : req ∈ requests.map Prod.fst)
    (ignoresEos : (clients req).params.ignoreEos = true)
    (tooLong : numBlocks < ceilDiv ((clients req).promptTokenIds.length + (clients req).params.maxTokens - 1) size)
    (fuel : Nat) :
    ContinuousBatchingEngine.run cfg fuel (Session.new cfg numBlocks size false zero clients rng).engine requests =
      .ok none := by
  obtain ⟨start, quiet, submitted, drained, startEngine, arrival⟩ :=
    @Quiet.arrived X V L S cfg numBlocks size zero clients rng requests pos distinct
  have booted := @Quiet.new X V L S cfg numBlocks size zero clients rng pos
  have queued : req ∈ start.engine.waiting := by
    rw [startEngine, (addAll_frame requests _).2.2.2 uncontrolled]
    exact mem_append_right _ mem
  have endless : Endless cfg req start := {
    toQuiet := quiet
    known := submitted ▸ mem
    unended := quiet.unended_of_queued queued
    outgrows := Outgrows.later ⟨ignoresEos, tooLong⟩ (booted.memory.stock.sameShape_reaches arrival)
      (arrival.sameClient req) }
  have initially : Endless.InRun cfg req
      (addAll cfg (Session.new cfg numBlocks size false zero clients rng).engine requests, []) :=
    ⟨start, by rw [startEngine, drained], endless⟩
  have forever := loop_forever (fun _ inRun => Endless.InRun.stays inRun) initially fuel
  simp only [ContinuousBatchingEngine.run, forever]

/-- A request that runs dry of blocks while nothing else runs is not ended. -/
theorem exhausted_alone_is_requeued (cfg : Config X V L S) (numBlocks blockSize : Nat) (zero : V)
    (clients : Nat → Submission) (rng : S) (positive : 0 < blockSize) :
    (∀ calls session done scheduled seq,
      (Session.new cfg numBlocks blockSize false zero clients rng).after cfg calls = .ok session →
      schedule cfg session.engine = .ok (done, scheduled) → scheduled.running = [seq] →
      scheduled.pool.allocator.numFree < batchNeed scheduled →
      ∃ next, step cfg session.engine = .ok (done, next) ∧ next.running = [] ∧
        next.waiting = seq.request :: scheduled.waiting ∧
        next.requests seq.request = { scheduled.requests seq.request with outputTokenIds := [] } ∧
        next.numFinished = scheduled.numFinished) ∧
    (cfg.admission = none → ∀ requests : List (Nat × Bool), (requests.map Prod.fst).Nodup →
      ∀ request ∈ requests.map Prod.fst, (clients request).params.ignoreEos = true →
      numBlocks < ceilDiv ((clients request).promptTokenIds.length + (clients request).params.maxTokens - 1) blockSize →
      ∀ fuel, ContinuousBatchingEngine.run cfg fuel
        (Session.new cfg numBlocks blockSize false zero clients rng).engine requests = .ok none) := by
  refine ⟨?_, ?_⟩
  · intro calls session done scheduled seq ran result alone short
    have booted : Memory cfg { session := Session.new cfg numBlocks blockSize false zero clients rng } :=
      Memory.new numBlocks false zero rng positive nofun
    obtain ⟨machine, reached, idle, steps, -⟩ := run_steps booted.stock rfl calls
    rw [ran] at reached
    simp only [Except.ok.injEq] at reached
    subst reached
    have memory := booted.reaches steps
    obtain ⟨_, _, again, more⟩ := schedule_steps memory.stock idle
    rw [result] at again
    cases again
    have busy : scheduled.running ≠ [] := by simp [alone]
    rcases decode_cases (memory.reaches more).stock idle busy done with
      ⟨-, front, victim, pool, cache, runningEq, -, decoded⟩ | ⟨enough, -⟩
    · have onlyOne : front = [] ∧ victim = seq := by
        have split := runningEq.symm.trans alone
        simpa [List.append_eq_singleton_iff] using split
      obtain ⟨rfl, rfl⟩ := onlyOne
      have stepped : step cfg machine.engine = decode cfg scheduled done := by
        simp only [step, result, alone, List.isEmpty_cons, Bool.false_eq_true, if_false]
      exact ⟨_, stepped.trans decoded, rfl, rfl, Function.update_self .., rfl⟩
    · exact absurd short (Nat.not_lt.mpr enough)
  · intro uncontrolled requests distinct request member ignoresEos tooLong fuel
    exact Outgrows.run_never_returns positive distinct uncontrolled member ignoresEos tooLong fuel

/-- Four blocks hold the prompt and three tokens; the request wants ten. -/
def outgrowing (_ : Nat) : Submission where
  promptTokenIds := [5]
  params := { maxTokens := 10, ignoreEos := true }
  requestId := "long"
  nonempty := five_ne_nil

theorem exhausted_alone_is_requeued_outgrowing :
    0 < 1 ∧
    (∀ session done scheduled seq,
      (Session.new counting 4 1 false 0 outgrowing ()).after counting (.addRequest 0 false :: List.replicate 3 .step) =
        .ok session →
      schedule counting session.engine = .ok (done, scheduled) → scheduled.running = [seq] →
      scheduled.pool.allocator.numFree < batchNeed scheduled →
      ∃ next, step counting session.engine = .ok (done, next) ∧ next.running = [] ∧
        next.waiting = seq.request :: scheduled.waiting ∧
        next.requests seq.request = { scheduled.requests seq.request with outputTokenIds := [] } ∧
        next.numFinished = scheduled.numFinished) ∧
    ∀ fuel, ContinuousBatchingEngine.run counting fuel (Session.new counting 4 1 false 0 outgrowing ()).engine
      [(0, false)] = .ok none :=
  ⟨Nat.one_pos, fun session done scheduled seq =>
      (exhausted_alone_is_requeued counting 4 1 0 outgrowing () Nat.one_pos).1 _ session done scheduled seq,
    (exhausted_alone_is_requeued counting 4 1 0 outgrowing () Nat.one_pos).2 rfl [(0, false)] (by decide) 0 (by decide)
      rfl (by decide)⟩

/-- The fourth step finds the pool exhausted and puts the only request back without its four tokens. -/
theorem exhausted_alone_starts_over :
    (Yields ((Session.new counting 4 1 false 0 outgrowing ()).after counting
        (.addRequest 0 false :: List.replicate 3 .step)) fun session =>
      (Yields (schedule counting session.engine) fun scheduled =>
        scheduled.2.running.length = 1 ∧ (scheduled.2.requests 0).outputTokenIds = [6, 7, 8, 9] ∧
        scheduled.2.pool.allocator.numFree < batchNeed scheduled.2) ∧
      Yields (step counting session.engine) fun stepped =>
        stepped.2.running = [] ∧ stepped.2.waiting = [0] ∧ (stepped.2.requests 0).outputTokenIds = [] ∧
        (stepped.2.requests 0).finishReason = none) ∧
    Yields ((Session.new counting 4 1 false 0 outgrowing ()).after counting
        (.addRequest 0 false :: List.replicate 40 .step)) fun session =>
      session.engine.preemptions = 10 ∧ (session.engine.requests 0).finishReason = none := by
  decide +kernel

end Nanoserve.Verified
