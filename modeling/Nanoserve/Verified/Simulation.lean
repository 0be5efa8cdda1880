import Nanoserve.Verified.EngineMemory

/-! # Calls are sequences of transitions

Each function of the scheduler is followed here once.
-/

namespace Nanoserve.Verified

open Engine Lib List Function Machine BatchedPagedCache
open ContinuousBatchingEngine

variable {X V L S : Type} {cfg : Config X V L S}
variable {eng roomy : EngineState V S} {m : Machine V S} {admitted : List Sequence} {queue : List Nat}
variable {pool : PagedCachePool V} {req : Nat} {after : EngineState V S}

def Machine.showing (base : Machine V S) (engine : EngineState V S) (pending : List (Sequence × Nat)) : Machine V S :=
  { base.withEngine engine with pending }

/-- While `_admit` runs: the admitted sequences stand behind the running ones. -/
abbrev Machine.admitting (base : Machine V S) (engine : EngineState V S) (admitted : List Sequence) (queue : List Nat) :
    Machine V S :=
  base.showing { engine with running := engine.running ++ admitted, waiting := queue } []

theorem Machine.admitting_nil (base : Machine V S) (engine : EngineState V S) (queue : List Nat) :
    base.admitting engine [] queue = base.showing { engine with waiting := queue } [] := by
  rw [admitting, append_nil]

/-! ## Cancellations -/

-- The machine still shows the sequences `cancelRunning` has not reached yet, and
-- keeps the names asked for until all of them are gone.
theorem cancelRunning_steps (base : Machine V S) {wanted : List String} {asked : Sequence → Bool}
    (tail : List Sequence) {eng : EngineState V S} {kept : List Sequence}
    (stock : Stock cfg (base.withEngine { eng with cancelRequested := wanted, running := kept ++ tail }))
    (named : ∀ seq, asked seq = true → (eng.requests seq.request).requestId ∈ wanted) :
    ∃ next, cancelRunning cfg eng (tail.filter asked) = .ok next ∧
      next.cancelRequested = eng.cancelRequested ∧ next.waiting = eng.waiting ∧
      (∀ req, SameClient (eng.requests req) (next.requests req)) ∧
      Reaches cfg (base.withEngine { eng with cancelRequested := wanted, running := kept ++ tail })
        (base.withEngine
          { next with cancelRequested := wanted, running := kept ++ tail.filter fun seq => !asked seq }) := by
  induction tail generalizing eng kept with
  | nil => exact ⟨eng, rfl, rfl, rfl, fun _ => .refl _, .refl⟩
  | cons seq tail ih =>
    cases asks : asked seq with
    | false =>
      have regrouped : kept ++ seq :: tail = (kept ++ [seq]) ++ tail := by simp
      rw [regrouped] at stock ⊢
      obtain ⟨next, result, frame⟩ := ih stock named
      rw [filter_cons_of_neg (by simp [asks]), filter_cons_of_pos (by simp [asks])]
      refine ⟨next, result, ?_⟩
      simpa using frame
    | true =>
      obtain ⟨pool, cache, freed⟩ := stock.free_ok seq (by simp [seqs, withEngine])
      have step : Transition cfg _ _ := .cancelRunning _ kept seq tail pool cache rfl (named seq asks) freed
      have clients := @sameClient_ended X V L S cfg { eng with pool } seq.request .cancelled
      obtain ⟨next, result, cancelRequested, waiting, same, steps⟩ :=
        @ih (recordFinished cfg (finish { eng with pool } seq.request .cancelled) seq.request) kept
          (stock.transition step) fun other asksOther => by
            rw [(clients other.request).requestId]
            exact named other asksOther
      rw [filter_cons_of_pos asks, filter_cons_of_neg (by simp [asks])]
      refine ⟨next, ?_, cancelRequested, waiting, fun req => (clients req).trans (same req), .head step steps⟩
      have freedHere : PagedKVCache.free eng.pool seq.cache = .ok (pool, cache) := freed
      simp only [cancelRunning, freedHere]
      exact result

theorem cancelWaiting_frame (requests : List Nat) (eng : EngineState V S) :
    (cancelWaiting cfg eng requests).waiting = eng.waiting ∧
      (cancelWaiting cfg eng requests).cancelRequested = eng.cancelRequested := by
  induction requests generalizing eng with
  | nil => exact ⟨rfl, rfl⟩
  | cons _ _ ih => exact ih _

theorem cancelWaiting_others (requests : List Nat) (eng : EngineState V S) {other : Nat} (kept : other ∉ requests) :
    (cancelWaiting cfg eng requests).requests other = eng.requests other := by
  induction requests generalizing eng with
  | nil => rfl
  | cons _ _ ih =>
    rw [mem_cons, not_or] at kept
    refine (ih _ kept.2).trans ?_
    simp [recordFinished, finish, update_of_ne kept.1]

theorem cancelWaiting_steps (base : Machine V S) {wanted : List String} {asked : Nat → Bool} (tail : List Nat)
    {eng : EngineState V S} {kept : List Nat}
    (named : ∀ req, asked req = true → (eng.requests req).requestId ∈ wanted) :
    Reaches cfg (base.withEngine { eng with cancelRequested := wanted, waiting := kept ++ tail })
      (base.withEngine
        { cancelWaiting cfg eng (tail.filter asked) with
          cancelRequested := wanted
          waiting := kept ++ tail.filter fun req => !asked req }) := by
  induction tail generalizing eng kept with
  | nil => exact .refl
  | cons req tail ih =>
    cases asks : asked req with
    | false =>
      have regrouped : kept ++ req :: tail = (kept ++ [req]) ++ tail := by simp
      rw [regrouped, filter_cons_of_neg (by simp [asks]), filter_cons_of_pos (by simp [asks])]
      simpa using @ih eng (kept ++ [req]) named
    | true =>
      have step : Transition cfg
          (base.withEngine { eng with cancelRequested := wanted, waiting := kept ++ req :: tail }) _ :=
        .cancelWaiting _ kept req tail rfl (named req asks)
      have clients := @sameClient_ended X V L S cfg eng req .cancelled
      rw [filter_cons_of_pos asks, filter_cons_of_neg (by simp [asks])]
      refine .head step (@ih (recordFinished cfg (finish eng req .cancelled) req) kept ?_)
      intro other asksOther
      rw [(clients other).requestId]
      exact named other asksOther

theorem applyCancellations_steps (stock : Stock cfg m) :
    ∃ done eng, applyCancellations cfg m.engine = .ok (done, eng) ∧
      Reaches cfg m (m.withEngine eng) := by
  by_cases nothing : m.engine.cancelRequested.isEmpty
  · exact ⟨[], m.engine, by rw [applyCancellations, if_pos nothing], .refl⟩
  · obtain ⟨cancelled, result, cancelRequested, waiting, clients, first⟩ :=
      @cancelRunning_steps X V L S cfg m m.engine.cancelRequested
        (fun seq => wants m.engine m.engine.cancelRequested seq.request) m.engine.running
        { m.engine with cancelRequested := [] } [] stock fun seq asks => of_decide_eq_true asks
    have waitingEq : cancelled.waiting = m.engine.waiting := waiting
    -- `cancelled`, once `running` and `waiting` have been filtered.
    let filtered : EngineState V S :=
      { cancelled with
        running := m.engine.running.filter fun seq =>
          !wants m.engine m.engine.cancelRequested seq.request
        waiting := cancelled.waiting.filter fun req =>
          !wants m.engine m.engine.cancelRequested req }
    let queued := cancelled.waiting.filter (wants m.engine m.engine.cancelRequested)
    have second := @cancelWaiting_steps X V L S cfg m m.engine.cancelRequested
      (wants m.engine m.engine.cancelRequested) cancelled.waiting filtered [] fun req asks => by
        rw [(clients req).requestId]
        exact of_decide_eq_true asks
    obtain ⟨waitingLast, cancelRequestedLast⟩ := cancelWaiting_frame queued filtered
    have last : m.withEngine (cancelWaiting cfg filtered queued) = m.withEngine
        { cancelWaiting cfg filtered queued with cancelRequested := [], waiting := filtered.waiting } := by
      rw [← waitingLast, show [] = (cancelWaiting cfg filtered queued).cancelRequested from
        (cancelRequestedLast.trans cancelRequested).symm]
    have applied : applyCancellations cfg m.engine =
        .ok ((m.engine.running.filter fun seq =>
          wants m.engine m.engine.cancelRequested seq.request).map Sequence.request ++ queued,
          cancelWaiting cfg filtered queued) := by
      rw [applyCancellations, if_neg nothing]
      simp only [result, queued, filtered, waitingEq]
    refine ⟨_, _, applied, ?_⟩
    rw [last]
    exact (first.trans second).tail (.forgetCancels _)

theorem acceptAndEmit_eq (eng : EngineState V S) (seq : Sequence) (token : Nat) :
    acceptAndEmit cfg eng seq token =
      if Stops cfg (eng.requests seq.request) token then
        (eng, { seq with nextToken := token, finished := true, finishReason := some .eos })
      else if (eng.requests seq.request).params.maxTokens ≤ (eng.requests seq.request).outputLen + 1 then
        (record eng seq.request token, { seq with nextToken := token, finished := true, finishReason := some .length })
      else (record eng seq.request token, { seq with nextToken := token }) := by
  by_cases stops : token = cfg.eosTokenId ∧ ¬(eng.requests seq.request).params.ignoreEos
  · have literal : Stops cfg (eng.requests seq.request) token := stops
    rw [if_pos literal]
    simp only [acceptAndEmit, acceptToken, if_pos stops, gt_iff_lt, Nat.lt_irrefl, if_false]
  · have literal : ¬Stops cfg (eng.requests seq.request) token := stops
    rw [if_neg literal]
    simp only [acceptAndEmit, acceptToken, if_neg stops, ge_iff_le, Request.params_recordToken,
      Request.outputLen_recordToken]
    by_cases full : (eng.requests seq.request).params.maxTokens ≤ (eng.requests seq.request).outputLen + 1
    · simp only [if_pos full, update_self, Request.outputLen_recordToken, gt_iff_lt, Nat.lt_succ_self, if_true]
      rfl
    · simp only [if_neg full, update_self, Request.outputLen_recordToken, gt_iff_lt, Nat.lt_succ_self, if_true]
      rfl

theorem retire_eq {seq : Sequence} {reason : FinishReason} {cache : PagedKVCache}
    (freed : PagedKVCache.free eng.pool seq.cache = .ok (pool, cache)) (ended : seq.finishReason = some reason) :
    retire cfg eng seq = .ok (recordFinished cfg (finish { eng with pool } seq.request reason) seq.request) := by
  simp only [retire, freed, ended, Option.getD_some]

structure Apart (request : Nat) (before after : EngineState V S) : Prop where
  running : after.running = before.running
  waiting : after.waiting = before.waiting
  cancelRequested : after.cancelRequested = before.cancelRequested
  others : ∀ other, other ≠ request → after.requests other = before.requests other

structure Retires (request : Nat) (before after : EngineState V S) : Prop extends Apart request before after where
  numFinished : after.numFinished = before.numFinished + 1
  reason : (after.requests request).finishReason = some .eos ∨ (after.requests request).finishReason = some .length

structure Advances (request token : Nat) (before after : EngineState V S) : Prop
    extends Apart request before after where
  numFinished : after.numFinished = before.numFinished
  recorded : after.requests request = (before.requests request).recordToken token
  left : (before.requests request).outputLen + 1 < (before.requests request).params.maxTokens

section Pool

variable {token : Nat} {before : EngineState V S} {prefixCache : PrefixCache} {rng : S}

theorem Retires.of_pool (ends : Retires req { before with pool, prefixCache, rng } after) : Retires req before after :=
  ⟨⟨ends.running, ends.waiting, ends.cancelRequested, ends.others⟩, ends.numFinished, ends.reason⟩

theorem Advances.of_pool (advances : Advances req token { before with pool, prefixCache, rng } after) :
    Advances req token before after :=
  ⟨⟨advances.running, advances.waiting, advances.cancelRequested, advances.others⟩, advances.numFinished,
    advances.recorded, advances.left⟩

end Pool

theorem apart_update {changed : Request} (other : Nat) (different : other ≠ req) :
    update eng.requests req changed other = eng.requests other :=
  update_of_ne different _ _

theorem retires_stopped (eng : EngineState V S) (req : Nat) (pool : PagedCachePool V) :
    Retires req eng (recordFinished cfg (finish { eng with pool } req .eos) req) :=
  ⟨⟨rfl, rfl, rfl, apart_update⟩, rfl, .inl (by simp [recordFinished, finish, Request.finish])⟩

theorem retires_filled (eng : EngineState V S) (req token : Nat) (pool : PagedCachePool V) :
    Retires req eng
      (recordFinished cfg (finish { record eng req token with pool } req .length) req) :=
  ⟨⟨rfl, rfl, rfl, fun other different => (apart_update other different).trans (apart_update other different)⟩, rfl,
    .inr (by simp [recordFinished, finish, Request.finish])⟩

theorem settle_step (base : Machine V S) {eng : EngineState V S} {seq : Sequence} {token : Nat}
    {running : List Sequence} {waiting : List Nat} {rest : List (Sequence × Nat)}
    (stock : Stock cfg (base.showing { eng with running, waiting } ((seq, token) :: rest))) :
    ∃ after next, acceptAndEmit cfg eng seq token = (after, next) ∧ next.request = seq.request ∧
      ((next.finished = true ∧ ∃ retired, retire cfg after next = .ok retired ∧ Retires seq.request eng retired ∧
          eng.pool.allocator.numFree ≤ retired.pool.allocator.numFree ∧
          Transition cfg (base.showing { eng with running, waiting } ((seq, token) :: rest))
            (base.showing { retired with running, waiting } rest)) ∨
        (next = { seq with nextToken := token } ∧ next.finished = false ∧ Advances seq.request token eng after ∧
          after.pool = eng.pool ∧
          Transition cfg (base.showing { eng with running, waiting } ((seq, token) :: rest))
            (base.showing { after with running := running ++ [next], waiting } rest))) := by
  have mem : seq ∈ (base.showing { eng with running, waiting } ((seq, token) :: rest)).seqs := by
    simp [seqs, showing, withEngine]
  obtain ⟨pool, cache, freed⟩ := stock.free_ok seq mem
  have freedHere := freed
  have noFewer := stock.freed_noFewer freed mem
  rw [acceptAndEmit_eq]
  by_cases stops : Stops cfg (eng.requests seq.request) token
  · rw [if_pos stops]
    exact ⟨_, _, rfl, rfl, .inl ⟨rfl, _, retire_eq freedHere rfl, retires_stopped eng seq.request pool, noFewer,
      .stop _ seq token rest pool cache rfl stops freed⟩⟩
  · rw [if_neg stops]
    by_cases full : (eng.requests seq.request).params.maxTokens ≤ (eng.requests seq.request).outputLen + 1
    · rw [if_pos full]
      exact ⟨_, _, rfl, rfl, .inl ⟨rfl, _, retire_eq freedHere rfl, retires_filled eng seq.request token pool, noFewer,
        .fill _ seq token rest pool cache rfl stops full freed⟩⟩
    · rw [if_neg full]
      refine ⟨_, _, rfl, rfl, .inr ⟨rfl, stock.unfinished seq mem, ?_, rfl,
        .keep _ seq token rest rfl stops (Nat.lt_of_not_le full)⟩⟩
      exact ⟨⟨rfl, rfl, rfl, apart_update⟩, rfl, by simp [record], Nat.lt_of_not_le full⟩

-- The machine shows the sequences settled so far in `running` and the others in `pending`.
theorem settle_steps (base : Machine V S) (batch : List (Sequence × Nat)) {eng : EngineState V S}
    {still : List Sequence} {done : List Nat} (stock : Stock cfg (base.showing { eng with running := still } batch)) :
    ∃ ended next, settle cfg eng still done batch = .ok (ended, next) ∧
      Reaches cfg (base.showing { eng with running := still } batch) (base.showing next []) := by
  induction batch generalizing eng still done with
  | nil => exact ⟨done, { eng with running := still }, rfl, .refl⟩
  | cons row batch ih =>
    obtain ⟨seq, token⟩ := row
    obtain ⟨after, next, accepted, -, outcome⟩ := @settle_step X V L S cfg base eng seq token still eng.waiting batch stock
    rcases outcome with ⟨finished, retired, retiredEq, ends, -, step⟩ | ⟨-, goesOn, advances, -, step⟩
    · have shown : base.showing { retired with running := still, waiting := eng.waiting } batch =
          base.showing { retired with running := still } batch := by rw [← ends.waiting]
      rw [shown] at step
      obtain ⟨ended, last, result, steps⟩ := ih (stock.transition step)
      refine ⟨ended, last, ?_, .head step steps⟩
      simp only [settle, accepted, finished, if_true, retiredEq]
      exact result
    · have shown : base.showing { after with running := still ++ [next], waiting := eng.waiting } batch =
          base.showing { after with running := still ++ [next] } batch := by rw [← advances.waiting]
      rw [shown] at step
      obtain ⟨ended, last, result, steps⟩ := ih (stock.transition step)
      refine ⟨ended, last, ?_, .head step steps⟩
      simp only [settle, accepted, goesOn, Bool.false_eq_true, if_false]
      exact result

/-! ## Admission -/

/-- What becomes of a request `_admit` pops: it ends with its first token, or it joins the batch. -/
inductive Takes (request : Nat) (engine : EngineState V S) (admitted : List Sequence) :
    EngineState V S → List Sequence → Prop
  | ended {after : EngineState V S} (ends : Retires request engine after) : Takes request engine admitted after admitted
  | joined {after : EngineState V S} {seq : Sequence} {token : Nat} (named : seq.request = request)
    (advances : Advances request token engine after) : Takes request engine admitted after (admitted ++ [seq])

theorem Takes.apart {newSeqs : List Sequence} (takes : Takes req eng admitted after newSeqs) :
    Apart req eng after := by
  cases takes with
  | ended ends => exact ends.toApart
  | joined _ advances => exact advances.toApart

theorem start_steps (base : Machine V S) {running : List Sequence} {waiting : List Nat}
    (stock : Stock cfg (base.showing { eng with running, waiting := req :: waiting } []))
    (slot : running.length < cfg.maxBatchSize)
    (room : admissionNeed cfg { eng with running } req ≤ eng.pool.allocator.numFree) :
    ∃ after next, start cfg eng req {} = .ok (some next, after) ∧ next.request = req ∧
      ((next.finished = true ∧ ∃ retired, retire cfg after next = .ok retired ∧ Retires req eng retired ∧
          eng.pool.allocator.numFree ≤
            retired.pool.allocator.numFree + blocksNeeded eng.pool (eng.requests req) ∧
          Reaches cfg (base.showing { eng with running, waiting := req :: waiting } [])
            (base.showing { retired with running, waiting } [])) ∨
        (next.finished = false ∧ (∃ token, Advances req token eng after) ∧
          eng.pool.allocator.numFree ≤
            after.pool.allocator.numFree + blocksNeeded eng.pool (eng.requests req) ∧
          Reaches cfg (base.showing { eng with running, waiting := req :: waiting } [])
            (base.showing { after with running := running ++ [next], waiting } []))) := by
  obtain ⟨logits, pool, prefixCache, cache, spec⟩ := stock.prefilled room
  obtain ⟨last, sampled⟩ := Option.isSome_iff_exists.mp (getLast?_isSome.mpr spec.sampled)
  have prefilled : prefill cfg eng.pool eng.prefixCache (eng.requests req) {} =
    .ok (logits, pool, prefixCache, cache) := spec.result
  have taken : eng.pool.allocator.numFree ≤
    pool.allocator.numFree + blocksNeeded eng.pool (eng.requests req) := spec.numFree
  let token := (sample cfg (eng.requests req).params last eng.rng).1
  let sampledEngine : EngineState V S :=
    { eng with pool, prefixCache, rng := (sample cfg (eng.requests req).params last eng.rng).2 }
  have step : Transition cfg (base.showing { eng with running, waiting := req :: waiting } [])
      (base.showing { sampledEngine with running, waiting } [({ request := req, cache, nextToken := token }, token)]) :=
    .prefill _ req waiting logits last pool prefixCache cache rfl rfl slot room spec.result sampled
  obtain ⟨after, next, accepted, named, outcome⟩ := settle_step base (stock.transition step)
  have started : start cfg eng req {} = .ok (some next, after) := by
    simp only [start, prefilled, sampled]
    rw [accepted]
  refine ⟨after, next, started, named, ?_⟩
  rcases outcome with ⟨finished, retired, retiredEq, ends, noFewer, settled⟩ | ⟨-, goesOn, advances, samePool, settled⟩
  · exact .inl ⟨finished, retired, retiredEq, ends.of_pool, Nat.le_trans taken (Nat.add_le_add_right noFewer _),
      .tail (.single step) settled⟩
  · refine .inr ⟨goesOn, ⟨token, advances.of_pool⟩, ?_, .tail (.single step) settled⟩
    rw [samePool]
    exact taken

/-- The free-block check of `_admit` has passed: there is room, and of what follows only the prefill
is left to fail. -/
structure Cleared (cfg : Config X V L S) (base : Machine V S) (engine roomy : EngineState V S) (admitted : List Sequence)
    (request : Nat) (queue : List Nat) : Prop where
  same : ∃ allocator prefixCache, roomy = { engine with pool := { engine.pool with allocator }, prefixCache }
  room : admissionNeed cfg { engine with running := engine.running ++ admitted } request ≤ roomy.pool.allocator.numFree
  bounded : roomy.pool.allocator.numFree ≤ engine.pool.allocator.numBlocks
  numBlocks : roomy.pool.allocator.numBlocks = engine.pool.allocator.numBlocks
  seeded : roomy.pool.allocate = some {}
  step : Transition cfg
    (base.admitting engine admitted (request :: queue))
    (base.showing { roomy with running := engine.running ++ admitted, waiting := request :: queue } [])

theorem makeRoom_cleared (base : Machine V S)
    (stock : Stock cfg (base.admitting eng admitted (req :: queue)))
    (made : makeRoom eng (admissionNeed cfg { eng with running := eng.running ++ admitted } req) = .ok (true, roomy)) :
    Cleared cfg base eng roomy admitted req queue := by
  obtain ⟨_, alloc, prefixCache, evicted, count, result⟩ :=
    stock.makeRoom_spec (admissionNeed cfg { eng with running := eng.running ++ admitted } req)
  have here := result eng rfl rfl
  rw [made] at here
  simp only [Except.ok.injEq, Prod.mk.injEq] at here
  obtain ⟨enough, rfl⟩ := here
  have fits := of_decide_eq_true enough.symm
  have room : admissionNeed cfg { eng with running := eng.running ++ admitted } req ≤ alloc.numFree := by
    rw [evicted.numFree, count]
    omega
  refine ⟨⟨alloc, prefixCache, rfl⟩, room, evicted.balanced.numFree_le.trans_eq evicted.numBlocks,
    evicted.numBlocks, ?_, .makeRoom _ _ _ _ (result _ rfl rfl)⟩
  rw [PagedCachePool.allocate, if_neg]
  refine Nat.ne_of_gt (Nat.lt_of_lt_of_le ?_ room)
  simp only [admissionNeed]
  omega

theorem Cleared.possible {base : Machine V S} (cleared : Cleared cfg base eng roomy admitted req queue)
    (alone : Prop) :
    ¬(alone ∧ admitted.isEmpty ∧
      admissionNeed cfg { eng with running := eng.running ++ admitted } req > roomy.pool.allocator.numBlocks) := by
  rintro ⟨-, -, large⟩
  rw [cleared.numBlocks] at large
  exact Nat.not_lt.mpr (cleared.room.trans cleared.bounded) large

theorem Cleared.starts {base : Machine V S}
    (stock : Stock cfg (base.admitting eng admitted (req :: queue)))
    (slot : eng.running.length + admitted.length < cfg.maxBatchSize)
    (cleared : Cleared cfg base eng roomy admitted req queue) :
    ∃ after next, start cfg roomy req {} = .ok (some next, after) ∧ next.request = req ∧
      ((next.finished = true ∧ ∃ retired, retire cfg after next = .ok retired ∧ Retires req eng retired ∧
          (retired.running ++ admitted).length ≤ retired.pool.allocator.numFree ∧
          Reaches cfg (base.admitting eng admitted (req :: queue))
            (base.admitting retired admitted queue)) ∨
        (next.finished = false ∧ (∃ token, Advances req token eng after) ∧
          (after.running ++ (admitted ++ [next])).length ≤ after.pool.allocator.numFree ∧
          Reaches cfg (base.admitting eng admitted (req :: queue))
            (base.admitting after (admitted ++ [next]) queue))) := by
  have room := cleared.room
  have first := cleared.step
  obtain ⟨alloc, _, rfl⟩ := cleared.same
  obtain ⟨after, next, started, named, outcome⟩ :=
    start_steps base (stock.transition first) (by simpa using slot) room
  refine ⟨after, next, started, named, ?_⟩
  -- A block for each running sequence, one for the newcomer, and one more stay free.
  have spared : blocksNeeded eng.pool (eng.requests req) + (eng.running.length + admitted.length + 2) ≤
      alloc.numFree := by
    refine Nat.le_trans ?_ room
    simp only [admissionNeed, length_append]
    omega
  rcases outcome with ⟨finished, retired, retiredEq, ends, taken, second⟩ | ⟨goesOn, ⟨token, advances⟩, taken, second⟩
  · have runningEq : retired.running = eng.running := ends.running
    have takenHere : alloc.numFree ≤
      retired.pool.allocator.numFree + blocksNeeded eng.pool (eng.requests req) := taken
    refine .inl ⟨finished, retired, retiredEq, ends.of_pool, ?_, ?_⟩
    · rw [runningEq, length_append]
      omega
    · simp only [admitting, runningEq]
      exact .head first second
  · have runningEq : after.running = eng.running := advances.running
    have takenHere : alloc.numFree ≤
      after.pool.allocator.numFree + blocksNeeded eng.pool (eng.requests req) := taken
    refine .inr ⟨goesOn, ⟨token, advances.of_pool⟩, ?_, ?_⟩
    · simp only [runningEq, length_append, length_singleton]
      omega
    · simp only [admitting, runningEq, ← append_assoc]
      exact .head first second

theorem admitLoop_cons (base : Machine V S) {eng : EngineState V S} {admitted : List Sequence} {done : List Nat}
    {req : Nat} {queue : List Nat}
    (stock : Stock cfg
      (base.admitting eng admitted (req :: queue))) :
    (∃ pool prefixCache,
      admitLoop cfg eng admitted done (req :: queue) =
        .ok (admitted, done, { eng with pool, prefixCache, waiting := req :: queue }) ∧
      eng.pool.allocator.numFree ≤ pool.allocator.numFree ∧
      (cfg.maxBatchSize ≤ eng.running.length + admitted.length ∨
        eng.pool.allocator.numFree + spare (heldBy tableOf (eng.running ++ admitted)) eng.prefixCache <
          admissionNeed cfg { eng with running := eng.running ++ admitted } req) ∧
      Reaches cfg (base.admitting eng admitted (req :: queue))
        (base.showing
          { eng with pool, prefixCache, running := eng.running ++ admitted, waiting := req :: queue } [])) ∨
    ∃ after newSeqs ended, admitLoop cfg eng admitted done (req :: queue) =
        admitLoop cfg after newSeqs ended queue ∧
      Takes req eng admitted after newSeqs ∧
      (newSeqs = admitted ∧ ended = done ++ [req] ∨ newSeqs ≠ admitted ∧ ended = done) ∧
      (after.running ++ newSeqs).length ≤ after.pool.allocator.numFree ∧
      admissionNeed cfg { eng with running := eng.running ++ admitted } req ≤
        eng.pool.allocator.numBlocks ∧
      Reaches cfg (base.admitting eng admitted (req :: queue))
        (base.admitting after newSeqs queue) := by
  by_cases slot : eng.running.length + admitted.length < cfg.maxBatchSize
  · obtain ⟨blocks, blocksEq⟩ : ∃ blocks, blocks =
      admissionNeed cfg { eng with running := eng.running ++ admitted } req := ⟨_, rfl⟩
    have literal : blocksNeeded eng.pool (eng.requests req) + 1 +
        max cfg.reserveBlocks (eng.running.length + admitted.length + 1) = blocks := by
      simp only [blocksEq, admissionNeed, length_append]
    obtain ⟨_, alloc, prefixCache, evicted, _, made⟩ := stock.makeRoom_spec blocks
    have seqsEq : (base.admitting eng admitted (req :: queue)).seqs =
      eng.running ++ admitted := by simp [seqs, showing, withEngine]
    rw [seqsEq] at made
    let enough := decide (blocks ≤ eng.pool.allocator.numFree +
      spare (heldBy tableOf (eng.running ++ admitted)) eng.prefixCache)
    have madeHere : makeRoom eng blocks =
      .ok (enough, { eng with pool := { eng.pool with allocator := alloc }, prefixCache }) := made eng rfl rfl
    rw [admitLoop, if_pos slot]
    simp only [literal]
    by_cases fits : blocks ≤ eng.pool.allocator.numFree +
      spare (heldBy tableOf (eng.running ++ admitted)) eng.prefixCache
    · rw [show enough = true from decide_eq_true fits] at madeHere
      have cleared := makeRoom_cleared base stock (blocksEq ▸ madeHere)
      obtain ⟨after, next, started, named, outcome⟩ := cleared.starts stock slot
      have possible := cleared.possible (eng.running.isEmpty = true)
      have seeded := cleared.seeded
      rw [← blocksEq] at possible
      rw [madeHere]
      simp only [if_neg possible, seeded, started]
      right
      rcases outcome with ⟨finished, retired, retiredEq, ends, spared, steps⟩ | ⟨goesOn, ⟨_, advances⟩, spared, steps⟩
      · refine ⟨retired, admitted, done ++ [next.request], ?_, .ended ends, .inl ⟨rfl, by rw [named]⟩, spared,
          cleared.room.trans cleared.bounded, steps⟩
        simp only [finished, if_true, retiredEq]
      · refine ⟨after, admitted ++ [next], done, ?_, .joined named advances, .inr ⟨by simp, rfl⟩, spared,
          cleared.room.trans cleared.bounded, steps⟩
        simp only [goesOn, Bool.false_eq_true, if_false]
    · rw [madeHere, show enough = false from decide_eq_false fits]
      refine .inl ⟨{ eng.pool with allocator := alloc }, prefixCache, rfl, ?_, .inr (by rw [← blocksEq]; omega),
        .single (.makeRoom _ _ _ _ (made _ rfl rfl))⟩
      simp only [evicted.numFree]
      exact Nat.le_add_right _ _
  · refine .inl ⟨eng.pool, eng.prefixCache, ?_, Nat.le_refl _, .inl (Nat.le_of_not_lt slot), .refl⟩
    rw [admitLoop, if_neg slot]

-- The machine shows the admitted sequences behind the running ones, and the
-- queue as far as the loop has not popped it.
theorem admitLoop_steps (base : Machine V S) (queue : List Nat) {eng : EngineState V S} {admitted : List Sequence}
    {done : List Nat}
    (stock : Stock cfg
      (base.admitting eng admitted queue)) :
    ∃ newSeqs ended next, admitLoop cfg eng admitted done queue = .ok (newSeqs, ended, next) ∧
      Reaches cfg (base.admitting eng admitted queue)
        (base.showing { next with running := next.running ++ newSeqs } []) := by
  induction queue generalizing eng admitted done with
  | nil => exact ⟨admitted, done, { eng with waiting := [] }, rfl, .refl⟩
  | cons req queue ih =>
    rcases @admitLoop_cons X V L S cfg base eng admitted done req queue stock with
      ⟨pool, prefixCache, stopped, -, -, steps⟩ | ⟨after, newSeqs, ended, popped, -, -, -, -, steps⟩
    · exact ⟨admitted, done, _, stopped, steps⟩
    · obtain ⟨allSeqs, allEnded, last, result, rest⟩ :=
        ih (stock.reaches steps)
      exact ⟨allSeqs, allEnded, last, popped.trans result, steps.trans rest⟩

theorem Machine.showing_nil (idle : m.pending = []) (eng : EngineState V S) :
    m.showing eng [] = m.withEngine eng := by
  simp [showing, withEngine, idle]

section

variable (stock : Stock cfg m) (idle : m.pending = [])
include stock idle

theorem schedule_parts :
    ∃ cancelled eng newSeqs done next, applyCancellations cfg m.engine = .ok (cancelled, eng) ∧
      admitLoop cfg eng [] [] eng.waiting = .ok (newSeqs, done, next) ∧
      schedule cfg m.engine = .ok (cancelled ++ done, { next with running := next.running ++ newSeqs }) ∧
      Reaches cfg m (m.admitting eng [] eng.waiting) ∧
      Reaches cfg m (m.withEngine { next with running := next.running ++ newSeqs }) := by
  obtain ⟨cancelled, eng, applied, first⟩ := applyCancellations_steps stock
  -- Nothing is admitted yet, so what `admit` starts from is the engine itself.
  have shown : m.withEngine eng = m.admitting eng [] eng.waiting := by
    rw [admitting_nil, showing_nil idle]
  rw [shown] at first
  obtain ⟨newSeqs, done, next, admitted, second⟩ :=
    @admitLoop_steps X V L S cfg m eng.waiting eng [] [] (stock.reaches first)
  have admittedHere : admitRequests cfg eng = .ok (newSeqs, done, next) := admitted
  refine ⟨cancelled, eng, newSeqs, done, next, applied, admitted, ?_, first, ?_⟩
  · simp only [schedule, applied, admittedHere]
  · rw [← showing_nil idle]
    exact first.trans second

theorem schedule_steps :
    ∃ done next, schedule cfg m.engine = .ok (done, next) ∧ Reaches cfg m (m.withEngine next) := by
  obtain ⟨_, _, _, done, next, -, -, scheduled, -, steps⟩ := schedule_parts stock idle
  exact ⟨_, _, scheduled, steps⟩

/-- The request a decode pass from this state throws out, if the blocks the batch
needs are not free. -/
def preempted (engine : EngineState V S) : Option Nat :=
  if engine.pool.allocator.numFree < need engine.pool engine.running then
    engine.running.getLast?.map Sequence.request
  else none

/-- The request a step throws out: the state it decodes from is the one `schedule` leaves. -/
def victim (cfg : Config X V L S) (engine : EngineState V S) : Option Nat :=
  match schedule cfg engine with
  | .error _ => none
  | .ok (_, scheduled) => preempted scheduled

def victimOf (cfg : Config X V L S) (session : Session V S) : Call → Option Nat
  | .step => victim cfg session.engine
  | _ => none

theorem decode_cases (busy : m.engine.running ≠ [])
    (done : List Nat) :
    (m.engine.pool.allocator.numFree < need m.engine.pool m.engine.running ∧
      ∃ front victim pool cache, m.engine.running = front ++ [victim] ∧
        PagedKVCache.free m.engine.pool victim.cache = .ok (pool, cache) ∧
        decode cfg m.engine done = .ok (done,
          { m.engine with
            pool
            running := front
            requests := update m.engine.requests victim.request
              { m.engine.requests victim.request with outputTokenIds := [] }
            preemptions := m.engine.preemptions + 1
            waiting := victim.request :: m.engine.waiting })) ∨
    (need m.engine.pool m.engine.running ≤ m.engine.pool.allocator.numFree ∧
      ∃ pool grown tokens rng, grown.map Sequence.request = m.engine.running.map Sequence.request ∧
        (grown.zip tokens).map Prod.fst = grown ∧
        decode cfg m.engine done =
          settle cfg { m.engine with pool, running := grown, rng } [] done (grown.zip tokens) ∧
        Transition cfg m
          (m.showing { m.engine with pool, rng, running := [] } (grown.zip tokens))) := by
  have seqsEq := m.seqs_of_idle idle
  have bal := stock.balanced
  rw [seqsEq, add_comm] at bal
  rcases prepare_cases (commit_supplied stock.positive bal fun seq mem => stock.covers seq (seqsEq ▸ mem)) with
    ⟨short, prepared⟩ | ⟨enough, pool, grown, write, -, prepared, refilled⟩
  · left
    obtain ⟨front, victim, runningEq⟩ := (eq_nil_or_concat' m.engine.running).resolve_left busy
    obtain ⟨freedPool, cache, freed⟩ := stock.free_ok victim (by simp [seqsEq, runningEq])
    have last : m.engine.running.getLast? = some victim := by simp [runningEq]
    have others : m.engine.running.dropLast = front := by simp [runningEq]
    refine ⟨short, front, victim, freedPool, cache, runningEq, freed, ?_⟩
    simp only [decode, prepared, preemptNewest, last, freed, others]
  · right
    obtain ⟨logits, after, ran, lengths, -⟩ := @decodeForward_total X V L S cfg pool
      (m.engine.running.map Sequence.nextToken) (m.engine.running.map Sequence.position)
      (indices grown write) (by simp)
    let sampled := sampleBatch cfg ((grown.zip (logits.filterMap getLast?)).map fun row =>
      ((m.engine.requests row.1.request).params, row.2)) m.engine.rng
    refine ⟨enough, after, grown, sampled.1, sampled.2, refilled.request,
      map_fst_sampled (by simpa [refilled.length] using lengths), ?_,
      .decode m pool grown _ logits after idle busy prepared ran⟩
    simp only [decode, prepared, ran]
    rfl

theorem decode_steps (busy : m.engine.running ≠ [])
    (done : List Nat) :
    ∃ ended next discarded, decode cfg m.engine done = .ok (ended, next) ∧
      discarded.map Prod.fst = (preempted m.engine).toList ∧
      Reaches cfg m { m.withEngine next with discarded := m.discarded ++ discarded } := by
  rcases decode_cases stock idle busy done with
    ⟨short, front, victim, pool, cache, runningEq, freed, decoded⟩ |
    ⟨enough, pool, grown, tokens, rng, -, -, decoded, step⟩
  · have step : Transition cfg m _ := .preempt m front victim pool cache idle runningEq short freed
    refine ⟨done, _, [(victim.request, (m.engine.requests victim.request).outputTokenIds)], decoded, ?_,
      .single step⟩
    rw [preempted, if_pos short, runningEq]
    simp
  · obtain ⟨ended, next, settled, steps⟩ := @settle_steps X V L S cfg m (grown.zip tokens)
      { m.engine with pool, running := grown, rng } [] done (stock.transition step)
    refine ⟨ended, next, [], decoded.trans settled, ?_, ?_⟩
    · simp [preempted, Nat.not_lt.mpr enough]
    · rw [append_nil, ← showing_nil idle]
      exact .head step steps

theorem step_steps :
    ∃ ended next discarded, step cfg m.engine = .ok (ended, next) ∧
      discarded.map Prod.fst = (victim cfg m.engine).toList ∧
      Reaches cfg m { m.withEngine next with discarded := m.discarded ++ discarded } := by
  obtain ⟨done, scheduled, result, first⟩ := schedule_steps stock idle
  by_cases nothing : scheduled.running = []
  · refine ⟨done, scheduled, [], ?_, ?_, ?_⟩
    · simp only [step, result, nothing, isEmpty_nil, if_true]
    · simp [victim, result, preempted, nothing, need]
    · rw [append_nil]
      exact first
  · obtain ⟨ended, next, discarded, decoded, names, second⟩ :=
      decode_steps (stock.reaches first) idle nothing done
    refine ⟨ended, next, discarded, ?_, ?_, first.trans second⟩
    · simp only [step, result, List.isEmpty_iff, nothing, if_false]
      exact decoded
    · simp only [victim, result]
      exact names

omit stock idle in
theorem single_step {next : Machine V S} {call : Call} (step : Transition cfg m next)
    (result : m.session.call cfg call = .ok next.session) (idle : next.pending = [])
    (kept : next.discarded = m.discarded) (nobody : victimOf cfg m.session call = none) :
    ∃ next, m.session.call cfg call = .ok next.session ∧ next.pending = [] ∧ Reaches cfg m next ∧
      next.discarded.map Prod.fst = m.discarded.map Prod.fst ++ (victimOf cfg m.session call).toList :=
  ⟨next, result, idle, .single step, by simp [kept, nobody]⟩

theorem call_steps (call : Call) :
    ∃ next, m.session.call cfg call = .ok next.session ∧ next.pending = [] ∧ Reaches cfg m next ∧
      next.discarded.map Prod.fst = m.discarded.map Prod.fst ++ (victimOf cfg m.session call).toList := by
  cases call with
  | addRequest req late => exact single_step (.submit m req late) rfl idle rfl rfl
  | requestCancel requestId => exact single_step (.askCancel m requestId) rfl idle rfl rfl
  | applyCancellations =>
    obtain ⟨done, eng, applied, steps⟩ := applyCancellations_steps stock
    exact ⟨m.withEngine eng, by simp only [Session.call, applied, withEngine], idle, steps,
      by simp [victimOf, withEngine]⟩
  | cancel requestId =>
    have asked : Transition cfg m _ := .askCancel m requestId
    obtain ⟨done, eng, applied, steps⟩ := applyCancellations_steps (stock.transition asked)
    have appliedHere : applyCancellations cfg (requestCancel m.engine requestId) = .ok (done, eng) := applied
    refine ⟨m.withEngine eng, ?_, idle, .head asked steps, by simp [victimOf, withEngine]⟩
    simp only [Session.call, cancel, appliedHere, withEngine]
  | step =>
    obtain ⟨_, eng, _, went, names, steps⟩ := step_steps stock idle
    refine ⟨_, ?_, ?_, steps, ?_⟩
    · simp only [Session.call, went, withEngine]
    · exact idle
    · simp [victimOf, names]
  | drainEmitted => exact single_step (.drainEmitted m) rfl idle rfl rfl
  | drainFinished => exact single_step (.drainFinished m) rfl idle rfl rfl
  | clearPrefixCache =>
    obtain ⟨_, cleared, -⟩ := clear_spec stock.balanced
    refine single_step (.clear m _ _ cleared) ?_ idle rfl rfl
    simp only [Session.call, cleared, withEngine]

theorem run_steps (calls : List Call) :
    ∃ last, m.session.after cfg calls = .ok last.session ∧ last.pending = [] ∧ Reaches cfg m last ∧
      ∀ req, req ∈ last.discarded.map Prod.fst ↔ req ∈ m.discarded.map Prod.fst ∨
        ¬Along (Session.call cfg) (fun sess call => victimOf cfg sess call ≠ some req) m.session calls := by
  induction calls generalizing m with
  | nil => exact ⟨m, rfl, idle, .refl, fun req => by simp [Along]⟩
  | cons call _ ih =>
    obtain ⟨_, called, nextIdle, steps, names⟩ := call_steps stock idle call
    obtain ⟨last, ran, lastIdle, rest, more⟩ := ih (stock.reaches steps) nextIdle
    refine ⟨last, ?_, lastIdle, steps.trans rest, ?_⟩
    · rw [Session.after, run_cons_ok _ called]
      exact ran
    · intro req
      rw [more req, along_cons called, names, mem_append, Option.mem_toList, not_and_or, not_ne_iff, or_assoc]

end

end Nanoserve.Verified
