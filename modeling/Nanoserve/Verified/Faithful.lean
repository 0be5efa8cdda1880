import Nanoserve.Verified.Greedy
import Nanoserve.Verified.Budget
import Nanoserve.Verified.CacheSoundness
import Nanoserve.Verified.Emission

/-! # Batched output is sequential output

Every sequence of the engine holds the rows of its own context, prompt and output, whoever shares
its batches and its blocks.
-/

namespace Nanoserve.Verified

open Engine Lib List Function Machine
open ContinuousBatchingEngine

variable {X V L S : Type} {cfg : Config X V L S}
variable {seq : Sequence} {pool : PagedCachePool V} {Occurs : List Nat → Prop}
variable {m : Machine V S} {after : PagedCachePool V} {req : Request}

def contextOf (request : Request) : List Nat := request.promptTokenIds ++ request.outputTokenIds

/-- A running sequence: its last token is not in the cache yet. -/
structure Serving (cfg : Config X V L S) (pool : PagedCachePool V) (request : Request) (seq : Sequence) : Prop where
  holds : HoldsRows cfg.model (pool, seq.cache) (contextOf request)
  length : seq.cache.numTokens + 1 = (contextOf request).length
  fed : (contextOf request).getD seq.cache.numTokens 0 = seq.nextToken

/-- A sequence with the token that was sampled for it: its whole context is in the cache. -/
structure Sampled (cfg : Config X V L S) (pool : PagedCachePool V) (request : Request) (row : Sequence × Nat) :
    Prop where
  holds : HoldsRows cfg.model (pool, row.1.cache) (contextOf request)
  length : row.1.cache.numTokens = (contextOf request).length
  token : request.params.greedy → row.2 = nextToken cfg (contextOf request)

/-- The greedy loop from the prompt goes through the request's state, or has ended as the request
has; a request that was cut short went some of the way. -/
def GreedyResult (cfg : Config X V L S) (request : Request) : Prop :=
  match request.finishReason with
  | none => request.outputLen ≤ request.params.maxTokens ∧
      greedyLoop cfg request.params request.promptTokenIds request.params.maxTokens [] =
        greedyLoop cfg request.params request.promptTokenIds (request.params.maxTokens - request.outputLen)
          request.outputTokenIds
  | some .eos => greedyLoop cfg request.params request.promptTokenIds request.params.maxTokens [] =
      (request.outputTokenIds, .eos)
  | some .length => greedyLoop cfg request.params request.promptTokenIds request.params.maxTokens [] =
      (request.outputTokenIds, .length)
  | some _ => request.outputTokenIds <+:
      (greedyLoop cfg request.params request.promptTokenIds request.params.maxTokens []).1

structure Faithful (cfg : Config X V L S) (machine : Machine V S) : Prop where
  running : ∀ seq ∈ machine.engine.running,
    Serving cfg machine.engine.pool (machine.engine.requests seq.request) seq
  pending : ∀ row ∈ machine.pending,
    Sampled cfg machine.engine.pool (machine.engine.requests row.1.request) row
  results : ∀ request, (machine.engine.requests request).params.greedy →
    1 ≤ (machine.engine.requests request).params.maxTokens → GreedyResult cfg (machine.engine.requests request)

section Pools

variable {before : PagedCachePool V}

theorem HoldsRows.of_rows {cache : PagedKVCache} {tokens : List Nat} (holds : HoldsRows cfg.model (before, cache) tokens)
    (rows : ∀ layer, layer < cfg.model.numHiddenLayers → rowsOf (after, cache) layer = rowsOf (before, cache) layer) :
    HoldsRows cfg.model (after, cache) tokens :=
  fun layer inModel => (rows layer inModel).trans (holds layer inModel)

theorem Serving.of_rows (serving : Serving cfg before req seq)
    (rows : ∀ layer, layer < cfg.model.numHiddenLayers → rowsOf (after, seq.cache) layer = rowsOf (before, seq.cache) layer) :
    Serving cfg after req seq :=
  ⟨serving.holds.of_rows rows, serving.length, serving.fed⟩

theorem Sampled.of_rows {row : Sequence × Nat} (sampled : Sampled cfg before req row)
    (rows : ∀ layer, layer < cfg.model.numHiddenLayers →
      rowsOf (after, row.1.cache) layer = rowsOf (before, row.1.cache) layer) : Sampled cfg after req row :=
  ⟨sampled.holds.of_rows rows, sampled.length, sampled.token⟩

theorem Sampled.record {token : Nat} (sampled : Sampled cfg pool req (seq, token)) :
    Serving cfg pool (req.recordToken token) { seq with nextToken := token } := by
  have context : contextOf (req.recordToken token) = contextOf req ++ [token] := by simp [contextOf]
  have length := sampled.length
  refine ⟨?_, ?_, ?_⟩
  · intro layer inModel
    rw [context, sampled.holds layer inModel]
    apply map_congr_left
    intro position mem
    refine (kvAt_append [token] layer ?_).symm
    rw [← length]
    exact mem_range.mp mem
  · rw [context, length_append, length_singleton, ← length]
  · rw [context, length]
    simp

theorem Memory.rows_of_keeps (memory : Memory cfg m) {held : Multiset Nat}
    (keeps : Keeps m.engine.pool after held) (sameSize : after.blockSize = m.engine.pool.blockSize)
    (mem : seq ∈ m.seqs) (includes : ∀ block ∈ heldBy tableOf m.seqs, block ∈ held) (layer : Nat) :
    rowsOf (after, seq.cache) layer = rowsOf (m.engine.pool, seq.cache) layer := by
  refine keeps.tableRows memory.positive sameSize ?_ ((memory.wellFormed seq mem).numTokens_le memory.positive)
  intro block inTable
  exact includes block (mem_heldBy.mpr ⟨seq, mem, inTable⟩)

end Pools

section Results

variable {requests : Nat → Request} {changed : Nat} {next : Request}

theorem results_update
    (results : ∀ req, (requests req).params.greedy → 1 ≤ (requests req).params.maxTokens →
      GreedyResult cfg (requests req))
    (here : next.params.greedy → 1 ≤ next.params.maxTokens → GreedyResult cfg next) (req : Nat)
    (greedy : (update requests changed next req).params.greedy)
    (some : 1 ≤ (update requests changed next req).params.maxTokens) :
    GreedyResult cfg (update requests changed next req) := by
  by_cases same : req = changed
  · grind
  · grind

end Results

section OneToken

variable {token : Nat}

theorem GreedyResult.unfold (result : GreedyResult cfg req) (unfinished : req.finishReason = none)
    (room : req.outputLen < req.params.maxTokens) (chosen : token = nextToken cfg (contextOf req)) :
    greedyLoop cfg req.params req.promptTokenIds req.params.maxTokens [] =
      if Stops cfg req token then (req.outputTokenIds, .eos)
      else greedyLoop cfg req.params req.promptTokenIds (req.params.maxTokens - (req.outputLen + 1))
        (req.outputTokenIds ++ [token]) := by
  simp only [GreedyResult, unfinished] at result
  obtain ⟨more, remaining⟩ : ∃ more, req.params.maxTokens - req.outputLen = more + 1 :=
    ⟨req.params.maxTokens - req.outputLen - 1, by omega⟩
  have less : req.params.maxTokens - (req.outputLen + 1) = more := by omega
  rw [result.2, remaining, less, greedyLoop, chosen]
  rfl

theorem GreedyResult.record (result : GreedyResult cfg req) (unfinished : req.finishReason = none)
    (room : req.outputLen + 1 ≤ req.params.maxTokens) (chosen : token = nextToken cfg (contextOf req))
    (goesOn : ¬Stops cfg req token) : GreedyResult cfg (req.recordToken token) := by
  have unfolded := result.unfold unfinished room chosen
  rw [if_neg goesOn] at unfolded
  simp only [GreedyResult, Request.finishReason_recordToken, unfinished, Request.outputLen_recordToken]
  exact ⟨room, unfolded⟩

theorem GreedyResult.of_nil {reason : FinishReason} (ended : req.finishReason = some reason)
    (short : reason ≠ .eos ∧ reason ≠ .length) (nothing : req.outputTokenIds = []) : GreedyResult cfg req := by
  cases reason with
  | eos => exact absurd rfl short.1
  | length => exact absurd rfl short.2
  | _ =>
    simp only [GreedyResult, ended, nothing]
    exact nil_prefix

section

variable (result : GreedyResult cfg req)
include result

theorem GreedyResult.output :
    req.outputTokenIds <+:
      (greedyLoop cfg req.params req.promptTokenIds req.params.maxTokens []).1 := by
  simp only [GreedyResult] at result
  split at result
  · rw [result.2]
    exact greedyLoop_extends _ _ _ _
  · rw [result]
  · rw [result]
  · exact result

theorem GreedyResult.cancel : GreedyResult cfg (req.finish .cancelled) :=
  result.output

theorem GreedyResult.full (unfinished : req.finishReason = none)
    (full : req.params.maxTokens ≤ req.outputLen) : GreedyResult cfg (req.finish .length) := by
  simp only [GreedyResult, unfinished] at result
  have none : req.params.maxTokens - req.outputLen = 0 := by omega
  rw [none, greedyLoop] at result
  exact result.2

theorem GreedyResult.stop (unfinished : req.finishReason = none)
    (room : req.outputLen < req.params.maxTokens) (chosen : token = nextToken cfg (contextOf req))
    (stops : Stops cfg req token) : GreedyResult cfg (req.finish .eos) := by
  have unfolded := result.unfold unfinished room chosen
  rw [if_pos stops] at unfolded
  exact unfolded

end

end OneToken

theorem sampleEach_greedy {rows : List (SamplingParams × L)} {rng : S} {index : Nat} {params : SamplingParams}
    {logits : L} (placed : rows[index]? = some (params, logits)) (greedy : params.greedy) :
    (sampleEach cfg rows rng).1[index]? = some (cfg.argmax logits) := by
  induction rows generalizing rng index with
  | nil => simp at placed
  | cons _ _ ih =>
    cases index with
    | zero =>
      obtain ⟨rfl, rfl⟩ := placed
      simp [sampleEach, sample_greedy greedy]
    | succ =>
      exact ih placed

theorem sampleBatch_greedy {rows : List (SamplingParams × L)} {rng : S} {index : Nat} {params : SamplingParams}
    {logits : L} (placed : rows[index]? = some (params, logits)) (greedy : params.greedy) :
    (sampleBatch cfg rows rng).1[index]? = some (cfg.argmax logits) := by
  unfold sampleBatch
  split
  · simp [placed]
  · exact sampleEach_greedy placed greedy

/-! ## A decode pass -/

theorem filterMap_getLast?_singletons {α β : Type} (items : List α) (f : α → β) :
    (items.map fun item => [f item]).filterMap getLast? = items.map f := by
  induction items with
  | nil => rfl
  | cons _ _ ih => simp [ih]

namespace Faithful

variable {next : Machine V S}

section

variable (faithful : Faithful cfg m)
include faithful

theorem decoded (memory : Memory cfg m) (idle : m.pending = [])
    {grown : List Sequence} {batch : BatchedPagedCache} {logits : List (List L)}
    (prepared : BatchedPagedCache.prepare m.engine.pool m.engine.running = .ok (pool, grown, batch))
    (ran : decodeForward cfg pool (m.engine.running.map Sequence.nextToken) (m.engine.running.map Sequence.position) batch =
      .ok (logits, after)) :
    logits.filterMap getLast? = grown.map (fun seq =>
        logitsAt cfg.model (contextOf (m.engine.requests seq.request))
          ((contextOf (m.engine.requests seq.request)).length - 1)) ∧
      ∀ seq ∈ grown, HoldsRows cfg.model (after, seq.cache) (contextOf (m.engine.requests seq.request)) ∧
        seq.cache.numTokens = (contextOf (m.engine.requests seq.request)).length := by
  obtain ⟨write, rfl, committed, -, -⟩ := memory.decoded idle prepared ran
  have sizeEq := committed.shape.blockSize
  let context := fun req => contextOf (m.engine.requests req)
  -- What the commit phase leaves of a sequence, index by index.
  have each : ∀ seq ∈ grown, ∃ was ∈ m.engine.running, was.request = seq.request ∧
      seq.cache.numTokens = was.cache.numTokens + 1 ∧
      (context seq.request).length = seq.cache.numTokens ∧
      ∀ layer, layer < cfg.model.numHiddenLayers → tableRows pool (tableOf seq) (seq.cache.numTokens - 1) layer =
        (range (seq.cache.numTokens - 1)).map (kvAt cfg.model (context seq.request) layer) := by
    intro seq mem
    obtain ⟨was, wasRunning, others, extended⟩ := committed.of_mem mem
    have serving := faithful.running was wasRunning
    have requestEq : was.request = seq.request := by rw [extended.same]
    have count := extended.numTokens
    rw [requestEq] at serving
    refine ⟨was, wasRunning, requestEq, count, by rw [count]; exact serving.length.symm, ?_⟩
    intro layer inModel
    rw [count, Nat.add_sub_cancel, extended.rows layer (by rw [memory.layers]; exact inModel)]
    exact serving.holds layer inModel
  have tokens : m.engine.running.map Sequence.nextToken =
      grown.map fun seq => (context seq.request).getD (seq.cache.numTokens - 1) 0 := by
    refine committed.map_eq Sequence.nextToken
      (fun seq => (context seq.request).getD (seq.cache.numTokens - 1) 0) ?_
    intro seq mem next others extended
    have requestEq : seq.request = next.request := by rw [extended.same]
    rw [← requestEq, extended.numTokens, Nat.add_sub_cancel]
    exact (faithful.running seq mem).fed.symm
  have positions : m.engine.running.map Sequence.position = grown.map fun seq => seq.cache.numTokens - 1 := by
    refine committed.map_eq Sequence.position (fun seq => seq.cache.numTokens - 1) ?_
    intro seq _ next others extended
    rw [extended.numTokens, Nat.add_sub_cancel]
    rfl
  have slots : write = grown.map (lastSlot pool.blockSize) := by
    rw [committed.write, sizeEq]
    rfl
  have ready := committed.ready
  rw [← sizeEq] at ready
  obtain ⟨_, decodedEq, _⟩ := decodeForward_rows (by rw [sizeEq]; exact memory.positive) ready
    (fun seq mem => (each seq mem).choose_spec.2.2.2.1) (fun seq mem => (each seq mem).choose_spec.2.2.2.2)
  rw [tokens, positions, slots, decodedEq] at ran
  cases ran
  refine ⟨?_, ?_⟩
  · rw [filterMap_getLast?_singletons]
    apply map_congr_left
    intro seq mem
    obtain ⟨was, -, -, -, length, -⟩ := each seq mem
    rw [← length]
  · grind

theorem frame
    (rows : ∀ seq ∈ m.seqs, ∀ layer, layer < cfg.model.numHiddenLayers →
      rowsOf (next.engine.pool, seq.cache) layer = rowsOf (m.engine.pool, seq.cache) layer)
    (running : ∀ seq ∈ next.engine.running, seq ∈ m.engine.running ∧
      next.engine.requests seq.request = m.engine.requests seq.request)
    (pending : ∀ row ∈ next.pending, row ∈ m.pending ∧
      next.engine.requests row.1.request = m.engine.requests row.1.request)
    (results : ∀ req, (next.engine.requests req).params.greedy →
      1 ≤ (next.engine.requests req).params.maxTokens → GreedyResult cfg (next.engine.requests req)) :
    Faithful cfg next where
  running seq mem := by
    obtain ⟨stays, same⟩ := running seq mem
    rw [same]
    exact (faithful.running seq stays).of_rows (rows seq (mem_append_left _ stays))
  pending row mem := by
    obtain ⟨stays, same⟩ := pending row mem
    rw [same]
    exact (faithful.pending row stays).of_rows
      (rows row.1 (mem_append_right _ (mem_map_of_mem stays)))
  results := results

theorem outside {outsider : Nat} {changed : Request}
    (absent : outsider ∉ m.seqs.map Sequence.request) (poolEq : next.engine.pool = m.engine.pool)
    (requestsEq : next.engine.requests = update m.engine.requests outsider changed)
    (running : next.engine.running = m.engine.running) (pending : next.pending = m.pending)
    (here : changed.params.greedy → 1 ≤ changed.params.maxTokens → GreedyResult cfg changed) : Faithful cfg next := by
  have differs : ∀ seq ∈ m.seqs, next.engine.requests seq.request = m.engine.requests seq.request := by
    intro seq mem
    rw [requestsEq, update_of_ne (ne_of_mem_of_not_mem (mem_map_of_mem mem) absent)]
  refine faithful.frame ?_ ?_ ?_ ?_
  · grind
  · rw [running]
    exact fun seq mem => ⟨mem, differs seq (mem_append_left _ mem)⟩
  · rw [pending]
    exact fun row mem => ⟨mem, differs row.1 (mem_append_right _ (mem_map_of_mem mem))⟩
  · rw [requestsEq]
    exact results_update faithful.results here

theorem leave {alloc : BlockAllocator} {front back : List Nat} {leaving : Nat}
    {changed : Request} (once : (front ++ leaving :: back).Nodup)
    (poolEq : next.engine.pool = { m.engine.pool with allocator := alloc })
    (requestsEq : next.engine.requests = update m.engine.requests leaving changed)
    (others : next.seqs.map Sequence.request = front ++ back)
    (running : ∀ seq ∈ next.engine.running, seq ∈ m.engine.running)
    (pending : ∀ row ∈ next.pending, row ∈ m.pending)
    (here : changed.params.greedy → 1 ≤ changed.params.maxTokens → GreedyResult cfg changed) : Faithful cfg next := by
  have differs : ∀ seq ∈ next.seqs, next.engine.requests seq.request = m.engine.requests seq.request := by
    intro seq mem
    have inRest : seq.request ∈ front ++ back := by grind
    have absent : leaving ∉ front ++ back := (nodup_cons.mp (nodup_middle.mp once)).1
    rw [requestsEq, update_of_ne (ne_of_mem_of_not_mem inRest absent)]
  refine faithful.frame ?_ ?_ ?_ ?_
  · intro seq _ layer _
    rw [poolEq]
    rfl
  · exact fun seq mem => ⟨running seq mem, differs seq (mem_append_left _ mem)⟩
  · exact fun row mem =>
      ⟨pending row mem, differs row.1 (mem_append_right _ (mem_map_of_mem mem))⟩
  · rw [requestsEq]
    exact results_update faithful.results here

theorem settle {alloc : BlockAllocator} {token : Nat}
    {pending : List (Sequence × Nat)} {changed : Request} (once : m.ledger.active.Nodup)
    (pendingEq : m.pending = (seq, token) :: pending)
    (poolEq : next.engine.pool = { m.engine.pool with allocator := alloc })
    (requestsEq : next.engine.requests = update m.engine.requests seq.request changed)
    (running : next.engine.running = m.engine.running) (rest : next.pending = pending)
    (here : changed.params.greedy → 1 ≤ changed.params.maxTokens → GreedyResult cfg changed) : Faithful cfg next := by
  rw [active_of_pending pendingEq] at once
  refine faithful.leave once poolEq requestsEq ?_ ?_ ?_ here
  · simp [seqs, running, rest]
  · grind
  · grind

theorem enter (memory : Memory cfg m) (sound : Sound cfg Occurs m)
    (collisionFree : CollisionFree cfg.blockHash m.engine.pool.blockSize Occurs) {req : Nat}
    {logits : List L} {last : L} {prefixCache : PrefixCache} {cache : PagedKVCache}
    (untouched : (m.engine.requests req).outputTokenIds = [])
    (room : admissionNeed cfg m.engine req ≤ m.engine.pool.allocator.numFree)
    (prefilled : prefill cfg m.engine.pool m.engine.prefixCache (m.engine.requests req) {} =
      .ok (logits, pool, prefixCache, cache))
    (sampled : logits.getLast? = some last) (waiting : List Nat) :
    Faithful cfg { m.withEngine { m.engine with
        pool, prefixCache, waiting
        rng := (sample cfg (m.engine.requests req).params last m.engine.rng).2 } with
      pending :=
        let token := (sample cfg (m.engine.requests req).params last m.engine.rng).1
        [({ request := req, cache, nextToken := token }, token)] } := by
  have spec := memory.prefilled_of room prefilled
  have context : contextOf (m.engine.requests req) = (m.engine.requests req).promptTokenIds := by
    rw [contextOf, untouched, append_nil]
  have enough : ceilDiv (m.engine.requests req).promptLen m.engine.pool.blockSize ≤
      m.engine.pool.allocator.numFree := by
    simp only [admissionNeed, blocksNeeded] at room
    omega
  obtain ⟨holds, lastEq, -⟩ := prefill_rows memory.positive memory.layers memory.balanced memory.inverse
    (memory.nonempty req) enough collisionFree (sound.occurs req) sound.entries prefilled
  rw [sampled, Option.some.injEq] at lastEq
  refine ⟨fun seq mem => (faithful.running seq mem).of_rows fun layer _ => ?_, ?_, faithful.results⟩
  · exact memory.rows_of_keeps spec.keeps spec.shape.blockSize (mem_append_left _ mem)
      (fun block inHeld => Multiset.mem_add.mpr (.inr inHeld)) layer
  · intro row mem
    rw [mem_singleton.mp mem]
    refine ⟨?_, ?_, ?_⟩
    · simp only [withEngine, context]
      exact holds
    · simp only [withEngine, context]
      exact spec.numTokens
    · intro greedy
      simp only [withEngine] at greedy
      simp only [withEngine, sample_greedy greedy, lastEq, context, nextToken]
      rfl

theorem grow (memory : Memory cfg m) {grown : List Sequence}
    {batch : BatchedPagedCache} {logits : List (List L)} (idle : m.pending = [])
    (prepared : BatchedPagedCache.prepare m.engine.pool m.engine.running = .ok (pool, grown, batch))
    (ran : decodeForward cfg pool (m.engine.running.map Sequence.nextToken) (m.engine.running.map Sequence.position) batch =
      .ok (logits, after)) :
    let sampled := sampleBatch cfg ((grown.zip (logits.filterMap getLast?)).map fun row =>
      ((m.engine.requests row.1.request).params, row.2)) m.engine.rng
    Faithful cfg { m.withEngine { m.engine with pool := after, rng := sampled.2, running := [] } with
      pending := grown.zip sampled.1 } := by
  obtain ⟨lasts, each⟩ := faithful.decoded memory idle prepared ran
  refine ⟨fun seq mem => by simp [withEngine] at mem, ?_, faithful.results⟩
  intro row mem
  obtain ⟨index, placed⟩ := mem_iff_getElem?.mp mem
  obtain ⟨seqPlaced, tokenPlaced⟩ := getElem?_zip_eq_some.mp placed
  obtain ⟨holds, length⟩ := each row.1 (mem_of_getElem? seqPlaced)
  refine ⟨holds, length, ?_⟩
  · intro greedy
    have paired : (grown.zip (logits.filterMap getLast?))[index]? = some (row.1,
        logitsAt cfg.model (contextOf (m.engine.requests row.1.request))
          ((contextOf (m.engine.requests row.1.request)).length - 1)) :=
      getElem?_zip_eq_some.mpr ⟨seqPlaced, by rw [lasts, getElem?_map, seqPlaced]; rfl⟩
    have chosen := @sampleBatch_greedy X V L S cfg
      ((grown.zip (logits.filterMap getLast?)).map fun row =>
        ((m.engine.requests row.1.request).params, row.2)) m.engine.rng index
      (m.engine.requests row.1.request).params
      (logitsAt cfg.model (contextOf (m.engine.requests row.1.request))
        ((contextOf (m.engine.requests row.1.request)).length - 1))
      (by rw [getElem?_map, paired]; rfl) greedy
    exact Option.some.inj (tokenPlaced.symm.trans chosen)

theorem keep {token : Nat} {pending : List (Sequence × Nat)}
    (once : m.ledger.active.Nodup) (pendingEq : m.pending = (seq, token) :: pending)
    (unfinished : (m.engine.requests seq.request).finishReason = none)
    (goesOn : ¬Stops cfg (m.engine.requests seq.request) token)
    (room : (m.engine.requests seq.request).outputLen + 1 < (m.engine.requests seq.request).params.maxTokens) :
    Faithful cfg { m.withEngine { record m.engine seq.request token with
      running := m.engine.running ++ [{ seq with nextToken := token }] } with pending } := by
  obtain ⟨fromRunning, fromPending⟩ := pending_apart once pendingEq
  have chosen := faithful.pending (seq, token) (by grind)
  refine ⟨?_, ?_, ?_⟩
  · intro other mem
    rcases mem_append.mp mem with old | new
    · simp only [withEngine, record, update_of_ne (fromRunning other old)]
      exact faithful.running other old
    · rw [mem_singleton.mp new]
      simp only [withEngine, record, update_self]
      exact chosen.record
  · intro row mem
    simp only [withEngine, record, update_of_ne (fromPending row mem)]
    exact faithful.pending row (by grind)
  · refine results_update faithful.results ?_
    intro greedy some
    exact (faithful.results seq.request greedy some).record unfinished (Nat.le_of_lt room)
      (chosen.token greedy) goesOn

theorem transition (memory : Memory cfg m) (sound : Sound cfg Occurs m)
    (collisionFree : CollisionFree cfg.blockHash m.engine.pool.blockSize Occurs)
    (orderly : Orderly cfg.maxBatchSize m.ledger) (fresh : m.ledger.Fresh) (budgeted : Budgeted m)
    (distinct : next.session.submitted.Nodup) (step : Transition cfg m next) : Faithful cfg next := by
  have distinctBefore : m.session.submitted.Nodup :=
    distinct.sublist (step.ledgerSteps memory.stock).submitted_grows.sublist
  have once := orderly.active_nodup distinctBefore
  -- An active request has no outcome yet.
  have unfinished : ∀ seq ∈ m.seqs, (m.engine.requests seq.request).finishReason = none := by
    intro seq mem
    have active : seq.request ∈ m.ledger.active := mem_map_of_mem mem
    by_contra some
    have ended := (orderly.ended seq.request).mp (Option.isSome_iff_ne_none.mpr some)
    exact (orderly.elsewhere distinctBefore ended).2.2 active
  cases step with
  | submit added =>
    -- A request object is new when it is added, so it is nobody's in the batch.
    have unknown : added ∉ m.session.submitted := fun known =>
      (nodup_append.mp distinct).2.2 added known added (by simp) rfl
    have absent := fun active => unknown (orderly.known_active active)
    have untouched : (m.engine.requests added).outputTokenIds = [] :=
      fresh added absent fun ended => unknown (orderly.elsewhere distinctBefore ended).1
    simp only [addRequest]
    split
    case h_1 =>
      refine faithful.outside absent rfl (update_idem _ _ _) rfl rfl ?_
      intro _ _
      exact @GreedyResult.of_nil X V L S cfg _ .rejected (by simp [finish]) (by simp) (by simpa [finish] using untouched)
    case h_2 => exact ⟨faithful.running, faithful.pending, faithful.results⟩
  | cancelRunning front seq back _ _ running _ freed =>
    obtain ⟨alloc, rfl⟩ := free_pool freed
    have activeEq : m.ledger.active = front.map Sequence.request ++
        seq.request :: (back ++ m.pending.map Prod.fst).map Sequence.request := by
      simp [ledger, seqs, running]
    rw [activeEq] at once
    refine faithful.leave once rfl rfl ?_ (fun _ mem => mem_of_taken_out running mem) (fun row mem => mem)
      fun greedy some => (faithful.results seq.request greedy some).cancel
    simp [seqs, withEngine, recordFinished, finish]
  | cancelWaiting _ req _ waiting =>
    have queued := orderly.queued distinctBefore (show req ∈ m.ledger.waiting by
      simp [ledger, waiting])
    exact faithful.outside queued.1 rfl rfl rfl rfl fun _ _ => .of_nil rfl (by simp) (fresh req queued.1 queued.2)
  | makeRoom blocks _ _ made =>
    obtain ⟨_, alloc, _, -, result⟩ := memory.stock.makeRoom_cases blocks
    rw [result m.engine rfl rfl] at made
    cases made
    exact faithful.frame (fun _ _ _ _ => rfl) (fun _ mem => ⟨mem, rfl⟩) (fun _ mem => ⟨mem, rfl⟩)
      faithful.results
  | clear _ _ cleared =>
    obtain ⟨alloc, result, -⟩ := clear_spec memory.balanced
    rw [cleared] at result
    cases result
    exact faithful.frame (fun _ _ _ _ => rfl) (fun _ mem => ⟨mem, rfl⟩) (fun _ mem => ⟨mem, rfl⟩)
      faithful.results
  | reject req _ _ queuedEq =>
    have queued := orderly.queued distinctBefore (show req ∈ m.ledger.waiting by
      simp [ledger, queuedEq])
    exact faithful.outside queued.1 rfl rfl rfl rfl fun _ _ => .of_nil rfl (by simp) (fresh req queued.1 queued.2)
  | prefill req waiting _ _ _ _ _ _ queuedEq _ room prefilled sampled =>
    have queued := orderly.queued distinctBefore (show req ∈ m.ledger.waiting by
      simp [ledger, queuedEq])
    exact faithful.enter memory sound collisionFree (fresh req queued.1 queued.2) room prefilled sampled waiting
  | decode _ _ _ _ _ idle _ prepared ran => exact faithful.grow memory idle prepared ran
  | keep seq _ _ pendingEq goesOn room =>
    exact faithful.keep once pendingEq (unfinished seq (by simp [seqs, pendingEq])) goesOn room
  | fill seq token _ _ _ pendingEq goesOn full freed =>
    obtain ⟨alloc, rfl⟩ := free_pool freed
    have standing : seq ∈ m.seqs := by simp [seqs, pendingEq]
    have chosen := faithful.pending (seq, token) (by simp [pendingEq])
    have left := budgeted.pending (seq, token) (by grind)
    refine faithful.settle once pendingEq rfl (update_idem _ _ _) rfl rfl ?_
    intro greedy some
    have greedyHere : (m.engine.requests seq.request).params.greedy := by simpa [record] using greedy
    have someHere : 1 ≤ (m.engine.requests seq.request).params.maxTokens := by simpa [record] using some
    have recorded := (faithful.results seq.request greedyHere someHere).record (unfinished seq standing)
      (left someHere) (chosen.token greedyHere) goesOn
    simp only [record, update_self]
    exact recorded.full (unfinished seq standing) (by simpa using full)
  | stop seq token _ _ _ pendingEq stops freed =>
    obtain ⟨alloc, rfl⟩ := free_pool freed
    have standing : seq ∈ m.seqs := by simp [seqs, pendingEq]
    have chosen := faithful.pending (seq, token) (by grind)
    have left := budgeted.pending (seq, token) (by simp [pendingEq])
    refine faithful.settle once pendingEq rfl rfl rfl rfl ?_
    intro greedy some
    exact (faithful.results seq.request greedy some).stop (unfinished seq standing) (left some)
      (chosen.token greedy) stops
  | preempt front victim _ _ idle running _ freed =>
    obtain ⟨alloc, rfl⟩ := free_pool freed
    have activeEq : m.ledger.active = front.map Sequence.request ++ victim.request :: [] := by
      simp [ledger, seqs, running, idle]
    rw [activeEq] at once
    have standing : victim ∈ m.seqs := by simp [seqs, running]
    refine faithful.leave once rfl rfl ?_ ?_ (fun row mem => mem) ?_
    · simp [seqs, withEngine, idle]
    · intro other mem
      rw [running]
      exact mem_append_left _ mem
    · intro _ _
      simp [GreedyResult, unfinished victim standing, Request.outputLen]
  | _ => exact ⟨faithful.running, faithful.pending, faithful.results⟩

theorem reaches (memory : Memory cfg m) (sound : Sound cfg Occurs m)
    (collisionFree : CollisionFree cfg.blockHash m.engine.pool.blockSize Occurs)
    (orderly : Orderly cfg.maxBatchSize m.ledger) (fresh : m.ledger.Fresh) (budgeted : Budgeted m)
    (steps : Reaches cfg m next) (distinct : next.session.submitted.Nodup) : Faithful cfg next := by
  induction steps with
  | refl => exact faithful
  | tail steps last ih =>
    have middleMemory := memory.reaches steps
    have ledgerSteps := Reaches.ledgerSteps memory.stock steps
    have distinctBefore := distinct.sublist (last.ledgerSteps middleMemory.stock).submitted_grows.sublist
    refine (ih distinctBefore).transition middleMemory (sound.reaches memory collisionFree steps) ?_
      (orderly.steps ledgerSteps) (ledgerSteps.fresh fresh)
      (budgeted.reaches memory.stock orderly fresh steps distinctBefore) distinct last
    rw [(memory.stock.sameShape_reaches steps).blockSize]
    exact collisionFree

end

theorem new (numBlocks size : Nat) (caching : Bool) (zero : V) (clients : Nat → Submission) (rng : S) :
    Faithful cfg { session := Session.new cfg numBlocks size caching zero clients rng } where
  running seq mem := by simp [Session.new] at mem
  pending row mem := by simp at mem
  results req _ _ := ⟨Nat.zero_le _, rfl⟩

end Faithful

theorem GreedyResult.eq_loop {reason : FinishReason} (result : GreedyResult cfg req)
    (ended : req.finishReason = some reason) (natural : reason = .eos ∨ reason = .length) :
    greedyLoop cfg req.params req.promptTokenIds req.params.maxTokens [] =
      (req.outputTokenIds, reason) := by
  rcases natural with rfl | rfl
  · simpa only [GreedyResult, ended] using result
  · simpa only [GreedyResult, ended] using result

theorem mem_sharing (client : Nat) : (sharing client).promptTokenIds ∈ [[1], [5]] := by
  match client with
  | 0 => exact mem_cons_self
  | _ + 1 => exact mem_cons_of_mem _ mem_cons_self

theorem collisionFree_sharing : CollisionFree counting.blockHash 1 (· ∈ [[1], [5]]) := by decide

/-- In every run with distinct request ids, a greedy request that ends on the end-of-sequence token
or on its length has the output and the finish reason the sequential engine computes for it alone. -/
theorem batched_output_is_sequential (cfg : Config X V L S) (numBlocks blockSize : Nat) (enablePrefixCache : Bool)
    (zero : V) (clients : Nat → Submission) (rng : S) (Occurs : List Nat → Prop) (positive : 0 < blockSize)
    (occurs : ∀ client, Occurs (clients client).promptTokenIds)
    (collisionFree : CollisionFree cfg.blockHash blockSize Occurs) (calls : List Call)
    (distinct : ((added calls).map fun request => (clients request).requestId).Nodup) :
    ∃ session, (Session.new cfg numBlocks blockSize enablePrefixCache zero clients rng).after cfg calls = .ok session ∧
      ∀ request reason, (clients request).params.greedy → 1 ≤ (clients request).params.maxTokens →
        reason = .eos ∨ reason = .length → (session.engine.requests request).finishReason = some reason →
        ∀ alone : S, ∃ ended cache,
          BaselineEngine.step cfg (clients request).request alone = .ok (ended, cache, alone) ∧
          ended.outputTokenIds = (session.engine.requests request).outputTokenIds ∧
          ended.finishReason = (session.engine.requests request).finishReason := by
  have memory := Memory.new numBlocks enablePrefixCache zero rng positive
    fun _ client => nodup_hashChain collisionFree (occurs client)
  have sound := @Sound.new X V L S cfg Occurs numBlocks blockSize enablePrefixCache zero clients rng occurs
  have orderly := @Orderly.new X V L S cfg numBlocks blockSize enablePrefixCache zero clients rng
  have faithful := @Faithful.new X V L S cfg numBlocks blockSize enablePrefixCache zero clients rng
  obtain ⟨last, ran, -, steps, -⟩ := run_steps memory.stock rfl calls
  refine ⟨last.session, ran, ?_⟩
  intro request reason greedy some natural ended alone
  have submitted : last.session.submitted = added calls := by simpa [Session.new] using submitted_after ran
  have budgeted := @Budgeted.new X V L S cfg numBlocks blockSize enablePrefixCache zero clients rng
  have lastFaithful := faithful.reaches memory sound collisionFree orderly (fun _ _ _ => rfl) budgeted steps
    (by rw [submitted]; exact distinct.of_map)
  -- The client's part of the request is what was submitted.
  have client := steps.sameClient request
  have prompt : (last.engine.requests request).promptTokenIds = (clients request).promptTokenIds := client.prompt
  have params : (last.engine.requests request).params = (clients request).params := client.params
  have loop := (lastFaithful.results request (by grind) (by grind)).eq_loop
    ended natural
  rw [prompt, params] at loop
  obtain ⟨sequential, cache, stepped, outputEq, reasonEq⟩ := baseline_spec (clients request).request alone
    greedy (clients request).nonempty rfl rfl
  have loopHere : greedyLoop cfg (clients request).request.params (clients request).request.promptTokenIds
      (clients request).request.params.maxTokens [] =
    ((last.engine.requests request).outputTokenIds, reason) := loop
  rw [loopHere] at outputEq reasonEq
  exact ⟨sequential, cache, stepped, outputEq, reasonEq.trans ended.symm⟩

theorem batched_output_is_sequential_sharing :
    0 < 1 ∧ (∀ client, (sharing client).promptTokenIds ∈ [[1], [5]]) ∧
      CollisionFree counting.blockHash 1 (· ∈ [[1], [5]]) ∧
      ((added ([.addRequest 0 false, .addRequest 1 false] ++ List.replicate 6 .step)).map fun request =>
        (sharing request).requestId).Nodup ∧
      ∃ session, (Session.new counting 5 1 true 0 sharing ()).after counting
          ([.addRequest 0 false, .addRequest 1 false] ++ List.replicate 6 .step) = .ok session ∧
        ∀ request reason, (sharing request).params.greedy → 1 ≤ (sharing request).params.maxTokens →
          reason = .eos ∨ reason = .length → (session.engine.requests request).finishReason = some reason →
          ∀ alone : Unit, ∃ ended cache,
            BaselineEngine.step counting (sharing request).request alone = .ok (ended, cache, alone) ∧
            ended.outputTokenIds = (session.engine.requests request).outputTokenIds ∧
            ended.finishReason = (session.engine.requests request).finishReason :=
  ⟨Nat.one_pos, mem_sharing, collisionFree_sharing, by decide,
    batched_output_is_sequential counting 5 1 true 0 sharing () (· ∈ [[1], [5]]) Nat.one_pos mem_sharing
      collisionFree_sharing _ (by decide)⟩

end Nanoserve.Verified
