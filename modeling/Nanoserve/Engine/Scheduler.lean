import Mathlib.Algebra.GroupWithZero.Nat
import Nanoserve.Engine.Types
import Nanoserve.Engine.PrefixCache
import Nanoserve.Lib.Loops

/-! # Continuous batching

`engine/scheduler.py`: the batched view of the pool and the iteration-level scheduler.
-/

namespace Nanoserve.Engine

open Lib
open Model (KVCache NanoForCausalLM)

/-- A request that has been admitted and has KV allocated. -/
structure Sequence where
  request : Nat
  cache : PagedKVCache
  nextToken : Nat := 0
  finished : Bool := false
  finishReason : Option FinishReason := none
deriving DecidableEq, Repr

/-- Absolute position of the next token. -/
def Sequence.position (seq : Sequence) : Nat := seq.cache.numTokens

/-! ## One decode pass over a batch -/

/-- The index tensors of a prepared `BatchedPagedCache`. -/
structure BatchedPagedCache where
  writeSlots : List Nat
  readIndex : List (List Nat)
  mask : List (List Bool)
  maxLen : Nat

namespace BatchedPagedCache

variable {V : Type}

/-- How many blocks one more token takes for this sequence. -/
def needOf (pool : PagedCachePool V) (seq : Sequence) : Nat :=
  if seq.cache.numTokens % pool.blockSize = 0 then 1  -- crosses into a fresh block
  else
    match seq.cache.blockTable.getLast? with
    | some tail => if pool.allocator.refCount tail > 1 then 1 else 0  -- copy-on-write of a shared tail
    | none => 0

def need (pool : PagedCachePool V) (seqs : List Sequence) : Nat := (seqs.map (needOf pool)).sum

/-- The commit phase of `_prepare`: grow every sequence by one token and collect
the slot each one writes. -/
def commit (pool : PagedCachePool V) :
    List Sequence → Except (Raised (PagedCachePool V × List Sequence)) (PagedCachePool V × List Sequence × List Nat)
  | [] => .ok (pool, [], [])
  | seq :: seqs =>
    match PagedKVCache.grow pool seq.cache 1 with
    | .error (.runtimeError raised) => .error (.runtimeError raised)
    | .error (.outOfBlocks (pool, cache)) => .error (.outOfBlocks (pool, { seq with cache } :: seqs))
    | .ok (pool, cache) =>
      match commit pool seqs with
      | .error (.runtimeError raised) => .error (.runtimeError raised)
      | .error (.outOfBlocks (pool, seqs)) => .error (.outOfBlocks (pool, { seq with cache } :: seqs))
      | .ok (pool, seqs, write) =>
        .ok (pool, { seq with cache } :: seqs, address pool.blockSize cache.blockTable seq.cache.numTokens :: write)

/-- `pad_sequence(.., padding_value=0)` to the batch maximum. -/
def pad (maxLen : Nat) (slots : List Nat) : List Nat := slots ++ List.replicate (maxLen - slots.length) 0

def indices (seqs : List Sequence) (writeSlots : List Nat) : BatchedPagedCache :=
  let lengths := seqs.map fun seq => seq.cache.numTokens
  let maxLen := lengths.foldl max 0
  { writeSlots
    readIndex := seqs.map fun seq => pad maxLen (seq.cache.slots.take seq.cache.numTokens)
    mask := lengths.map fun length => (List.range maxLen).map fun key => decide (key < length)
    maxLen }

/-- Count first, commit second. -/
def prepare (pool : PagedCachePool V) (seqs : List Sequence) :
    Except (Raised (PagedCachePool V × List Sequence)) (PagedCachePool V × List Sequence × BatchedPagedCache) :=
  if need pool seqs > pool.allocator.numFree then .error (.outOfBlocks (pool, seqs))
  else
    match commit pool seqs with
    | .error raised => .error raised
    | .ok (pool, seqs, write) => .ok (pool, seqs, indices seqs write)

/-- A prepared batch behind the model's protocol: one scatter and one gather per layer. -/
def protocol (ε V : Type) (batch : BatchedPagedCache) : KVCache ε (PagedCachePool V) V where
  update layerIdx k pool :=
    let pool := pool.write layerIdx batch.writeSlots (k.filterMap List.head?)
    .ok (batch.readIndex.map (pool.gather layerIdx), pool)
  len _ := batch.maxLen

end BatchedPagedCache

/-! ## Configuration and state -/

/-- The queue-depth gate of `AdmissionConfig`. -/
structure AdmissionConfig where
  maxQueueDepth : Option Nat := some 64

structure Config (X V L S : Type) where
  model : NanoForCausalLM X V L
  argmax : L → Nat
  sampleWithParams : SamplingParams → L → S → Nat × S
  blockHash : Int → List Nat → Int
  eosTokenId : Nat
  maxBatchSize : Nat := 64
  reserveBlocks : Nat := 8
  admission : Option AdmissionConfig := none
  history : Nat := 1024

/-- The engine.  `finished` is the bounded window kept for inspection,
`newlyFinished` the outcomes nobody has drained yet. -/
structure EngineState (V S : Type) where
  pool : PagedCachePool V
  prefixCache : PrefixCache
  requests : Nat → Request
  waiting : List Nat := []
  running : List Sequence := []
  finished : List Nat := []
  numFinished : Nat := 0
  newlyFinished : List Nat := []
  cancelRequested : List String := []
  emitted : List (Nat × Nat) := []
  preemptions : Nat := 0
  rng : S

/-- Exceptions that leave the engine. -/
inductive EngineError where
  | allocator (error : AllocatorError)
  | outOfBlocks  -- "pool exhausted with nothing running to evict"
  | emptyPrompt  -- the model has no last row of logits to sample from
deriving DecidableEq, Repr

namespace ContinuousBatchingEngine

variable {X V L S : Type}

/-! ## Queue -/

def recordFinished (cfg : Config X V L S) (engine : EngineState V S) (request : Nat) : EngineState V S :=
  let finished := engine.finished ++ [request]
  { engine with
    numFinished := engine.numFinished + 1
    finished := finished.drop (finished.length - cfg.history)
    newlyFinished := engine.newlyFinished ++ [request] }

/-- `req.finish(reason)` on the heap. -/
def finish (engine : EngineState V S) (request : Nat) (reason : FinishReason) : EngineState V S :=
  { engine with requests := Function.update engine.requests request ((engine.requests request).finish reason) }

/-- `AdmissionController.admit`; `late` is what the deadline projection says. -/
def admissionReason (config : AdmissionConfig) (queueDepth : Nat) (late : Bool) : Option String :=
  match config.maxQueueDepth with
  | some depth => if depth ≤ queueDepth then some "queue_full" else if late then some "deadline_exceeded" else none
  | none => if late then some "deadline_exceeded" else none

def reject (cfg : Config X V L S) (engine : EngineState V S) (request : Nat) (reason : String) : EngineState V S :=
  let engine := finish engine request .rejected
  let engine :=
    { engine with
      requests := Function.update engine.requests request
        { engine.requests request with rejectionReason := reason } }
  recordFinished cfg engine request

/-- Admit or reject on arrival. -/
def addRequest (cfg : Config X V L S) (engine : EngineState V S) (request : Nat) (late : Bool) : EngineState V S :=
  match cfg.admission.bind fun config => admissionReason config engine.waiting.length late with
  | some reason => reject cfg engine request reason
  | none => { engine with waiting := engine.waiting ++ [request] }

def requestCancel (engine : EngineState V S) (requestId : String) : EngineState V S :=
  { engine with cancelRequested := engine.cancelRequested.insert requestId }

/-- Whether a request's id is among the wanted ones. -/
def wants (engine : EngineState V S) (wanted : List String) (request : Nat) : Bool :=
  decide ((engine.requests request).requestId ∈ wanted)

-- `for seq in [s for s in self.running if s.request.request_id in wanted]`
def cancelRunning (cfg : Config X V L S) (engine : EngineState V S) :
    List Sequence → Except EngineError (EngineState V S)
  | [] => .ok engine
  | seq :: seqs =>
    match PagedKVCache.free engine.pool seq.cache with
    | .error raised => .error (.allocator raised)
    | .ok (pool, _) =>
      let engine := finish { engine with pool } seq.request .cancelled
      cancelRunning cfg (recordFinished cfg engine seq.request) seqs

def cancelWaiting (cfg : Config X V L S) (engine : EngineState V S) : List Nat → EngineState V S
  | [] => engine
  | request :: requests =>
    cancelWaiting cfg (recordFinished cfg (finish engine request .cancelled) request) requests

/-- Apply pending cancellations; returns the requests they ended. -/
def applyCancellations (cfg : Config X V L S) (engine : EngineState V S) :
    Except EngineError (List Nat × EngineState V S) :=
  if engine.cancelRequested.isEmpty then .ok ([], engine)
  else
    let wanted := engine.cancelRequested
    let hit := engine.running.filter fun seq => wants engine wanted seq.request
    let queued := engine.waiting.filter (wants engine wanted)
    match cancelRunning cfg { engine with cancelRequested := [] } hit with
    | .error raised => .error raised
    | .ok cancelled =>
      let cancelled :=
        { cancelled with
          running := engine.running.filter fun seq => !wants engine wanted seq.request
          waiting := engine.waiting.filter fun request => !wants engine wanted request }
      .ok (hit.map Sequence.request ++ queued, cancelWaiting cfg cancelled queued)

def cancel (cfg : Config X V L S) (engine : EngineState V S) (requestId : String) :
    Except EngineError (Bool × EngineState V S) :=
  match applyCancellations cfg (requestCancel engine requestId) with
  | .error raised => .error raised
  | .ok (done, engine) => .ok (!done.isEmpty, engine)

def drainEmitted (engine : EngineState V S) : List (Nat × Nat) × EngineState V S :=
  (engine.emitted, { engine with emitted := [] })

def drainFinished (engine : EngineState V S) : List Nat × EngineState V S :=
  (engine.newlyFinished, { engine with newlyFinished := [] })

def hasWork (engine : EngineState V S) : Bool := !engine.waiting.isEmpty || !engine.running.isEmpty

/-! ## Sampling -/

def sample (cfg : Config X V L S) (params : SamplingParams) (logits : L) (rng : S) : Nat × S :=
  if params.greedy then (cfg.argmax logits, rng) else cfg.sampleWithParams params logits rng

-- The list comprehension of `_sample_batch`.
def sampleEach (cfg : Config X V L S) : List (SamplingParams × L) → S → List Nat × S
  | [], rng => ([], rng)
  | (params, logits) :: rows, rng =>
    let (token, rng) := sample cfg params logits rng
    let (tokens, rng) := sampleEach cfg rows rng
    (token :: tokens, rng)

def sampleBatch (cfg : Config X V L S) (rows : List (SamplingParams × L)) (rng : S) : List Nat × S :=
  if rows.all fun row => row.1.greedy then (rows.map fun row => cfg.argmax row.2, rng)
  else sampleEach cfg rows rng

/-! ## Scheduling -/

def blocksNeeded (pool : PagedCachePool V) (request : Request) : Nat := ceilDiv request.promptLen pool.blockSize

/-- Run the prompt, skipping any prefix already in the block cache. -/
def prefill (cfg : Config X V L S) (pool : PagedCachePool V) (prefixCache : PrefixCache) (request : Request)
    (cache : PagedKVCache) :
    Except (Raised (PagedCachePool V × PrefixCache × PagedKVCache))
      (List L × PagedCachePool V × PrefixCache × PagedKVCache) :=
  let ids := request.promptTokenIds
  -- The last token of the prompt is never served from cache.
  match prefixCache.matchPrefix cfg.blockHash pool ids.dropLast with
  | .error raised => .error (.runtimeError raised)
  | .ok (blocks, pool, prefixCache) =>
    let (nCached, cache) := PrefixCache.attach pool.blockSize cache blocks
    let suffix := ids.drop nCached
    let positions := List.range' nCached suffix.length
    match cfg.model.forward (PagedKVCache.protocol V) [suffix] (some [positions]) none (pool, cache) with
    | .error (.runtimeError raised) => .error (.runtimeError raised)
    | .error (.outOfBlocks (pool, cache)) => .error (.outOfBlocks (pool, prefixCache, cache))
    | .ok (logits, pool, cache) =>
      match prefixCache.insert cfg.blockHash pool ids cache.blockTable with
      | .error raised => .error (.runtimeError raised)
      | .ok (pool, prefixCache) => .ok (logits.headD [], pool, prefixCache, cache)

/-- Record a produced token and apply stop conditions. -/
def acceptToken (cfg : Config X V L S) (engine : EngineState V S) (seq : Sequence) (tokenId : Nat) :
    EngineState V S × Sequence :=
  let request := engine.requests seq.request
  if tokenId = cfg.eosTokenId ∧ ¬request.params.ignoreEos then
    (engine, { seq with finished := true, finishReason := some .eos })
  else
    let request := request.recordToken tokenId
    let engine := { engine with requests := Function.update engine.requests seq.request request }
    if request.outputLen ≥ request.params.maxTokens then
      (engine, { seq with finished := true, finishReason := some .length })
    else (engine, seq)

/-- `_accept_token`, and the emission that follows it in `_admit` and in `step`. -/
def acceptAndEmit (cfg : Config X V L S) (engine : EngineState V S) (seq : Sequence) (tokenId : Nat) :
    EngineState V S × Sequence :=
  let before := (engine.requests seq.request).outputLen
  let (engine, seq) := acceptToken cfg engine { seq with nextToken := tokenId } tokenId
  if (engine.requests seq.request).outputLen > before then
    ({ engine with emitted := engine.emitted ++ [(seq.request, tokenId)] }, seq)
  else (engine, seq)

def retire (cfg : Config X V L S) (engine : EngineState V S) (seq : Sequence) :
    Except EngineError (EngineState V S) :=
  match PagedKVCache.free engine.pool seq.cache with
  | .error raised => .error (.allocator raised)
  | .ok (pool, _) =>
    let engine := finish { engine with pool } seq.request (seq.finishReason.getD .length)
    .ok (recordFinished cfg engine seq.request)

/-- Evict the most recently admitted sequence back onto the queue. -/
def preemptNewest (engine : EngineState V S) : Except EngineError (EngineState V S) :=
  match engine.running.getLast? with
  | none => .error .outOfBlocks
  | some victim =>
    match PagedKVCache.free engine.pool victim.cache with
    | .error raised => .error (.allocator raised)
    | .ok (pool, _) =>
      .ok { engine with
        pool
        running := engine.running.dropLast
        requests := Function.update engine.requests victim.request
          { engine.requests victim.request with outputTokenIds := [] }
        preemptions := engine.preemptions + 1
        waiting := victim.request :: engine.waiting }

/-- Make `blocks` blocks free, giving up cached prefixes if need be. -/
def makeRoom (engine : EngineState V S) (blocks : Nat) : Except EngineError (Bool × EngineState V S) :=
  if engine.pool.allocator.numFree < blocks then
    match engine.prefixCache.ensureFree engine.pool blocks with
    | .error raised => .error (.allocator raised)
    | .ok (enough, pool, prefixCache) => .ok (enough, { engine with pool, prefixCache })
  else .ok (true, engine)

/-- Prefill the request into `cache` and take its first token. -/
def start (cfg : Config X V L S) (engine : EngineState V S) (request : Nat) (cache : PagedKVCache) :
    Except EngineError (Option Sequence × EngineState V S) :=
  match prefill cfg engine.pool engine.prefixCache (engine.requests request) cache with
  | .error (.runtimeError raised) => .error (.allocator raised)
  | .error (.outOfBlocks (pool, prefixCache, cache)) =>
    match PagedKVCache.free pool cache with
    | .error raised => .error (.allocator raised)
    | .ok (pool, _) =>
      let engine := finish { engine with pool, prefixCache } request .preempted
      .ok (none, recordFinished cfg engine request)
  | .ok (logits, pool, prefixCache, cache) =>
    match logits.getLast? with
    | none => .error .emptyPrompt
    | some last =>
      let (token, rng) := sample cfg (engine.requests request).params last engine.rng
      let engine := { engine with pool, prefixCache, rng }
      let (engine, seq) := acceptAndEmit cfg engine { request, cache, nextToken := token } token
      .ok (some seq, engine)

-- The `while` loop of `_admit`, over the queue it pops from.
def admitLoop (cfg : Config X V L S) (engine : EngineState V S) (admitted : List Sequence) (done : List Nat) :
    List Nat → Except EngineError (List Sequence × List Nat × EngineState V S)
  | [] => .ok (admitted, done, { engine with waiting := [] })
  | request :: waiting =>
    if engine.running.length + admitted.length < cfg.maxBatchSize then
      let need := blocksNeeded engine.pool (engine.requests request) + 1
      -- One spare block per already-running sequence, plus the floor.
      let reserve := max cfg.reserveBlocks (engine.running.length + admitted.length + 1)
      match makeRoom engine (need + reserve) with
      | .error raised => .error raised
      | .ok (false, engine) => .ok (admitted, done, { engine with waiting := request :: waiting })
      | .ok (true, engine) =>
        if engine.running.isEmpty ∧ admitted.isEmpty ∧ need + reserve > engine.pool.allocator.numBlocks then
          -- The pool could never hold this request even when empty.
          let engine := recordFinished cfg (finish engine request .rejected) request
          admitLoop cfg engine admitted (done ++ [request]) waiting
        else
          match engine.pool.allocate with
          | none => .ok (admitted, done, { engine with waiting := request :: waiting })
          | some cache =>
            match start cfg engine request cache with
            | .error raised => .error raised
            | .ok (none, engine) => admitLoop cfg engine admitted (done ++ [request]) waiting
            | .ok (some seq, engine) =>
              if seq.finished then
                match retire cfg engine seq with
                | .error raised => .error raised
                | .ok engine => admitLoop cfg engine admitted (done ++ [seq.request]) waiting
              else admitLoop cfg engine (admitted ++ [seq]) done waiting
    else .ok (admitted, done, { engine with waiting := request :: waiting })

def admitRequests (cfg : Config X V L S) (engine : EngineState V S) :
    Except EngineError (List Sequence × List Nat × EngineState V S) :=
  admitLoop cfg engine [] [] engine.waiting

/-! ## Execution -/

-- The loop over `zip(batch, next_ids)` at the end of `step`.
def settle (cfg : Config X V L S) (engine : EngineState V S) (still : List Sequence) (done : List Nat) :
    List (Sequence × Nat) → Except EngineError (List Nat × EngineState V S)
  | [] => .ok (done, { engine with running := still })
  | (seq, tokenId) :: batch =>
    let (engine, seq) := acceptAndEmit cfg engine seq tokenId
    if seq.finished then
      match retire cfg engine seq with
      | .error raised => .error raised
      | .ok engine => settle cfg engine still (done ++ [seq.request]) batch
    else settle cfg engine (still ++ [seq]) done batch

/-- The forward pass of a prepared batch: logits of every sequence's one token. -/
def decodeForward (cfg : Config X V L S) (pool : PagedCachePool V) (tokens positions : List Nat)
    (batch : BatchedPagedCache) : Except Empty (List (List L) × PagedCachePool V) :=
  cfg.model.forward (BatchedPagedCache.protocol Empty V batch) (tokens.map fun token => [token])
    (some (positions.map fun position => [position])) (some batch.mask) pool

/-- Everything `step` does before its decode pass: cancellations, then admission. -/
def schedule (cfg : Config X V L S) (engine : EngineState V S) :
    Except EngineError (List Nat × EngineState V S) :=
  match applyCancellations cfg engine with
  | .error raised => .error raised
  | .ok (cancelled, engine) =>
    match admitRequests cfg engine with
    | .error raised => .error raised
    | .ok (newSeqs, done, engine) =>
      .ok (cancelled ++ done, { engine with running := engine.running ++ newSeqs })

/-- The decode pass over a non-empty batch. -/
def decode (cfg : Config X V L S) (engine : EngineState V S) (done : List Nat) :
    Except EngineError (List Nat × EngineState V S) :=
  let tokens := engine.running.map Sequence.nextToken
  let positions := engine.running.map Sequence.position
  match BatchedPagedCache.prepare engine.pool engine.running with
  | .error (.runtimeError raised) => .error (.allocator raised)
  | .error (.outOfBlocks (pool, running)) =>
    -- The pool ran dry: preemption by recompute.
    match preemptNewest { engine with pool, running } with
    | .error raised => .error raised
    | .ok engine => .ok (done, engine)
  | .ok (pool, running, batch) =>
    match decodeForward cfg pool tokens positions batch with
    | .error raised => nomatch raised
    | .ok (logits, pool) =>
      let rows := (running.zip (logits.filterMap List.getLast?)).map fun row =>
        ((engine.requests row.1.request).params, row.2)
      let (nextIds, rng) := sampleBatch cfg rows engine.rng
      settle cfg { engine with pool, running, rng } [] done (running.zip nextIds)

/-- One scheduling iteration: reap, admit, then a single decode pass. -/
def step (cfg : Config X V L S) (engine : EngineState V S) : Except EngineError (List Nat × EngineState V S) :=
  match schedule cfg engine with
  | .error raised => .error raised
  | .ok (done, engine) => if engine.running.isEmpty then .ok (done, engine) else decode cfg engine done

/-! ## Draining a list of requests -/

-- The body of the `while` loop of `run`, with what `run` has collected so far.
def runRound (cfg : Config X V L S) (state : EngineState V S × List Nat) :
    Except EngineError (EngineState V S × List Nat) :=
  match step cfg state.1 with
  | .error raised => .error raised
  | .ok (_, engine) =>
    let (finished, engine) := drainFinished { engine with emitted := [] }
    .ok (engine, state.2 ++ finished)

def addAll (cfg : Config X V L S) (engine : EngineState V S) (requests : List (Nat × Bool)) : EngineState V S :=
  requests.foldl (fun engine request => addRequest cfg engine request.1 request.2) engine

/-- `run`, which returns every outcome; `none` if `fuel` rounds of its loop are not enough. -/
def run (cfg : Config X V L S) (fuel : Nat) (engine : EngineState V S) (requests : List (Nat × Bool)) :
    Except EngineError (Option (List Nat × EngineState V S)) :=
  match loop (fun state => hasWork state.1) (runRound cfg) fuel (addAll cfg engine requests, []) with
  | .error raised => .error raised
  | .ok none => .ok none
  | .ok (some (engine, out)) =>
    let (finished, engine) := drainFinished engine
    .ok (some (out ++ finished, engine))

end ContinuousBatchingEngine

end Nanoserve.Engine
