import Nanoserve.Engine.Baseline
import Nanoserve.Engine.StaticCache

/-! # The sequential engine and its pool

`BaselineEngine` of `engine/baseline.py` with its queue, over whichever cache it was given.
-/

namespace Nanoserve.Engine

open Model (KVCache NanoForCausalLM DynamicCache)
open PagedKVCache (Paged)
open StaticKVCache (Slotted SlotExceeded)

/-- `StaticCachePool | PagedCachePool` -/
inductive CachePool (V : Type) where
  | static (pool : StaticCachePool V)
  | paged (pool : PagedCachePool V)

/-- What `step` raises. -/
inductive BaselineError where
  | runtimeError (message : String)
  | outOfBlocks
  | indexError
deriving DecidableEq, Repr

/-- Prefilling the prompt, feeding the token just recorded, the pool as it stands, and
what the `finally` does. -/
structure Backend (σ V L : Type) where
  prefill : Request → σ → Except (BaselineError × σ) (List (List L) × σ)
  feed : Request → Nat → σ → Except (BaselineError × σ) (List (List L) × σ)
  pool : σ → Option (CachePool V)
  free : σ → Except AllocatorError σ

namespace Backend

variable {ε σ X V L : Type}

/-- `torch.tensor([[]])` is a tensor of floats, and the embedding takes none. -/
def floatIndices : BaselineError :=
  .runtimeError ("Expected tensor for argument #1 'indices' to have one of the following scalar types: Long, Int; " ++
    "but got torch.FloatTensor instead (while checking arguments for embedding)")

/-- `model(.., cache=cache)`, on the prompt and then on one token after the other. -/
def cached (model : NanoForCausalLM X V L) (cache : KVCache ε σ V) (raise : ε → σ → BaselineError × σ)
    (pool : σ → Option (CachePool V)) (free : σ → Except AllocatorError σ) : Backend σ V L where
  prefill request state :=
    if request.promptTokenIds = [] then .error (floatIndices, state)
    else
      match model.forward cache [request.promptTokenIds] none none state with
      | .error raised => .error (raise raised state)
      | .ok result => .ok result
  feed _ tokenId state :=
    match model.forward cache [[tokenId]] none none state with
    | .error raised => .error (raise raised state)
    | .ok result => .ok result
  pool := pool
  free := free

def dynamic (model : NanoForCausalLM X V L) : Backend (DynamicCache V) V L :=
  cached model (DynamicCache.protocol Empty V) (fun raised _ => raised.elim) (fun _ => none) .ok

def static (model : NanoForCausalLM X V L) : Backend (Slotted V) V L :=
  cached model (StaticKVCache.protocol V) (fun raised _ => (.runtimeError raised.message, raised.left))
    (fun state => some (.static state.1)) (fun state => .ok (state.1.free state.2, state.2))

/-- An error of the allocator does not say what it leaves; a pool whose books are right
raises none. -/
def paged (model : NanoForCausalLM X V L) : Backend (Paged V) V L :=
  cached model (PagedKVCache.protocol V)
    (fun raised state =>
      match raised with
      | .outOfBlocks left => (.outOfBlocks, left)
      | .runtimeError error => (.runtimeError error.message, state))
    (fun state => some (.paged state.1)) (fun state => PagedKVCache.free state.1 state.2)

/-- `cache=None`: the rows of this pass are all there are. -/
def noCache (ε V : Type) : KVCache ε Unit V where
  update _ k _ := .ok (k, ())
  len _ := 0

/-- Without a cache the state is the buffer, and every pass reads it from the start. -/
def uncached (model : NanoForCausalLM X V L) (pool : Option (CachePool V)) : Backend (List Nat) V L where
  prefill request buffer :=
    match model.forward (noCache (BaselineError × List Nat) V) [buffer.take request.promptLen] none none () with
    | .error raised => .error raised
    | .ok (logits, _) => .ok (logits, buffer)
  feed request tokenId buffer :=
    let stop := request.promptLen + request.outputLen
    if buffer.length ≤ stop - 1 then .error (.indexError, buffer)
    else
      let buffer := buffer.set (stop - 1) tokenId
      match model.forward (noCache (BaselineError × List Nat) V) [buffer.take stop] none none () with
      | .error raised => .error raised
      | .ok (logits, _) => .ok (logits, buffer)
  pool _ := pool
  free := .ok

end Backend

/-- Where `_generate` stops, with what it raised. -/
structure Decoded (σ S : Type) where
  request : Request
  state : σ
  rng : S
  stopped : Option BaselineError := none

/-- `_generate` -/
def Backend.generate {σ X V L S : Type} (backend : Backend σ V L) (cfg : Config X V L S) (request : Request)
    (logits : List (List L)) (state : σ) (rng : S) : Nat → Decoded σ S
  | 0 => { request, state, rng }
  | remaining + 1 =>
    match BaselineEngine.lastRow logits with
    | none => { request, state, rng, stopped := some .indexError }
    | some row =>
      let (tokenId, rng) := ContinuousBatchingEngine.sample cfg request.params row rng
      if tokenId = cfg.eosTokenId ∧ ¬request.params.ignoreEos then { request := request.finish .eos, state, rng }
      else
        let request := request.recordToken tokenId
        match backend.feed request tokenId state with
        | .error (raised, left) => { request, state := left, rng, stopped := some raised }
        | .ok (logits, state) => backend.generate cfg request logits state rng remaining

/-- `BaselineEngine` -/
structure SequentialEngine (V S : Type) where
  useCache : Bool := true
  pool : Option (CachePool V) := none
  waiting : List Request := []
  finished : List Request := []
  rng : S

namespace SequentialEngine

variable {σ X V L S : Type}

def addRequest (engine : SequentialEngine V S) (request : Request) : SequentialEngine V S :=
  { engine with waiting := engine.waiting ++ [request] }

/-- The end of `step`. -/
def finish (engine : SequentialEngine V S) (request : Request) :
    Except BaselineError (List Request) × SequentialEngine V S :=
  let request := if request.finishReason = none then request.finish .length else request
  (.ok [request], { engine with finished := engine.finished ++ [request] })

/-- `step` from the prefill on, for a request that is off the queue. -/
def serve (cfg : Config X V L S) (engine : SequentialEngine V S) (backend : Backend σ V L) (state : σ)
    (request : Request) : Except BaselineError (List Request) × SequentialEngine V S :=
  match backend.prefill request state with
  -- The `try` has not begun.
  | .error (raised, left) => (.error raised, { engine with pool := backend.pool left })
  | .ok (logits, state) =>
    let decoded := backend.generate cfg request logits state engine.rng request.params.maxTokens
    let engine := { engine with rng := decoded.rng }
    -- The `finally`, which comes before the rest of `step` and before the exception goes on.
    match backend.free decoded.state with
    | .error raised => (.error (.runtimeError raised.message), { engine with pool := backend.pool decoded.state })
    | .ok state =>
      let engine := { engine with pool := backend.pool state }
      match decoded.stopped with
      | none => engine.finish decoded.request
      | some .outOfBlocks => engine.finish (decoded.request.finish .preempted)
      | some raised => (.error raised, engine)

/-- Run the next queued request to completion. -/
def step (cfg : Config X V L S) (engine : SequentialEngine V S) :
    Except BaselineError (List Request) × SequentialEngine V S :=
  match engine.waiting with
  | [] => (.ok [], engine)
  | request :: waiting =>
    let popped := { engine with waiting }
    if engine.useCache then
      match engine.pool with
      | none => popped.serve cfg (.dynamic cfg.model) {} request
      | some (.static pool) =>
        match pool.allocate (some (request.promptLen + request.params.maxTokens)) with
        | none => (.ok [], engine)
        | some (cache, pool) => popped.serve cfg (.static cfg.model) (pool, cache) request
      | some (.paged pool) =>
        match pool.allocate with
        | none => (.ok [], engine)
        | some cache => popped.serve cfg (.paged cfg.model) (pool, cache) request
    else
      -- `torch.empty`: what it holds behind the prompt is written before it is read.
      let buffer := request.promptTokenIds ++ List.replicate request.params.maxTokens 0
      popped.serve cfg (.uncached cfg.model engine.pool) buffer request

/-! ## Runs -/

/-- What is done with an engine. -/
inductive Call where
  | addRequest (promptTokenIds : List Nat) (params : SamplingParams) (requestId : String)
  | step
deriving DecidableEq, Repr

/-- The engine after a call, whether it returns or raises. -/
def call (cfg : Config X V L S) (engine : SequentialEngine V S) : Call → SequentialEngine V S
  | .addRequest promptTokenIds params requestId => engine.addRequest { promptTokenIds, params, requestId }
  | .step => (engine.step cfg).2

end SequentialEngine

end Nanoserve.Engine
