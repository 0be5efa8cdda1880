import Nanoserve.Engine.Scheduler

/-! # The naive engine

`engine/baseline.py`: one request at a time, run to completion before the next one starts.
-/

namespace Nanoserve.Engine

open Model (KVCache NanoForCausalLM DynamicCache)

/-- What ends the decode loop early: the cache raised, or there was no row of
logits to sample from. -/
inductive Stopped (ε : Type) where
  | raised (error : ε)
  | indexError

namespace BaselineEngine

variable {ε σ X V L S : Type}

/-- `logits[:, -1]` for a batch of one. -/
def lastRow (logits : List (List L)) : Option L := (logits.headD []).getLast?

/-- The decode loop: `for _ in range(req.params.max_tokens)`. -/
def generate (cfg : Config X V L S) (cache : KVCache ε σ V) (request : Request) (logits : List (List L))
    (state : σ) (rng : S) : Nat → Except (Stopped ε) (Request × σ × S)
  | 0 => .ok (request, state, rng)
  | remaining + 1 =>
    match lastRow logits with
    | none => .error .indexError
    | some row =>
      let (tokenId, rng) := ContinuousBatchingEngine.sample cfg request.params row rng
      if tokenId = cfg.eosTokenId ∧ ¬request.params.ignoreEos then
        .ok (request.finish .eos, state, rng)
      else
        match cfg.model.forward cache [[tokenId]] none none state with
        | .error raised => .error (.raised raised)
        | .ok (logits, state) => generate cfg cache (request.recordToken tokenId) logits state rng remaining

/-- `step` on one request with a cache of its own: prefill, decode, and `LENGTH`
unless the loop set another reason. -/
def runRequest (cfg : Config X V L S) (cache : KVCache ε σ V) (state : σ) (request : Request) (rng : S) :
    Except (Stopped ε) (Request × σ × S) :=
  match cfg.model.forward cache [request.promptTokenIds] none none state with
  | .error raised => .error (.raised raised)
  | .ok (logits, state) =>
    match generate cfg cache request logits state rng request.params.maxTokens with
    | .error stopped => .error stopped
    | .ok (request, state, rng) =>
      .ok (if request.finishReason = none then request.finish .length else request, state, rng)

/-- The sequential engine without a pool: every request starts on an empty
`DynamicCache`, which grows without bound. -/
def step (cfg : Config X V L S) (request : Request) (rng : S) :
    Except (Stopped Empty) (Request × DynamicCache V × S) :=
  runRequest cfg (DynamicCache.protocol Empty V) {} request rng

end BaselineEngine

end Nanoserve.Engine
