import Nanoserve.Engine.Scheduler
import Nanoserve.Lib.Runs

/-! # The engine and the calls made on it

The interface of `ContinuousBatchingEngine` as its callers use it, between calls.
-/

namespace Nanoserve.Engine

open Lib

/-- A request as a client constructs it.  Both front ends refuse a prompt that
encodes to zero tokens before they build the `Request`. -/
structure Submission where
  promptTokenIds : List Nat
  params : SamplingParams := {}
  requestId : String
  nonempty : promptTokenIds ≠ []

def Submission.request (submission : Submission) : Request where
  promptTokenIds := submission.promptTokenIds
  params := submission.params
  requestId := submission.requestId

inductive Call where
  | addRequest (request : Nat) (late : Bool)
  | requestCancel (requestId : String)
  | applyCancellations
  | cancel (requestId : String)
  | step
  | drainEmitted
  | drainFinished
  | clearPrefixCache
deriving DecidableEq, Repr

structure Session (V S : Type) where
  engine : EngineState V S
  submitted : List Nat := []
  drainedEmitted : List (Nat × Nat) := []
  drainedFinished : List Nat := []

namespace Session

variable {X V L S : Type}

open ContinuousBatchingEngine in
def call (cfg : Config X V L S) (session : Session V S) : Call → Except EngineError (Session V S)
  | .addRequest request late =>
    .ok { session with
      engine := addRequest cfg session.engine request late
      submitted := session.submitted ++ [request] }
  | .requestCancel requestId => .ok { session with engine := requestCancel session.engine requestId }
  | .applyCancellations =>
    match applyCancellations cfg session.engine with
    | .error raised => .error raised
    | .ok (_, engine) => .ok { session with engine }
  | .cancel requestId =>
    match cancel cfg session.engine requestId with
    | .error raised => .error raised
    | .ok (_, engine) => .ok { session with engine }
  | .step =>
    match step cfg session.engine with
    | .error raised => .error raised
    | .ok (_, engine) => .ok { session with engine }
  | .drainEmitted =>
    let (out, engine) := drainEmitted session.engine
    .ok { session with engine, drainedEmitted := session.drainedEmitted ++ out }
  | .drainFinished =>
    let (out, engine) := drainFinished session.engine
    .ok { session with engine, drainedFinished := session.drainedFinished ++ out }
  | .clearPrefixCache =>
    match session.engine.prefixCache.clear session.engine.pool with
    | .error raised => .error (.allocator raised)
    | .ok (pool, prefixCache) => .ok { session with engine := { session.engine with pool, prefixCache } }

/-- A fresh engine over a fresh pool.  `clients` are the request objects that may
be submitted, by address. -/
def new (cfg : Config X V L S) (numBlocks blockSize : Nat) (enablePrefixCache : Bool) (zero : V)
    (clients : Nat → Submission) (rng : S) : Session V S where
  engine :=
    { pool := .new numBlocks blockSize cfg.model.numHiddenLayers zero
      prefixCache := .new enablePrefixCache
      requests := fun request => (clients request).request
      rng }

/-- The session after a list of calls. -/
def after (cfg : Config X V L S) (session : Session V S) (calls : List Call) : Except EngineError (Session V S) :=
  run (call cfg) session calls

/-- The tokens paired with `request` in everything emitted so far, drained or not. -/
def emittedFor (session : Session V S) (request : Nat) : List Nat :=
  ((session.drainedEmitted ++ session.engine.emitted).filter fun pair => pair.1 = request).map Prod.snd

/-- Every outcome reported so far, drained or not. -/
def outcomes (session : Session V S) : List Nat := session.drainedFinished ++ session.engine.newlyFinished

end Session

end Nanoserve.Engine
