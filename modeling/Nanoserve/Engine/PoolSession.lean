import Nanoserve.Engine.BlockManager
import Nanoserve.Lib.Runs

/-! # Many sequences over one pool

The calls a client of `PagedCachePool` makes: `allocate`, `fork` and `free`, and forward passes, each
of which is `update` on layer 0 and then on the other layers. Sequences are named by the order of
their creation.
-/

namespace Nanoserve.Engine

open Lib
open Model (DynamicCache)

variable {V : Type}

/-- The rows one forward pass appends: `n` positions in every layer. -/
structure Chunk (V : Type) where
  n : Nat
  rows : Nat → List V
  length : ∀ layer, (rows layer).length = n

/-- What the layers `0 .. count - 1` of a pass get back from the cache. -/
def PagedKVCache.pass (chunk : Chunk V) (state : Paged V) :
    Nat → Except (Raised (Paged V)) (List (List V) × Paged V)
  | 0 => .ok ([], state)
  | count + 1 =>
    match pass chunk state count with
    | .error raised => .error raised
    | .ok (returned, state) =>
      match update count (chunk.rows count) state with
      | .error raised => .error raised
      | .ok (rows, state) => .ok (returned ++ [rows], state)

/-- The same pass over the contiguous cache, for a batch of one. -/
def contiguousPass (chunk : Chunk V) (cache : DynamicCache V) : Nat → List (List V) × DynamicCache V
  | 0 => ([], cache)
  | count + 1 =>
    let (returned, cache) := contiguousPass chunk cache count
    let (rows, cache) := cache.update count [chunk.rows count]
    (returned ++ [rows.headD []], cache)

inductive PoolCall (V : Type) where
  | allocate
  | update (sequence : Nat) (chunk : Chunk V)
  | fork (sequence : Nat)
  | free (sequence : Nat)

inductive PoolReply (V : Type) where
  | sequence (cache : PagedKVCache)
  | noRoom
  | rows (returned : List (List V))
  | outOfBlocks
  | freed
  | noSequence

structure PoolSession (V : Type) where
  pool : PagedCachePool V
  sequences : List PagedKVCache := []

namespace PoolSession

def new (numBlocks blockSize numHiddenLayers : Nat) (zero : V) : PoolSession V where
  pool := .new numBlocks blockSize numHiddenLayers zero

open PagedKVCache in
/-- One call.  A sequence that does not exist is not called upon. -/
def call (session : PoolSession V) : PoolCall V → Except AllocatorError (PoolReply V × PoolSession V)
  | .allocate =>
    match session.pool.allocate with
    | none => .ok (.noRoom, session)
    | some cache => .ok (.sequence cache, { session with sequences := session.sequences ++ [cache] })
  | .update sequence chunk =>
    match session.sequences[sequence]? with
    | none => .ok (.noSequence, session)
    | some cache =>
      match pass chunk (session.pool, cache) session.pool.numHiddenLayers with
      | .ok (returned, pool, cache) =>
        .ok (.rows returned, { pool, sequences := session.sequences.set sequence cache })
      | .error (.outOfBlocks (pool, cache)) =>
        .ok (.outOfBlocks, { pool, sequences := session.sequences.set sequence cache })
      | .error (.runtimeError raised) => .error raised
  | .fork sequence =>
    match session.sequences[sequence]? with
    | none => .ok (.noSequence, session)
    | some cache =>
      match fork session.pool cache with
      | .error raised => .error raised
      | .ok (pool, child) => .ok (.sequence child, { pool, sequences := session.sequences ++ [child] })
  | .free sequence =>
    match session.sequences[sequence]? with
    | none => .ok (.noSequence, session)
    | some cache =>
      match free session.pool cache with
      | .error raised => .error raised
      | .ok (pool, cache) => .ok (.freed, { pool, sequences := session.sequences.set sequence cache })

end PoolSession

end Nanoserve.Engine
