import Nanoserve.Engine.PoolSession
import Nanoserve.Engine.Scheduler

/-! # Batches over one pool

A client of the pool that also decodes in batches.
-/

namespace Nanoserve.Engine

variable {V : Type}

/-- What one token of one sequence appends: a row in every layer. -/
def Chunk.one (row : Nat → V) : Chunk V where
  n := 1
  rows := fun layer => [row layer]
  length := fun _ => rfl

/-- What the layers `0 .. count - 1` of a pass over a prepared batch get back.
`rows` holds one token for every sequence of the batch. -/
def BatchedPagedCache.pass (batch : BatchedPagedCache) (rows : List (Nat → V)) (pool : PagedCachePool V) :
    Nat → Except Empty (List (List (List V)) × PagedCachePool V)
  | 0 => .ok ([], pool)
  | count + 1 =>
    match pass batch rows pool count with
    | .error raised => .error raised
    | .ok (returned, pool) =>
      match (protocol Empty V batch).update count (rows.map fun row => [row count]) pool with
      | .error raised => .error raised
      | .ok (gathered, pool) => .ok (returned ++ [gathered], pool)

/-- The same tokens, the sequences updated one after another in list order. -/
def updateEach (pool : PagedCachePool V) :
    List (Sequence × (Nat → V)) → Except (Raised (PagedKVCache.Paged V)) (PagedCachePool V × List Sequence)
  | [] => .ok (pool, [])
  | (seq, row) :: tokens =>
    match PagedKVCache.pass (.one row) (pool, seq.cache) pool.numHiddenLayers with
    | .error raised => .error raised
    | .ok (_, pool, cache) =>
      match updateEach pool tokens with
      | .error raised => .error raised
      | .ok (pool, seqs) => .ok (pool, { seq with cache } :: seqs)

inductive PoolAction (V : Type) where
  | call (poolCall : PoolCall V)
  | attach (blocks : List Nat)
  | decode (owners : List Nat) (rows : List (Nat → V))

namespace PoolSession

/-- The batch of these sequences, each standing for the request of its own number. -/
def batch (session : PoolSession V) (owners : List Nat) : List Sequence :=
  owners.filterMap fun owner => (session.sequences[owner]?).map fun cache => { request := owner, cache }

/-- The sequences of a batch are objects, so what a pass does to them stays. -/
def writeBack (sequences : List PagedKVCache) : List Nat → List Sequence → List PagedKVCache
  | owner :: owners, seq :: seqs => writeBack (sequences.set owner seq.cache) owners seqs
  | _, _ => sequences

/-- One decode pass over distinct sequences.  Without a layer nothing calls the cache. -/
def decode (session : PoolSession V) (owners : List Nat) (rows : List (Nat → V)) :
    Except AllocatorError (PoolSession V) :=
  if owners.Nodup ∧ (∀ owner ∈ owners, owner < session.sequences.length) ∧ 0 < session.pool.numHiddenLayers then
    match BatchedPagedCache.prepare session.pool (session.batch owners) with
    | .error (.runtimeError raised) => .error raised
    | .error (.outOfBlocks (pool, seqs)) => .ok { pool, sequences := writeBack session.sequences owners seqs }
    | .ok (pool, seqs, batch) =>
      match batch.pass rows pool pool.numHiddenLayers with
      | .error raised => nomatch raised
      | .ok (_, pool) => .ok { pool, sequences := writeBack session.sequences owners seqs }
  else .ok session

/-- A new sequence over blocks in use, with a reference on each of them. -/
def attach (session : PoolSession V) (blocks : List Nat) : Except AllocatorError (PoolSession V) :=
  if blocks.Nodup ∧ ∀ block ∈ blocks, 0 < session.pool.allocator.refCount block then
    match session.pool.allocator.increfAll blocks with
    | .error raised => .error raised
    | .ok allocator =>
      .ok {
        pool := { session.pool with allocator }
        sequences := session.sequences ++ [(PrefixCache.attach session.pool.blockSize {} blocks).2] }
  else .ok session

def step (session : PoolSession V) : PoolAction V → Except AllocatorError (PoolSession V)
  | .call poolCall =>
    match session.call poolCall with
    | .error raised => .error raised
    | .ok (_, session) => .ok session
  | .attach blocks => session.attach blocks
  | .decode owners rows => session.decode owners rows

end PoolSession

end Nanoserve.Engine
