import Nanoserve.Engine.BatchSession

/-! # A prefix cache over a pool in use

What the clients of one `PrefixCache` do to it and to its pool.
-/

namespace Nanoserve.Engine

variable {V : Type}

inductive CacheCall (V : Type) where
  | pool (action : PoolAction V)
  -- `match`, and `attach` of what it returns to a new sequence.
  | matchPrefix (tokenIds : List Nat)
  -- The tokens are whatever the caller passes, the table is that of a sequence.
  | insert (sequence : Nat) (tokenIds : List Nat)
  | evict (numBlocks : Nat)
  | ensureFree (numBlocks : Nat)
  | clear

structure CacheSession (V : Type) extends PoolSession V where
  prefixCache : PrefixCache

namespace CacheSession

def new (numBlocks blockSize numHiddenLayers : Nat) (zero : V) (enabled : Bool) : CacheSession V where
  toPoolSession := .new numBlocks blockSize numHiddenLayers zero
  prefixCache := .new enabled

def step (blockHash : Int → List Nat → Int) (session : CacheSession V) :
    CacheCall V → Except AllocatorError (CacheSession V)
  | .pool action =>
    match session.toPoolSession.step action with
    | .error raised => .error raised
    | .ok pooled => .ok { session with toPoolSession := pooled }
  | .matchPrefix tokenIds =>
    match PrefixCache.matchPrefix blockHash session.pool session.prefixCache tokenIds with
    | .error raised => .error raised
    | .ok (blocks, pool, prefixCache) =>
      let (_, cache) := PrefixCache.attach pool.blockSize {} blocks
      .ok { pool, sequences := session.sequences ++ [cache], prefixCache }
  | .insert sequence tokenIds =>
    match session.sequences[sequence]? with
    | none => .ok session
    | some cache =>
      match PrefixCache.insert blockHash session.pool session.prefixCache tokenIds cache.blockTable with
      | .error raised => .error raised
      | .ok (pool, prefixCache) => .ok { session with pool, prefixCache }
  | .evict numBlocks =>
    match PrefixCache.evict session.pool.allocator session.prefixCache numBlocks with
    | .error raised => .error raised
    | .ok (_, allocator, prefixCache) => .ok { session with pool := { session.pool with allocator }, prefixCache }
  | .ensureFree numBlocks =>
    match PrefixCache.ensureFree session.pool session.prefixCache numBlocks with
    | .error raised => .error raised
    | .ok (_, pool, prefixCache) => .ok { session with pool, prefixCache }
  | .clear =>
    match PrefixCache.clear session.pool session.prefixCache with
    | .error raised => .error raised
    | .ok (pool, prefixCache) => .ok { session with pool, prefixCache }

end CacheSession

end Nanoserve.Engine
