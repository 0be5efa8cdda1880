import Nanoserve.Lib.Dict
import Nanoserve.Engine.BlockManager
import Mathlib.Data.List.Sort

/-! # Prefix caching

`engine/prefix_cache.py`: full blocks of prompt tokens, keyed by a hash chained along the sequence,
held by one reference of the cache each and evicted least recently used first.
-/

namespace Nanoserve.Engine

open Lib

/-- Seed of the hash chain. -/
def ROOT_HASH : Int := 0x9E3779B97F4A7C15

/-- What CPython hashes an int to on a 64-bit machine, modulo 2^61 - 1; -1 stands for an error there. -/
def hashInt (value : Int) : Int :=
  let hash := value.tmod 0x1FFFFFFFFFFFFFFF
  if hash = -1 then -2 else hash

/-- What CPython hashes a tuple to, from the hashes of its items. -/
def hashTuple (items : List Int) : Int :=
  let mix (acc : UInt64) (lane : Int) : UInt64 :=
    let acc := acc + UInt64.ofInt lane * 14029467366897019727
    (acc <<< 31 ||| acc >>> 33) * 11400714785074694791
  let acc := items.foldl mix 2870177450012600261
  let acc := acc + (UInt64.ofNat items.length ^^^ (2870177450012600261 ^^^ 3527539))
  if acc = 18446744073709551615 then 1546275796 else acc.toInt64.toInt

/-- The key of a block. Everything below takes it as a parameter. -/
def blockHash (parent : Int) (tokens : List Nat) : Int :=
  hashTuple [hashInt parent, hashTuple (tokens.map fun token => hashInt token)]

structure CacheEntry where
  blockId : Nat
  parentHash : Int
  lastUsed : Nat
  depth : Nat
deriving DecidableEq, Repr

structure PrefixCache where
  enabled : Bool
  entries : Dict Int CacheEntry
  byBlock : Dict Nat Int
  clock : Nat

namespace PrefixCache

variable {V : Type}

def new (enabled : Bool) : PrefixCache where
  enabled := enabled
  entries := .empty
  byBlock := .empty
  clock := 0

/-! ## Keying -/

/-- The slices `token_ids[start : start + bs]` that are full; the trailing
partial block is omitted. -/
def fullBlocks (blockSize : Nat) (tokenIds : List Nat) : List (List Nat) :=
  (List.range (tokenIds.length / blockSize)).map fun index =>
    (tokenIds.drop (index * blockSize)).take blockSize

/-- The chained hashes of consecutive blocks, from the hash of what precedes them. -/
def chainFrom (blockHash : Int → List Nat → Int) (parent : Int) : List (List Nat) → List Int
  | [] => []
  | block :: blocks => blockHash parent block :: chainFrom blockHash (blockHash parent block) blocks

def hashChain (blockHash : Int → List Nat → Int) (blockSize : Nat) (tokenIds : List Nat) : List Int :=
  chainFrom blockHash ROOT_HASH (fullBlocks blockSize tokenIds)

/-! ## Lookup -/

/-- `entry.last_used = ++clock`. -/
def touch (cache : PrefixCache) (hash : Int) (entry : CacheEntry) : PrefixCache :=
  { cache with
    clock := cache.clock + 1
    entries := cache.entries.set hash { entry with lastUsed := cache.clock + 1 } }

-- The loop of `match`: stops at the first hash the cache does not hold.
def matchLoop (allocator : BlockAllocator) (cache : PrefixCache) :
    List Int → Except AllocatorError (List Nat × BlockAllocator × PrefixCache)
  | [] => .ok ([], allocator, cache)
  | hash :: hashes =>
    match cache.entries.get? hash with
    | none => .ok ([], allocator, cache)
    | some entry =>
      match allocator.incref entry.blockId with
      | .error raised => .error raised
      | .ok allocator =>
        match matchLoop allocator (cache.touch hash entry) hashes with
        | .error raised => .error raised
        | .ok (matched, allocator, cache) => .ok (entry.blockId :: matched, allocator, cache)

/-- `PrefixCache.match`: physical blocks for the longest cached prefix, each with
a reference for the caller. -/
def matchPrefix (blockHash : Int → List Nat → Int) (pool : PagedCachePool V) (cache : PrefixCache)
    (tokenIds : List Nat) : Except AllocatorError (List Nat × PagedCachePool V × PrefixCache) :=
  if cache.enabled then
    match matchLoop pool.allocator cache (hashChain blockHash pool.blockSize tokenIds) with
    | .error raised => .error raised
    | .ok (matched, allocator, cache) => .ok (matched, { pool with allocator }, cache)
  else .ok ([], pool, cache)

/-! ## Insertion -/

-- The loop of `insert`, at `depth` with the hash of the block before it.
def insertLoop (allocator : BlockAllocator) (cache : PrefixCache) (depth : Nat) (parent : Int) :
    List Int → List Nat → Except AllocatorError (BlockAllocator × PrefixCache)
  | hash :: hashes, block :: blockTable =>
    match cache.entries.get? hash with
    | some existing =>
      -- Already cached, possibly under another physical block: keep the incumbent.
      insertLoop allocator (cache.touch hash existing) (depth + 1) hash hashes blockTable
    | none =>
      if (cache.byBlock.get? block).isSome then
        -- Tracked under another key already.
        insertLoop allocator cache (depth + 1) hash hashes blockTable
      else
        match allocator.incref block with
        | .error raised => .error raised
        | .ok allocator =>
          let entry : CacheEntry :=
            { blockId := block, parentHash := parent, lastUsed := cache.clock + 1, depth }
          let cache :=
            { cache with
              clock := cache.clock + 1
              entries := cache.entries.set hash entry
              byBlock := cache.byBlock.set block hash }
          insertLoop allocator cache (depth + 1) hash hashes blockTable
  | _, _ => .ok (allocator, cache)

def insert (blockHash : Int → List Nat → Int) (pool : PagedCachePool V) (cache : PrefixCache)
    (tokenIds : List Nat) (blockTable : List Nat) :
    Except AllocatorError (PagedCachePool V × PrefixCache) :=
  if cache.enabled then
    match insertLoop pool.allocator cache 0 ROOT_HASH (hashChain blockHash pool.blockSize tokenIds) blockTable with
    | .error raised => .error raised
    | .ok (allocator, cache) => .ok ({ pool with allocator }, cache)
  else .ok (pool, cache)

/-! ## Eviction -/

/-- The order of `evictable.sort()` on `(last_used, -depth, hash)`. -/
def evictsBefore (first second : Int × CacheEntry) : Prop :=
  first.2.lastUsed < second.2.lastUsed ∨
    (first.2.lastUsed = second.2.lastUsed ∧
      (second.2.depth < first.2.depth ∨ (second.2.depth = first.2.depth ∧ first.1 ≤ second.1)))

instance : DecidableRel evictsBefore := fun first second =>
  inferInstanceAs (Decidable (first.2.lastUsed < second.2.lastUsed ∨
    (first.2.lastUsed = second.2.lastUsed ∧
      (second.2.depth < first.2.depth ∨ (second.2.depth = first.2.depth ∧ first.1 ≤ second.1)))))

/-- Entries whose only reference is the cache's own, coldest first. -/
def evictable (allocator : BlockAllocator) (cache : PrefixCache) : List (Int × CacheEntry) :=
  (cache.entries.items.filter fun item => allocator.refCount item.2.blockId = 1).insertionSort evictsBefore

/-- `_entries.pop(h)` and `_by_block.pop(entry.block_id)`. -/
def dropEntry (cache : PrefixCache) (item : Int × CacheEntry) : PrefixCache :=
  { cache with
    entries := cache.entries.erase item.1
    byBlock := cache.byBlock.erase item.2.blockId }

def evictLoop (allocator : BlockAllocator) (cache : PrefixCache) :
    List (Int × CacheEntry) → Except AllocatorError (BlockAllocator × PrefixCache)
  | [] => .ok (allocator, cache)
  | item :: items =>
    match allocator.decref item.2.blockId with
    | .error raised => .error raised
    | .ok (_, allocator) => evictLoop allocator (cache.dropEntry item) items

/-- Release up to `numBlocks` cached blocks; returns how many. -/
def evict (allocator : BlockAllocator) (cache : PrefixCache) (numBlocks : Nat) :
    Except AllocatorError (Nat × BlockAllocator × PrefixCache) :=
  let victims := (evictable allocator cache).take numBlocks
  match evictLoop allocator cache victims with
  | .error raised => .error raised
  | .ok (allocator, cache) => .ok (victims.length, allocator, cache)

-- Every round but the last removes an entry, so one more round than entries is enough fuel.
def ensureFreeLoop (numBlocks : Nat) (allocator : BlockAllocator) (cache : PrefixCache) :
    Nat → Except AllocatorError (Bool × BlockAllocator × PrefixCache)
  | 0 => .ok (decide (numBlocks ≤ allocator.numFree), allocator, cache)
  | fuel + 1 =>
    if allocator.numFree < numBlocks then
      match evict allocator cache (numBlocks - allocator.numFree) with
      | .error raised => .error raised
      | .ok (freed, allocator, cache) =>
        if freed = 0 then .ok (false, allocator, cache)
        else ensureFreeLoop numBlocks allocator cache fuel
    else .ok (true, allocator, cache)

/-- Evict until the pool has `numBlocks` free, if it can. -/
def ensureFree (pool : PagedCachePool V) (cache : PrefixCache) (numBlocks : Nat) :
    Except AllocatorError (Bool × PagedCachePool V × PrefixCache) :=
  match ensureFreeLoop numBlocks pool.allocator cache (cache.entries.size + 1) with
  | .error raised => .error raised
  | .ok (enough, allocator, cache) => .ok (enough, { pool with allocator }, cache)

def clear (pool : PagedCachePool V) (cache : PrefixCache) :
    Except AllocatorError (PagedCachePool V × PrefixCache) :=
  match pool.allocator.decrefAll (cache.entries.values.map CacheEntry.blockId) with
  | .error raised => .error raised
  | .ok allocator => .ok ({ pool with allocator }, { cache with entries := .empty, byBlock := .empty })

/-! ## Integration -/

/-- Seed a fresh sequence with already-populated blocks. -/
def attach (blockSize : Nat) (cache : PagedKVCache) (blocks : List Nat) : Nat × PagedKVCache :=
  match blocks with
  | [] => (0, cache)
  | _ =>
    let cache := blocks.foldl (PagedKVCache.appendBlock blockSize) cache
    let cache := { cache with numTokens := blocks.length * blockSize }
    (cache.numTokens, cache)

end PrefixCache

end Nanoserve.Engine
