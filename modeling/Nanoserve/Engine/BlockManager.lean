import Nanoserve.Lib.Paging
import Nanoserve.Model.Transformer

/-! # Paged KV cache

`engine/block_manager.py`: the block allocator, one sequence's block table, and the pool of physical
blocks.
-/

namespace Nanoserve.Engine

open Lib
open Model (KVCache)

/-! ## The allocator -/

/-- The `RuntimeError`s of `BlockAllocator.incref` and `BlockAllocator.decref`. -/
inductive AllocatorError where
  | increfFree (block : Nat)
  | decrefFree (block : Nat)
deriving DecidableEq, Repr

def AllocatorError.message : AllocatorError → String
  | .increfFree block => "incref on free block " ++ toString block
  | .decrefFree block => "decref on free block " ++ toString block

/-- A free list over uniform blocks, with reference counts. -/
structure BlockAllocator where
  numBlocks : Nat
  free : List Nat
  refs : Nat → Nat

namespace BlockAllocator

def new (numBlocks : Nat) : BlockAllocator where
  numBlocks := numBlocks
  free := List.range numBlocks
  refs := fun _ => 0

/-- One block with refcount 1, or `none` when exhausted. -/
def allocate (allocator : BlockAllocator) : Option (Nat × BlockAllocator) :=
  match allocator.free with
  | [] => none
  | block :: free => some (block, { allocator with free, refs := Function.update allocator.refs block 1 })

def incref (allocator : BlockAllocator) (block : Nat) : Except AllocatorError BlockAllocator :=
  if allocator.refs block = 0 then .error (.increfFree block)
  else .ok { allocator with refs := Function.update allocator.refs block (allocator.refs block + 1) }

/-- Drop one reference.  The flag says whether the block became free. -/
def decref (allocator : BlockAllocator) (block : Nat) : Except AllocatorError (Bool × BlockAllocator) :=
  if allocator.refs block = 0 then .error (.decrefFree block)
  else if allocator.refs block = 1 then
    .ok (true, { allocator with free := block :: allocator.free, refs := Function.update allocator.refs block 0 })
  else
    .ok (false, { allocator with refs := Function.update allocator.refs block (allocator.refs block - 1) })

def refCount (allocator : BlockAllocator) (block : Nat) : Nat := allocator.refs block

def numFree (allocator : BlockAllocator) : Nat := allocator.free.length

/-- `for block in blocks: allocator.incref(block)`. -/
def increfAll (allocator : BlockAllocator) : List Nat → Except AllocatorError BlockAllocator
  | [] => .ok allocator
  | block :: blocks =>
    match allocator.incref block with
    | .error raised => .error raised
    | .ok allocator => allocator.increfAll blocks

/-- `for block in blocks: allocator.decref(block)`. -/
def decrefAll (allocator : BlockAllocator) : List Nat → Except AllocatorError BlockAllocator
  | [] => .ok allocator
  | block :: blocks =>
    match allocator.decref block with
    | .error raised => .error raised
    | .ok (_, allocator) => allocator.decrefAll blocks

end BlockAllocator

/-! ## Physical storage -/

/-- `PagedCachePool`: flat storage of `numBlocks * blockSize` slots per layer,
plus the allocator over its blocks. -/
structure PagedCachePool (V : Type) where
  blockSize : Nat
  numHiddenLayers : Nat
  allocator : BlockAllocator
  kv : Nat → Nat → V

/-- One sequence's block table. -/
structure PagedKVCache where
  blockTable : List Nat := []
  numTokens : Nat := 0
  start : Nat := 0
  slots : List Nat := []
deriving DecidableEq, Repr

/-- What a call can raise: `OutOfBlocks`, with the state it leaves behind, or an
allocator error. -/
inductive Raised (σ : Type) where
  | outOfBlocks (left : σ)
  | runtimeError (error : AllocatorError)

namespace PagedCachePool

variable {V : Type}

/-- `zero` is the content of a fresh tensor. -/
def new (numBlocks blockSize numHiddenLayers : Nat) (zero : V) : PagedCachePool V where
  blockSize := blockSize
  numHiddenLayers := numHiddenLayers
  allocator := .new numBlocks
  kv := fun _ _ => zero

/-- A new sequence, or `none` when the pool cannot even start one. -/
def allocate (pool : PagedCachePool V) : Option PagedKVCache :=
  if pool.allocator.numFree = 0 then none else some {}

/-- Whether `numTokens` could be admitted right now. -/
def canFit (pool : PagedCachePool V) (numTokens : Nat) : Bool :=
  pool.allocator.numFree ≥ ceilDiv numTokens pool.blockSize

/-- Duplicate a block's contents across every layer. -/
def copyBlock (pool : PagedCachePool V) (src dst : Nat) : PagedCachePool V :=
  { pool with
    kv := fun layer slot =>
      if layer < pool.numHiddenLayers ∧ slot / pool.blockSize = dst then
        pool.kv layer (src * pool.blockSize + slot % pool.blockSize)
      else pool.kv layer slot }

/-- `self.k[layer][slots] = rows` (and the same for `self.v`). -/
def write (pool : PagedCachePool V) (layer : Nat) (slots : List Nat) (rows : List V) : PagedCachePool V :=
  { pool with kv := Function.update pool.kv layer (scatter (pool.kv layer) slots rows) }

/-- `self.k[layer][slots]`. -/
def gather (pool : PagedCachePool V) (layer : Nat) (slots : List Nat) : List V :=
  slots.map (pool.kv layer)

end PagedCachePool

/-! ## One sequence -/

namespace PagedKVCache

variable {V : Type}

/-- The pool and the sequence a call works on. -/
abbrev Paged (V : Type) := PagedCachePool V × PagedKVCache

/-- Record a new physical block and its token slots. -/
def appendBlock (blockSize : Nat) (cache : PagedKVCache) (block : Nat) : PagedKVCache :=
  { cache with
    slots := cache.slots ++ pageSlots blockSize block
    blockTable := cache.blockTable ++ [block] }

/-- The loop of `_ensure_capacity`: `count` more blocks, one at a time. -/
def appendBlocks (pool : PagedCachePool V) (cache : PagedKVCache) :
    Nat → Except (Raised (Paged V)) (Paged V)
  | 0 => .ok (pool, cache)
  | count + 1 =>
    match pool.allocator.allocate with
    | none => .error (.outOfBlocks (pool, cache))
    | some (block, allocator) =>
      appendBlocks { pool with allocator } (cache.appendBlock pool.blockSize block) count

/-- Allocate blocks so that `numTokens + nNew` tokens fit. -/
def ensureCapacity (pool : PagedCachePool V) (cache : PagedKVCache) (nNew : Nat) :
    Except (Raised (Paged V)) (Paged V) :=
  let needed := ceilDiv (cache.numTokens + nNew) pool.blockSize
  appendBlocks pool cache (needed - cache.blockTable.length)

/-- Copy-on-write the block about to be written into. -/
def unshareTail (pool : PagedCachePool V) (cache : PagedKVCache) : Except (Raised (Paged V)) (Paged V) :=
  match cache.blockTable.getLast? with
  | none => .ok (pool, cache)
  | some tail =>
    if pool.allocator.refCount tail ≤ 1 then .ok (pool, cache)
    else
      match pool.allocator.allocate with
      | none => .error (.outOfBlocks (pool, cache))
      | some (fresh, allocator) =>
        let pool := PagedCachePool.copyBlock { pool with allocator } tail fresh
        match pool.allocator.decref tail with
        | .error raised => .error (.runtimeError raised)
        | .ok (_, allocator) =>
          .ok ({ pool with allocator },
            { cache with
              blockTable := cache.blockTable.dropLast ++ [fresh]
              slots := cache.slots.take (cache.slots.length - pool.blockSize) ++ pageSlots pool.blockSize fresh })

/-- Grow by `n` tokens: copy a shared tail if the last block is partly filled,
take the blocks the tokens need, advance the length. -/
def grow (pool : PagedCachePool V) (cache : PagedKVCache) (n : Nat) : Except (Raised (Paged V)) (Paged V) :=
  let unshared := if cache.numTokens % pool.blockSize ≠ 0 then unshareTail pool cache else .ok (pool, cache)
  match unshared with
  | .error raised => .error raised
  | .ok (pool, cache) =>
    match ensureCapacity pool cache n with
    | .error raised => .error raised
    | .ok (pool, cache) => .ok (pool, { cache with numTokens := cache.numTokens + n })

/-- `slots[start:stop]`, where the current pass writes its `n` rows. -/
def writeSlots (cache : PagedKVCache) (n : Nat) : List Nat := (cache.slots.take (cache.start + n)).drop cache.start

/-- The scatter and the gather of one layer, at the slots fixed on layer 0. -/
def writeLayer (pool : PagedCachePool V) (cache : PagedKVCache) (layerIdx : Nat) (k : List V) :
    List V × PagedCachePool V :=
  let pool := pool.write layerIdx (cache.writeSlots k.length) k
  (pool.gather layerIdx (cache.slots.take (cache.start + k.length)), pool)

/-- `PagedKVCache.update`.  Position advances once per forward pass, on layer 0. -/
def update (layerIdx : Nat) (k : List V) (state : Paged V) : Except (Raised (Paged V)) (List V × Paged V) :=
  let advanced :=
    if layerIdx = 0 then grow state.1 { state.2 with start := state.2.numTokens } k.length else .ok state
  match advanced with
  | .error raised => .error raised
  | .ok (pool, cache) =>
    let (rows, pool) := writeLayer pool cache layerIdx k
    .ok (rows, (pool, cache))

/-- `PagedKVCache` behind the model's protocol: a batch of one sequence. -/
def protocol (V : Type) : KVCache (Raised (Paged V)) (Paged V) V where
  update layerIdx k state :=
    match update layerIdx (k.headD []) state with
    | .error raised => .error raised
    | .ok (rows, state) => .ok ([rows], state)
  len state := state.2.numTokens

/-- A second sequence sharing every block of this one. -/
def fork (pool : PagedCachePool V) (cache : PagedKVCache) : Except AllocatorError (Paged V) :=
  match pool.allocator.increfAll cache.blockTable with
  | .error raised => .error raised
  | .ok allocator =>
    .ok ({ pool with allocator },
      { blockTable := cache.blockTable, numTokens := cache.numTokens, slots := cache.slots })

/-- Release every block.  Shared blocks survive until the last holder. -/
def free (pool : PagedCachePool V) (cache : PagedKVCache) : Except AllocatorError (Paged V) :=
  match pool.allocator.decrefAll cache.blockTable with
  | .error raised => .error raised
  | .ok allocator => .ok ({ pool with allocator }, { cache with blockTable := [], numTokens := 0, slots := [] })

end PagedKVCache

end Nanoserve.Engine
