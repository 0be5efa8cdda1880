import Nanoserve.Lib.Dict
import Nanoserve.Model.Transformer

/-! # Static KV cache

`engine/kv_cache.py`: a pool of contiguous slots of one fixed size, and one sequence's view of its
slot.
-/

namespace Nanoserve.Engine

open Lib
open Model (KVCache)

/-- `value or default`, which a zero does not survive. -/
def orDefault (value : Option Nat) (default : Nat) : Nat :=
  match value with
  | some (positive + 1) => positive + 1
  | _ => default

/-- One sequence's view of a slot: `pos` tokens are written, and the current forward
pass writes from `start` on. -/
structure StaticKVCache where
  slot : Nat
  pos : Nat := 0
  start : Nat := 0
deriving DecidableEq, Repr

/-- `kv` is by layer, slot and position.  The head of `freeList` is the end of the
source's `_free`, where slots are pushed and popped. -/
structure StaticCachePool (V : Type) where
  numSlots : Nat
  maxSeqLen : Nat
  kv : Nat → Nat → Nat → V
  freeList : List Nat
  live : List Nat := []
  expected : Dict Nat Nat := .empty

namespace StaticCachePool

variable {V : Type}

def new (numSlots : Nat) (maxSeqLen : Option Nat) (maxPositionEmbeddings : Nat) (zero : V) : StaticCachePool V where
  numSlots := numSlots
  maxSeqLen := orDefault maxSeqLen maxPositionEmbeddings
  kv := fun _ _ _ => zero
  freeList := (List.range numSlots).reverse

/-- Take a slot, or `none` if the pool is full. -/
def allocate (pool : StaticCachePool V) (expectedLen : Option Nat) : Option (StaticKVCache × StaticCachePool V) :=
  match pool.freeList with
  | [] => none
  | slot :: freeList =>
    some ({ slot },
      { pool with
        freeList
        live := if slot ∈ pool.live then pool.live else pool.live ++ [slot]
        expected := pool.expected.set slot (min (orDefault expectedLen pool.maxSeqLen) pool.maxSeqLen) })

def free (pool : StaticCachePool V) (cache : StaticKVCache) : StaticCachePool V :=
  if cache.slot ∈ pool.live then
    { pool with
      live := pool.live.erase cache.slot
      expected := pool.expected.erase cache.slot
      freeList := cache.slot :: pool.freeList }
  else pool

/-- `self.k[layer][slot, :, start:end] = rows` (and the same for `self.v`). -/
def write (pool : StaticCachePool V) (layer slot start : Nat) (rows : List V) : StaticCachePool V :=
  { pool with
    kv := fun otherLayer otherSlot position =>
      let old := pool.kv otherLayer otherSlot position
      if otherLayer = layer ∧ otherSlot = slot ∧ start ≤ position then rows[position - start]?.getD old else old }

/-- `self.k[layer][slot : slot + 1, :, :end]`. -/
def read (pool : StaticCachePool V) (layer slot stop : Nat) : List V := (List.range stop).map (pool.kv layer slot)

end StaticCachePool

namespace StaticKVCache

variable {V : Type}

/-- The pool and the sequence a call works on. -/
abbrev Slotted (V : Type) := StaticCachePool V × StaticKVCache

/-- The `RuntimeError` of `update`. -/
structure SlotExceeded (V : Type) where
  left : Slotted V

def SlotExceeded.message {V : Type} (raised : SlotExceeded V) : String :=
  "sequence exceeded slot capacity: " ++ toString raised.left.2.pos ++ " > " ++ toString raised.left.1.maxSeqLen ++
    " tokens"

/-- The position advances once per forward pass, on layer 0. -/
def advance (layerIdx n : Nat) (cache : StaticKVCache) : StaticKVCache :=
  if layerIdx = 0 then { cache with start := cache.pos, pos := cache.pos + n } else cache

/-- `StaticKVCache.update`.  The capacity is checked when the position has moved. -/
def update (layerIdx : Nat) (k : List V) (state : Slotted V) : Except (SlotExceeded V) (List V × Slotted V) :=
  let cache := state.2.advance layerIdx k.length
  if layerIdx = 0 ∧ cache.pos > state.1.maxSeqLen then .error ⟨(state.1, cache)⟩
  else
    let pool := state.1.write layerIdx cache.slot cache.start k
    .ok (pool.read layerIdx cache.slot (cache.start + k.length), (pool, cache))

/-- `StaticKVCache` behind the model's protocol: a batch of one sequence. -/
def protocol (V : Type) : KVCache (SlotExceeded V) (Slotted V) V where
  update layerIdx k state :=
    match update layerIdx (k.headD []) state with
    | .error raised => .error raised
    | .ok (rows, state) => .ok ([rows], state)
  len state := state.2.pos

end StaticKVCache

/-! ## Handles -/

/-- A pool and every cache it has handed out, with whether `free` was called on it. -/
structure SlotSession (V : Type) where
  pool : StaticCachePool V
  handles : List (StaticKVCache × Bool) := []

inductive SlotCall where
  | allocate (expectedLen : Option Nat)
  | free (handle : Nat)
deriving DecidableEq, Repr

namespace SlotSession

variable {V : Type}

/-- The slots of the caches that have not been freed. -/
def unfreed (session : SlotSession V) : List Nat :=
  (session.handles.filter fun handle => !handle.2).map fun handle => handle.1.slot

/-- Any cache may be freed at any time, also one that has been freed before. -/
def step (session : SlotSession V) : SlotCall → Except Unit (SlotSession V)
  | .allocate expectedLen =>
    match session.pool.allocate expectedLen with
    | none => .ok session
    | some (cache, pool) => .ok { pool, handles := session.handles ++ [(cache, false)] }
  | .free handle =>
    match session.handles[handle]? with
    | none => .error ()
    | some (cache, _) =>
      .ok { pool := session.pool.free cache, handles := session.handles.set handle (cache, true) }

end SlotSession

end Nanoserve.Engine
