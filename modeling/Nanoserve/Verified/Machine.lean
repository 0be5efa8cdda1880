import Nanoserve.Engine.Session
import Nanoserve.Verified.BatchedDecode

/-! # The engine in small steps

Every call on the engine is a sequence of the transitions below.
-/

namespace Nanoserve.Verified

open Engine Lib
open ContinuousBatchingEngine

variable {X V L S : Type}

structure Machine (V S : Type) where
  session : Session V S
  pending : List (Sequence × Nat) := []
  discarded : List (Nat × List Nat) := []

namespace Machine

abbrev engine (machine : Machine V S) : EngineState V S := machine.session.engine

def withEngine (machine : Machine V S) (engine : EngineState V S) : Machine V S :=
  { machine with session := { machine.session with engine } }

/-- Everything that holds a block table. -/
def seqs (machine : Machine V S) : List Sequence := machine.engine.running ++ machine.pending.map Prod.fst

theorem seqs_of_idle (machine : Machine V S) (idle : machine.pending = []) : machine.seqs = machine.engine.running := by
  simp [seqs, idle]

end Machine

/-- What `_admit` asks the pool for before it starts a request. -/
def admissionNeed (cfg : Config X V L S) (engine : EngineState V S) (request : Nat) : Nat :=
  blocksNeeded engine.pool (engine.requests request) + 1 + max cfg.reserveBlocks (engine.running.length + 1)

/-- Whether the sampled token ends the generation without being recorded. -/
def Stops (cfg : Config X V L S) (request : Request) (token : Nat) : Prop :=
  token = cfg.eosTokenId ∧ ¬request.params.ignoreEos

instance (cfg : Config X V L S) (request : Request) (token : Nat) : Decidable (Stops cfg request token) :=
  inferInstanceAs (Decidable (_ ∧ _))

/-- A token recorded on the heap and emitted. -/
def record (engine : EngineState V S) (request token : Nat) : EngineState V S :=
  { engine with
    requests := Function.update engine.requests request ((engine.requests request).recordToken token)
    emitted := engine.emitted ++ [(request, token)] }

inductive Transition (cfg : Config X V L S) : Machine V S → Machine V S → Prop
  | submit (machine : Machine V S) (request : Nat) (late : Bool) :
    Transition cfg machine
      { machine with
        session := { machine.session with
          engine := addRequest cfg machine.engine request late
          submitted := machine.session.submitted ++ [request] } }
  | askCancel (machine : Machine V S) (requestId : String) :
    Transition cfg machine (machine.withEngine (requestCancel machine.engine requestId))
  | forgetCancels (machine : Machine V S) :
    Transition cfg machine (machine.withEngine { machine.engine with cancelRequested := [] })
  | cancelRunning (machine : Machine V S) (front : List Sequence) (seq : Sequence) (back : List Sequence)
    (pool : PagedCachePool V) (cache : PagedKVCache) (running : machine.engine.running = front ++ seq :: back)
    (asked : (machine.engine.requests seq.request).requestId ∈ machine.engine.cancelRequested)
    (freed : PagedKVCache.free machine.engine.pool seq.cache = .ok (pool, cache)) :
    Transition cfg machine (machine.withEngine (recordFinished cfg
      (finish { machine.engine with pool, running := front ++ back } seq.request .cancelled) seq.request))
  | cancelWaiting (machine : Machine V S) (front : List Nat) (request : Nat) (back : List Nat)
    (waiting : machine.engine.waiting = front ++ request :: back)
    (asked : (machine.engine.requests request).requestId ∈ machine.engine.cancelRequested) :
    Transition cfg machine (machine.withEngine (recordFinished cfg
      (finish { machine.engine with waiting := front ++ back } request .cancelled) request))
  | makeRoom (machine : Machine V S) (blocks : Nat) (enough : Bool) (engine : EngineState V S)
    (made : makeRoom machine.engine blocks = .ok (enough, engine)) :
    Transition cfg machine (machine.withEngine engine)
  | clear (machine : Machine V S) (pool : PagedCachePool V) (prefixCache : PrefixCache)
    (cleared : machine.engine.prefixCache.clear machine.engine.pool = .ok (pool, prefixCache)) :
    Transition cfg machine (machine.withEngine { machine.engine with pool, prefixCache })
  | reject (machine : Machine V S) (request : Nat) (waiting : List Nat) (idle : machine.pending = [])
    (queued : machine.engine.waiting = request :: waiting) (alone : machine.engine.running = [])
    (tooLarge : machine.engine.pool.allocator.numBlocks < admissionNeed cfg machine.engine request) :
    Transition cfg machine (machine.withEngine (recordFinished cfg
      (finish { machine.engine with waiting } request .rejected) request))
  | prefill (machine : Machine V S) (request : Nat) (waiting : List Nat) (logits : List L) (last : L)
    (pool : PagedCachePool V) (prefixCache : PrefixCache) (cache : PagedKVCache) (idle : machine.pending = [])
    (queued : machine.engine.waiting = request :: waiting)
    (slot : machine.engine.running.length < cfg.maxBatchSize)
    (room : admissionNeed cfg machine.engine request ≤ machine.engine.pool.allocator.numFree)
    (prefilled : prefill cfg machine.engine.pool machine.engine.prefixCache (machine.engine.requests request) {} =
      .ok (logits, pool, prefixCache, cache)) (sampled : logits.getLast? = some last) :
    Transition cfg machine
      { machine.withEngine
          { machine.engine with
            pool, prefixCache, waiting
            rng := (sample cfg (machine.engine.requests request).params last machine.engine.rng).2 } with
        pending :=
          let token := (sample cfg (machine.engine.requests request).params last machine.engine.rng).1
          [({ request, cache, nextToken := token }, token)] }
  | decode (machine : Machine V S) (pool : PagedCachePool V) (running : List Sequence) (batch : BatchedPagedCache)
    (logits : List (List L)) (after : PagedCachePool V) (idle : machine.pending = [])
    (busy : machine.engine.running ≠ [])
    (prepared : BatchedPagedCache.prepare machine.engine.pool machine.engine.running = .ok (pool, running, batch))
    (ran : decodeForward cfg pool (machine.engine.running.map Sequence.nextToken)
      (machine.engine.running.map Sequence.position) batch = .ok (logits, after)) :
    Transition cfg machine
      (let sampled := sampleBatch cfg ((running.zip (logits.filterMap List.getLast?)).map fun row =>
          ((machine.engine.requests row.1.request).params, row.2)) machine.engine.rng
      { machine.withEngine { machine.engine with pool := after, rng := sampled.2, running := [] } with
        pending := running.zip sampled.1 })
  | keep (machine : Machine V S) (seq : Sequence) (token : Nat) (pending : List (Sequence × Nat))
    (next : machine.pending = (seq, token) :: pending)
    (goesOn : ¬Stops cfg (machine.engine.requests seq.request) token)
    (room : (machine.engine.requests seq.request).outputLen + 1 <
      (machine.engine.requests seq.request).params.maxTokens) :
    Transition cfg machine
      { machine.withEngine
          { record machine.engine seq.request token with
            running := machine.engine.running ++ [{ seq with nextToken := token }] } with pending }
  | fill (machine : Machine V S) (seq : Sequence) (token : Nat) (pending : List (Sequence × Nat))
    (pool : PagedCachePool V) (cache : PagedKVCache) (next : machine.pending = (seq, token) :: pending)
    (goesOn : ¬Stops cfg (machine.engine.requests seq.request) token)
    (full : (machine.engine.requests seq.request).params.maxTokens ≤
      (machine.engine.requests seq.request).outputLen + 1)
    (freed : PagedKVCache.free machine.engine.pool seq.cache = .ok (pool, cache)) :
    Transition cfg machine
      { machine.withEngine (recordFinished cfg
          (finish { record machine.engine seq.request token with pool } seq.request .length) seq.request) with pending }
  | stop (machine : Machine V S) (seq : Sequence) (token : Nat) (pending : List (Sequence × Nat))
    (pool : PagedCachePool V) (cache : PagedKVCache) (next : machine.pending = (seq, token) :: pending)
    (stops : Stops cfg (machine.engine.requests seq.request) token)
    (freed : PagedKVCache.free machine.engine.pool seq.cache = .ok (pool, cache)) :
    Transition cfg machine
      { machine.withEngine (recordFinished cfg
          (finish { machine.engine with pool } seq.request .eos) seq.request) with pending }
  | preempt (machine : Machine V S) (front : List Sequence) (victim : Sequence) (pool : PagedCachePool V)
    (cache : PagedKVCache) (idle : machine.pending = []) (running : machine.engine.running = front ++ [victim])
    (short : machine.engine.pool.allocator.numFree <
      BatchedPagedCache.need machine.engine.pool machine.engine.running)
    (freed : PagedKVCache.free machine.engine.pool victim.cache = .ok (pool, cache)) :
    Transition cfg machine
      { machine.withEngine
          { machine.engine with
            pool
            running := front
            requests := Function.update machine.engine.requests victim.request
              { machine.engine.requests victim.request with outputTokenIds := [] }
            preemptions := machine.engine.preemptions + 1
            waiting := victim.request :: machine.engine.waiting } with
        discarded := machine.discarded ++
          [(victim.request, (machine.engine.requests victim.request).outputTokenIds)] }
  | drainEmitted (machine : Machine V S) :
    Transition cfg machine
      { machine with
        session := { machine.session with
          engine := { machine.engine with emitted := [] }
          drainedEmitted := machine.session.drainedEmitted ++ machine.engine.emitted } }
  | drainFinished (machine : Machine V S) :
    Transition cfg machine
      { machine with
        session := { machine.session with
          engine := { machine.engine with newlyFinished := [] }
          drainedFinished := machine.session.drainedFinished ++ machine.engine.newlyFinished } }

theorem mem_of_taken_out {α : Type} {front back rest : List α} {taken other : α} (whole : rest = front ++ taken :: back)
    (mem : other ∈ front ++ back) : other ∈ rest := by
  rw [whole]
  exact ((List.sublist_cons_self taken back).append_left front).subset mem

/-- Any number of transitions. -/
abbrev Reaches (cfg : Config X V L S) : Machine V S → Machine V S → Prop := Relation.ReflTransGen (Transition cfg)

end Nanoserve.Verified
