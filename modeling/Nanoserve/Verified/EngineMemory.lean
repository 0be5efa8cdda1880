import Nanoserve.Verified.Machine
import Nanoserve.Verified.Supply

/-! # The books of the engine

`Stock` is the invariant behind every statement about how many blocks there are.
-/

namespace Nanoserve.Verified

open Engine Lib List Machine BatchedPagedCache
open ContinuousBatchingEngine
open PrefixCache (hashChain)
open PagedKVCache (free)

variable {X V L S : Type} {cfg : Config X V L S}
variable {before : Machine V S} {pool after : PagedCachePool V} {seqs grown : List Sequence} {seq : Sequence}
  {cache : PagedKVCache} {prefixCache : PrefixCache} {req : Nat} {logits : List L} {rest : Multiset Nat}
  {pending : List (Sequence × Nat)} {write : List Nat}

/-! ## Requests -/

/-- The fields of a request a client sets. -/
structure SameClient (before after : Request) : Prop where
  prompt : after.promptTokenIds = before.promptTokenIds
  params : after.params = before.params
  requestId : after.requestId = before.requestId

theorem SameClient.refl (req : Request) : SameClient req req := ⟨rfl, rfl, rfl⟩

theorem SameClient.trans {first second third : Request} (left : SameClient first second)
    (right : SameClient second third) : SameClient first third :=
  ⟨right.prompt.trans left.prompt, right.params.trans left.params, right.requestId.trans left.requestId⟩

theorem SameClient.update {requests : Nat → Request} {changed : Nat} {next : Request}
    (same : SameClient (requests changed) next) (req : Nat) :
    SameClient (requests req) (Function.update requests changed next req) := by
  by_cases here : req = changed
  · grind
  · rw [Function.update_of_ne here]
    exact .refl _

section

variable (eng : EngineState V S)
include eng

theorem sameClient_finish (finished : Nat) (reason : FinishReason) (req : Nat) :
    SameClient (eng.requests req) ((finish eng finished reason).requests req) :=
  @SameClient.update eng.requests finished ((eng.requests finished).finish reason) ⟨rfl, rfl, rfl⟩ req

theorem sameClient_ended (ended : Nat) (reason : FinishReason) (req : Nat) :
    SameClient (eng.requests req) ((recordFinished cfg (finish eng ended reason) ended).requests req) :=
  sameClient_finish eng ended reason req

theorem sameClient_record (recorded token req : Nat) :
    SameClient (eng.requests req) ((record eng recorded token).requests req) :=
  @SameClient.update eng.requests recorded ((eng.requests recorded).recordToken token) ⟨rfl, rfl, rfl⟩ req

theorem sameClient_addRequest (added : Nat) (late : Bool) (req : Nat) :
    SameClient (eng.requests req) ((addRequest cfg eng added late).requests req) := by
  unfold addRequest
  split
  case h_1 reason _ =>
    exact (sameClient_finish eng added .rejected req).trans
      (@SameClient.update (finish eng added .rejected).requests added
        { (finish eng added .rejected).requests added with rejectionReason := reason } ⟨rfl, rfl, rfl⟩ req)
  case h_2 => exact .refl _

end

theorem makeRoom_requests {eng next : EngineState V S} {blocks : Nat} {enough : Bool}
    (made : makeRoom eng blocks = .ok (enough, next)) :
    ∃ pool prefixCache, next = { eng with pool, prefixCache } := by
  unfold makeRoom at made
  split at made
  · grind
  · simp only [Except.ok.injEq, Prod.mk.injEq] at made
    exact ⟨eng.pool, eng.prefixCache, made.2.symm⟩

theorem Transition.preemptions {after : Machine V S} (step : Transition cfg before after) :
    after.engine.preemptions + before.discarded.length = before.engine.preemptions + after.discarded.length := by
  cases step with
  | submit =>
    simp only [addRequest]
    split <;> rfl
  | makeRoom _ _ _ made =>
    obtain ⟨pool, prefixCache, rfl⟩ := makeRoom_requests made
    rfl
  | preempt =>
    simp only [withEngine, length_append, length_singleton]
    omega
  | _ => rfl

theorem Reaches.preemptions {after : Machine V S} (steps : Reaches cfg before after) :
    after.engine.preemptions + before.discarded.length = before.engine.preemptions + after.discarded.length := by
  induction steps with
  | refl => rfl
  | tail _ step =>
    have last := step.preemptions
    omega

theorem Transition.sameClient {after : Machine V S} (step : Transition cfg before after) (req : Nat) :
    SameClient (before.engine.requests req) (after.engine.requests req) := by
  cases step with
  | submit => exact sameClient_addRequest _ _ _ _
  | cancelRunning => exact sameClient_finish _ _ _ _
  | cancelWaiting => exact sameClient_finish _ _ _ _
  | makeRoom _ _ _ made =>
    obtain ⟨pool, prefixCache, rfl⟩ := makeRoom_requests made
    exact .refl _
  | reject => exact sameClient_finish _ _ _ _
  | keep => exact sameClient_record _ _ _ _
  | fill seq token =>
    exact (sameClient_record before.engine seq.request token req).trans (sameClient_finish _ _ _ _)
  | stop => exact sameClient_finish _ _ _ _
  | preempt _ victim =>
    exact @SameClient.update before.engine.requests victim.request
      { before.engine.requests victim.request with outputTokenIds := [] } ⟨rfl, rfl, rfl⟩ req
  | _ => exact .refl _

theorem Reaches.sameClient {after : Machine V S} (steps : Reaches cfg before after) (req : Nat) :
    SameClient (before.engine.requests req) (after.engine.requests req) := by
  induction steps with
  | refl => exact .refl _
  | tail _ step ih => exact ih.trans (step.sameClient req)

/-! ## Stock -/

structure Stock (cfg : Config X V L S) (machine : Machine V S) : Prop where
  positive : 0 < machine.engine.pool.blockSize
  layers : machine.engine.pool.numHiddenLayers = cfg.model.numHiddenLayers
  inverse : Inverse machine.engine.prefixCache
  balanced : Balanced machine.engine.pool.allocator
    (↑(cachedBlocks machine.engine.prefixCache) + heldBy tableOf machine.seqs)
  covers : ∀ seq ∈ machine.seqs, (tableOf seq).length = ceilDiv seq.cache.numTokens machine.engine.pool.blockSize
  unfinished : ∀ seq ∈ machine.seqs, seq.finished = false
  nonempty : ∀ request, (machine.engine.requests request).promptTokenIds ≠ []

theorem free_held {next : PagedCachePool V} {cached : Multiset Nat} {rest : List Sequence}
    (bal : Balanced pool.allocator (cached + heldBy tableOf seqs)) (owners : seqs.Perm (seq :: rest))
    (freed : free pool seq.cache = .ok (next, cache)) :
    (∃ alloc, next = { pool with allocator := alloc } ∧ alloc.numBlocks = pool.allocator.numBlocks ∧
      pool.allocator.numFree ≤ alloc.numFree) ∧
    Balanced next.allocator (cached + heldBy tableOf rest) := by
  rw [heldBy_perm owners, heldBy_cons, add_left_comm] at bal
  obtain ⟨alloc, released, releasedBalanced, sameBlocks, noFewer⟩ := free_spec bal
  rw [freed] at released
  cases released
  exact ⟨⟨alloc, rfl, sameBlocks, noFewer⟩, releasedBalanced⟩

namespace Stock

variable {m next : Machine V S}

section

variable (stock : Stock cfg m)
include stock

theorem congr (pool : next.engine.pool = m.engine.pool)
    (prefixCache : next.engine.prefixCache = m.engine.prefixCache) (seqs : next.seqs = m.seqs)
    (clients : ∀ req, SameClient (m.engine.requests req) (next.engine.requests req)) :
    Stock cfg next where
  positive := by rw [pool]; exact stock.positive
  layers := by rw [pool]; exact stock.layers
  inverse := by rw [prefixCache]; exact stock.inverse
  balanced := by rw [pool, prefixCache, seqs]; exact stock.balanced
  covers := by rw [pool, seqs]; exact stock.covers
  unfinished := by rw [seqs]; exact stock.unfinished
  nonempty req := by rw [(clients req).prompt]; exact stock.nonempty req

theorem release
    (freed : free m.engine.pool seq.cache = .ok (pool, cache))
    (owners : m.seqs.Perm (seq :: next.seqs)) (poolEq : next.engine.pool = pool)
    (prefixCache : next.engine.prefixCache = m.engine.prefixCache)
    (clients : ∀ req, SameClient (m.engine.requests req) (next.engine.requests req)) :
    Stock cfg next := by
  obtain ⟨⟨alloc, rfl, -, -⟩, bal⟩ := free_held stock.balanced owners freed
  have stays : ∀ other ∈ next.seqs, other ∈ m.seqs :=
    fun other mem => owners.symm.subset (mem_cons_of_mem _ mem)
  refine ⟨?_, ?_, ?_, ?_, ?_, ?_, ?_⟩
  · rw [poolEq]; exact stock.positive
  · rw [poolEq]; exact stock.layers
  · rw [prefixCache]; exact stock.inverse
  · rw [poolEq, prefixCache]; exact bal
  · intro other mem
    rw [poolEq]
    exact stock.covers other (stays other mem)
  · exact fun other mem => stock.unfinished other (stays other mem)
  · intro req
    rw [(clients req).prompt]
    exact stock.nonempty req

theorem evicted {alloc : BlockAllocator} {freed : Nat}
    (evicted : Evicted m.engine.pool.allocator m.engine.prefixCache (heldBy tableOf m.seqs) freed alloc prefixCache) :
    Stock cfg (m.withEngine
      { m.engine with pool := { m.engine.pool with allocator := alloc }, prefixCache }) where
  positive := stock.positive
  layers := stock.layers
  inverse := evicted.inverse
  balanced := evicted.balanced
  covers := stock.covers
  unfinished := stock.unfinished
  nonempty := stock.nonempty

theorem makeRoom_spec (blocks : Nat) :
    ∃ freed alloc prefixCache,
      Evicted m.engine.pool.allocator m.engine.prefixCache (heldBy tableOf m.seqs) freed
        alloc prefixCache ∧
      freed = min (blocks - m.engine.pool.allocator.numFree)
        (spare (heldBy tableOf m.seqs) m.engine.prefixCache) ∧
      ∀ eng : EngineState V S, eng.pool = m.engine.pool → eng.prefixCache = m.engine.prefixCache →
        makeRoom eng blocks = .ok (decide (blocks ≤ m.engine.pool.allocator.numFree +
            spare (heldBy tableOf m.seqs) m.engine.prefixCache),
          { eng with pool := { m.engine.pool with allocator := alloc }, prefixCache }) := by
  by_cases short : m.engine.pool.allocator.numFree < blocks
  · obtain ⟨freed, alloc, prefixCache, ensured, evicted, count⟩ :=
      ensureFree_spec blocks stock.balanced stock.inverse
    refine ⟨freed, alloc, prefixCache, evicted, count, ?_⟩
    intro eng poolEq cacheEq
    simp only [makeRoom, poolEq, cacheEq, if_pos short, ensured]
  · refine ⟨0, m.engine.pool.allocator, m.engine.prefixCache, .refl stock.balanced stock.inverse,
      by omega, ?_⟩
    intro eng poolEq cacheEq
    rw [decide_eq_true (by omega), ← poolEq, ← cacheEq, makeRoom, if_neg (by grind)]

theorem makeRoom_cases (blocks : Nat) :
    ∃ enough alloc prefixCache, (enough = true → blocks ≤ alloc.numFree) ∧
      ∀ eng : EngineState V S, eng.pool = m.engine.pool → eng.prefixCache = m.engine.prefixCache →
        makeRoom eng blocks =
          .ok (enough, { eng with pool := { m.engine.pool with allocator := alloc }, prefixCache }) := by
  obtain ⟨freed, alloc, prefixCache, evicted, count, made⟩ := stock.makeRoom_spec blocks
  refine ⟨_, alloc, prefixCache, ?_, made⟩
  intro enough
  have fits := of_decide_eq_true enough
  rw [evicted.numFree, count]
  omega

theorem prefilled
    (room : admissionNeed cfg m.engine req ≤ m.engine.pool.allocator.numFree) :
    ∃ logits pool prefixCache cache, Stocked cfg m.engine.pool m.engine.prefixCache
      (heldBy tableOf m.seqs) (m.engine.requests req) logits pool prefixCache cache := by
  refine prefill_supplied stock.positive stock.balanced stock.inverse (stock.nonempty req) ?_
  simp only [admissionNeed, blocksNeeded] at room
  omega

theorem prefilled_of
    (room : admissionNeed cfg m.engine req ≤ m.engine.pool.allocator.numFree)
    (prefilled : prefill cfg m.engine.pool m.engine.prefixCache (m.engine.requests req) {} =
      .ok (logits, pool, prefixCache, cache)) :
    Stocked cfg m.engine.pool m.engine.prefixCache (heldBy tableOf m.seqs)
      (m.engine.requests req) logits pool prefixCache cache := by
  obtain ⟨_, _, _, _, spec⟩ := stock.prefilled room
  have same := spec.result.symm.trans prefilled
  cases same
  exact spec

theorem free_ok (seq : Sequence) (mem : seq ∈ m.seqs) :
    ∃ pool cache, free m.engine.pool seq.cache = .ok (pool, cache) := by
  obtain ⟨front, back, split⟩ := append_of_mem mem
  have bal := stock.balanced
  rw [split, heldBy_perm perm_middle, heldBy_cons, add_left_comm] at bal
  obtain ⟨alloc, released, -⟩ := free_spec bal
  exact ⟨_, _, released⟩

theorem freed_shape
    (freed : free m.engine.pool seq.cache = .ok (pool, cache)) (mem : seq ∈ m.seqs) :
    SameShape m.engine.pool pool := by
  obtain ⟨front, back, split⟩ := append_of_mem mem
  obtain ⟨⟨alloc, rfl, numBlocks, -⟩, -⟩ := free_held stock.balanced (split ▸ perm_middle) freed
  exact ⟨rfl, rfl, numBlocks⟩

theorem freed_noFewer
    (freed : free m.engine.pool seq.cache = .ok (pool, cache)) (mem : seq ∈ m.seqs) :
    m.engine.pool.allocator.numFree ≤ pool.allocator.numFree := by
  obtain ⟨front, back, split⟩ := append_of_mem mem
  obtain ⟨⟨alloc, rfl, -, noFewer⟩, -⟩ := free_held stock.balanced (split ▸ perm_middle) freed
  exact noFewer

end

end Stock

theorem length_sampleEach (rows : List (SamplingParams × L)) (rng : S) :
    (sampleEach cfg rows rng).1.length = rows.length := by
  induction rows generalizing rng with
  | nil => rfl
  | cons _ _ ih =>
    simp [sampleEach, ih]

theorem length_sampleBatch (rows : List (SamplingParams × L)) (rng : S) :
    (sampleBatch cfg rows rng).1.length = rows.length := by
  unfold sampleBatch
  split
  · simp
  · exact length_sampleEach rows rng

theorem map_fst_sampled {batch : List Sequence} {lasts : List L} {params : Sequence × L → SamplingParams × L} {rng : S}
    (lengths : lasts.length = batch.length) :
    (batch.zip (sampleBatch cfg ((batch.zip lasts).map params) rng).1).map Prod.fst = batch := by
  apply map_fst_zip
  rw [length_sampleBatch, length_map, length_zip, lengths]
  exact Nat.le_of_eq (Nat.min_self _).symm

/-! ## Decoding -/

theorem decodeForward_ran {batch : BatchedPagedCache} {running : List Sequence} {logits : List (List L)}
    (ran : decodeForward cfg pool (running.map Sequence.nextToken) (running.map Sequence.position) batch =
      .ok (logits, after)) :
    (logits.filterMap getLast?).length = running.length ∧ Scattered pool after batch.writeSlots := by
  obtain ⟨_, _, ranEq, lengths, scattered⟩ := @decodeForward_total X V L S cfg pool
    (running.map Sequence.nextToken) (running.map Sequence.position) batch (by simp)
  rw [ran] at ranEq
  cases ranEq
  exact ⟨by simpa using lengths, scattered⟩

namespace Stock

variable {m next : Machine V S}

theorem moved {token : Nat} (pendingEq : m.pending = (seq, token) :: pending) {other : Sequence}
    (mem : other ∈ m.engine.running ++ [{ seq with nextToken := token }] ++ pending.map Prod.fst) :
    ∃ was ∈ m.seqs, other.cache = was.cache ∧ other.finished = was.finished := by
  simp only [append_assoc, mem_append, mem_singleton] at mem
  simp only [seqs, pendingEq, map_cons, mem_append, mem_cons]
  rcases mem with running | rfl | pending
  · exact ⟨other, .inl running, rfl, rfl⟩
  · exact ⟨seq, .inr (.inl rfl), rfl, rfl⟩
  · exact ⟨other, .inr (.inr pending), rfl, rfl⟩

section

variable (stock : Stock cfg m)
include stock

theorem decoded (idle : m.pending = []) {batch : BatchedPagedCache}
    {logits : List (List L)}
    (prepared : prepare m.engine.pool m.engine.running = .ok (pool, grown, batch))
    (ran : decodeForward cfg pool (m.engine.running.map Sequence.nextToken) (m.engine.running.map Sequence.position) batch =
      .ok (logits, after)) :
    Refilled ↑(cachedBlocks m.engine.prefixCache) m.engine.pool m.engine.running after grown ∧
      (logits.filterMap getLast?).length = grown.length := by
  have seqsEq := m.seqs_of_idle idle
  have bal := stock.balanced
  rw [seqsEq, add_comm] at bal
  rcases prepare_cases (commit_supplied stock.positive bal fun seq mem => stock.covers seq (seqsEq ▸ mem)) with
    ⟨-, failed⟩ | ⟨-, committedPool, committedSeqs, write, -, preparedEq, refilled⟩
  · rw [failed] at prepared
    cases prepared
  · rw [preparedEq] at prepared
    simp only [Except.ok.injEq, Prod.mk.injEq] at prepared
    obtain ⟨rfl, rfl, rfl⟩ := prepared
    obtain ⟨lengths, scattered⟩ := decodeForward_ran ran
    refine ⟨⟨?_, refilled.shape.trans ⟨scattered.blockSize, scattered.numHiddenLayers, by rw [scattered.allocator]⟩,
      refilled.each, refilled.covers⟩, lengths.trans refilled.length.symm⟩
    rw [scattered.allocator]
    exact refilled.balanced

theorem enter (idle : m.pending = [])
    (room : admissionNeed cfg m.engine req ≤ m.engine.pool.allocator.numFree)
    (prefilled : prefill cfg m.engine.pool m.engine.prefixCache (m.engine.requests req) {} =
      .ok (logits, pool, prefixCache, cache))
    (waiting : List Nat) (rng : S) (token : Nat) :
    Stock cfg { m.withEngine { m.engine with pool, prefixCache, waiting, rng } with
      pending := [({ request := req, cache, nextToken := token }, token)] } := by
  have spec := stock.prefilled_of room prefilled
  have seqsEq := m.seqs_of_idle idle
  have bal := spec.balanced
  have sizeEq := spec.shape.blockSize
  rw [seqsEq] at bal
  refine ⟨?_, ?_, spec.inverse, ?_, ?_, ?_, stock.nonempty⟩
  · simp only [withEngine, sizeEq]
    exact stock.positive
  · exact spec.shape.numHiddenLayers.trans stock.layers
  · simp only [withEngine, seqs, map_cons, map_nil, heldBy_append, heldBy_cons, heldBy_nil,
      add_zero]
    rw [add_comm (heldBy tableOf m.engine.running)]
    exact bal
  · intro seq mem
    simp only [withEngine, sizeEq]
    rcases mem_append.mp mem with running | new
    · exact stock.covers seq (mem_append_left _ running)
    · simp only [map_cons, map_nil, mem_singleton] at new
      rw [new]
      exact spec.covers
  · intro seq mem
    rcases mem_append.mp mem with running | new
    · exact stock.unfinished seq (mem_append_left _ running)
    · simp only [map_cons, map_nil, mem_singleton] at new
      rw [new]

theorem grow (idle : m.pending = [])
    (refilled : Refilled ↑(cachedBlocks m.engine.prefixCache) m.engine.pool m.engine.running after grown)
    (rows : pending.map Prod.fst = grown) (rng : S) :
    Stock cfg { m.withEngine { m.engine with pool := after, rng, running := [] } with pending } := by
  have seqsEq := m.seqs_of_idle idle
  have sizeEq := refilled.shape.blockSize
  have bal := refilled.balanced
  rw [add_comm] at bal
  refine ⟨?_, ?_, stock.inverse, ?_, ?_, ?_, stock.nonempty⟩
  · simp only [withEngine, sizeEq]
    exact stock.positive
  · exact refilled.shape.numHiddenLayers.trans stock.layers
  · simp only [withEngine, seqs, nil_append, rows]
    exact bal
  · intro seq mem
    simp only [withEngine, seqs, nil_append, rows] at mem
    simp only [withEngine, sizeEq]
    exact refilled.covers seq mem
  · intro seq mem
    simp only [withEngine, seqs, nil_append, rows] at mem
    have flag : seq.finished ∈ m.engine.running.map Sequence.finished := by
      rw [← refilled.finished]
      exact mem_map_of_mem mem
    obtain ⟨was, wasRunning, same⟩ := mem_map.mp flag
    rw [← same]
    exact stock.unfinished was (seqsEq ▸ wasRunning)

theorem keep {token : Nat} (pendingEq : m.pending = (seq, token) :: pending) :
    Stock cfg { m.withEngine { record m.engine seq.request token with
      running := m.engine.running ++ [{ seq with nextToken := token }] } with pending } := by
  refine ⟨stock.positive, stock.layers, stock.inverse, ?_, ?_, ?_, ?_⟩
  · have bal := stock.balanced
    simp only [seqs, pendingEq, map_cons, heldBy_append, heldBy_cons] at bal
    simp only [withEngine, seqs, heldBy_append, heldBy_cons, heldBy_nil, add_zero, add_assoc]
    exact bal
  · intro other mem
    obtain ⟨was, wasThere, cacheEq, -⟩ := moved pendingEq mem
    rw [tableOf, cacheEq]
    exact stock.covers was wasThere
  · intro other mem
    obtain ⟨was, wasThere, -, finishedEq⟩ := moved pendingEq mem
    rw [finishedEq]
    exact stock.unfinished was wasThere
  · intro req
    show ((record m.engine seq.request token).requests req).promptTokenIds ≠ []
    rw [(sameClient_record m.engine seq.request token req).prompt]
    exact stock.nonempty req

theorem transition (step : Transition cfg m next) : Stock cfg next := by
  have clients := step.sameClient
  cases step with
  | submit =>
    refine stock.congr ?_ ?_ ?_ clients <;> simp only [addRequest, seqs] <;> split <;> rfl
  | askCancel => exact stock.congr rfl rfl rfl clients
  | forgetCancels => exact stock.congr rfl rfl rfl clients
  | cancelRunning _ _ _ _ _ running _ freed =>
    refine stock.release freed ?_ rfl rfl clients
    simp only [seqs, running, append_assoc, cons_append]
    simp only [withEngine, recordFinished, finish, append_assoc]
    exact perm_middle
  | cancelWaiting => exact stock.congr rfl rfl rfl clients
  | makeRoom blocks _ _ made =>
    obtain ⟨freed, alloc, prefixCache, evicted, -, result⟩ := stock.makeRoom_spec blocks
    rw [result m.engine rfl rfl] at made
    cases made
    exact stock.evicted evicted
  | clear _ _ cleared =>
    obtain ⟨alloc, result, bal, -⟩ := clear_spec stock.balanced
    rw [cleared] at result
    cases result
    refine ⟨stock.positive, stock.layers, ?_, ?_, stock.covers, stock.unfinished, stock.nonempty⟩
    · intro block hash
      simp [withEngine, blockOf]
    · rw [← zero_add (heldBy tableOf m.seqs)] at bal
      exact bal
  | reject => exact stock.congr rfl rfl rfl clients
  | prefill _ _ _ _ _ _ _ idle _ _ room prefilled =>
    exact stock.enter idle room prefilled _ _ _
  | decode _ _ _ _ _ idle _ prepared ran =>
    obtain ⟨refilled, lengths⟩ := stock.decoded idle prepared ran
    exact stock.grow idle refilled (map_fst_sampled lengths) _
  | keep _ _ _ pendingEq => exact stock.keep pendingEq
  | fill _ _ _ _ _ pendingEq _ _ freed =>
    refine stock.release freed ?_ rfl rfl clients
    simp only [seqs, pendingEq, map_cons]
    exact perm_middle
  | stop _ _ _ _ _ pendingEq _ freed =>
    refine stock.release freed ?_ rfl rfl clients
    simp only [seqs, pendingEq, map_cons]
    exact perm_middle
  | preempt _ _ _ _ idle running _ freed =>
    refine stock.release freed ?_ rfl rfl clients
    simp only [seqs, running, idle, map_nil, append_nil, withEngine]
    exact perm_append_comm
  | drainEmitted => exact stock.congr rfl rfl rfl clients
  | drainFinished => exact stock.congr rfl rfl rfl clients

theorem sameShape (step : Transition cfg m next) :
    SameShape m.engine.pool next.engine.pool := by
  cases step with
  | submit =>
    simp only [addRequest]
    split <;> exact .refl _
  | cancelRunning _ _ _ _ _ running _ freed =>
    exact stock.freed_shape freed (by simp [seqs, running])
  | makeRoom blocks _ _ made =>
    obtain ⟨freed, alloc, prefixCache, evicted, -, result⟩ := stock.makeRoom_spec blocks
    rw [result m.engine rfl rfl] at made
    cases made
    exact ⟨rfl, rfl, evicted.numBlocks⟩
  | clear _ _ cleared =>
    obtain ⟨alloc, result, -, numBlocks⟩ := clear_spec stock.balanced
    rw [cleared] at result
    cases result
    exact ⟨rfl, rfl, numBlocks⟩
  | prefill _ _ _ _ _ _ _ _ _ _ room prefilled =>
    exact (stock.prefilled_of room prefilled).shape
  | decode _ _ _ _ _ idle _ prepared ran => exact (stock.decoded idle prepared ran).1.shape
  | fill _ _ _ _ _ pendingEq _ _ freed =>
    exact stock.freed_shape freed (by simp [seqs, pendingEq])
  | stop _ _ _ _ _ pendingEq _ freed =>
    exact stock.freed_shape freed (by simp [seqs, pendingEq])
  | preempt _ _ _ _ _ running _ freed =>
    exact stock.freed_shape freed (by simp [seqs, running])
  | _ => exact .refl _

theorem reaches (steps : Reaches cfg m next) : Stock cfg next := by
  induction steps with
  | refl => exact stock
  | tail _ step ih => exact ih.transition step

theorem sameShape_reaches (steps : Reaches cfg m next) :
    SameShape m.engine.pool next.engine.pool := by
  induction steps with
  | refl => exact .refl _
  | tail steps step ih => exact ih.trans ((stock.reaches steps).sameShape step)

end

theorem new (numBlocks : Nat) {size : Nat} (caching : Bool) (zero : V) (clients : Nat → Submission) (rng : S)
    (pos : 0 < size) :
    Stock cfg { session := Session.new cfg numBlocks size caching zero clients rng } where
  positive := pos
  layers := rfl
  inverse := .new caching
  balanced := Balanced.new numBlocks
  covers seq mem := by simp [seqs, Session.new] at mem
  unfinished seq mem := by simp [seqs, Session.new] at mem
  nonempty req := (clients req).nonempty

end Stock

theorem Committed.of_mem {before : PagedCachePool V} (committed : Committed rest before seqs after grown write)
    {next : Sequence} (mem : next ∈ grown) : ∃ seq ∈ seqs, ∃ others, Extended before after others seq next := by
  obtain ⟨index, placed⟩ := mem_iff_getElem?.mp mem
  have inSeqs : index < seqs.length := by
    rw [← committed.length]
    exact (List.getElem?_eq_some_iff.mp placed).1
  exact ⟨_, getElem_mem inSeqs, _, committed.each index _ next (getElem?_eq_getElem inSeqs) placed⟩

theorem Committed.map_eq {α : Type} {before : PagedCachePool V}
    (committed : Committed rest before seqs after grown write) (f g : Sequence → α)
    (each : ∀ seq ∈ seqs, ∀ next others, Extended before after others seq next → f seq = g next) :
    seqs.map f = grown.map g := by
  apply ext_getElem (by simp [committed.length])
  intro index inSeqs inGrown
  rw [length_map] at inSeqs inGrown
  rw [getElem_map, getElem_map]
  exact each _ (getElem_mem inSeqs) _ _ (committed.each index seqs[index] grown[index]
    (getElem?_eq_getElem inSeqs) (getElem?_eq_getElem inGrown))

theorem Committed.keeps_scattered {before : PagedCachePool V} (pos : 0 < before.blockSize)
    (committed : Committed rest before seqs pool grown write) (scattered : Scattered pool after write) :
    Keeps before after rest := by
  refine committed.keeps.trans committed.shape.blockSize (scattered.confined.keeps ?_)
  rintro block ⟨slot, mem, rfl⟩ held
  rw [committed.write] at mem
  obtain ⟨next, inGrown, rfl⟩ := mem_map.mp mem
  obtain ⟨index, placed⟩ := mem_iff_getElem?.mp inGrown
  have inTail := committed.ready.lastSlot_block pos inGrown
  rw [committed.shape.blockSize] at held
  exact committed.ready.sole index next placed _ inTail (Multiset.mem_add.mpr (.inr held))

/-! ## Memory -/

structure Memory (cfg : Config X V L S) (machine : Machine V S) : Prop extends stock : Stock cfg machine where
  wellFormed : ∀ seq ∈ machine.seqs, WellFormed machine.engine.pool.blockSize seq.cache
  chains : machine.engine.prefixCache.enabled = true → ∀ request,
    (hashChain cfg.blockHash machine.engine.pool.blockSize (machine.engine.requests request).promptTokenIds).Nodup

theorem Transition.enabled {after : Machine V S} (stock : Stock cfg before) (step : Transition cfg before after)
    (enabled : after.engine.prefixCache.enabled = true) : before.engine.prefixCache.enabled = true := by
  cases step with
  | submit =>
    simp only [addRequest] at enabled
    split at enabled <;> exact enabled
  | makeRoom blocks _ _ made =>
    obtain ⟨freed, alloc, prefixCache, evicted, -, result⟩ := stock.makeRoom_spec blocks
    rw [result before.engine rfl rfl] at made
    cases made
    exact evicted.enabled ▸ enabled
  | clear _ _ cleared =>
    obtain ⟨alloc, result, -, -⟩ := clear_spec stock.balanced
    rw [cleared] at result
    cases result
    exact enabled
  | prefill _ _ _ _ _ _ _ _ _ _ _ prefilled =>
    cases was : before.engine.prefixCache.enabled with
    | true => rfl
    | false =>
      have same := prefill_disabled was prefilled
      subst same
      exact was.symm.trans enabled
  | _ => exact enabled

namespace Memory

variable {m next : Machine V S}

section

variable (memory : Memory cfg m)
include memory

theorem prefilled_of
    (room : admissionNeed cfg m.engine req ≤ m.engine.pool.allocator.numFree)
    (prefilled : prefill cfg m.engine.pool m.engine.prefixCache (m.engine.requests req) {} =
      .ok (logits, pool, prefixCache, cache)) :
    Prefilled cfg m.engine.pool m.engine.prefixCache (heldBy tableOf m.seqs)
      (m.engine.requests req) logits pool prefixCache cache := by
  simp only [admissionNeed, blocksNeeded] at room
  obtain ⟨_, _, _, _, spec⟩ := prefill_memory memory.positive memory.layers memory.balanced memory.inverse
    (memory.nonempty req) (fun enabled => memory.chains enabled req) (by omega)
  have same := spec.result.symm.trans prefilled
  cases same
  exact spec

theorem decoded (idle : m.pending = []) {batch : BatchedPagedCache}
    {logits : List (List L)}
    (prepared : prepare m.engine.pool m.engine.running = .ok (pool, grown, batch))
    (ran : decodeForward cfg pool (m.engine.running.map Sequence.nextToken) (m.engine.running.map Sequence.position) batch =
      .ok (logits, after)) :
    ∃ write, batch = indices grown write ∧
      Committed ↑(cachedBlocks m.engine.prefixCache) m.engine.pool m.engine.running pool grown write ∧
      Scattered pool after write ∧ (logits.filterMap getLast?).length = grown.length := by
  have seqsEq := m.seqs_of_idle idle
  have bal := memory.balanced
  rw [seqsEq, add_comm] at bal
  rcases prepare_cases (commit_spec memory.positive bal fun seq mem => memory.wellFormed seq (seqsEq ▸ mem)) with
    ⟨-, failed⟩ | ⟨-, committedPool, committedSeqs, write, -, preparedEq, committed⟩
  · rw [failed] at prepared
    cases prepared
  · rw [preparedEq] at prepared
    simp only [Except.ok.injEq, Prod.mk.injEq] at prepared
    obtain ⟨rfl, rfl, rfl⟩ := prepared
    obtain ⟨lengths, scattered⟩ := decodeForward_ran ran
    exact ⟨write, rfl, committed, scattered, lengths.trans committed.length.symm⟩

theorem formed (step : Transition cfg m next) :
    ∀ seq ∈ next.seqs, WellFormed m.engine.pool.blockSize seq.cache := by
  cases step with
  | submit =>
    simp only [addRequest, seqs]
    split <;> exact memory.wellFormed
  | cancelRunning _ _ _ _ _ running =>
    intro other mem
    rcases mem_append.mp mem with stays | pending
    · exact memory.wellFormed other (mem_append_left _ (mem_of_taken_out running stays))
    · exact memory.wellFormed other (mem_append_right _ pending)
  | makeRoom _ _ _ made =>
    obtain ⟨pool, prefixCache, rfl⟩ := makeRoom_requests made
    exact memory.wellFormed
  | prefill _ _ _ _ _ _ _ _ _ _ room prefilled =>
    intro seq mem
    rcases mem_append.mp mem with running | new
    · exact memory.wellFormed seq (mem_append_left _ running)
    · simp only [map_cons, map_nil, mem_singleton] at new
      rw [new]
      exact (memory.prefilled_of room prefilled).wellFormed
  | decode _ _ _ _ _ idle _ prepared ran =>
    obtain ⟨write, -, committed, -, lengths⟩ := memory.decoded idle prepared ran
    intro seq mem
    simp only [withEngine, seqs, nil_append, map_fst_sampled lengths] at mem
    obtain ⟨was, -, others, extended⟩ := committed.of_mem mem
    exact extended.wellFormed
  | keep _ _ _ pendingEq =>
    intro other mem
    obtain ⟨was, wasThere, cacheEq, -⟩ := Stock.moved pendingEq mem
    rw [cacheEq]
    exact memory.wellFormed was wasThere
  | fill _ _ _ _ _ pendingEq =>
    intro other mem
    refine memory.wellFormed other ?_
    simp only [seqs, pendingEq, map_cons]
    exact mem_of_taken_out rfl mem
  | stop _ _ _ _ _ pendingEq =>
    intro other mem
    refine memory.wellFormed other ?_
    simp only [seqs, pendingEq, map_cons]
    exact mem_of_taken_out rfl mem
  | preempt _ _ _ _ _ running =>
    intro other mem
    refine memory.wellFormed other ?_
    simp only [seqs, running, append_assoc]
    rcases mem_append.mp mem with stays | pending
    · exact mem_append_left _ stays
    · exact mem_append_right _ (mem_append_right _ pending)
  | _ => exact memory.wellFormed

theorem transition (step : Transition cfg m next) : Memory cfg next := by
  have stock := memory.stock.transition step
  have sizeEq := (memory.stock.sameShape step).blockSize
  refine ⟨stock, ?_, ?_⟩
  · intro seq mem
    rw [sizeEq]
    exact memory.formed step seq mem
  · intro enabled req
    rw [sizeEq, (step.sameClient req).prompt]
    exact memory.chains (step.enabled memory.stock enabled) req

theorem reaches (steps : Reaches cfg m next) : Memory cfg next := by
  induction steps with
  | refl => exact memory
  | tail _ step ih => exact ih.transition step

end

theorem new (numBlocks : Nat) {size : Nat} (caching : Bool) (zero : V) {clients : Nat → Submission} (rng : S)
    (pos : 0 < size)
    (chains : caching = true →
      ∀ client, (hashChain cfg.blockHash size (clients client).promptTokenIds).Nodup) :
    Memory cfg { session := Session.new cfg numBlocks size caching zero clients rng } where
  stock := .new numBlocks caching zero clients rng pos
  wellFormed seq mem := by simp [seqs, Session.new] at mem
  chains := chains

end Memory

end Nanoserve.Verified
