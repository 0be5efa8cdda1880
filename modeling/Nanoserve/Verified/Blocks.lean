import Nanoserve.Verified.Simulation

/-! # Blocks between calls

What the books of the engine say in every state a caller can see.
-/

namespace Nanoserve.Verified

open Engine Lib List
open ContinuousBatchingEngine
open PrefixCache (hashChain)
open Model (NanoForCausalLM)

variable {X V L S : Type} {cfg : Config X V L S}

structure Accounted (numBlocks blockSize : Nat) (engine : EngineState V S) : Prop where
  refs : ∀ block, engine.pool.allocator.refs block =
    (engine.running.filter fun seq => decide (block ∈ seq.cache.blockTable)).length +
      if block ∈ cachedBlocks engine.prefixCache then 1 else 0
  nodup : engine.pool.allocator.free.Nodup
  free : ∀ block, block ∈ engine.pool.allocator.free ↔ block < numBlocks ∧ engine.pool.allocator.refs block = 0
  tables : ∀ seq ∈ engine.running, seq.cache.blockTable.Nodup
  lengths : ∀ seq ∈ engine.running, seq.cache.blockTable.length = ceilDiv seq.cache.numTokens blockSize
  drained : engine.running = [] → ∀ block, block ∈ engine.pool.allocator.free ↔
    block < numBlocks ∧ block ∉ cachedBlocks engine.prefixCache

theorem count_heldBy {seqs : List Sequence} (nodup : ∀ seq ∈ seqs, (tableOf seq).Nodup) (block : Nat) :
    (heldBy tableOf seqs).count block = (seqs.filter fun seq => decide (block ∈ tableOf seq)).length := by
  induction seqs with
  | nil => simp
  | cons seq _ ih =>
    have rest := ih fun other mem => nodup other (mem_cons_of_mem _ mem)
    rw [heldBy_cons, Multiset.count_add, rest, Multiset.coe_count,
      Nodup.count (nodup seq mem_cons_self), filter_cons]
    split <;> simp_all [Nat.add_comm]

theorem Memory.accounted {m : Machine V S} (memory : Memory cfg m) (idle : m.pending = []) :
    Accounted m.engine.pool.allocator.numBlocks m.engine.pool.blockSize m.engine := by
  have seqsEq := m.seqs_of_idle idle
  have bal := memory.balanced
  have formed := memory.wellFormed
  rw [seqsEq] at bal formed
  have tables := fun seq mem => (formed seq mem).nodup
  have unheld : ∀ block, m.engine.pool.allocator.refs block = 0 ↔
      block ∉ (↑(cachedBlocks m.engine.prefixCache) + heldBy tableOf m.engine.running : Multiset Nat) := by
    intro block
    rw [bal.refs, Multiset.count_eq_zero]
  refine ⟨?_, bal.nodup, ?_, tables, fun seq mem => (formed seq mem).covers, ?_⟩
  · intro block
    rw [bal.refs, Multiset.count_add, count_heldBy tables, Multiset.coe_count,
      Nodup.count memory.inverse.nodup, Nat.add_comm]
  · intro block
    rw [bal.free, unheld]
  · intro none block
    rw [bal.free, none, heldBy_nil, add_zero, Multiset.mem_coe]

/-- In every run no call raises and the books are right afterwards. -/
theorem blocks_accounted (cfg : Config X V L S) (numBlocks blockSize : Nat) (enablePrefixCache : Bool) (zero : V)
    (clients : Nat → Submission) (rng : S) (positive : 0 < blockSize)
    (chains : ∀ client, (hashChain cfg.blockHash blockSize (clients client).promptTokenIds).Nodup)
    (calls : List Call) :
    ∃ session, (Session.new cfg numBlocks blockSize enablePrefixCache zero clients rng).after cfg calls = .ok session ∧
      Accounted numBlocks blockSize session.engine := by
  have memory := Memory.new numBlocks enablePrefixCache zero rng positive fun _ => chains
  obtain ⟨last, ran, idle, steps, -⟩ := run_steps memory.stock rfl calls
  refine ⟨last.session, ran, ?_⟩
  have shape := memory.stock.sameShape_reaches steps
  have accounted := (memory.reaches steps).accounted idle
  rw [shape.blockSize, shape.numBlocks] at accounted
  exact accounted

/-- A model whose next token is the successor of the last one. -/
def countingModel : NanoForCausalLM Nat Nat Nat where
  numHiddenLayers := 1
  layered := Nat.one_pos
  embedTokens token := token
  kvProj _ x _ := x
  decoderLayer _ x _ _ := x
  lmHead x := x + 1

def counting : Config Nat Nat Nat Unit where
  model := countingModel
  argmax := id
  sampleWithParams _ logits rng := (logits, rng)
  blockHash parent tokens := tokens.foldl (fun hash token => 31 * hash + token + 1) parent
  eosTokenId := 0
  reserveBlocks := 0

theorem five_ne_nil : [5] ≠ [] := cons_ne_nil 5 []

/-- Request 0 leaves three cached blocks behind; request 1 takes one block for its prompt and one
for each of its tokens but the last. -/
def competing (maxTokens : Nat) : Nat → Submission
  | 0 => { promptTokenIds := [1, 2, 3], params := { maxTokens := 1 }, requestId := "first", nonempty := by simp }
  | _ => { promptTokenIds := [5], params := { maxTokens }, requestId := "second", nonempty := five_ne_nil }

/-- Request 0 to its end, then request 1 for a number of steps. -/
def competition (steps : Nat) : List Call :=
  [.addRequest 0 false, .step, .addRequest 1 false] ++ replicate steps .step

theorem nodup_competing (maxTokens client : Nat) :
    (hashChain counting.blockHash 1 (competing maxTokens client).promptTokenIds).Nodup := by
  match client with
  | 0 => exact (by decide : (hashChain counting.blockHash 1 [1, 2, 3]).Nodup)
  | _ + 1 => exact (by decide : (hashChain counting.blockHash 1 [5]).Nodup)

theorem blocks_accounted_competing :
    0 < 1 ∧ (∀ client, (hashChain counting.blockHash 1 (competing 6 client).promptTokenIds).Nodup) ∧
      ∃ session, (Session.new counting 6 1 true 0 (competing 6) ()).after counting (competition 7) = .ok session ∧
        Accounted 6 1 session.engine :=
  ⟨Nat.one_pos, nodup_competing 6,
    blocks_accounted counting 6 1 true 0 (competing 6) () Nat.one_pos (nodup_competing 6) (competition 7)⟩

/-- A prompt whose second block hashes to the key of its first. -/
def selfSimilar : List Nat :=
  [1, 2, 3, 4, 5, 6, 7, 8, 9, 10, 11, 12, 13, 14, 15, 16] ++
    [11, 22, 33, 44, 55, 2984, 5133, 3835, 12, 10, 9, 8, 7, 0, 1465, 2407] ++ [5]

/-- The second request is given the block of the one key for both places: its table names the block
twice, and three references stand for one sequence and one entry. -/
theorem colliding_block_held_twice :
    hashChain blockHash 16 selfSimilar = [3358949712879464150, 3358949712879464150] ∧
    Yields ((Session.new { counting with blockHash } 8 16 true 0 (fun client =>
        ⟨selfSimilar, { maxTokens := 2 * client + 1 }, "", by decide⟩) ()).after
      { counting with blockHash } [.addRequest 0 false, .step, .addRequest 1 false, .step]) fun session =>
      session.engine.running.map (fun seq => seq.cache.blockTable) = [[0, 0, 2]] ∧
        cachedBlocks session.engine.prefixCache = [0] ∧ session.engine.pool.allocator.refs 0 = 3 := by
  decide +kernel

/-! ## Preemption -/

/-- The step throws a running sequence out. -/
def Preempts (cfg : Config X V L S) (engine : EngineState V S) : Prop :=
  Yields (step cfg engine) fun stepped => stepped.2.preemptions = engine.preemptions + 1

instance (cfg : Config X V L S) (engine : EngineState V S) : Decidable (Preempts cfg engine) :=
  inferInstanceAs (Decidable (Yields _ _))

/-- The blocks the next token of every running sequence takes. -/
def batchNeed (engine : EngineState V S) : Nat := BatchedPagedCache.need engine.pool engine.running

/-- The cached blocks whose only reference is the prefix cache. -/
def unpinned (engine : EngineState V S) : Nat :=
  (PrefixCache.evictable engine.pool.allocator engine.prefixCache).length

theorem Stock.partition {m : Machine V S} (stock : Stock cfg m) (idle : m.pending = []) :
    m.engine.pool.allocator.numFree + unpinned m.engine +
      (heldBy tableOf m.engine.running).toFinset.card = m.engine.pool.allocator.numBlocks := by
  have seqsEq := m.seqs_of_idle idle
  have bal := stock.balanced
  rw [seqsEq] at bal
  let held := heldBy tableOf m.engine.running
  let only := (cachedBlocks m.engine.prefixCache).filter fun block => decide (block ∉ held)
  have onlyLength : unpinned m.engine = only.length := by
    rw [unpinned, (evictable_perm bal stock.inverse).length_eq]
    simp only [only, cachedBlocks, Dict.values, map_map, filter_map, length_map]
    rfl
  have onlyNodup : only.Nodup := stock.inverse.nodup.filter _
  have blocks : Finset.range m.engine.pool.allocator.numBlocks =
      (m.engine.pool.allocator.free.toFinset ∪ only.toFinset) ∪ held.toFinset := by
    ext block
    have free := bal.free block
    have bound := bal.bound block
    simp only [Multiset.mem_add, Multiset.mem_coe, not_or] at free bound
    simp only [Finset.mem_range, Finset.mem_union, mem_toFinset, Multiset.mem_toFinset, only, mem_filter,
      decide_eq_true_eq, free]
    tauto
  have freeApart : Disjoint m.engine.pool.allocator.free.toFinset only.toFinset := by
    rw [Finset.disjoint_left]
    intro block inFree inOnly
    have free := (bal.free block).mp (mem_toFinset.mp inFree)
    exact free.2 (Multiset.mem_add.mpr (.inl (mem_filter.mp (mem_toFinset.mp inOnly)).1))
  have heldApart : Disjoint (m.engine.pool.allocator.free.toFinset ∪ only.toFinset) held.toFinset := by
    rw [Finset.disjoint_left]
    intro block mem inHeld
    have isHeld := Multiset.mem_toFinset.mp inHeld
    rcases Finset.mem_union.mp mem with inFree | inOnly
    · exact ((bal.free block).mp (mem_toFinset.mp inFree)).2 (Multiset.mem_add.mpr (.inr isHeld))
    · exact of_decide_eq_true (mem_filter.mp (mem_toFinset.mp inOnly)).2 isHeld
  calc m.engine.pool.allocator.numFree + unpinned m.engine + held.toFinset.card
      = (m.engine.pool.allocator.free.toFinset ∪ only.toFinset).card + held.toFinset.card := by
        rw [Finset.card_union_of_disjoint freeApart, toFinset_card_of_nodup bal.nodup,
          toFinset_card_of_nodup onlyNodup, onlyLength]
        rfl
    _ = (Finset.range m.engine.pool.allocator.numBlocks).card := by
        rw [blocks, Finset.card_union_of_disjoint heldApart]
    _ = m.engine.pool.allocator.numBlocks := Finset.card_range _

theorem Stock.preempts_iff {m : Machine V S} (stock : Stock cfg m) (idle : m.pending = [])
    {done : List Nat} {scheduled : EngineState V S} (result : schedule cfg m.engine = .ok (done, scheduled)) :
    Preempts cfg m.engine ↔ scheduled.pool.allocator.numFree < batchNeed scheduled := by
  obtain ⟨_, next, discarded, went, names, steps⟩ := step_steps stock idle
  have counted : next.preemptions = m.engine.preemptions + (preempted scheduled).toList.length := by
    have total : next.preemptions + m.discarded.length =
      m.engine.preemptions + (m.discarded ++ discarded).length := steps.preemptions
    have lengths := congrArg List.length names
    simp only [victim, result, length_map] at lengths
    rw [length_append] at total
    omega
  rw [Preempts, went, yields_ok, counted, preempted, batchNeed]
  by_cases short : scheduled.pool.allocator.numFree < BatchedPagedCache.need scheduled.pool scheduled.running
  · have busy : scheduled.running ≠ [] := by
      intro nothing
      simp [nothing, BatchedPagedCache.need] at short
    obtain ⟨_, lastEq⟩ := Option.isSome_iff_exists.mp (getLast?_isSome.mpr busy)
    simp [short, lastEq]
  · simp [short]

/-- In every state a run reaches, the step preempts only if the batch needs more than the free and
the unpinned blocks together, exactly if its need is not covered by the two together without being
covered by the free ones alone. -/
theorem preempts_only_when_short_iff (cfg : Config X V L S) (numBlocks blockSize : Nat) (enablePrefixCache : Bool)
    (zero : V) (clients : Nat → Submission) (rng : S) (positive : 0 < blockSize)
    (calls : List Call) :
    ∃ session done scheduled,
      (Session.new cfg numBlocks blockSize enablePrefixCache zero clients rng).after cfg calls = .ok session ∧
      schedule cfg session.engine = .ok (done, scheduled) ∧
      ((Preempts cfg session.engine →
          scheduled.pool.allocator.numFree + unpinned scheduled < batchNeed scheduled) ↔
        ¬(scheduled.pool.allocator.numFree < batchNeed scheduled ∧
          batchNeed scheduled ≤ scheduled.pool.allocator.numFree + unpinned scheduled)) ∧
      (scheduled.pool.allocator.numFree + unpinned scheduled < batchNeed scheduled ↔
        numBlocks < (heldBy tableOf scheduled.running).toFinset.card + batchNeed scheduled) := by
  have stock := @Stock.new X V L S cfg numBlocks blockSize enablePrefixCache zero clients rng positive
  obtain ⟨last, ran, idle, steps, -⟩ := run_steps stock rfl calls
  have lastStock := stock.reaches steps
  obtain ⟨done, scheduled, result, more⟩ := schedule_steps lastStock idle
  refine ⟨last.session, done, scheduled, ran, result, ?_, ?_⟩
  · rw [lastStock.preempts_iff idle result]
    omega
  · have partition : scheduled.pool.allocator.numFree + unpinned scheduled +
      (heldBy tableOf scheduled.running).toFinset.card = scheduled.pool.allocator.numBlocks :=
      (lastStock.reaches more).partition idle
    have numBlocksEq : scheduled.pool.allocator.numBlocks = numBlocks :=
      (stock.sameShape_reaches (steps.trans more)).numBlocks
    omega

theorem preempts_only_when_short_iff_competing :
    0 < 1 ∧
      ∃ session done scheduled,
        (Session.new counting 6 1 true 0 (competing 6) ()).after counting (competition 1) = .ok session ∧
        schedule counting session.engine = .ok (done, scheduled) ∧
        ((Preempts counting session.engine →
            scheduled.pool.allocator.numFree + unpinned scheduled < batchNeed scheduled) ↔
          ¬(scheduled.pool.allocator.numFree < batchNeed scheduled ∧
            batchNeed scheduled ≤ scheduled.pool.allocator.numFree + unpinned scheduled)) ∧
        (scheduled.pool.allocator.numFree + unpinned scheduled < batchNeed scheduled ↔
          6 < (heldBy tableOf scheduled.running).toFinset.card + batchNeed scheduled) :=
  ⟨Nat.one_pos, preempts_only_when_short_iff counting 6 1 true 0 (competing 6) () Nat.one_pos (competition 1)⟩

/-- Request 1 is thrown out while three cached blocks that nobody uses would cover the one block it
needs. -/
theorem preempts_despite_unpinned_blocks :
    (Yields ((Session.new counting 6 1 true 0 (competing 6) ()).after counting (competition 2)) fun session =>
      Preempts counting session.engine ∧
      Yields (schedule counting session.engine) fun scheduled =>
        scheduled.2.pool.allocator.numFree = 0 ∧ batchNeed scheduled.2 = 1 ∧ unpinned scheduled.2 = 3) ∧
    Yields ((Session.new counting 6 1 true 0 (competing 6) ()).after counting (competition 24)) fun session =>
      session.engine.preemptions = 8 ∧ session.engine.waiting = [1] := by
  decide +kernel

end Nanoserve.Verified
