import Nanoserve.Verified.Budget

/-! # How long a sequence gets

A running sequence holds a row for every token of its prompt and for every token it has recorded but
the last.
-/

namespace Nanoserve.Verified

open Engine Lib List Function Machine
open ContinuousBatchingEngine

variable {X V L S : Type} {cfg : Config X V L S}
variable {m next : Machine V S}

abbrev Metered (machine : Machine V S) : Prop :=
  Tallied (fun seq req => seq.cache.numTokens + 1 = req.promptLen + req.outputLen)
    (fun seq req => seq.cache.numTokens = req.promptLen + req.outputLen) (fun _ => True) machine

theorem SameClient.promptLen {before after : Request} (same : SameClient before after) :
    after.promptLen = before.promptLen := by
  rw [Request.promptLen, same.prompt, Request.promptLen]

theorem meterRules : Rules (fun seq req => seq.cache.numTokens + 1 = req.promptLen + req.outputLen)
    (fun seq req => seq.cache.numTokens = req.promptLen + req.outputLen) (fun _ => True) where
  running _ _ _ _ length := length
  pending _ _ _ _ length := length
  all _ _ _ _ := trivial
  prefilled _ _ untouched length := by simpa [Request.outputLen, untouched] using length
  grown _ _ _ longer length := longer.trans length
  kept _ req token _ length := by
    rw [Request.outputLen_recordToken]
    exact congrArg Nat.succ length
  recorded _ _ _ _ _ := trivial
  dropped _ _ := trivial

namespace Metered

theorem reaches (metered : Metered m) (stock : Stock cfg m) (orderly : Orderly cfg.maxBatchSize m.ledger)
    (fresh : m.ledger.Fresh) (steps : Reaches cfg m next) (distinct : next.session.submitted.Nodup) : Metered next :=
  Tallied.reaches meterRules metered stock orderly fresh steps distinct

theorem new (numBlocks size : Nat) (caching : Bool) (zero : V) (clients : Nat → Submission) (rng : S) :
    Metered { session := Session.new cfg numBlocks size caching zero clients rng } where
  running seq mem := by simp [Session.new] at mem
  pending row mem := by simp at mem
  all _ := trivial

end Metered

structure Uncached (cache : PrefixCache) : Prop where
  disabled : cache.enabled = false
  nothing : cache.entries.items = []

theorem Uncached.cachedBlocks {cache : PrefixCache} (uncached : Uncached cache) : cachedBlocks cache = [] := by
  simp [Verified.cachedBlocks, Dict.values, uncached.nothing]

theorem Uncached.spare {cache : PrefixCache} (uncached : Uncached cache) (rest : Multiset Nat) : spare rest cache = 0 := by
  simp [Verified.spare, uncached.nothing]

theorem Uncached.transition (uncached : Uncached m.engine.prefixCache) (stock : Stock cfg m)
    (step : Transition cfg m next) : Uncached next.engine.prefixCache := by
  cases step with
  | submit =>
    simp only [addRequest]
    split <;> exact uncached
  | makeRoom blocks _ _ made =>
    obtain ⟨_, alloc, _, evicted, -, result⟩ := stock.makeRoom_spec blocks
    rw [result m.engine rfl rfl] at made
    cases made
    refine ⟨evicted.enabled.trans uncached.disabled, ?_⟩
    have sublist := evicted.sublist
    rw [uncached.nothing] at sublist
    exact sublist_nil.mp sublist
  | clear _ _ cleared =>
    obtain ⟨alloc, result, -⟩ := clear_spec stock.balanced
    rw [cleared] at result
    cases result
    exact ⟨uncached.disabled, rfl⟩
  | prefill _ _ _ _ _ _ _ _ _ _ _ prefilled =>
    have same := prefill_disabled uncached.disabled prefilled
    subst same
    exact uncached
  | _ => exact uncached

theorem Uncached.reaches (uncached : Uncached m.engine.prefixCache) (stock : Stock cfg m)
    (steps : Reaches cfg m next) : Uncached next.engine.prefixCache := by
  induction steps with
  | refl => exact uncached
  | tail steps last ih => exact ih.transition (stock.reaches steps) last

section Alone

theorem Memory.all_free (memory : Memory cfg m) (idle : m.pending = [])
    (uncached : Uncached m.engine.prefixCache) (nobody : m.engine.running = []) :
    m.engine.pool.allocator.numFree = m.engine.pool.allocator.numBlocks := by
  have partition := memory.stock.partition idle
  have unpinnedEq : unpinned m.engine = 0 := by simp [unpinned, PrefixCache.evictable, uncached.nothing]
  rw [unpinnedEq, nobody] at partition
  simpa using partition

theorem Memory.free_beside (memory : Memory cfg m) (idle : m.pending = [])
    (uncached : Uncached m.engine.prefixCache) {seq : Sequence} (alone : m.engine.running = [seq]) :
    m.engine.pool.allocator.numFree + ceilDiv seq.cache.numTokens m.engine.pool.blockSize =
      m.engine.pool.allocator.numBlocks := by
  have mem : seq ∈ m.seqs := by simp [seqs, idle, alone]
  have formed := memory.wellFormed seq mem
  have partition := memory.stock.partition idle
  have unpinnedEq : unpinned m.engine = 0 := by simp [unpinned, PrefixCache.evictable, uncached.nothing]
  have held : (heldBy tableOf m.engine.running).toFinset.card = seq.cache.blockTable.length := by
    rw [alone, heldBy_cons, heldBy_nil, add_zero]
    exact toFinset_card_of_nodup formed.nodup
  rw [unpinnedEq, held, formed.covers] at partition
  omega

theorem Memory.need_alone (memory : Memory cfg m) (idle : m.pending = [])
    (uncached : Uncached m.engine.prefixCache) {seq : Sequence} (alone : m.engine.running = [seq]) :
    BatchedPagedCache.need m.engine.pool m.engine.running =
      if seq.cache.numTokens % m.engine.pool.blockSize = 0 then 1 else 0 := by
  have mem : seq ∈ m.seqs := by simp [seqs, idle, alone]
  have formed := memory.wellFormed seq mem
  rw [alone]
  simp only [BatchedPagedCache.need, BatchedPagedCache.needOf, map_cons, map_nil, sum_cons, sum_nil,
    Nat.add_zero]
  split
  · rfl
  · split
    · next tail lastEq =>
      have bal := memory.balanced
      rw [uncached.cachedBlocks] at bal
      have refs := bal.refs tail
      have once : m.engine.pool.allocator.refs tail ≤ 1 := by
        rw [refs]
        simp only [seqs, idle, alone, map_nil, append_nil, heldBy_cons, heldBy_nil, add_zero,
          Multiset.coe_nil, zero_add, Multiset.coe_count]
        exact nodup_iff_count_le_one.mp formed.nodup tail
      exact if_neg (Nat.not_lt.mpr once)
    · rfl

end Alone

end Nanoserve.Verified
