import Nanoserve.Verified.Blocks

/-! # What cached blocks hold

A block may leave the cache, be freed, be handed to another sequence and be registered again under
another key.
-/

namespace Nanoserve.Verified

open Engine Lib List
open ContinuousBatchingEngine
open PrefixCache (hashChain)

variable {X V L S : Type} {cfg : Config X V L S} {Occurs : List Nat → Prop}

theorem free_pool {pool next : PagedCachePool V} {cache cleared : PagedKVCache}
    (freed : PagedKVCache.free pool cache = .ok (next, cleared)) : ∃ alloc, next = { pool with allocator := alloc } := by
  unfold PagedKVCache.free at freed
  split at freed
  · cases freed
  · grind

namespace EntriesSound

variable {before after : PagedCachePool V} {prefixCache next : PrefixCache}

theorem of_keeps (sound : EntriesSound cfg Occurs before prefixCache) (pos : 0 < before.blockSize)
    (sameSize : after.blockSize = before.blockSize)
    (registered : ∀ hash block, blockOf next hash = some block → blockOf prefixCache hash = some block)
    (keeps : Keeps before after ↑(cachedBlocks prefixCache)) : EntriesSound cfg Occurs after next := by
  intro hash block found
  have old := registered hash block found
  obtain ⟨tokens, index, occurs, placed, holds⟩ := sound hash block old
  refine ⟨tokens, index, occurs, by rw [sameSize]; exact placed, holds.of_keeps pos sameSize keeps ?_⟩
  exact Multiset.mem_coe.mpr (mem_cachedBlocks.mpr ⟨hash, old⟩)

end EntriesSound

structure Sound (cfg : Config X V L S) (Occurs : List Nat → Prop) (machine : Machine V S) : Prop where
  entries : EntriesSound cfg Occurs machine.engine.pool machine.engine.prefixCache
  occurs : ∀ request, Occurs (machine.engine.requests request).promptTokenIds

namespace Sound

variable {m next : Machine V S}

theorem transition (sound : Sound cfg Occurs m) (memory : Memory cfg m)
    (collisionFree : CollisionFree cfg.blockHash m.engine.pool.blockSize Occurs)
    (step : Transition cfg m next) : Sound cfg Occurs next := by
  have clients := step.sameClient
  refine ⟨?_, fun req => by rw [(clients req).prompt]; exact sound.occurs req⟩
  cases step with
  | submit =>
    simp only [addRequest]
    split <;> exact sound.entries
  | cancelRunning _ _ _ _ _ _ _ freed =>
    obtain ⟨alloc, rfl⟩ := free_pool freed
    exact sound.entries
  | makeRoom blocks _ _ made =>
    obtain ⟨freed, alloc, _, evicted, -, result⟩ := memory.stock.makeRoom_spec blocks
    rw [result m.engine rfl rfl] at made
    cases made
    exact sound.entries.of_keeps memory.positive rfl (fun hash block => evicted.blockOf_of) fun _ _ _ => rfl
  | clear _ _ cleared =>
    obtain ⟨alloc, result, -⟩ := clear_spec memory.balanced
    rw [cleared] at result
    cases result
    intro hash block found
    simp [Machine.withEngine, blockOf] at found
  | prefill req _ _ _ _ _ _ _ _ _ room prefilled =>
    have enough : ceilDiv (m.engine.requests req).promptLen m.engine.pool.blockSize ≤
        m.engine.pool.allocator.numFree := by
      simp only [admissionNeed, blocksNeeded] at room
      omega
    exact (prefill_rows memory.positive memory.layers memory.balanced memory.inverse (memory.nonempty req) enough
      collisionFree (sound.occurs req) sound.entries prefilled).2.2
  | decode _ _ _ _ _ idle _ prepared ran =>
    obtain ⟨_, -, committed, scattered, -⟩ := memory.decoded idle prepared ran
    exact sound.entries.of_keeps memory.positive (scattered.blockSize.trans committed.shape.blockSize)
      (fun _ _ found => found) (committed.keeps_scattered memory.positive scattered)
  | fill _ _ _ _ _ _ _ _ freed =>
    obtain ⟨alloc, rfl⟩ := free_pool freed
    exact sound.entries
  | stop _ _ _ _ _ _ _ freed =>
    obtain ⟨alloc, rfl⟩ := free_pool freed
    exact sound.entries
  | preempt _ _ _ _ _ _ _ freed =>
    obtain ⟨alloc, rfl⟩ := free_pool freed
    exact sound.entries
  | _ => exact sound.entries

theorem reaches (sound : Sound cfg Occurs m) (memory : Memory cfg m)
    (collisionFree : CollisionFree cfg.blockHash m.engine.pool.blockSize Occurs)
    (steps : Reaches cfg m next) : Sound cfg Occurs next := by
  induction steps with
  | refl => exact sound
  | tail steps step ih =>
    refine ih.transition (memory.reaches steps) ?_ step
    rw [(memory.stock.sameShape_reaches steps).blockSize]
    exact collisionFree

theorem new (numBlocks size : Nat) (caching : Bool) (zero : V) {clients : Nat → Submission} (rng : S)
    (occurs : ∀ client, Occurs (clients client).promptTokenIds) :
    Sound cfg Occurs { session := Session.new cfg numBlocks size caching zero clients rng } where
  entries hash block found := by simp [Session.new, PrefixCache.new, blockOf] at found
  occurs := occurs

end Sound

/-! ## The cache as its users see it -/

/-- Every entry belongs to a context that occurs and holds the rows of every such context. -/
structure PrefixCacheSound (cfg : Config X V L S) (Occurs : List Nat → Prop) (engine : EngineState V S) : Prop where
  inverse : Inverse engine.prefixCache
  registered : ∀ hash block, blockOf engine.prefixCache hash = some block →
    ∃ (tokens : List Nat) (index : Nat), Occurs tokens ∧
      (hashChain cfg.blockHash engine.pool.blockSize tokens)[index]? = some hash
  content : ∀ hash block, blockOf engine.prefixCache hash = some block → ∀ (tokens : List Nat) (index : Nat), Occurs tokens →
    (hashChain cfg.blockHash engine.pool.blockSize tokens)[index]? = some hash →
    HoldsBlock cfg.model engine.pool tokens index block
  matched : ∀ tokens count, Occurs tokens →
    Yields (engine.prefixCache.matchPrefix cfg.blockHash engine.pool (tokens.take count)) fun result =>
      ∀ (index : Nat) block, result.1[index]? = some block →
        (index + 1) * engine.pool.blockSize ≤ (tokens.take count).length ∧
        HoldsBlock cfg.model engine.pool tokens index block
  attached : ∀ tokens, Occurs tokens → tokens ≠ [] →
    Yields (engine.prefixCache.matchPrefix cfg.blockHash engine.pool tokens.dropLast) fun result =>
      engine.pool.blockSize ∣ (PrefixCache.attach engine.pool.blockSize {} result.1).1 ∧
      (PrefixCache.attach engine.pool.blockSize {} result.1).1 < tokens.length

theorem Matched.length_le {alloc after : BlockAllocator} {cache next : PrefixCache} {rest : Multiset Nat}
    {hashes : List Int} {matched : List Nat} (spec : Matched alloc cache rest hashes matched after next) :
    matched.length ≤ hashes.length := by
  have lengths := congrArg List.length spec.found
  simp only [length_map, length_take] at lengths
  omega

theorem attach_fst (size : Nat) (cache : PagedKVCache) (blocks : List Nat) :
    (PrefixCache.attach size cache blocks).1 = blocks.length * size := by
  cases blocks <;> simp [PrefixCache.attach]

theorem Sound.cacheSound {m : Machine V S} (sound : Sound cfg Occurs m) (memory : Memory cfg m)
    (collisionFree : CollisionFree cfg.blockHash m.engine.pool.blockSize Occurs) :
    PrefixCacheSound cfg Occurs m.engine := by
  refine ⟨memory.inverse, ?_, ?_, ?_, ?_⟩
  · intro hash block found
    obtain ⟨tokens, index, occurs, placed, -⟩ := sound.entries hash block found
    exact ⟨tokens, index, occurs, placed⟩
  · intro hash block found tokens index occurs placed
    exact sound.entries.holds memory.positive collisionFree found occurs placed
  · intro tokens count occurs
    obtain ⟨matched, after, next, result, spec⟩ :=
      matchPrefix_spec cfg.blockHash (tokens.take count) memory.balanced
    refine ⟨_, result, ?_⟩
    intro index block placed
    have inMatched : index < matched.length := (List.getElem?_eq_some_iff.mp placed).1
    have bound := spec.length_le
    rw [length_hashChain] at bound
    refine ⟨?_, matched_sound memory.positive collisionFree sound.entries occurs spec.found placed⟩
    exact (Nat.le_div_iff_mul_le memory.positive).mp (by omega)
  · intro tokens occurs ne
    obtain ⟨matched, after, next, result, spec⟩ := matchPrefix_spec cfg.blockHash tokens.dropLast memory.balanced
    refine ⟨_, result, ?_⟩
    have bound := spec.length_le
    rw [length_hashChain, Nat.le_div_iff_mul_le memory.positive, length_dropLast] at bound
    have length := length_pos_iff.mpr ne
    simp only [attach_fst]
    exact ⟨Nat.dvd_mul_left _ _, by omega⟩

theorem mem_competing (maxTokens client : Nat) : (competing maxTokens client).promptTokenIds ∈ [[1, 2, 3], [5]] := by
  match client with
  | 0 => exact mem_cons_self
  | _ + 1 => exact mem_cons_of_mem _ mem_cons_self

theorem collisionFree_competing : CollisionFree counting.blockHash 1 (· ∈ [[1, 2, 3], [5]]) := by decide

/-- In every run, after every call and in every state the engine passes through
inside a call, the prefix cache is sound. -/
theorem prefix_cache_sound (cfg : Config X V L S) (numBlocks blockSize : Nat) (enablePrefixCache : Bool) (zero : V)
    (clients : Nat → Submission) (rng : S) (Occurs : List Nat → Prop) (positive : 0 < blockSize)
    (occurs : ∀ client, Occurs (clients client).promptTokenIds)
    (collisionFree : CollisionFree cfg.blockHash blockSize Occurs) (calls : List Call) :
    (∃ session, (Session.new cfg numBlocks blockSize enablePrefixCache zero clients rng).after cfg calls = .ok session ∧
      PrefixCacheSound cfg Occurs session.engine) ∧
    ∀ machine, Reaches cfg { session := Session.new cfg numBlocks blockSize enablePrefixCache zero clients rng } machine →
      PrefixCacheSound cfg Occurs machine.engine := by
  have memory := Memory.new numBlocks enablePrefixCache zero rng positive
    fun _ client => nodup_hashChain collisionFree (occurs client)
  have sound := @Sound.new X V L S cfg Occurs numBlocks blockSize enablePrefixCache zero clients rng occurs
  have always : ∀ machine, Reaches cfg
      { session := Session.new cfg numBlocks blockSize enablePrefixCache zero clients rng } machine →
      PrefixCacheSound cfg Occurs machine.engine := by
    intro machine steps
    refine (sound.reaches memory collisionFree steps).cacheSound (memory.reaches steps) ?_
    rw [(memory.stock.sameShape_reaches steps).blockSize]
    exact collisionFree
  obtain ⟨last, ran, -, steps, -⟩ := run_steps memory.stock rfl calls
  exact ⟨⟨last.session, ran, always last steps⟩, always⟩

theorem prefix_cache_sound_competing :
    0 < 1 ∧ (∀ client, (competing 4 client).promptTokenIds ∈ [[1, 2, 3], [5]]) ∧
      CollisionFree counting.blockHash 1 (· ∈ [[1, 2, 3], [5]]) ∧
      (∃ session, (Session.new counting 6 1 true 0 (competing 4) ()).after counting (competition 6) = .ok session ∧
        PrefixCacheSound counting (· ∈ [[1, 2, 3], [5]]) session.engine) ∧
      ∀ machine, Reaches counting { session := Session.new counting 6 1 true 0 (competing 4) () } machine →
        PrefixCacheSound counting (· ∈ [[1, 2, 3], [5]]) machine.engine :=
  ⟨Nat.one_pos, mem_competing 4, collisionFree_competing,
    prefix_cache_sound counting 6 1 true 0 (competing 4) () (· ∈ [[1, 2, 3], [5]]) Nat.one_pos (mem_competing 4)
      collisionFree_competing (competition 6)⟩

end Nanoserve.Verified
